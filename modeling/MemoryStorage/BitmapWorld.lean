import MemoryStorage.BitmapStorage

/-!
# The storage with its background goroutines

`MustWarmer` starts `background`, a goroutine whose replication ticker calls `Replicate` while the
user's calls go on. Every `MustWarmer` that does not panic starts one, `MustWarmer(nil)` included,
and a nil `WarmCallback` does not stop a later `MustWarmer`. `Replicate` reads the bitmap under the
storage's read lock (`GetBytesFromBitmap`) and then writes through the replicator under the
replicator's lock; `Recover` reads through the replicator, then `Clear`s the storage, then reads the
bytes into it, each under its own lock. The user is one goroutine that makes one call at a time.
So a world (`BitmapWorld`) holds, beside the storage and its replicator, the step the user's call
is at (`Client`) and each background goroutine's (`Background`). An event (`BitmapEvent`) is the
user starting a call, the call in flight taking its next step, a goroutine's ticker firing, or a
goroutine storing what it read; an event that cannot happen now changes nothing. Every other call
holds one lock for its whole effect on the bitmap, and only the user's calls write the bitmap, so
each is one step (`Warm` reads `isEmpty` and calls the warmer before its locked `UpsertMany`, and
no other writer of the bitmap runs in between).

The world is generic in the replicator: `ReplicatorCalls` gives the requests `Replicate`, `Recover`
and `DropReplicationKey` make, each answered by the replicator's environment with an `α`.

What a world is for is `SpecWorld`: the set of keys, the warmer, and a replica of the keys seen
through `SnapshotCalls`, with the same steps on sets. When a replicator's requests refine snapshot
requests (`ReplicatorCalls.Refines`), every run of the world answers as the same run of its
`SpecWorld`, panics included (`BitmapWorld.run_toSpec`). For `BitmapFakeReplicator` the replica is
the last non-empty set stored (`fakeRefines`, `run_refines_snapshot`), and a call run with no
goroutine step inside it is the call of `BitmapSystem` (`BitmapWorld.run_call_eq_exec`).

A background replication stores the keys it read at its tick, whatever was replicated since: a
goroutine that ticked before an `UpsertMany` and the user's `Replicate` can store after them and
put the older keys back in the replica (`background_replicate_restores_older_keys`).
-/

namespace MemoryStorage

/-- The step the user's call is at, for the calls that take several locks in turn: `Replicate`
between `GetBytesFromBitmap` and the replicator's write; `Recover` between the replicator's read and
`storage.Clear()`, or between that and `storage.ReadFromBuffer`. -/
inductive Client (P : Type)
  | idle
  | replicating (bitmapBytes : P)
  | recovering (data : P)
  | cleared (data : P)

/-- A goroutine `background`: between replication ticks, or inside a tick's `Replicate` with the
bytes `GetBytesFromBitmap` returned. Its monitoring ticker only prints, and its optimizing ticker's
`RunOptimize` changes no key. -/
inductive Background (P : Type)
  | waiting
  | replicating (bitmapBytes : P)

namespace Client
variable {P Q : Type}

def map (f : P → Q) : Client P → Client Q
  | idle => idle
  | replicating p => replicating (f p)
  | recovering p => recovering (f p)
  | cleared p => cleared (f p)

/-- The bytes or keys the call holds. -/
def payload : Client P → Option P
  | idle => none
  | replicating p => some p
  | recovering p => some p
  | cleared p => some p

end Client

namespace Background
variable {P Q : Type}

def map (f : P → Q) : Background P → Background Q
  | waiting => waiting
  | replicating p => replicating (f p)

/-- The bytes or keys the goroutine holds. -/
def payload : Background P → Option P
  | waiting => none
  | replicating p => some p

end Background

/-- What happens next: the user starts a call, or the user's call in flight takes its next step;
goroutine `i`'s replication ticker fires, or goroutine `i` stores what it read. `a` answers the
request to the replicator the step makes, if it makes one. -/
inductive BitmapEvent (α : Type)
  | call (op : BitmapOp) (a : α)
  | resume (a : α)
  | tick (i : Nat)
  | store (i : Nat) (a : α)

/-- What `Replicate`, `Recover` and `DropReplicationKey` ask of a replicator of type `R`, each
request answered by its environment with an `α`: the error of `Replicate` on an empty bitmap; the
write of the bytes under the key with the TTL, after `GetBytesFromBitmap`; the read `Recover` makes
before it clears the storage (the bytes, or the error it returns leaving the storage alone); and
the delete. -/
structure ReplicatorCalls (R β α : Type) where
  emptyForReplicate : R → String
  write : R → α → String → List β → Duration → R × Option String
  read : R → α → String → Except String (List β)
  drop : R → α → String → R × Option String

/-- A storage, its replicator, and where the user's call and each background goroutine are. -/
structure BitmapWorld (R β : Type) where
  storage : RoaringBitmapStorage
  replicator : R
  client : Client (List β)
  goroutines : List (Background (List β))

namespace BitmapWorld
variable {R β α : Type} (codec : BitmapCodec β) (calls : ReplicatorCalls R β α)

/-- The user starts `op`: the calls that take one lock are done at once; `Replicate` and `Recover`
take their first step. `.error` is a panic. -/
def start (w : BitmapWorld R β) (a : α) :
    BitmapOp → Except String (BitmapWorld R β × Option BitmapReply)
  | .mustWarmer f => (w.storage.mustWarmer f).map fun s =>
      ({ w with storage := s, goroutines := w.goroutines ++ [.waiting] }, some .unit)
  | .contains k => .ok (w, some (.bool (w.storage.contains k)))
  | .upsertMany ks => .ok ({ w with storage := w.storage.upsertMany ks }, some .unit)
  | .removeMany ks => .ok ({ w with storage := w.storage.removeMany ks }, some .unit)
  | .getCount => .ok (w, some (.count w.storage.getCount))
  | .clear => .ok ({ w with storage := w.storage.clear }, some .unit)
  | .warm => w.storage.warm.map fun res => ({ w with storage := res.1 }, some (.err res.2))
  | .replicate =>
    match w.storage.getBytesFromBitmap codec with
    | none => .ok (w, some (.err (some (calls.emptyForReplicate w.replicator))))
    | some bitmapBytes => .ok ({ w with client := .replicating bitmapBytes }, none)
  | .recover =>
    match calls.read w.replicator a w.storage.configs.replicationKey with
    | .error e => .ok (w, some (.err (some e)))
    | .ok data => .ok ({ w with client := .recovering data }, none)
  | .dropReplicationKey =>
    let res := calls.drop w.replicator a w.storage.configs.replicationKey
    .ok ({ w with replicator := res.1 }, some (.err res.2))

/-- The next step of the user's call in flight. -/
def resume (w : BitmapWorld R β) (a : α) : BitmapWorld R β × Option BitmapReply :=
  match w.client with
  | .idle => (w, none)
  | .replicating bitmapBytes =>
    let res := calls.write w.replicator a w.storage.configs.replicationKey bitmapBytes
      w.storage.configs.replicationTtl
    ({ w with replicator := res.1, client := .idle }, some (.err res.2))
  | .recovering data => ({ w with storage := w.storage.clear, client := .cleared data }, none)
  | .cleared data =>
    let res := w.storage.readFromBuffer codec data
    ({ w with storage := res.1, client := .idle }, some (.err res.2.2))

/-- Goroutine `i`'s replication ticker fires and `Replicate` reads the bitmap; on an empty one it
returns its error, which the goroutine prints. -/
def tick (w : BitmapWorld R β) (i : Nat) : BitmapWorld R β :=
  match w.goroutines[i]? with
  | some .waiting =>
    match w.storage.getBytesFromBitmap codec with
    | none => w
    | some bitmapBytes => { w with goroutines := w.goroutines.set i (.replicating bitmapBytes) }
  | _ => w

/-- Goroutine `i` writes the bytes it read; an error is printed. -/
def write (w : BitmapWorld R β) (i : Nat) (a : α) : BitmapWorld R β :=
  match w.goroutines[i]? with
  | some (.replicating bitmapBytes) =>
    let res := calls.write w.replicator a w.storage.configs.replicationKey bitmapBytes
      w.storage.configs.replicationTtl
    { w with replicator := res.1, goroutines := w.goroutines.set i .waiting }
  | _ => w

/-- One event, with the answer to the user's call if it ends. A call while another is in flight
waits: it changes nothing. -/
def step (w : BitmapWorld R β) : BitmapEvent α → Except String (BitmapWorld R β × Option BitmapReply)
  | .call op a =>
    match w.client with
    | .idle => w.start codec calls a op
    | _ => .ok (w, none)
  | .resume a => .ok (w.resume codec calls a)
  | .tick i => .ok (w.tick codec i, none)
  | .store i a => .ok (w.write calls i a, none)

/-- A run of events: the world after them and the answers to the user's calls, or the first panic. -/
def run (w : BitmapWorld R β) : List (BitmapEvent α) → Except String (BitmapWorld R β × List BitmapReply)
  | [] => .ok (w, [])
  | e :: es => do
    let (w', r) ← w.step codec calls e
    let (w'', rs) ← run w' es
    return (w'', r.toList ++ rs)

end BitmapWorld

/-! ### What the world is for -/

/-- What a replica is for, seen from one storage: requests on a snapshot `S` of its keys, each
answered by the environment with an `α`. -/
structure SnapshotCalls (S α : Type) where
  emptyForReplicate : S → String
  put : S → α → Finset UInt64 → Duration → S × Option String
  get : S → α → Except String (Finset UInt64)
  del : S → α → S × Option String

/-- The keys, the warmer and the names; the replica; and the steps in flight, on sets. -/
structure SpecWorld (S : Type) where
  keys : Finset UInt64
  warmer : Warmer
  storageName : String
  replicationTtl : Duration
  replica : S
  client : Client (Finset UInt64)
  goroutines : List (Background (Finset UInt64))

namespace SpecWorld
variable {S α : Type} (spec : SnapshotCalls S α)

/-- The user starts `op`. -/
def start (w : SpecWorld S) (a : α) : BitmapOp → Except String (SpecWorld S × Option BitmapReply)
  | .mustWarmer f =>
    if w.warmer.warmCallback.isSome then
      .error ("[" ++ w.storageName ++ "] warmer function already set")
    else .ok ({ w with warmer := { w.warmer with warmCallback := f },
                       goroutines := w.goroutines ++ [.waiting] }, some .unit)
  | .contains k => .ok (w, some (.bool (decide (k ∈ w.keys))))
  | .upsertMany ks => .ok ({ w with keys := w.keys ∪ ks.toFinset }, some .unit)
  | .removeMany ks => .ok ({ w with keys := w.keys \ ks.toFinset }, some .unit)
  | .getCount => .ok (w, some (.count w.keys.card.toUInt64))
  | .clear => .ok ({ w with keys := ∅ }, some .unit)
  | .warm =>
    if w.keys = ∅ then
      match w.warmer.warmCallback with
      | none => .error nilDereference
      | some f =>
        match f w.warmer.batchSize with
        | .error e => .ok (w, some (.err (some e)))
        | .ok data => .ok ({ w with keys := data.toFinset }, some (.err none))
    else .ok (w, some (.err none))
  | .replicate =>
    if w.keys = ∅ then .ok (w, some (.err (some (spec.emptyForReplicate w.replica))))
    else .ok ({ w with client := .replicating w.keys }, none)
  | .recover =>
    match spec.get w.replica a with
    | .error e => .ok (w, some (.err (some e)))
    | .ok b => .ok ({ w with client := .recovering b }, none)
  | .dropReplicationKey =>
    let res := spec.del w.replica a
    .ok ({ w with replica := res.1 }, some (.err res.2))

/-- The next step of the user's call in flight: the snapshot is stored, or the keys are cleared,
or the keys become the snapshot read. -/
def resume (w : SpecWorld S) (a : α) : SpecWorld S × Option BitmapReply :=
  match w.client with
  | .idle => (w, none)
  | .replicating b =>
    let res := spec.put w.replica a b w.replicationTtl
    ({ w with replica := res.1, client := .idle }, some (.err res.2))
  | .recovering b => ({ w with keys := ∅, client := .cleared b }, none)
  | .cleared b => ({ w with keys := b, client := .idle }, some (.err none))

/-- A goroutine's tick reads the keys, unless there are none. -/
def tick (w : SpecWorld S) (i : Nat) : SpecWorld S :=
  match w.goroutines[i]? with
  | some .waiting =>
    if w.keys = ∅ then w else { w with goroutines := w.goroutines.set i (.replicating w.keys) }
  | _ => w

/-- A goroutine stores the keys it read. -/
def write (w : SpecWorld S) (i : Nat) (a : α) : SpecWorld S :=
  match w.goroutines[i]? with
  | some (.replicating b) =>
    { w with replica := (spec.put w.replica a b w.replicationTtl).1,
             goroutines := w.goroutines.set i .waiting }
  | _ => w

def step (w : SpecWorld S) : BitmapEvent α → Except String (SpecWorld S × Option BitmapReply)
  | .call op a =>
    match w.client with
    | .idle => w.start spec a op
    | _ => .ok (w, none)
  | .resume a => .ok (w.resume spec a)
  | .tick i => .ok (w.tick i, none)
  | .store i a => .ok (w.write spec i a, none)

def run (w : SpecWorld S) : List (BitmapEvent α) → Except String (SpecWorld S × List BitmapReply)
  | [] => .ok (w, [])
  | e :: es => do
    let (w', r) ← w.step spec e
    let (w'', rs) ← run w' es
    return (w'', r.toList ++ rs)

end SpecWorld

/-! ### The world refines what it is for -/

namespace BitmapCodec
variable {β : Type} (codec : BitmapCodec β)

/-- The keys some bytes read back as, none when `ReadFrom` rejects them. -/
def readBack (p : List β) : Finset UInt64 := (codec.decode p).getD ∅

/-- `p` is the serialisation of a non-empty bitmap. -/
def Serialised (p : List β) : Prop := ∃ b : Finset UInt64, b.Nonempty ∧ p = codec.toBytes b

@[simp] theorem readBack_toBytes (b : Finset UInt64) : codec.readBack (codec.toBytes b) = b := by
  simp [readBack]

end BitmapCodec

/-- A replicator's requests refine snapshot requests: through `absR`, which sees a replicator at a
key, on the replicators `good` admits at that key, every request answers as the snapshot request
and keeps `good`, and a read that succeeds returns a serialisation. -/
structure ReplicatorCalls.Refines {R β S α : Type} (codec : BitmapCodec β) (calls : ReplicatorCalls R β α)
    (spec : SnapshotCalls S α) (absR : String → R → S) (good : String → R → Prop) : Prop where
  emptyForReplicate : ∀ key r, spec.emptyForReplicate (absR key r) = calls.emptyForReplicate r
  write : ∀ key r a b ttl, good key r → b.Nonempty →
    good key (calls.write r a key (codec.toBytes b) ttl).1 ∧
      (absR key (calls.write r a key (codec.toBytes b) ttl).1, (calls.write r a key (codec.toBytes b) ttl).2) =
        spec.put (absR key r) a b ttl
  read : ∀ key r a, good key r →
    (calls.read r a key).map codec.readBack = spec.get (absR key r) a ∧
      ∀ data, calls.read r a key = .ok data → codec.Serialised data
  drop : ∀ key r a, good key r →
    good key (calls.drop r a key).1 ∧
      (absR key (calls.drop r a key).1, (calls.drop r a key).2) = spec.del (absR key r) a

namespace BitmapWorld
variable {R β S α : Type} {codec : BitmapCodec β} {calls : ReplicatorCalls R β α}
  {spec : SnapshotCalls S α} {absR : String → R → S} {good : String → R → Prop}

variable (codec absR) in
/-- What a world stands for: its keys, warmer and names, the replica at the storage's key, and each
payload in flight read back. -/
def toSpec (w : BitmapWorld R β) : SpecWorld S :=
  ⟨w.storage.bitmap, w.storage.warmer, w.storage.configs.storageName,
    w.storage.configs.replicationTtl, absR w.storage.configs.replicationKey w.replicator,
    w.client.map codec.readBack, w.goroutines.map (·.map codec.readBack)⟩

variable (codec good) in
/-- The replicator is one `good` admits at the storage's key, and every payload in flight is the
serialisation of a non-empty bitmap. -/
structure Inv (w : BitmapWorld R β) : Prop where
  replica : good w.storage.configs.replicationKey w.replicator
  client : ∀ p ∈ w.client.payload, codec.Serialised p
  goroutines : ∀ g ∈ w.goroutines, ∀ p ∈ g.payload, codec.Serialised p

/-- A step's result seen through `toSpec`. -/
@[simp] theorem toSpec_client (w : BitmapWorld R β) :
    (w.toSpec codec absR).client = w.client.map codec.readBack := rfl

abbrev toSpecRes (codec : BitmapCodec β) (absR : String → R → S)
    (res : BitmapWorld R β × Option BitmapReply) : SpecWorld S × Option BitmapReply :=
  (res.1.toSpec codec absR, res.2)

/-- A run's result seen through `toSpec`. -/
abbrev toSpecRes' (codec : BitmapCodec β) (absR : String → R → S)
    (res : BitmapWorld R β × List BitmapReply) : SpecWorld S × List BitmapReply :=
  (res.1.toSpec codec absR, res.2)

theorem Inv.setStorage {w : BitmapWorld R β} (h : w.Inv codec good) {s : RoaringBitmapStorage}
    (hs : s.configs = w.storage.configs) : ({ w with storage := s } : BitmapWorld R β).Inv codec good :=
  ⟨hs ▸ h.replica, h.client, h.goroutines⟩

/-- Setting one goroutine to a state whose payload, if any, is a serialisation keeps every
goroutine's payload a serialisation. -/
theorem serialised_set {gs : List (Background (List β))}
    (h : ∀ g ∈ gs, ∀ p ∈ g.payload, codec.Serialised p) {x : Background (List β)}
    (hx : ∀ p ∈ x.payload, codec.Serialised p) (i : Nat) :
    ∀ g ∈ gs.set i x, ∀ p ∈ g.payload, codec.Serialised p :=
  fun g hg => (List.mem_or_eq_of_mem_set hg).elim (h g) (· ▸ hx)

section Steps
variable {w : BitmapWorld R β}

theorem toSpec_tick (h : w.Inv codec good) (i : Nat) :
    (w.tick codec i).toSpec codec absR = (w.toSpec codec absR).tick i ∧ (w.tick codec i).Inv codec good := by
  unfold tick SpecWorld.tick
  simp only [toSpec, List.getElem?_map]
  rcases hg : w.goroutines[i]? with _ | _ | bytes
  · exact ⟨rfl, h⟩
  · rw [RoaringBitmapStorage.getBytesFromBitmap_eq]
    by_cases he : w.storage.bitmap = ∅
    · simp only [he, if_true, Option.map_some', Background.map]
      exact ⟨trivial, h⟩
    · simp only [he, if_false, Option.map_some', Background.map, List.map_set,
        BitmapCodec.readBack_toBytes]
      refine ⟨trivial, h.replica, h.client, serialised_set h.goroutines (fun p hp => ?_) i⟩
      cases hp
      exact ⟨_, Finset.nonempty_iff_ne_empty.2 he, rfl⟩
  · exact ⟨rfl, h⟩

variable (hc : calls.Refines codec spec absR good)
include hc

theorem toSpec_write (h : w.Inv codec good) (i : Nat) (a : α) :
    (w.write calls i a).toSpec codec absR = (w.toSpec codec absR).write spec i a ∧
      (w.write calls i a).Inv codec good := by
  unfold write SpecWorld.write
  simp only [toSpec, List.getElem?_map]
  rcases hg : w.goroutines[i]? with _ | _ | bytes
  · exact ⟨rfl, h⟩
  · exact ⟨rfl, h⟩
  · obtain ⟨b, hb, rfl⟩ := h.goroutines _ (List.getElem?_mem hg) _ rfl
    obtain ⟨hgood, heq⟩ := hc.write w.storage.configs.replicationKey w.replicator a b
      w.storage.configs.replicationTtl h.replica hb
    simp only [Option.map_some', Background.map, BitmapCodec.readBack_toBytes, List.map_set, ← heq]
    exact ⟨trivial, hgood, h.client, serialised_set h.goroutines (fun _ hp => (by cases hp)) i⟩

theorem toSpec_resume (h : w.Inv codec good) (a : α) :
    toSpecRes codec absR (w.resume codec calls a) = (w.toSpec codec absR).resume spec a ∧
      (w.resume codec calls a).1.Inv codec good := by
  unfold resume SpecWorld.resume
  rcases hcl : w.client with _ | bytes | data | data
  · simp only [toSpecRes, toSpec, hcl, Client.map]
    exact ⟨trivial, h⟩
  · obtain ⟨b, hb, rfl⟩ := h.client _ (by rw [hcl]; rfl)
    obtain ⟨hgood, heq⟩ := hc.write w.storage.configs.replicationKey w.replicator a b
      w.storage.configs.replicationTtl h.replica hb
    simp only [toSpecRes, toSpec, hcl, Client.map, BitmapCodec.readBack_toBytes, ← heq]
    exact ⟨trivial, hgood, fun _ hp => (nomatch hp), h.goroutines⟩
  · simp only [toSpecRes, toSpec, hcl, Client.map, RoaringBitmapStorage.clear_bitmap,
      RoaringBitmapStorage.clear_configs, RoaringBitmapStorage.clear_warmer]
    refine ⟨trivial, h.replica, fun p hp => h.client p ?_, h.goroutines⟩
    rw [hcl]; exact hp
  · obtain ⟨b, hb, rfl⟩ := h.client _ (by rw [hcl]; rfl)
    simp only [toSpecRes, toSpec, hcl, Client.map, BitmapCodec.readBack_toBytes,
      RoaringBitmapStorage.readFromBuffer_toBytes]
    exact ⟨trivial, h.replica, fun _ hp => (nomatch hp), h.goroutines⟩

theorem toSpec_start (h : w.Inv codec good) (a : α) (op : BitmapOp) :
    (w.start codec calls a op).map (toSpecRes codec absR) = (w.toSpec codec absR).start spec a op ∧
      ∀ res, w.start codec calls a op = .ok res → res.1.Inv codec good := by
  cases op with
  | mustWarmer f =>
    unfold start SpecWorld.start RoaringBitmapStorage.mustWarmer
    by_cases hw : w.storage.warmer.warmCallback.isSome
    · simp [toSpec, hw, Except.map]
    · simp only [toSpecRes, toSpec, hw, Bool.false_eq_true, if_false, Except.map, List.map_append,
        List.map_cons, List.map_nil, Background.map, Except.ok.injEq, forall_eq', true_and]
      refine ⟨h.replica, h.client, List.forall_mem_append.2 ⟨h.goroutines, ?_⟩⟩
      simp [Background.payload]
  | contains k => exact ⟨rfl, by rintro _ ⟨⟩; exact h⟩
  | upsertMany ks =>
    exact ⟨by simp [start, SpecWorld.start, toSpec, RoaringBitmapStorage.upsertMany, Except.map],
      by rintro _ ⟨⟩; exact h.setStorage rfl⟩
  | removeMany ks =>
    exact ⟨by simp [start, SpecWorld.start, toSpec, Except.map],
      by rintro _ ⟨⟩; exact h.setStorage rfl⟩
  | getCount => exact ⟨rfl, by rintro _ ⟨⟩; exact h⟩
  | clear =>
    exact ⟨by simp [start, SpecWorld.start, toSpec, RoaringBitmapStorage.clear, Except.map],
      by rintro _ ⟨⟩; exact h.setStorage rfl⟩
  | warm =>
    unfold start SpecWorld.start RoaringBitmapStorage.warm
    by_cases he : w.storage.bitmap = ∅
    · cases hw : w.storage.warmer.warmCallback with
      | none => simp [toSpec, he, hw, Except.map]
      | some f =>
        cases hf : f w.storage.warmer.batchSize <;>
          simp [toSpec, he, hw, hf, Except.map, RoaringBitmapStorage.upsertMany] <;>
          first | exact h | exact h.setStorage rfl
    · simp [toSpec, he, Except.map]
      exact h
  | replicate =>
    unfold start SpecWorld.start
    rw [RoaringBitmapStorage.getBytesFromBitmap_eq]
    by_cases he : w.storage.bitmap = ∅
    · simp [toSpec, he, Except.map, hc.emptyForReplicate]
      exact h
    · simp [toSpec, he, Except.map, Client.map]
      exact ⟨h.replica, fun p hp => (by cases hp; exact ⟨_, Finset.nonempty_iff_ne_empty.2 he, rfl⟩),
        h.goroutines⟩
  | recover =>
    obtain ⟨hread, hser⟩ := hc.read w.storage.configs.replicationKey w.replicator a h.replica
    unfold start SpecWorld.start
    simp only [toSpec] at hread ⊢
    rw [← hread]
    cases hr : calls.read w.replicator a w.storage.configs.replicationKey with
    | error e => exact ⟨rfl, by rintro _ ⟨⟩; exact h⟩
    | ok data =>
      refine ⟨rfl, ?_⟩
      rintro _ ⟨⟩
      exact ⟨h.replica, fun p hp => (by cases hp; exact hser data hr), h.goroutines⟩
  | dropReplicationKey =>
    obtain ⟨hgood, heq⟩ := hc.drop w.storage.configs.replicationKey w.replicator a h.replica
    simp only [start, SpecWorld.start, toSpec, ← heq, Except.map]
    exact ⟨rfl, by rintro _ ⟨⟩; exact ⟨hgood, h.client, h.goroutines⟩⟩

/-- One event on the world is the same event on what it stands for, and keeps the invariant. -/
theorem toSpec_step (h : w.Inv codec good) (e : BitmapEvent α) :
    (w.step codec calls e).map (toSpecRes codec absR) = (w.toSpec codec absR).step spec e ∧
      ∀ res, w.step codec calls e = .ok res → res.1.Inv codec good := by
  cases e with
  | call op a =>
    unfold step SpecWorld.step
    rw [toSpec_client]
    rcases hcl : w.client with _ | _ | _ | _
    · exact toSpec_start hc h a op
    all_goals exact ⟨rfl, by rintro _ ⟨⟩; exact h⟩
  | resume a =>
    obtain ⟨hs, hinv⟩ := toSpec_resume hc h a
    exact ⟨congrArg Except.ok hs, by rintro _ ⟨⟩; exact hinv⟩
  | tick i =>
    obtain ⟨hs, hinv⟩ : (w.tick codec i).toSpec codec absR = _ ∧ _ := toSpec_tick h i
    exact ⟨by simp only [step, SpecWorld.step, Except.map, ← hs], by rintro _ ⟨⟩; exact hinv⟩
  | store i a =>
    obtain ⟨hs, hinv⟩ := toSpec_write hc h i a
    exact ⟨by simp only [step, SpecWorld.step, Except.map, ← hs], by rintro _ ⟨⟩; exact hinv⟩

/-- Every run of the world answers as the same run of what it stands for, panics included, and
keeps the invariant. -/
theorem run_toSpec (h : w.Inv codec good) (es : List (BitmapEvent α)) :
    (w.run codec calls es).map (toSpecRes' codec absR) = (w.toSpec codec absR).run spec es ∧
      ∀ res, w.run codec calls es = .ok res → res.1.Inv codec good := by
  induction es generalizing w with
  | nil => exact ⟨rfl, by rintro _ ⟨⟩; exact h⟩
  | cons e es ih =>
    obtain ⟨hs, hinv⟩ := toSpec_step hc h e
    simp only [run, SpecWorld.run, ← hs]
    rcases hst : w.step codec calls e with err | ⟨w', r⟩
    · exact ⟨rfl, by rintro _ ⟨⟩⟩
    · obtain ⟨hr, hrinv⟩ := ih (hinv _ hst)
      simp only [Except.map, bind, Except.bind, ← hr]
      rcases hrun : w'.run codec calls es with err | ⟨w'', rs⟩
      · exact ⟨rfl, by rintro _ ⟨⟩⟩
      · exact ⟨rfl, by rintro _ ⟨⟩; exact hrinv (w'', rs) hrun⟩

end Steps

end BitmapWorld

/-! ### The fake replicator -/

namespace BitmapFakeReplicator
variable {β : Type} (codec : BitmapCodec β)

/-- The requests of `BitmapFakeReplicator`; nothing outside it answers them. -/
def fakeCalls : ReplicatorCalls (BitmapFakeReplicator β) β Unit where
  emptyForReplicate r := r.emptyForReplicate
  write r _ replicationKey bitmapBytes _ := (r.storeBytes replicationKey bitmapBytes, none)
  read r _ replicationKey := r.readStore replicationKey
  drop r _ replicationKey := (r.dropReplicationKey replicationKey, none)

/-- What the fake replicator stands for at one key: the bitmap stored there, and the names its
errors quote. -/
structure FakeSnapshot where
  snapshot : Option (Finset UInt64)
  forStorage : String
  replicationKey : String

/-- The last non-empty set stored: `Replicate` of an empty set fails, and `Recover` fails when
nothing is stored. -/
def FakeSnapshot.calls : SnapshotCalls FakeSnapshot Unit where
  emptyForReplicate s := "[" ++ s.forStorage ++ "] bitmap is empty for replicate"
  put s _ b _ := ({ s with snapshot := some b }, none)
  get s _ :=
    match s.snapshot with
    | none => .error ("[" ++ s.forStorage ++ "] no data found for replication key: " ++ s.replicationKey)
    | some b => .ok b
  del s _ := ({ s with snapshot := none }, none)

/-- The fake replicator seen at a key. -/
def toSnapshot (replicationKey : String) (r : BitmapFakeReplicator β) : FakeSnapshot :=
  ⟨(r.store replicationKey).bind codec.decode, r.forStorage, replicationKey⟩

/-- What the fake replicator holds at a key, if anything, is the serialisation of a non-empty
bitmap. -/
def Good (replicationKey : String) (r : BitmapFakeReplicator β) : Prop :=
  ∀ data, r.store replicationKey = some data → codec.Serialised data

theorem fakeRefines : fakeCalls.Refines codec FakeSnapshot.calls (toSnapshot codec) (Good codec) where
  emptyForReplicate _ _ := rfl
  write key r _ b _ _ hb :=
    ⟨fun data hd => by
      simp only [fakeCalls, storeBytes, Function.update_same, Option.some.injEq] at hd
      exact ⟨b, hb, hd.symm⟩,
    by simp [fakeCalls, FakeSnapshot.calls, toSnapshot, storeBytes]⟩
  read key r _ hg := by
    refine ⟨?_, fun data hd => hg data ?_⟩
    · simp only [fakeCalls, FakeSnapshot.calls, toSnapshot, readStore]
      rcases hs : r.store key with _ | data
      · rfl
      · obtain ⟨b, hb, rfl⟩ := hg _ hs
        simp [codec.toBytes_ne_nil b hb, Except.map]
    · simp only [fakeCalls, readStore] at hd
      split at hd
      · split at hd
        · cases hd
        · cases hd; assumption
      · cases hd
  drop key r _ _ :=
    ⟨fun data hd => by simp [fakeCalls, dropReplicationKey] at hd,
      by simp [fakeCalls, FakeSnapshot.calls, toSnapshot, dropReplicationKey]⟩

end BitmapFakeReplicator

namespace BitmapWorld
open BitmapFakeReplicator
variable {β : Type} {codec : BitmapCodec β}

/-- A storage with a `BitmapFakeReplicator` and its goroutines answers every run as its set-level
world does, panics included, from any world where the replicator holds under the storage's key
nothing or the serialisation of a non-empty bitmap, and every payload in flight is one. The
replica is the last non-empty set stored, by the user's `Replicate` or by a goroutine's. -/
theorem run_refines_snapshot (w : BitmapWorld (BitmapFakeReplicator β) β) (h : w.Inv codec (Good codec))
    (es : List (BitmapEvent Unit)) :
    (w.run codec fakeCalls es).map (toSpecRes' codec (toSnapshot codec)) =
        (w.toSpec codec (toSnapshot codec)).run FakeSnapshot.calls es ∧
      ∀ res, w.run codec fakeCalls es = .ok res → res.1.Inv codec (Good codec) :=
  run_toSpec (fakeRefines codec) h es

/-- A fresh storage `ids` with a fresh fake replicator. -/
def idsWorld : BitmapWorld (BitmapFakeReplicator Nat) Nat :=
  ⟨⟨⟨"ids", "ids_key", 0⟩, ∅, ⟨none, 300⟩⟩, newBitmapFakeReplicator "ids", .idle, []⟩

/-- `MustWarmer(nil)` starts goroutine 0; the keys `1, 2` are added and the goroutine's ticker
reads them; `1` is removed and the user's `Replicate` stores `{2}`; then the goroutine stores what
it read. -/
def staleEvents : List (BitmapEvent Unit) :=
  [.call (.mustWarmer none) (), .call (.upsertMany [1, 2]) (), .tick 0, .call (.removeMany [1]) (),
    .call .replicate (), .resume (), .store 0 ()]

theorem run_refines_snapshot_stale :
    idsWorld.Inv sortedCodec (Good sortedCodec) ∧
      ((idsWorld.run sortedCodec fakeCalls staleEvents).map (toSpecRes' sortedCodec (toSnapshot sortedCodec)) =
          (idsWorld.toSpec sortedCodec (toSnapshot sortedCodec)).run FakeSnapshot.calls staleEvents ∧
        ∀ res, idsWorld.run sortedCodec fakeCalls staleEvents = .ok res →
          res.1.Inv sortedCodec (Good sortedCodec)) :=
  have h : idsWorld.Inv sortedCodec (Good sortedCodec) :=
    ⟨fun _ hd => (by cases hd), fun _ hp => (by cases hp), fun _ hg => (by cases hg)⟩
  ⟨h, run_refines_snapshot idsWorld h staleEvents⟩

-- `MustWarmer(nil)` leaves the callback nil: a second `MustWarmer` does not panic, and each starts a
-- goroutine.
example : (idsWorld.run sortedCodec fakeCalls [.call (.mustWarmer none) (), .call (.mustWarmer none) ()]).map
    (fun res => (res.1.goroutines.length, res.2)) = .ok (2, [.unit, .unit]) := rfl

/-- A goroutine stores the keys its tick read, whatever was replicated since: when its tick falls
before an `UpsertMany`, and the user's `Replicate` stores the keys after it, the goroutine's write
puts the older keys back in the replica. -/
theorem background_replicate_restores_older_keys (w : BitmapWorld (BitmapFakeReplicator β) β)
    (hidle : w.client = .idle) {i : Nat} (hi : w.goroutines[i]? = some .waiting)
    (hb : w.storage.bitmap ≠ ∅) (ks : List UInt64) :
    (w.run codec fakeCalls [.tick i, .call (.upsertMany ks) (), .call .replicate (), .resume (),
        .store i ()]).map (fun res => (res.1.storage.bitmap,
          (toSnapshot codec res.1.storage.configs.replicationKey res.1.replicator).snapshot)) =
      .ok (w.storage.bitmap ∪ ks.toFinset, some w.storage.bitmap) := by
  have hb' : w.storage.bitmap ∪ ks.toFinset ≠ ∅ := fun h => hb (Finset.union_eq_empty.1 h).1
  simp [run, step, start, resume, tick, write, hidle, hi, hb, hb', List.getElem?_set_self', RoaringBitmapStorage.getBytesFromBitmap_eq,
    RoaringBitmapStorage.upsertMany, fakeCalls, toSnapshot, storeBytes, Except.map, bind, Except.bind, pure, Except.pure]

/-- With no goroutine step inside it, a call on the world is the call of `BitmapSystem`:
`Replicate` takes one more step and `Recover` two, and a step after the call has ended changes
nothing. -/
theorem run_call_eq_exec (w : BitmapWorld (BitmapFakeReplicator β) β) (hidle : w.client = .idle)
    (op : BitmapOp) :
    (w.run codec fakeCalls [.call op (), .resume (), .resume ()]).map
        (fun res => ((⟨res.1.storage, res.1.replicator⟩ : BitmapSystem β), res.2)) =
      ((⟨w.storage, w.replicator⟩ : BitmapSystem β).exec codec op).map fun res => (res.1, [res.2]) := by
  cases op with
  | mustWarmer f =>
    cases hm : w.storage.mustWarmer f <;>
      simp [run, step, start, resume, hidle, BitmapSystem.exec, Except.map, bind, Except.bind, pure, Except.pure, hm]
  | warm =>
    cases hm : w.storage.warm <;>
      simp [run, step, start, resume, hidle, BitmapSystem.exec, Except.map, bind, Except.bind, pure, Except.pure, hm]
  | replicate =>
    cases hb : w.storage.getBytesFromBitmap codec <;>
      simp [run, step, start, resume, hidle, BitmapSystem.exec, Except.map, bind, Except.bind, pure, Except.pure, hb, replicate, fakeCalls]
  | recover =>
    cases hr : w.replicator.readStore w.storage.configs.replicationKey <;>
      simp [run, step, start, resume, hidle, BitmapSystem.exec, Except.map, bind, Except.bind, pure, Except.pure, hr, recover, fakeCalls]
  | _ => simp [run, step, start, resume, hidle, BitmapSystem.exec, Except.map, bind, Except.bind, pure, Except.pure, fakeCalls]


end BitmapWorld

end MemoryStorage
