import MemoryStorage.BitmapRedis
import MemoryStorage.BitmapWorld

/-!
# The storage with its Redis replicator, over time

`roaringBitmapStorage` built with `BitmapRedisReplicator`: every request the storage makes to
Redis reaches it at some instant and is answered with an error or not.

* A call at a time (`BitmapRedisSystem.exec`), each request of the call at one instant with one
  answer: a call touches only the storage, and under the storage's key only, what Redis holds
  becomes nothing or the serialisation of a non-empty bitmap (`BitmapRedisSystem.exec_frame`); two
  systems that look the same to a call answer it alike (`BitmapRedisSystem.run_view_congr`). This
  is the call of `BitmapWorld` with no goroutine step inside it
  (`BitmapRedisSystem.run_call_eq_exec`).
* With its goroutines (`BitmapWorld` over `redisCalls`), the replica is a set with an expiry time
  (`RedisSnapshot`): a request Redis fails changes nothing and returns Redis's error, `SET` stores
  the set with go-redis's expiry, `GET` of a set that is missing or has expired at the request's
  instant answers `redis: nil`, and `DEL` drops it (`redisRefines`). While what Redis holds under
  the storage's key and every payload in flight is the serialisation of a non-empty bitmap, every
  run, whatever the instants and Redis's answers, answers as the same run of that set-level world
  (`BitmapWorld.run_refines_redis`).
-/

namespace MemoryStorage

/-- The calls that go through the replicator. -/
def BitmapOp.callsReplicator : BitmapOp → Bool
  | .replicate | .recover | .dropReplicationKey => true
  | _ => false

/-- Consing an answer onto a run's answers commutes with mapping its final state. -/
theorem map_replies_cons {α γ δ : Type} (x : Except String (α × List δ)) (g : α → γ) (r : δ) :
    (x.map fun p => (p.1, r :: p.2)).map (fun p => (g p.1, p.2)) =
      (x.map fun p => (g p.1, p.2)).map fun p => (p.1, r :: p.2) := by
  cases x <;> rfl

/-! ### The system -/

/-- A storage and the Redis replicator it was built with. -/
structure BitmapRedisSystem (β : Type) where
  storage : RoaringBitmapStorage
  replicator : BitmapRedisReplicator β

/-- A call made at `now`, where Redis answers the request the call makes with `err`. -/
structure TimedOp where
  now : Int
  err : Option String
  op : BitmapOp

namespace BitmapRedisSystem
variable {β : Type} (codec : BitmapCodec β)

/-- One call on the storage at `now`; `.error` is a panic. `Replicate` passes the configured
`ReplicationTtl` to the replicator. -/
def exec (sys : BitmapRedisSystem β) (now : Int) (err : Option String) :
    BitmapOp → Except String (BitmapRedisSystem β × BitmapReply)
  | .mustWarmer f => (sys.storage.mustWarmer f).map fun s => ({ sys with storage := s }, .unit)
  | .contains k => .ok (sys, .bool (sys.storage.contains k))
  | .upsertMany ks => .ok ({ sys with storage := sys.storage.upsertMany ks }, .unit)
  | .removeMany ks => .ok ({ sys with storage := sys.storage.removeMany ks }, .unit)
  | .getCount => .ok (sys, .count sys.storage.getCount)
  | .clear => .ok ({ sys with storage := sys.storage.clear }, .unit)
  | .warm => sys.storage.warm.map fun res => ({ sys with storage := res.1 }, .err res.2)
  | .replicate =>
    let res := sys.replicator.replicate codec now err sys.storage
      sys.storage.configs.replicationKey sys.storage.configs.replicationTtl
    .ok ({ sys with replicator := res.1 }, .err res.2)
  | .recover =>
    let res := sys.replicator.recover codec now err sys.storage sys.storage.configs.replicationKey
    .ok ({ sys with storage := res.1 }, .err res.2)
  | .dropReplicationKey =>
    let res := sys.replicator.dropReplicationKey err sys.storage.configs.replicationKey
    .ok ({ sys with replicator := res.1 }, .err res.2)

/-- A run of timed calls: the system after them and their answers, or the first panic. -/
def run (sys : BitmapRedisSystem β) :
    List TimedOp → Except String (BitmapRedisSystem β × List BitmapReply)
  | [] => .ok (sys, [])
  | o :: os => do
    let (sys', r) ← sys.exec codec o.now o.err o.op
    let (sys'', rs) ← run sys' os
    return (sys'', r :: rs)

section Steps
variable {codec} {sys : BitmapRedisSystem β} {now : Int} {err : Option String} {op : BitmapOp}

theorem run_cons_of_ok {o : TimedOp} {os : List TimedOp} {sys' : BitmapRedisSystem β}
    {r : BitmapReply} (h : sys.exec codec o.now o.err o.op = .ok (sys', r)) :
    sys.run codec (o :: os) = (sys'.run codec os).map fun p => (p.1, r :: p.2) := by
  simp only [run, h, bind, Except.bind, pure, Except.pure]
  cases sys'.run codec os <;> rfl

theorem run_cons_of_error {o : TimedOp} {os : List TimedOp} {m : String}
    (h : sys.exec codec o.now o.err o.op = .error m) : sys.run codec (o :: os) = .error m := by
  simp only [run, h, bind, Except.bind]

/-- A call that leaves Redis alone keeps the replicator and the storage's configuration. -/
theorem exec_local (hop : op.callsReplicator = false) (res : BitmapRedisSystem β × BitmapReply)
    (hres : sys.exec codec now err op = .ok res) :
    res.1.replicator = sys.replicator ∧ res.1.storage.configs = sys.storage.configs := by
  cases op with
  | mustWarmer f =>
    simp only [exec, RoaringBitmapStorage.mustWarmer] at hres
    split_ifs at hres <;> simp only [Except.map, Except.ok.injEq, reduceCtorEq] at hres
    subst hres; exact ⟨rfl, rfl⟩
  | warm =>
    simp only [exec, RoaringBitmapStorage.warm] at hres
    split_ifs at hres
    · cases hw : sys.storage.warmer.warmCallback with
      | none => simp [hw, Except.map] at hres
      | some f =>
        cases hf : f sys.storage.warmer.batchSize <;>
          simp [hw, hf, Except.map, RoaringBitmapStorage.upsertMany] at hres <;>
          subst hres <;> exact ⟨rfl, rfl⟩
    · cases hres; exact ⟨rfl, rfl⟩
  | replicate | recover | dropReplicationKey => cases hop
  | _ => simp only [exec, Except.ok.injEq] at hres; subst hres; exact ⟨rfl, rfl⟩

/-- What a call can do: it keeps the storage's configuration and the replicator's name, and under
each key Redis holds what it held, or, under the storage's key only, nothing or the serialisation
of a non-empty bitmap. -/
theorem exec_frame {res : BitmapRedisSystem β × BitmapReply}
    (hres : sys.exec codec now err op = .ok res) :
    res.1.storage.configs = sys.storage.configs ∧
      res.1.replicator.forStorage = sys.replicator.forStorage ∧
      ∀ k, res.1.replicator.redis k = sys.replicator.redis k ∨
        k = sys.storage.configs.replicationKey ∧ (res.1.replicator.redis k = none ∨
          ∃ b : Finset UInt64, b.Nonempty ∧ ∃ e, res.1.replicator.redis k = some (codec.toBytes b, e)) := by
  cases hop : op.callsReplicator with
  | false =>
    obtain ⟨hr, hc⟩ := exec_local hop res hres
    exact ⟨hc, by rw [hr], fun _ => .inl (by rw [hr])⟩
  | true =>
    cases op <;> simp only [BitmapOp.callsReplicator, Bool.false_eq_true] at hop <;>
      simp only [BitmapRedisSystem.exec, Except.ok.injEq] at hres <;> subst hres
    · refine ⟨rfl, ?_, fun k => ?_⟩ <;>
        simp only [BitmapRedisReplicator.replicate, BitmapRedisReplicator.writeBytesToDump]
      · cases sys.storage.getBytesFromBitmap codec <;> cases err <;> rfl
      · cases hb : sys.storage.getBytesFromBitmap codec with
        | none => exact .inl rfl
        | some bytes =>
          cases err with
          | some e => exact .inl rfl
          | none =>
            by_cases hk : k = sys.storage.configs.replicationKey
            · subst hk
              simp only [RoaringBitmapStorage.getBytesFromBitmap, RoaringBitmapStorage.isEmpty_eq,
                decide_eq_true_eq] at hb
              split_ifs at hb with he
              exact .inr ⟨rfl, .inr ⟨_, Finset.nonempty_iff_ne_empty.2 he,
                (setExpiration sys.storage.configs.replicationTtl).expiry now
                  (keptExpiry now (sys.replicator.redis sys.storage.configs.replicationKey)),
                by simp [setValue, ← Option.some.inj hb]⟩⟩
            · exact .inl (by simp [Function.update_noteq hk])
    · exact ⟨by simp [BitmapRedisReplicator.recover]; split <;> simp, rfl, fun _ => .inl rfl⟩
    · refine ⟨rfl, by cases err <;> rfl, fun k => ?_⟩
      cases err with
      | some e => exact .inl rfl
      | none =>
        by_cases hk : k = sys.storage.configs.replicationKey
        · exact .inr ⟨hk, .inl (by simp [BitmapRedisReplicator.dropReplicationKey, hk])⟩
        · exact .inl (by simp [BitmapRedisReplicator.dropReplicationKey, Function.update_noteq hk])

end Steps

/-! ### What a call touches -/

/-- What a call of a storage whose replication key is `key` sees of the system, and all it may
change: the storage, the replicator's name, and what Redis holds under `key`. -/
def view (key : String) (sys : BitmapRedisSystem β) :
    RoaringBitmapStorage × String × Option (List β × Option Int) :=
  (sys.storage, sys.replicator.forStorage, sys.replicator.redis key)

section Frame
variable {codec} {sys sys' : BitmapRedisSystem β} {now : Int} {err : Option String}
  {op : BitmapOp}

/-- A call gives the same answer, and leaves the same view, from any two systems that look the
same to it. -/
theorem exec_view_congr (h : sys'.view sys.storage.configs.replicationKey =
      sys.view sys.storage.configs.replicationKey) :
    (sys'.exec codec now err op).map
        (fun res => (res.1.view sys.storage.configs.replicationKey, res.2)) =
      (sys.exec codec now err op).map
        (fun res => (res.1.view sys.storage.configs.replicationKey, res.2)) := by
  obtain ⟨s, r⟩ := sys
  obtain ⟨s', r'⟩ := sys'
  simp only [view, Prod.mk.injEq] at h
  obtain ⟨rfl, hf, hk⟩ := h
  cases op with
  | mustWarmer f =>
    simp only [exec, RoaringBitmapStorage.mustWarmer]
    split_ifs <;> simp [Except.map, view, hf, hk]
  | warm =>
    simp only [exec]
    cases s'.warm <;> simp [Except.map, view, hf, hk]
  | replicate =>
    simp only [exec, Except.map, view, BitmapRedisReplicator.replicate,
      BitmapRedisReplicator.emptyForReplicate]
    cases s'.getBytesFromBitmap codec <;> cases err <;>
      simp [BitmapRedisReplicator.writeBytesToDump, hf, hk]
  | recover =>
    simp [exec, Except.map, view, BitmapRedisReplicator.recover,
      BitmapRedisReplicator.readBytesFromDump, BitmapRedisReplicator.live, hf, hk]
  | dropReplicationKey =>
    cases err <;> simp [exec, Except.map, view, BitmapRedisReplicator.dropReplicationKey, hf, hk]
  | _ => simp [exec, Except.map, view, hf, hk]

/-- The same for whole runs. -/
theorem run_view_congr (os : List TimedOp) {key : String}
    (hkey : sys.storage.configs.replicationKey = key) (h : sys'.view key = sys.view key) :
    (sys'.run codec os).map (fun res => (res.1.view key, res.2)) =
      (sys.run codec os).map (fun res => (res.1.view key, res.2)) := by
  induction os generalizing sys sys' with
  | nil => simp only [run, Except.map, h]
  | cons o os ih =>
    have hstep : (sys'.exec codec o.now o.err o.op).map (fun res => (res.1.view key, res.2)) =
        (sys.exec codec o.now o.err o.op).map (fun res => (res.1.view key, res.2)) := by
      subst hkey; exact exec_view_congr h
    cases hx : sys.exec codec o.now o.err o.op with
    | error m =>
      cases hx' : sys'.exec codec o.now o.err o.op with
      | error m' =>
        rw [hx, hx'] at hstep
        cases hstep
        rw [run_cons_of_error hx, run_cons_of_error hx']
      | ok _ => rw [hx, hx'] at hstep; cases hstep
    | ok res =>
      cases hx' : sys'.exec codec o.now o.err o.op with
      | error m' => rw [hx, hx'] at hstep; cases hstep
      | ok res' =>
        rw [hx, hx'] at hstep
        obtain ⟨s₁, r⟩ := res
        obtain ⟨s₁', r'⟩ := res'
        simp only [Except.map, Except.ok.injEq, Prod.mk.injEq] at hstep
        obtain ⟨hv, rfl⟩ := hstep
        rw [run_cons_of_ok hx, run_cons_of_ok hx', map_replies_cons, map_replies_cons,
          ih ((exec_frame hx).1 ▸ hkey) hv]

end Frame

end BitmapRedisSystem

/-! ### The storage, its goroutines and Redis -/

namespace BitmapRedisReplicator
variable {β : Type} (codec : BitmapCodec β)

/-- The requests of `BitmapRedisReplicator`, each answered with the instant it reaches Redis and
Redis's error. -/
def redisCalls : ReplicatorCalls (BitmapRedisReplicator β) β (Int × Option String) where
  emptyForReplicate r := r.emptyForReplicate
  write r a versionKey bytes ttl := r.writeBytesToDump a.1 a.2 versionKey bytes ttl
  read r a versionKey := r.readBytesFromDump a.1 a.2 versionKey
  drop r a replicationKey := r.dropReplicationKey a.2 replicationKey

/-- What Redis holds under one key, as keys: the set stored there with its expiry time, and the
name the errors quote. -/
structure RedisSnapshot where
  snapshot : Option (Finset UInt64 × Option Int)
  forStorage : String

/-- Requests on the snapshot: an error from Redis changes nothing; `SET` stores the set with
go-redis's expiry; `GET` of a set that is missing or has expired answers `redis: nil`; `DEL` drops
it. -/
def RedisSnapshot.calls : SnapshotCalls RedisSnapshot (Int × Option String) where
  emptyForReplicate s := "[" ++ s.forStorage ++ "] bitmap is empty for replicate"
  put s a b ttl :=
    match a.2 with
    | some e => (s, some e)
    | none => ({ s with snapshot := setValue a.1 ttl s.snapshot b }, none)
  get s a :=
    match a.2 with
    | some e => .error e
    | none =>
      match liveAt a.1 s.snapshot with
      | some b => .ok b
      | none => .error redisNil
  del s a :=
    match a.2 with
    | some e => (s, some e)
    | none => ({ s with snapshot := none }, none)

/-- The replicator seen at a key: what Redis holds there, read back as keys. -/
def toRedisSnapshot (replicationKey : String) (r : BitmapRedisReplicator β) : RedisSnapshot :=
  ⟨(r.redis replicationKey).map (Prod.map codec.readBack id), r.forStorage⟩

/-- Expired or not, what Redis holds at a key is the serialisation of a non-empty bitmap. -/
def Good (replicationKey : String) (r : BitmapRedisReplicator β) : Prop :=
  ∀ data expiry, r.redis replicationKey = some (data, expiry) → codec.Serialised data

theorem redisRefines :
    redisCalls.Refines codec RedisSnapshot.calls (toRedisSnapshot codec) (Good codec) where
  emptyForReplicate _ _ := rfl
  write key r a b ttl hg hb := by
    rcases a with ⟨now, _ | e⟩
    · refine ⟨fun data expiry hd => ?_, ?_⟩
      · simp only [redisCalls, writeBytesToDump, setValue, Function.update_same,
          Option.some.injEq, Prod.mk.injEq] at hd
        exact ⟨b, hb, hd.1.symm⟩
      · simp [redisCalls, writeBytesToDump, RedisSnapshot.calls, toRedisSnapshot, setValue_map]
    · exact ⟨hg, rfl⟩
  read key r a hg := by
    rcases a with ⟨now, _ | e⟩
    · refine ⟨?_, fun data hd => ?_⟩
      · simp only [redisCalls, readBytesFromDump, RedisSnapshot.calls, toRedisSnapshot, live,
          liveAt_map]
        cases liveAt now (r.redis key) <;> rfl
      · simp only [redisCalls, readBytesFromDump] at hd
        split at hd
        · cases hd
          obtain ⟨e, he⟩ := r.live_eq_some ‹_›
          exact hg _ e he
        · cases hd
    · exact ⟨rfl, fun _ hd => nomatch hd⟩
  drop key r a hg := by
    rcases a with ⟨now, _ | e⟩
    · exact ⟨fun _ _ hd => by simp [redisCalls, dropReplicationKey] at hd,
        by simp [redisCalls, dropReplicationKey, RedisSnapshot.calls, toRedisSnapshot]⟩
    · exact ⟨hg, rfl⟩

end BitmapRedisReplicator

namespace BitmapRedisSystem
open BitmapRedisReplicator
variable {β : Type} {codec : BitmapCodec β}

/-- With no goroutine step inside it, a call on the world, each of its requests made at `now` and
answered with `err`, is the call of `BitmapRedisSystem`. -/
theorem run_call_eq_exec (w : BitmapWorld (BitmapRedisReplicator β) β) (hidle : w.client = .idle)
    (now : Int) (err : Option String) (op : BitmapOp) :
    (w.run codec redisCalls [.call op (now, err), .resume (now, err), .resume (now, err)]).map
        (fun res => ((⟨res.1.storage, res.1.replicator⟩ : BitmapRedisSystem β), res.2)) =
      ((⟨w.storage, w.replicator⟩ : BitmapRedisSystem β).exec codec now err op).map
        fun res => (res.1, [res.2]) := by
  cases op with
  | mustWarmer f =>
    cases hm : w.storage.mustWarmer f <;>
      simp [BitmapWorld.run, BitmapWorld.step, BitmapWorld.start, BitmapWorld.resume, hidle, exec,
        Except.map, bind, Except.bind, pure, Except.pure, hm]
  | warm =>
    cases hm : w.storage.warm <;>
      simp [BitmapWorld.run, BitmapWorld.step, BitmapWorld.start, BitmapWorld.resume, hidle, exec,
        Except.map, bind, Except.bind, pure, Except.pure, hm]
  | replicate =>
    cases hb : w.storage.getBytesFromBitmap codec <;>
      simp [BitmapWorld.run, BitmapWorld.step, BitmapWorld.start, BitmapWorld.resume, hidle, exec,
        Except.map, bind, Except.bind, pure, Except.pure, hb, replicate, redisCalls]
  | recover =>
    cases hr : w.replicator.readBytesFromDump now err w.storage.configs.replicationKey <;>
      simp [BitmapWorld.run, BitmapWorld.step, BitmapWorld.start, BitmapWorld.resume, hidle, exec,
        Except.map, bind, Except.bind, pure, Except.pure, hr, recover, redisCalls]
  | _ =>
    simp [BitmapWorld.run, BitmapWorld.step, BitmapWorld.start, BitmapWorld.resume, hidle, exec,
      Except.map, bind, Except.bind, pure, Except.pure, redisCalls]

end BitmapRedisSystem

namespace BitmapWorld
open BitmapRedisReplicator
variable {β : Type} {codec : BitmapCodec β}

/-- A storage with its replica in Redis and its goroutines answers every run as its set-level world
does, panics included, whatever the instants at which its requests reach Redis and whatever Redis
answers them, from any world where what Redis holds under the storage's key, expired or not, and
every payload in flight is the serialisation of a non-empty bitmap. In that world a request Redis
fails returns Redis's error and changes nothing, and `GET` of a snapshot that is missing or has
expired at the request's instant answers `redis: nil`. -/
theorem run_refines_redis (w : BitmapWorld (BitmapRedisReplicator β) β) (h : w.Inv codec (Good codec))
    (es : List (BitmapEvent (Int × Option String))) :
    (w.run codec redisCalls es).map (toSpecRes' codec (toRedisSnapshot codec)) =
        (w.toSpec codec (toRedisSnapshot codec)).run RedisSnapshot.calls es ∧
      ∀ res, w.run codec redisCalls es = .ok res → res.1.Inv codec (Good codec) :=
  run_toSpec (redisRefines codec) h es

/-- A storage `ids` whose replica lives one second, with nothing in Redis yet. -/
def idsRedisWorld : BitmapWorld (BitmapRedisReplicator Nat) Nat :=
  ⟨⟨⟨"ids", "ids_key", 1000000000⟩, ∅, ⟨none, 300⟩⟩, ⟨fun _ => none, "ids"⟩, .idle, []⟩

/-- Goroutine 0 starts and reads `{1, 2}`; the user's `Replicate` fails in Redis; the goroutine
stores what it read; the keys are cleared, and a `Recover` two seconds later finds the snapshot
expired. -/
def idsRedisEvents : List (BitmapEvent (Int × Option String)) :=
  [.call (.mustWarmer none) (0, none), .call (.upsertMany [1, 2]) (0, none), .tick 0,
    .call .replicate (0, none), .resume (10, some "i/o timeout"), .store 0 (20, none),
    .call .clear (30, none), .call .recover (2000000000, none)]

theorem run_refines_redis_expired :
    idsRedisWorld.Inv sortedCodec (Good sortedCodec) ∧
      ((idsRedisWorld.run sortedCodec redisCalls idsRedisEvents).map
          (toSpecRes' sortedCodec (toRedisSnapshot sortedCodec)) =
          (idsRedisWorld.toSpec sortedCodec (toRedisSnapshot sortedCodec)).run RedisSnapshot.calls
            idsRedisEvents ∧
        ∀ res, idsRedisWorld.run sortedCodec redisCalls idsRedisEvents = .ok res →
          res.1.Inv sortedCodec (Good sortedCodec)) :=
  have h : idsRedisWorld.Inv sortedCodec (Good sortedCodec) :=
    ⟨fun _ _ hd => (by cases hd), fun _ hp => (by cases hp), fun _ hg => (by cases hg)⟩
  ⟨h, run_refines_redis idsRedisWorld h idsRedisEvents⟩

end BitmapWorld

end MemoryStorage
