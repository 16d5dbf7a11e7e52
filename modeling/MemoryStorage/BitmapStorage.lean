import Mathlib.Data.Finset.Sort
import MemoryStorage.Basic

/-!
# `roaringBitmapStorage` with `BitmapFakeReplicator`

The storage keeps a set of `uint64` keys in a `roaring64.Bitmap`, modelled as a `Finset UInt64`,
and copies it through a replicator under its replication key: `Replicate` stores the bitmap's
serialisation, `Recover` clears the bitmap and reads the stored bytes back. The serialisation is
an abstract `BitmapCodec` that reads back what it writes. The logs are left out.

This module takes the calls one at a time, each as a whole (`BitmapSystem.exec`): what a caller
sees when no other goroutine touches the storage or its replicator while a call runs. `Replicate`
and `Recover` take the storage's lock and the replicator's in turn, and `MustWarmer` starts a
goroutine that calls `Replicate` on a ticker; `BitmapWorld` interleaves those steps.

With `BitmapFakeReplicator`, the storage and its replica are a set of keys and the last non-empty
set replicated (`BitmapSpec`), call by call (`BitmapSystem.exec_toSpec`). In particular
`Replicate` refuses an empty bitmap and keeps the earlier snapshot, so a `Clear` is never
replicated: a `Recover` after it brings the cleared keys back
(`recover_after_clear_restores_snapshot`).
-/

namespace MemoryStorage

/-- The message of Go's runtime panic on a nil pointer dereference or on calling a nil func. -/
def nilDereference : String := "runtime error: invalid memory address or nil pointer dereference"

/-- `roaring64.Bitmap`'s serialisation as the storage uses it: `ToBytes`, and `ReadFrom` (the
bitmap read and the number of bytes consumed, or an error). The library reads back what it wrote,
and writes some bytes for a non-empty bitmap. -/
structure BitmapCodec (β : Type) where
  toBytes : Finset UInt64 → List β
  readFrom : List β → Except String (Finset UInt64 × Nat)
  readFrom_toBytes : ∀ b, readFrom (toBytes b) = .ok (b, (toBytes b).length)
  toBytes_ne_nil : ∀ b : Finset UInt64, b.Nonempty → toBytes b ≠ []

/-- `WarmerFunc`: keys for a batch size, or an error. Its context is left out. -/
abbrev WarmerFunc := Int → Except String (List UInt64)

/-- `Warmer`. -/
structure Warmer where
  warmCallback : Option WarmerFunc
  batchSize : Int

/-- The fields of `BitmapStorageConfigs` that the modelled calls read. -/
structure BitmapStorageConfigs where
  storageName : String
  replicationKey : String
  replicationTtl : Duration

/-- `roaringBitmapStorage`. Its `warmer` is never nil: `NewBitmapStorage` dereferences it. -/
structure RoaringBitmapStorage where
  configs : BitmapStorageConfigs
  bitmap : Finset UInt64
  warmer : Warmer

namespace RoaringBitmapStorage
variable {β : Type} (codec : BitmapCodec β) (s : RoaringBitmapStorage)

/-- `NewBitmapStorage(replicator, configs, warmer)`; `.error` is the panic and its message. -/
def newBitmapStorage (configs : BitmapStorageConfigs) (warmer : Option Warmer) :
    Except String RoaringBitmapStorage :=
  match warmer with
  | none => .error nilDereference
  | some w =>
    if w.batchSize ≤ 0 then
      .error ("[" ++ configs.storageName ++ "] warmer batch size must be greater than 0")
    else .ok ⟨configs, ∅, w⟩

/-- `MustWarmer(ctx, warmerFunc)` on the storage (`none` is a nil `warmerFunc`, which it stores as
it is); the goroutine it starts is `BitmapWorld`'s. -/
def mustWarmer (warmerFunc : Option WarmerFunc) : Except String RoaringBitmapStorage :=
  if s.warmer.warmCallback.isSome then
    .error ("[" ++ s.configs.storageName ++ "] warmer function already set")
  else .ok { s with warmer := { s.warmer with warmCallback := warmerFunc } }

/-- `Contains(key)`. -/
def contains (key : UInt64) : Bool := decide (key ∈ s.bitmap)

/-- `UpsertMany(keys)`: `AddMany`. -/
def upsertMany (keys : List UInt64) : RoaringBitmapStorage :=
  { s with bitmap := s.bitmap ∪ keys.toFinset }

/-- `RemoveMany(keys)`: `Remove` of each key in turn. -/
def removeMany (keys : List UInt64) : RoaringBitmapStorage :=
  { s with bitmap := keys.foldl (fun b k => b.erase k) s.bitmap }

/-- `GetCount()`: `GetCardinality`, a `uint64`. -/
def getCount : UInt64 := s.bitmap.card.toUInt64

/-- `Clear()`. -/
def clear : RoaringBitmapStorage := { s with bitmap := ∅ }

/-- `isEmpty()`. -/
def isEmpty : Bool := decide (s.bitmap = ∅)

/-- `Warm(ctx)`: on an empty storage, the warmer's keys, or its error; calling a callback that
`MustWarmer` never set panics. -/
def warm : Except String (RoaringBitmapStorage × Option String) :=
  if s.isEmpty then
    match s.warmer.warmCallback with
    | none => .error nilDereference
    | some f =>
      match f s.warmer.batchSize with
      | .error e => .ok (s, some e)
      | .ok data => .ok (s.upsertMany data, none)
  else .ok (s, none)

/-- `ReadFromBuffer(ctx, buffer)`: the bitmap `ReadFrom` reads replaces the storage's. -/
def readFromBuffer (buffer : List β) : RoaringBitmapStorage × Int × Option String :=
  match codec.readFrom buffer with
  | .ok (b, p) => ({ s with bitmap := b }, p, none)
  | .error e => (s, 0, some e)

/-- `GetBytesFromBitmap()`: nil for an empty bitmap. -/
def getBytesFromBitmap : Option (List β) :=
  if s.isEmpty then none else some (codec.toBytes s.bitmap)

end RoaringBitmapStorage

/-- `BitmapFakeReplicator`, without its lock. -/
structure BitmapFakeReplicator (β : Type) where
  store : String → Option (List β)
  forStorage : String

namespace BitmapFakeReplicator
variable {β : Type} (codec : BitmapCodec β) (r : BitmapFakeReplicator β)

/-- `NewBitmapFakeReplicator(forStorage)`. -/
def newBitmapFakeReplicator (forStorage : String) : BitmapFakeReplicator β :=
  ⟨fun _ => none, forStorage⟩

/-- The error of `Replicate` on an empty bitmap. -/
def emptyForReplicate : String := "[" ++ r.forStorage ++ "] bitmap is empty for replicate"

/-- The error of `Recover` when nothing is stored under the key. -/
def noDataFound (replicationKey : String) : String :=
  "[" ++ r.forStorage ++ "] no data found for replication key: " ++ replicationKey

/-- The section of `Replicate` under `r.mu`: a copy of the bytes goes under the key. -/
def storeBytes (replicationKey : String) (bitmapBytes : List β) : BitmapFakeReplicator β :=
  { r with store := Function.update r.store replicationKey (some bitmapBytes) }

/-- `Replicate(ctx, storage, replicationKey, ttl)`: `GetBytesFromBitmap`, then the store. -/
def replicate (storage : RoaringBitmapStorage) (replicationKey : String) :
    BitmapFakeReplicator β × Option String :=
  match storage.getBytesFromBitmap codec with
  | none => (r, some r.emptyForReplicate)
  | some bitmapBytes => (r.storeBytes replicationKey bitmapBytes, none)

/-- The read of `Recover` under `r.mu.RLock()`: the stored bytes, or the error for a missing or
empty value. -/
def readStore (replicationKey : String) : Except String (List β) :=
  match r.store replicationKey with
  | some data => if data.length = 0 then .error (r.noDataFound replicationKey) else .ok data
  | none => .error (r.noDataFound replicationKey)

/-- `Recover(ctx, storage, replicationKey)`: the read, then `storage.Clear()` and
`storage.ReadFromBuffer`; the storage afterwards, and the error. -/
def recover (storage : RoaringBitmapStorage) (replicationKey : String) :
    RoaringBitmapStorage × Option String :=
  match r.readStore replicationKey with
  | .error e => (storage, some e)
  | .ok data =>
    let res := storage.clear.readFromBuffer codec data
    (res.1, res.2.2)

/-- `DropReplicationKey(ctx, replicationKey)`. -/
def dropReplicationKey (replicationKey : String) : BitmapFakeReplicator β :=
  { r with store := Function.update r.store replicationKey none }

end BitmapFakeReplicator

/-! ### The storage with its fake replicator -/

/-- A storage and the replicator it was built with. -/
structure BitmapSystem (β : Type) where
  storage : RoaringBitmapStorage
  replicator : BitmapFakeReplicator β

/-- A call of the `MemorySetStorage` interface. -/
inductive BitmapOp
  | mustWarmer (warmerFunc : Option WarmerFunc)
  | contains (key : UInt64)
  | upsertMany (keys : List UInt64)
  | removeMany (keys : List UInt64)
  | getCount
  | clear
  | warm
  | replicate
  | recover
  | dropReplicationKey

/-- What a call returns. -/
inductive BitmapReply
  | unit
  | bool (b : Bool)
  | count (n : UInt64)
  | err (e : Option String)
deriving DecidableEq

namespace BitmapSystem
variable {β : Type} (codec : BitmapCodec β)

/-- One call on the storage; `.error` is a panic. `Replicate`, `Recover` and `DropReplicationKey`
go through the replicator with the storage's replication key. -/
def exec (sys : BitmapSystem β) : BitmapOp → Except String (BitmapSystem β × BitmapReply)
  | .mustWarmer f => (sys.storage.mustWarmer f).map fun s => ({ sys with storage := s }, .unit)
  | .contains k => .ok (sys, .bool (sys.storage.contains k))
  | .upsertMany ks => .ok ({ sys with storage := sys.storage.upsertMany ks }, .unit)
  | .removeMany ks => .ok ({ sys with storage := sys.storage.removeMany ks }, .unit)
  | .getCount => .ok (sys, .count sys.storage.getCount)
  | .clear => .ok ({ sys with storage := sys.storage.clear }, .unit)
  | .warm => sys.storage.warm.map fun res => ({ sys with storage := res.1 }, .err res.2)
  | .replicate =>
    let res := sys.replicator.replicate codec sys.storage sys.storage.configs.replicationKey
    .ok ({ sys with replicator := res.1 }, .err res.2)
  | .recover =>
    let res := sys.replicator.recover codec sys.storage sys.storage.configs.replicationKey
    .ok ({ sys with storage := res.1 }, .err res.2)
  | .dropReplicationKey =>
    .ok ({ sys with
      replicator := sys.replicator.dropReplicationKey sys.storage.configs.replicationKey },
      .err none)

/-- A run of calls: the system after them and their answers, or the first panic. -/
def run (sys : BitmapSystem β) : List BitmapOp → Except String (BitmapSystem β × List BitmapReply)
  | [] => .ok (sys, [])
  | op :: ops => do
    let (sys', r) ← sys.exec codec op
    let (sys'', rs) ← run sys' ops
    return (sys'', r :: rs)

end BitmapSystem

/-! ### What the storage and its replica are for -/

/-- The keys held, the keys last replicated, and the warmer; with the names the errors quote. -/
structure BitmapSpec where
  keys : Finset UInt64
  snapshot : Option (Finset UInt64)
  warmer : Warmer
  storageName : String
  replicationKey : String
  forStorage : String

namespace BitmapSpec

/-- A call on the set of keys and its snapshot: `Replicate` of an empty set fails and keeps the
snapshot, `Recover` restores the snapshot. -/
def exec (a : BitmapSpec) : BitmapOp → Except String (BitmapSpec × BitmapReply)
  | .mustWarmer f =>
    if a.warmer.warmCallback.isSome then
      .error ("[" ++ a.storageName ++ "] warmer function already set")
    else .ok ({ a with warmer := { a.warmer with warmCallback := f } }, .unit)
  | .contains k => .ok (a, .bool (decide (k ∈ a.keys)))
  | .upsertMany ks => .ok ({ a with keys := a.keys ∪ ks.toFinset }, .unit)
  | .removeMany ks => .ok ({ a with keys := a.keys \ ks.toFinset }, .unit)
  | .getCount => .ok (a, .count a.keys.card.toUInt64)
  | .clear => .ok ({ a with keys := ∅ }, .unit)
  | .warm =>
    if a.keys = ∅ then
      match a.warmer.warmCallback with
      | none => .error nilDereference
      | some f =>
        match f a.warmer.batchSize with
        | .error e => .ok (a, .err (some e))
        | .ok data => .ok ({ a with keys := data.toFinset }, .err none)
    else .ok (a, .err none)
  | .replicate =>
    if a.keys = ∅ then .ok (a, .err (some ("[" ++ a.forStorage ++ "] bitmap is empty for replicate")))
    else .ok ({ a with snapshot := some a.keys }, .err none)
  | .recover =>
    match a.snapshot with
    | none =>
      .ok (a, .err (some ("[" ++ a.forStorage ++ "] no data found for replication key: " ++
        a.replicationKey)))
    | some b => .ok ({ a with keys := b }, .err none)
  | .dropReplicationKey => .ok ({ a with snapshot := none }, .err none)

/-- A run of calls on the model. -/
def run (a : BitmapSpec) : List BitmapOp → Except String (BitmapSpec × List BitmapReply)
  | [] => .ok (a, [])
  | op :: ops => do
    let (a', r) ← a.exec op
    let (a'', rs) ← run a' ops
    return (a'', r :: rs)

end BitmapSpec

/-- The bitmap that `ReadFrom` reads from some bytes, if it reads one. -/
def BitmapCodec.decode {β : Type} (codec : BitmapCodec β) (data : List β) :
    Option (Finset UInt64) :=
  match codec.readFrom data with
  | .ok res => some res.1
  | .error _ => none

@[simp] theorem BitmapCodec.decode_toBytes {β : Type} (codec : BitmapCodec β) (b : Finset UInt64) :
    codec.decode (codec.toBytes b) = some b := by
  simp [BitmapCodec.decode, codec.readFrom_toBytes]

namespace RoaringBitmapStorage
variable (s : RoaringBitmapStorage)

@[simp] theorem removeMany_bitmap (keys : List UInt64) :
    (s.removeMany keys).bitmap = s.bitmap \ keys.toFinset := by
  simp only [removeMany]
  induction keys generalizing s with
  | nil => simp
  | cons k ks ih =>
    rw [List.foldl_cons, ih { s with bitmap := s.bitmap.erase k }, List.toFinset_cons,
      Finset.sdiff_insert, Finset.erase_sdiff_comm]

@[simp] theorem isEmpty_eq : s.isEmpty = decide (s.bitmap = ∅) := rfl

@[simp] theorem removeMany_configs (keys : List UInt64) : (s.removeMany keys).configs = s.configs :=
  rfl

@[simp] theorem removeMany_warmer (keys : List UInt64) : (s.removeMany keys).warmer = s.warmer :=
  rfl

@[simp] theorem clear_configs : s.clear.configs = s.configs := rfl

@[simp] theorem clear_bitmap : s.clear.bitmap = ∅ := rfl

@[simp] theorem clear_warmer : s.clear.warmer = s.warmer := rfl

@[simp] theorem readFromBuffer_configs {β : Type} (codec : BitmapCodec β) (buffer : List β) :
    (s.readFromBuffer codec buffer).1.configs = s.configs := by
  unfold readFromBuffer
  split <;> rfl

theorem getBytesFromBitmap_eq {β : Type} (codec : BitmapCodec β) :
    s.getBytesFromBitmap codec = if s.bitmap = ∅ then none else some (codec.toBytes s.bitmap) := by
  simp [getBytesFromBitmap]

/-- `ReadFrom` of a serialisation reads the bitmap serialised. -/
theorem readFromBuffer_toBytes {β : Type} (codec : BitmapCodec β) (b : Finset UInt64) :
    s.readFromBuffer codec (codec.toBytes b) =
      ({ s with bitmap := b }, ((codec.toBytes b).length : Int), none) := by
  simp [readFromBuffer, codec.readFrom_toBytes]

end RoaringBitmapStorage

/-- A serialisation for examples: the keys in increasing order, as numbers. -/
def sortedCodec : BitmapCodec Nat where
  toBytes b := (b.image UInt64.toNat).sort (· ≤ ·)
  readFrom l := .ok (l.toFinset.image UInt64.ofNat, l.length)
  readFrom_toBytes b := by
    have hid : UInt64.ofNat ∘ UInt64.toNat = id :=
      funext fun x => UInt64.toNat.inj (UInt64.toNat_ofNat_of_lt x.toNat_lt_size)
    simp [Finset.sort_toFinset, Finset.image_image, hid]
  toBytes_ne_nil b hb := by
    rw [← List.length_pos, Finset.length_sort, Finset.card_pos]
    exact hb.image _

namespace BitmapSystem
variable {β : Type} (codec : BitmapCodec β) (sys : BitmapSystem β)

/-- The model a system stands for: its keys, the bitmap stored under its replication key, its
warmer and its names. -/
def toSpec : BitmapSpec :=
  ⟨sys.storage.bitmap, (sys.replicator.store sys.storage.configs.replicationKey).bind codec.decode,
    sys.storage.warmer, sys.storage.configs.storageName, sys.storage.configs.replicationKey,
    sys.replicator.forStorage⟩

/-- What the replicator holds under the storage's key is the serialisation of a non-empty
bitmap. -/
def Inv : Prop :=
  ∀ data, sys.replicator.store sys.storage.configs.replicationKey = some data →
    ∃ b : Finset UInt64, b.Nonempty ∧ data = codec.toBytes b

@[simp] theorem toSpec_keys : (sys.toSpec codec).keys = sys.storage.bitmap := rfl

@[simp] theorem toSpec_forStorage : (sys.toSpec codec).forStorage = sys.replicator.forStorage := rfl

variable {codec sys}

/-- One call on the system is the same call on its model, and keeps the invariant. -/
theorem exec_toSpec (h : sys.Inv codec) (op : BitmapOp) :
    (sys.exec codec op).map (fun res => (res.1.toSpec codec, res.2)) = (sys.toSpec codec).exec op ∧
      ∀ res, sys.exec codec op = .ok res → res.1.Inv codec := by
  cases op with
  | mustWarmer f =>
    unfold exec RoaringBitmapStorage.mustWarmer
    split_ifs with hw <;> simp [toSpec, BitmapSpec.exec, hw, Except.map]
    exact h
  | contains k => exact ⟨rfl, by rintro _ ⟨⟩; exact h⟩
  | upsertMany ks => exact ⟨rfl, by rintro _ ⟨⟩; exact h⟩
  | removeMany ks =>
    exact ⟨by simp [exec, toSpec, BitmapSpec.exec, Except.map], by rintro _ ⟨⟩; exact h⟩
  | getCount => exact ⟨rfl, by rintro _ ⟨⟩; exact h⟩
  | clear => exact ⟨rfl, by rintro _ ⟨⟩; exact h⟩
  | warm =>
    unfold exec RoaringBitmapStorage.warm
    by_cases he : sys.storage.bitmap = ∅
    · cases hw : sys.storage.warmer.warmCallback with
      | none => simp [toSpec, BitmapSpec.exec, he, hw, Except.map]
      | some f =>
        cases hf : f sys.storage.warmer.batchSize <;>
          simp [toSpec, BitmapSpec.exec, he, hw, hf, Except.map, RoaringBitmapStorage.upsertMany] <;>
          exact h
    · simp [toSpec, BitmapSpec.exec, he, Except.map]
      exact h
  | replicate =>
    by_cases he : sys.storage.bitmap = ∅
    · simp [exec, BitmapFakeReplicator.replicate, RoaringBitmapStorage.getBytesFromBitmap, he,
        toSpec, BitmapSpec.exec, Except.map, BitmapFakeReplicator.emptyForReplicate]
      exact h
    · simp [exec, BitmapFakeReplicator.replicate, BitmapFakeReplicator.storeBytes,
        RoaringBitmapStorage.getBytesFromBitmap, he, toSpec, BitmapSpec.exec, Except.map]
      intro data hd
      simp only [Function.update_same, Option.some.injEq] at hd
      exact ⟨_, Finset.nonempty_iff_ne_empty.2 he, hd.symm⟩
  | recover =>
    cases hs : sys.replicator.store sys.storage.configs.replicationKey with
    | none =>
      simp [exec, BitmapFakeReplicator.recover, BitmapFakeReplicator.readStore, hs, toSpec,
        BitmapSpec.exec, Except.map, BitmapFakeReplicator.noDataFound]
      exact h
    | some data =>
      obtain ⟨b, hb, rfl⟩ := h _ hs
      have hlen : (codec.toBytes b).length ≠ 0 := by simpa using codec.toBytes_ne_nil b hb
      simp [exec, BitmapFakeReplicator.recover, BitmapFakeReplicator.readStore, hs, hlen,
        RoaringBitmapStorage.readFromBuffer,
        codec.readFrom_toBytes, RoaringBitmapStorage.clear, toSpec, BitmapSpec.exec, Except.map]
      exact fun data hd => h data (by simpa [RoaringBitmapStorage.clear] using hd)
  | dropReplicationKey =>
    refine ⟨by simp [exec, toSpec, BitmapSpec.exec, BitmapFakeReplicator.dropReplicationKey,
      Except.map], ?_⟩
    rintro _ ⟨⟩ data hd
    simp [BitmapFakeReplicator.dropReplicationKey] at hd

/-- A fresh fake replicator holds nothing, so the invariant holds from the start. -/
theorem inv_newBitmapFakeReplicator (storage : RoaringBitmapStorage) (forStorage : String) :
    Inv codec ⟨storage, BitmapFakeReplicator.newBitmapFakeReplicator forStorage⟩ := by
  intro data hd
  cases hd

/-- `Replicate` refuses an empty bitmap and keeps the snapshot, so after `Clear`, `Replicate` and
`Recover` the storage holds the keys of the last snapshot again. -/
theorem recover_after_clear_restores_snapshot (h : sys.Inv codec) {b : Finset UInt64}
    (hb : (sys.toSpec codec).snapshot = some b) :
    (sys.run codec [.clear, .replicate, .recover]).map (fun res => (res.1.storage.bitmap, res.2)) =
      .ok (b, [.unit, .err (some sys.replicator.emptyForReplicate), .err none]) := by
  let cleared : BitmapSystem β := { sys with storage := sys.storage.clear }
  have hrep : cleared.exec codec .replicate =
      .ok (cleared, .err (some sys.replicator.emptyForReplicate)) := by
    simp [cleared, exec, BitmapFakeReplicator.replicate, RoaringBitmapStorage.getBytesFromBitmap,
      RoaringBitmapStorage.clear]
  have hrec := (exec_toSpec (show cleared.Inv codec from h) .recover).1
  have hspec : (cleared.toSpec codec).exec .recover =
      .ok ({ cleared.toSpec codec with keys := b }, .err none) := by
    simp only [BitmapSpec.exec, show (cleared.toSpec codec).snapshot = some b from hb]
  rw [hspec] at hrec
  cases hx : cleared.exec codec .recover with
  | error m => rw [hx] at hrec; cases hrec
  | ok res =>
    rw [hx] at hrec
    simp only [Except.map, Except.ok.injEq, Prod.mk.injEq] at hrec
    simp only [run, show sys.exec codec .clear = .ok (cleared, .unit) from rfl, hrep, hx, bind,
      Except.bind, pure, Except.pure, Except.map, hrec.2]
    rw [show res.1.storage.bitmap = b from congrArg BitmapSpec.keys hrec.1]

theorem recover_after_clear_restores_snapshot_ids :
    Inv sortedCodec ⟨⟨⟨"ids", "ids_key", 0⟩, {1, 2}, ⟨none, 300⟩⟩,
      ⟨Function.update (fun _ => none) "ids_key" (some (sortedCodec.toBytes {1, 2})), "ids"⟩⟩ ∧
    (BitmapSystem.toSpec sortedCodec ⟨⟨⟨"ids", "ids_key", 0⟩, {1, 2}, ⟨none, 300⟩⟩,
      ⟨Function.update (fun _ => none) "ids_key" (some (sortedCodec.toBytes {1, 2})), "ids"⟩⟩).snapshot =
      some {1, 2} ∧
    ((BitmapSystem.mk ⟨⟨"ids", "ids_key", 0⟩, {1, 2}, ⟨none, 300⟩⟩
        ⟨Function.update (fun _ => none) "ids_key" (some (sortedCodec.toBytes {1, 2})), "ids"⟩).run
        sortedCodec [.clear, .replicate, .recover]).map (fun res => (res.1.storage.bitmap, res.2)) =
      .ok ({1, 2}, [.unit, .err (some "[ids] bitmap is empty for replicate"), .err none]) := by
  have hinv : Inv sortedCodec ⟨⟨⟨"ids", "ids_key", 0⟩, {1, 2}, ⟨none, 300⟩⟩,
      ⟨Function.update (fun _ => none) "ids_key" (some (sortedCodec.toBytes {1, 2})), "ids"⟩⟩ := by
    intro data hd
    simp only [Function.update_same, Option.some.injEq] at hd
    exact ⟨{1, 2}, Finset.insert_nonempty _ _, hd.symm⟩
  have hsnap : (BitmapSystem.toSpec sortedCodec ⟨⟨⟨"ids", "ids_key", 0⟩, {1, 2}, ⟨none, 300⟩⟩,
      ⟨Function.update (fun _ => none) "ids_key" (some (sortedCodec.toBytes {1, 2})), "ids"⟩⟩).snapshot =
      some {1, 2} := by
    simp [toSpec]
  exact ⟨hinv, hsnap, recover_after_clear_restores_snapshot hinv hsnap⟩

end BitmapSystem

end MemoryStorage
