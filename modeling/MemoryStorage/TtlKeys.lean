import MemoryStorage.TtlIndex

/-!
# `ByteKeyBTree` with `[]byte` keys

The first version of the TTL index keeps `nodeItem`s: a copy of a key and the unix second of its
last write. Every method but `PurgeExpiredAt` holds the `RWMutex` for its whole effect, so a call
is one atomic step on the tree; `PurgeExpiredAt` takes the lock twice, once for its scan
(`scanExpired`) and once for its delete loop (`purgeDelete`).

A tree stands for the `KeyMap` of its items (`toKeyMap`). Each call is the matching call on that map
(`exec_spec`), so any run of calls answers as the same run on the map does (`run_eq_specRun`).
-/

namespace MemoryStorage
namespace TtlKeys

/-- `nodeItem`: a key and the unix second of its last write. -/
structure NodeItem where
  keyBytes : Bytes
  timestampUnixSeconds : Int
deriving DecidableEq, Repr

/-- `ByteKeyBTree`. The `now` source it keeps is read by no method. -/
structure ByteKeyBTree where
  tree : BTree NodeItem.keyBytes

/-- `cloneBytes(src)`: `nil` for an empty slice, a copy otherwise. -/
def cloneBytes (src : Bytes) : Bytes := if List.length src = 0 then [] else src

@[simp] theorem cloneBytes_eq (src : Bytes) : cloneBytes src = src := by
  unfold cloneBytes
  split_ifs with h
  · exact (List.eq_nil_of_length_eq_zero h).symm
  · rfl

namespace ByteKeyBTree

/-- `NewByteKeyBTree(opts)` with `opts.Degree = degree`: a degree of 0 or less means 32, and
`btree.NewWithFreeList` panics on a degree of 1. -/
def newByteKeyBTree (degree : Int) : Option ByteKeyBTree :=
  let degree := if degree ≤ 0 then 32 else degree
  if degree ≤ 1 then none else some ⟨BTree.empty _⟩

/-- `UpsertAt(key, ts)`: the new tree, and whether the key was new. -/
def upsertAt (b : ByteKeyBTree) (key : Bytes) (ts : Time) : ByteKeyBTree × Bool :=
  if List.length key = 0 then (b, false)
  else
    let prev := b.tree.replaceOrInsert ⟨cloneBytes key, ts.unix⟩
    (⟨prev.1⟩, prev.2.isNone)

/-- `UpsertManyAt(keys, at)`: one write-locked loop; the count of new keys. -/
def upsertManyAt (b : ByteKeyBTree) (keys : List Bytes) (atTime : Time) : ByteKeyBTree × Nat :=
  if keys.length = 0 then (b, 0)
  else
    let sec := atTime.unix
    keys.foldl (fun r key =>
      if List.length key = 0 then r
      else
        let prev := r.1.tree.replaceOrInsert ⟨cloneBytes key, sec⟩
        (⟨prev.1⟩, if prev.2.isNone then r.2 + 1 else r.2)) (b, 0)

/-- `Delete(key)`: the new tree, and whether the key was there. -/
def delete (b : ByteKeyBTree) (key : Bytes) : ByteKeyBTree × Bool :=
  if List.length key = 0 then (b, false)
  else
    let r := b.tree.delete key
    (⟨r.1⟩, r.2.isSome)

/-- `DeleteMany(keys)`: one write-locked loop; the count of keys that were there. -/
def deleteMany (b : ByteKeyBTree) (keys : List Bytes) : ByteKeyBTree × Nat :=
  if keys.length = 0 then (b, 0)
  else
    keys.foldl (fun r key =>
      if List.length key = 0 then r
      else
        let d := r.1.tree.delete key
        (⟨d.1⟩, if d.2.isSome then r.2 + 1 else r.2)) (b, 0)

/-- `Has(key)`. -/
def has (b : ByteKeyBTree) (key : Bytes) : Bool :=
  if List.length key = 0 then false else (b.tree.get key).isSome

/-- `GetLastWriteUnix(key)`: `(0, false)` for a missing key. -/
def getLastWriteUnix (b : ByteKeyBTree) (key : Bytes) : Int × Bool :=
  match b.tree.get key with
  | none => (0, false)
  | some it => (it.timestampUnixSeconds, true)

/-- `ForEach(callback)`, for a callback whose captured variables are `σ`: the error for a nil
callback, else the callback's state after the calls `Ascend` makes. -/
def forEach {σ : Type*} (b : ByteKeyBTree) (callback : Option (σ → Bytes → Int → σ × Bool))
    (init : σ) : Except String σ :=
  match callback with
  | none => .error "nil callback"
  | some callback =>
    .ok (b.tree.ascend (fun s it => callback s (cloneBytes it.keyBytes) it.timestampUnixSeconds) init)

/-- `Size()`. -/
def size (b : ByteKeyBTree) : Nat := b.tree.len

/-- `Reset()`: `Clear` leaves an empty tree. -/
def reset (_ : ByteKeyBTree) : ByteKeyBTree := ⟨BTree.empty _⟩

/-- The read-locked scan of `PurgeExpiredAt` and of `ListExpiredAt`: copies of the keys last written
at or before `cutoff`, in key order, stopping after `maxCount` of them when `maxCount > 0`. -/
def scanExpired (b : ByteKeyBTree) (cutoff maxCount : Int) : List Bytes :=
  b.tree.ascend
    (expiredVisit NodeItem.timestampUnixSeconds (fun it => cloneBytes it.keyBytes) cutoff maxCount) []

/-- The write-locked delete loop of `PurgeExpiredAt`. -/
def purgeDelete (b : ByteKeyBTree) (keysToDelete : List Bytes) : ByteKeyBTree × Nat :=
  let r := BTree.deleteEach (b.tree, 0) keysToDelete
  (⟨r.1⟩, r.2)

/-- `PurgeExpiredAt(now, ttl, maxToDelete)` run alone: the scan, then the delete loop. -/
def purgeExpiredAt (b : ByteKeyBTree) (now : Time) (ttl : Duration) (maxToDelete : Int) :
    ByteKeyBTree × Nat :=
  if ttl.toInt ≤ 0 then (b, 0)
  else
    let keysToDelete := b.scanExpired (cutoffUnix now ttl) maxToDelete
    if keysToDelete.length = 0 then (b, 0) else b.purgeDelete keysToDelete

/-- `ListExpiredAt(now, ttl, maxCount)`. -/
def listExpiredAt (b : ByteKeyBTree) (now : Time) (ttl : Duration) (maxCount : Int) :
    List Bytes :=
  if ttl.toInt ≤ 0 then [] else b.scanExpired (cutoffUnix now ttl) maxCount

/-- The map a tree stands for: each key to its item. -/
def toKeyMap (b : ByteKeyBTree) : KeyMap NodeItem := b.tree.toFinmap

end ByteKeyBTree

/-! ### The calls on the map -/

/-- `UpsertAt` on the map: an empty key changes nothing and answers `false`. -/
def mapUpsertAt (M : KeyMap NodeItem) (key : Bytes) (ts : Time) : KeyMap NodeItem × Bool :=
  if List.length key = 0 then (M, false) else KeyMap.upsert NodeItem.keyBytes M ⟨key, ts.unix⟩

/-- `Delete` on the map: an empty key changes nothing and answers `false`. -/
def mapDelete (M : KeyMap NodeItem) (key : Bytes) : KeyMap NodeItem × Bool :=
  if List.length key = 0 then (M, false) else KeyMap.erase M key

/-- The keys `PurgeExpiredAt` and `ListExpiredAt` select from the map. -/
def mapExpired (M : KeyMap NodeItem) (now : Time) (ttl : Duration) (n : Int) : List Bytes :=
  if ttl.toInt ≤ 0 then []
  else (KeyMap.expired NodeItem.timestampUnixSeconds M (cutoffUnix now ttl) n).map NodeItem.keyBytes

/-- The calls of a run. `ForEach` is left to `forEach_eq`: its callback is a closure. -/
inductive Op
  | upsertAt (key : Bytes) (ts : Time)
  | upsertManyAt (keys : List Bytes) (atTime : Time)
  | delete (key : Bytes)
  | deleteMany (keys : List Bytes)
  | has (key : Bytes)
  | getLastWriteUnix (key : Bytes)
  | size
  | reset
  | purgeExpiredAt (now : Time) (ttl : Duration) (maxToDelete : Int)
  | listExpiredAt (now : Time) (ttl : Duration) (maxCount : Int)

/-- What a call returns. -/
inductive Reply
  | bool (b : Bool)
  | count (n : Nat)
  | lastWrite (ts : Int) (ok : Bool)
  | keys (ks : List Bytes)
  | unit
deriving DecidableEq

/-- A call on the map: what the index is for. Batches are folds of single calls, and a purge
erases the keys it selects. -/
def Op.spec (M : KeyMap NodeItem) : Op → KeyMap NodeItem × Reply
  | .upsertAt key ts => let r := mapUpsertAt M key ts; (r.1, .bool r.2)
  | .upsertManyAt keys atTime =>
    let r := foldCount (fun M k => mapUpsertAt M k atTime) M keys; (r.1, .count r.2)
  | .delete key => let r := mapDelete M key; (r.1, .bool r.2)
  | .deleteMany keys => let r := foldCount mapDelete M keys; (r.1, .count r.2)
  | .has key => (M, .bool (decide (List.length key ≠ 0 ∧ key ∈ M)))
  | .getLastWriteUnix key =>
    (M, (M.lookup key).elim (.lastWrite 0 false) fun it => .lastWrite it.timestampUnixSeconds true)
  | .size => (M, .count M.keys.card)
  | .reset => (∅, .unit)
  | .purgeExpiredAt now ttl n =>
    let E := mapExpired M now ttl n
    (E.foldl (fun M k => Finmap.erase k M) M, .count E.length)
  | .listExpiredAt now ttl n => (M, .keys (mapExpired M now ttl n))

/-- The calls of `ops` one after another on the map: the last map and the replies. -/
def Op.specRun (M : KeyMap NodeItem) (ops : List Op) : KeyMap NodeItem × List Reply :=
  ops.foldl (fun r op => ((Op.spec r.1 op).1, r.2 ++ [(Op.spec r.1 op).2])) (M, [])

namespace ByteKeyBTree

/-- One call, holding the lock for its whole effect (`PurgeExpiredAt` with no call between its two
locked sections). -/
def exec (b : ByteKeyBTree) : Op → ByteKeyBTree × Reply
  | .upsertAt key ts => let r := b.upsertAt key ts; (r.1, .bool r.2)
  | .upsertManyAt keys atTime => let r := b.upsertManyAt keys atTime; (r.1, .count r.2)
  | .delete key => let r := b.delete key; (r.1, .bool r.2)
  | .deleteMany keys => let r := b.deleteMany keys; (r.1, .count r.2)
  | .has key => (b, .bool (b.has key))
  | .getLastWriteUnix key => let r := b.getLastWriteUnix key; (b, .lastWrite r.1 r.2)
  | .size => (b, .count b.size)
  | .reset => (b.reset, .unit)
  | .purgeExpiredAt now ttl n => let r := b.purgeExpiredAt now ttl n; (r.1, .count r.2)
  | .listExpiredAt now ttl n => (b, .keys (b.listExpiredAt now ttl n))

/-- The calls of `ops` one after another: the last tree and the replies. -/
def run (b : ByteKeyBTree) (ops : List Op) : ByteKeyBTree × List Reply :=
  ops.foldl (fun r op => ((r.1.exec op).1, r.2 ++ [(r.1.exec op).2])) (b, [])

/-! ### Each call is the call on the map -/

variable (b : ByteKeyBTree)

theorem upsertAt_spec (key : Bytes) (ts : Time) :
    ((b.upsertAt key ts).1.toKeyMap, (b.upsertAt key ts).2) = mapUpsertAt b.toKeyMap key ts := by
  unfold upsertAt mapUpsertAt
  split_ifs
  · rfl
  · simpa using BTree.toFinmap_replaceOrInsert_eq_upsert b.tree ⟨key, ts.unix⟩

theorem delete_spec (key : Bytes) :
    ((b.delete key).1.toKeyMap, (b.delete key).2) = mapDelete b.toKeyMap key := by
  unfold delete mapDelete
  split_ifs
  · rfl
  · exact BTree.toFinmap_delete_eq_erase b.tree key

/-- `UpsertManyAt` is the left fold of `UpsertAt`, counting the calls that answer `true`. -/
theorem upsertManyAt_eq (keys : List Bytes) (atTime : Time) :
    b.upsertManyAt keys atTime = foldCount (fun b k => b.upsertAt k atTime) b keys := by
  unfold upsertManyAt foldCount
  split_ifs with h
  · rw [List.eq_nil_of_length_eq_zero h]; rfl
  · refine List.foldl_ext _ _ _ fun r key _ => ?_
    by_cases hk : List.length key = 0 <;> simp [upsertAt, hk]

/-- `DeleteMany` is the left fold of `Delete`, counting the calls that answer `true`. -/
theorem deleteMany_eq (keys : List Bytes) :
    b.deleteMany keys = foldCount (fun b k => b.delete k) b keys := by
  unfold deleteMany foldCount
  split_ifs with h
  · rw [List.eq_nil_of_length_eq_zero h]; rfl
  · refine List.foldl_ext _ _ _ fun r key _ => ?_
    by_cases hk : List.length key = 0 <;> simp [delete, hk]

/-- An upsert touches only its own key. -/
theorem get_upsertAt_of_ne {key k : Bytes} (h : key ≠ k) (ts : Time) :
    (b.upsertAt key ts).1.tree.get k = b.tree.get k := by
  unfold upsertAt
  split_ifs
  · rfl
  · simp [h]

theorem get_upsertManyAt_of_not_mem {keys : List Bytes} {k : Bytes} (hk : k ∉ keys)
    (atTime : Time) : (b.upsertManyAt keys atTime).1.tree.get k = b.tree.get k := by
  rw [upsertManyAt_eq, foldCount_fst]
  induction keys generalizing b with
  | nil => rfl
  | cons key keys ih =>
    rw [List.foldl_cons, ih _ fun h => hk (List.mem_cons_of_mem _ h),
      get_upsertAt_of_ne _ fun e : key = k => hk (e ▸ List.mem_cons_self _ _)]

theorem has_eq (key : Bytes) : b.has key = decide (List.length key ≠ 0 ∧ key ∈ b.toKeyMap) := by
  unfold has toKeyMap
  by_cases h : List.length key = 0
  · simp [h]
  · simp [h, ← Finmap.lookup_isSome, BTree.lookup_toFinmap]

theorem getLastWriteUnix_eq (key : Bytes) :
    b.getLastWriteUnix key =
      (b.toKeyMap.lookup key).elim (0, false) fun it => (it.timestampUnixSeconds, true) := by
  unfold getLastWriteUnix toKeyMap
  rw [BTree.lookup_toFinmap]
  split <;> simp [*]

theorem size_eq : b.size = b.toKeyMap.keys.card := (BTree.card_keys_toFinmap b.tree).symm

/-- The scan keeps the keys of the first `maxCount` expired records of the map, in key order. -/
theorem scanExpired_eq (cutoff maxCount : Int) :
    b.scanExpired cutoff maxCount =
      (KeyMap.expired NodeItem.timestampUnixSeconds b.toKeyMap cutoff maxCount).map
        NodeItem.keyBytes := by
  rw [scanExpired, BTree.ascend, ascendList_expiredVisit, KeyMap.expired, toKeyMap,
    BTree.records_toFinmap]
  simp

theorem listExpiredAt_eq (now : Time) (ttl : Duration) (maxCount : Int) :
    b.listExpiredAt now ttl maxCount = mapExpired b.toKeyMap now ttl maxCount := by
  unfold listExpiredAt mapExpired
  split_ifs
  · rfl
  · exact scanExpired_eq b _ _

/-- The selected records are items of the tree, last written at or before the cutoff. -/
theorem mem_expired {cutoff n : Int} {it : NodeItem}
    (h : it ∈ KeyMap.expired NodeItem.timestampUnixSeconds b.toKeyMap cutoff n) :
    it ∈ b.tree.items ∧ it.timestampUnixSeconds ≤ cutoff := by
  rw [KeyMap.expired, toKeyMap, BTree.records_toFinmap] at h
  simpa using mem_takeLimit_filter h

theorem nodup_expired_keys (cutoff n : Int) :
    ((KeyMap.expired NodeItem.timestampUnixSeconds b.toKeyMap cutoff n).map
      NodeItem.keyBytes).Nodup := by
  rw [KeyMap.expired, toKeyMap, BTree.records_toFinmap]
  exact (List.pairwise_map.2 (b.tree.sorted.sublist
    ((takeLimit_sublist _ _).trans (List.filter_sublist _)))).nodup

/-- Run alone, `PurgeExpiredAt` removes exactly the selected keys and counts each of them. -/
theorem purgeExpiredAt_eq (now : Time) (ttl : Duration) (n : Int) :
    (b.purgeExpiredAt now ttl n).1.tree.items =
        b.tree.items.filter (fun it => it.keyBytes ∉ mapExpired b.toKeyMap now ttl n) ∧
      (b.purgeExpiredAt now ttl n).2 = (mapExpired b.toKeyMap now ttl n).length := by
  unfold purgeExpiredAt mapExpired
  by_cases httl : ttl.toInt ≤ 0
  · simp [httl]
  simp only [httl, if_false, scanExpired_eq]
  split_ifs with hlen
  · simp [List.eq_nil_of_length_eq_zero hlen]
  · obtain ⟨hitems, hcount⟩ := BTree.deleteEach_of_nodup b.tree 0
      (nodup_expired_keys b (cutoffUnix now ttl) n) fun k hk => by
        obtain ⟨it, hit, rfl⟩ := List.mem_map.1 hk
        simp [BTree.get_key (mem_expired b hit).1]
    exact ⟨hitems, hcount.trans (zero_add _)⟩

theorem purgeExpiredAt_spec (now : Time) (ttl : Duration) (n : Int) :
    (b.purgeExpiredAt now ttl n).1.toKeyMap =
      (mapExpired b.toKeyMap now ttl n).foldl (fun M k => Finmap.erase k M) b.toKeyMap := by
  unfold purgeExpiredAt mapExpired
  by_cases httl : ttl.toInt ≤ 0
  · simp [httl]
  simp only [httl, if_false, scanExpired_eq]
  split_ifs with hlen
  · simp [List.eq_nil_of_length_eq_zero hlen]
  · exact BTree.toFinmap_deleteEach _ _

/-- `ForEach` hands the callback the map's records in ascending key order, and stops after the
first call that answers `false`. -/
theorem forEach_eq {σ : Type*} (callback : σ → Bytes → Int → σ × Bool) (init : σ) :
    b.forEach (some callback) init =
      .ok (ascendList (fun s it => callback s it.keyBytes it.timestampUnixSeconds) init
        (KeyMap.records b.toKeyMap)) := by
  simp [forEach, BTree.ascend, toKeyMap, BTree.records_toFinmap]

/-- One call on the tree is the same call on the map it stands for. -/
theorem exec_spec (op : Op) : ((b.exec op).1.toKeyMap, (b.exec op).2) = op.spec b.toKeyMap := by
  cases op with
  | upsertAt key ts => simp only [exec, Op.spec, ← upsertAt_spec]
  | upsertManyAt keys atTime =>
    simp only [exec, Op.spec, upsertManyAt_eq]
    rw [← foldCount_hom toKeyMap _ (fun M k => mapUpsertAt M k atTime)
      fun b k => upsertAt_spec b k atTime]
  | delete key => simp only [exec, Op.spec, ← delete_spec]
  | deleteMany keys =>
    simp only [exec, Op.spec, deleteMany_eq]
    rw [← foldCount_hom toKeyMap _ mapDelete delete_spec]
  | has key => simp only [exec, Op.spec, has_eq]
  | getLastWriteUnix key =>
    simp only [exec, Op.spec, getLastWriteUnix_eq]
    cases b.toKeyMap.lookup key <;> rfl
  | size => simp only [exec, Op.spec, size_eq]
  | reset =>
    simp only [exec, Op.spec, reset, toKeyMap]
    exact congrArg (·, Reply.unit) (Finmap.ext_lookup fun k => by simp [BTree.lookup_toFinmap])
  | purgeExpiredAt now ttl n =>
    simp only [exec, Op.spec, purgeExpiredAt_spec, (purgeExpiredAt_eq b now ttl n).2]
  | listExpiredAt now ttl n => simp only [exec, Op.spec, listExpiredAt_eq]

/-- Every run of calls answers as the same run on the map, and ends on the map of its last tree. -/
theorem run_eq_specRun (ops : List Op) :
    ((b.run ops).1.toKeyMap, (b.run ops).2) = Op.specRun b.toKeyMap ops := by
  unfold run Op.specRun
  refine (List.foldl_hom (fun r : ByteKeyBTree × List Reply => (r.1.toKeyMap, r.2)) _ _ ops _
    fun r op => ?_).symm
  simp only [← exec_spec]

end ByteKeyBTree

end TtlKeys
end MemoryStorage
