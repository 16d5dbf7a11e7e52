import MemoryStorage.TtlIndex

/-!
# `ByteKeyBTree` over `Item`s

The second version of the TTL index stores the caller's `Item`s, a `*ValueNodeItem` (key, value and
timestamp) or a `*FilterNodeItem` (key and timestamp); `Less` compares keys only, whatever the
variant. An argument of interface type may be nil (`none`). `UpsertAt`, `Delete`, `Has`,
`GetNodeItem` and `GetLastWriteUnix` check for nil first; the loops of `UpsertManyAt` and
`DeleteMany` call `item.Key()` on each entry without that check, and a nil entry panics there
(`none` result; `upsertManyAt_eq_none_iff`).

Items are modelled as values: `SetExpirationTime` returns the updated record, and what the tree
stores does not change when the caller later touches the pointer it passed.

On runs whose batches have no nil entry, each call is the matching call on the `KeyMap` the tree
stands for (`exec_spec`, `run_eq_specRun_of_nilFree`).
-/

namespace MemoryStorage
namespace TtlItems

/-- The two implementations of `Item` in the package. -/
inductive Item
  | valueNodeItem (valueBytes keyBytes : Bytes) (timestampUnixSeconds : Int)
  | filterNodeItem (keyBytes : Bytes) (timestampUnixSeconds : Int)
deriving DecidableEq, Repr

namespace Item

/-- `Key()`. -/
def key : Item → Bytes
  | valueNodeItem _ keyBytes _ => keyBytes
  | filterNodeItem keyBytes _ => keyBytes

/-- `GetExpirationTime()`. -/
def getExpirationTime : Item → Int
  | valueNodeItem _ _ ts => ts
  | filterNodeItem _ ts => ts

/-- `SetExpirationTime(expiration)`: the record with its timestamp set to `expiration.Unix()`. -/
def setExpirationTime (it : Item) (expiration : Time) : Item :=
  match it with
  | valueNodeItem valueBytes keyBytes _ => valueNodeItem valueBytes keyBytes expiration.unix
  | filterNodeItem keyBytes _ => filterNodeItem keyBytes expiration.unix

@[simp] theorem key_setExpirationTime (it : Item) (t : Time) : (it.setExpirationTime t).key = it.key := by
  cases it <;> rfl

@[simp] theorem getExpirationTime_setExpirationTime (it : Item) (t : Time) :
    (it.setExpirationTime t).getExpirationTime = t.unix := by
  cases it <;> rfl

end Item

/-- `ByteKeyBTree`. The `now` source it keeps is read by no method. -/
structure ByteKeyBTree where
  tree : BTree Item.key

/-- `cloneBytes(src)`: `nil` for an empty slice, a copy otherwise. -/
def cloneBytes (src : Bytes) : Bytes := if List.length src = 0 then [] else src

@[simp] theorem cloneBytes_eq (src : Bytes) : cloneBytes src = src := by
  unfold cloneBytes
  split_ifs with h
  · exact (List.eq_nil_of_length_eq_zero h).symm
  · rfl

namespace ByteKeyBTree

/-- `NewByteKeyBTree(opts)` with `opts.Degree = degree`: a degree of 0 or less means 32, and
`btree.NewWithFreeList` panics on a degree of 1. -/
def newByteKeyBTree (degree : Int) : Option ByteKeyBTree :=
  let degree := if degree ≤ 0 then 32 else degree
  if degree ≤ 1 then none else some ⟨BTree.empty _⟩

/-- `UpsertAt(item, ts)`: the new tree, and whether the key was new. -/
def upsertAt (b : ByteKeyBTree) (item : Option Item) (ts : Time) : ByteKeyBTree × Bool :=
  match item with
  | none => (b, false)
  | some item =>
    if List.length item.key = 0 then (b, false)
    else
      let prev := b.tree.replaceOrInsert (item.setExpirationTime ts)
      (⟨prev.1⟩, prev.2.isNone)

/-- `UpsertManyAt(items, at)`: one write-locked loop; `none` once `item.Key()` meets a nil entry. -/
def upsertManyAt (b : ByteKeyBTree) (items : List (Option Item)) (atTime : Time) :
    Option (ByteKeyBTree × Nat) :=
  if items.length = 0 then some (b, 0)
  else
    items.foldlM (fun r item =>
      match item with
      | none => none
      | some item =>
        if List.length item.key = 0 then some r
        else
          let prev := r.1.tree.replaceOrInsert (item.setExpirationTime atTime)
          some (⟨prev.1⟩, if prev.2.isNone then r.2 + 1 else r.2)) (b, 0)

/-- `Delete(item)`: the new tree, and whether the key was there. -/
def delete (b : ByteKeyBTree) (item : Option Item) : ByteKeyBTree × Bool :=
  match item with
  | none => (b, false)
  | some item =>
    if List.length item.key = 0 then (b, false)
    else
      let r := b.tree.delete item.key
      (⟨r.1⟩, r.2.isSome)

/-- `DeleteMany(items)`: one write-locked loop; `none` once `item.Key()` meets a nil entry. -/
def deleteMany (b : ByteKeyBTree) (items : List (Option Item)) : Option (ByteKeyBTree × Nat) :=
  if items.length = 0 then some (b, 0)
  else
    items.foldlM (fun r item =>
      match item with
      | none => none
      | some item =>
        if List.length item.key = 0 then some r
        else
          let d := r.1.tree.delete item.key
          some (⟨d.1⟩, if d.2.isSome then r.2 + 1 else r.2)) (b, 0)

/-- `Has(item)`. -/
def has (b : ByteKeyBTree) (item : Option Item) : Bool :=
  match item with
  | none => false
  | some item => if List.length item.key = 0 then false else (b.tree.get item.key).isSome

/-- `GetNodeItem(item)`: the stored record with the item's key. -/
def getNodeItem (b : ByteKeyBTree) (item : Option Item) : Option Item × Bool :=
  match item with
  | none => (none, false)
  | some item =>
    if List.length item.key = 0 then (none, false)
    else
      match b.tree.get item.key with
      | none => (none, false)
      | some res => (some res, true)

/-- `GetLastWriteUnix(item)`: nil-checked, with no check of the key's length. -/
def getLastWriteUnix (b : ByteKeyBTree) (item : Option Item) : Int × Bool :=
  match item with
  | none => (0, false)
  | some item =>
    match b.tree.get item.key with
    | none => (0, false)
    | some res => (res.getExpirationTime, true)

/-- `ForEach(callback)`, for a callback whose captured variables are `σ`. -/
def forEach {σ : Type*} (b : ByteKeyBTree) (callback : Option (σ → Bytes → Int → σ × Bool))
    (init : σ) : Except String σ :=
  match callback with
  | none => .error "nil callback"
  | some callback =>
    .ok (b.tree.ascend (fun s it => callback s (cloneBytes it.key) it.getExpirationTime) init)

/-- `Size()`. -/
def size (b : ByteKeyBTree) : Nat := b.tree.len

/-- `Reset()`. -/
def reset (_ : ByteKeyBTree) : ByteKeyBTree := ⟨BTree.empty _⟩

/-- The read-locked scan of `PurgeExpiredAt` and of `ListExpiredAt`: the stored items last written at
or before `cutoff`, in key order, stopping after `maxCount` of them when `maxCount > 0`. -/
def scanExpired (b : ByteKeyBTree) (cutoff maxCount : Int) : List Item :=
  b.tree.ascend (expiredVisit Item.getExpirationTime id cutoff maxCount) []

/-- The write-locked delete loop of `PurgeExpiredAt`: `tree.Delete(item)` deletes by key. -/
def purgeDelete (b : ByteKeyBTree) (itemsToDelete : List Item) : ByteKeyBTree × Nat :=
  let r := BTree.deleteEach (b.tree, 0) (itemsToDelete.map Item.key)
  (⟨r.1⟩, r.2)

/-- `PurgeExpiredAt(now, ttl, maxToDelete)` run alone: the scan, then the delete loop. -/
def purgeExpiredAt (b : ByteKeyBTree) (now : Time) (ttl : Duration) (maxToDelete : Int) :
    ByteKeyBTree × Nat :=
  if ttl.toInt ≤ 0 then (b, 0)
  else
    let itemsToDelete := b.scanExpired (cutoffUnix now ttl) maxToDelete
    if itemsToDelete.length = 0 then (b, 0) else b.purgeDelete itemsToDelete

/-- `ListExpiredAt(now, ttl, maxCount)`: the stored records themselves. Go returns nil for
`ttl <= 0` and an empty non-nil slice when nothing has expired; both are `[]` here. -/
def listExpiredAt (b : ByteKeyBTree) (now : Time) (ttl : Duration) (maxCount : Int) : List Item :=
  if ttl.toInt ≤ 0 then [] else b.scanExpired (cutoffUnix now ttl) maxCount

/-- The map a tree stands for: each key to its record. -/
def toKeyMap (b : ByteKeyBTree) : KeyMap Item := b.tree.toFinmap

end ByteKeyBTree

/-! ### The calls on the map -/

/-- `UpsertAt` on the map: a nil item or an empty key changes nothing and answers `false`. -/
def mapUpsertAt (M : KeyMap Item) (item : Option Item) (ts : Time) : KeyMap Item × Bool :=
  match item with
  | none => (M, false)
  | some item =>
    if List.length item.key = 0 then (M, false)
    else KeyMap.upsert Item.key M (item.setExpirationTime ts)

/-- `Delete` on the map: a nil item or an empty key changes nothing and answers `false`. -/
def mapDelete (M : KeyMap Item) (item : Option Item) : KeyMap Item × Bool :=
  match item with
  | none => (M, false)
  | some item => if List.length item.key = 0 then (M, false) else KeyMap.erase M item.key

/-- The records `PurgeExpiredAt` and `ListExpiredAt` select from the map. -/
def mapExpired (M : KeyMap Item) (now : Time) (ttl : Duration) (n : Int) : List Item :=
  if ttl.toInt ≤ 0 then [] else KeyMap.expired Item.getExpirationTime M (cutoffUnix now ttl) n

/-- The calls of a run. `ForEach` is left to `forEach_eq`: its callback is a closure. -/
inductive Op
  | upsertAt (item : Option Item) (ts : Time)
  | upsertManyAt (items : List (Option Item)) (atTime : Time)
  | delete (item : Option Item)
  | deleteMany (items : List (Option Item))
  | has (item : Option Item)
  | getNodeItem (item : Option Item)
  | getLastWriteUnix (item : Option Item)
  | size
  | reset
  | purgeExpiredAt (now : Time) (ttl : Duration) (maxToDelete : Int)
  | listExpiredAt (now : Time) (ttl : Duration) (maxCount : Int)

/-- A call whose batch, if it has one, has no nil entry. -/
def Op.NilFree : Op → Prop
  | .upsertManyAt items _ => none ∉ items
  | .deleteMany items => none ∉ items
  | _ => True

/-- What a call returns. -/
inductive Reply
  | bool (b : Bool)
  | count (n : Nat)
  | nodeItem (it : Option Item) (ok : Bool)
  | lastWrite (ts : Int) (ok : Bool)
  | items (its : List Item)
  | unit
deriving DecidableEq

/-- A call on the map: what the index is for. Batches are folds of single calls; a purge erases
the records it selects. -/
def Op.spec (M : KeyMap Item) : Op → KeyMap Item × Reply
  | .upsertAt item ts => let r := mapUpsertAt M item ts; (r.1, .bool r.2)
  | .upsertManyAt items atTime =>
    let r := foldCount (fun M it => mapUpsertAt M it atTime) M items; (r.1, .count r.2)
  | .delete item => let r := mapDelete M item; (r.1, .bool r.2)
  | .deleteMany items => let r := foldCount mapDelete M items; (r.1, .count r.2)
  | .has item => (M, .bool (item.elim false fun it => decide (List.length it.key ≠ 0 ∧ it.key ∈ M)))
  | .getNodeItem item =>
    (M, item.elim (.nodeItem none false) fun it =>
      if List.length it.key = 0 then .nodeItem none false
      else (M.lookup it.key).elim (.nodeItem none false) fun res => .nodeItem (some res) true)
  | .getLastWriteUnix item =>
    (M, item.elim (.lastWrite 0 false) fun it =>
      (M.lookup it.key).elim (.lastWrite 0 false) fun res => .lastWrite res.getExpirationTime true)
  | .size => (M, .count M.keys.card)
  | .reset => (∅, .unit)
  | .purgeExpiredAt now ttl n =>
    let E := mapExpired M now ttl n
    ((E.map Item.key).foldl (fun M k => Finmap.erase k M) M, .count E.length)
  | .listExpiredAt now ttl n => (M, .items (mapExpired M now ttl n))

/-- The calls of `ops` one after another on the map: the last map and the replies. -/
def Op.specRun (M : KeyMap Item) (ops : List Op) : KeyMap Item × List Reply :=
  ops.foldl (fun r op => ((Op.spec r.1 op).1, r.2 ++ [(Op.spec r.1 op).2])) (M, [])

namespace ByteKeyBTree

/-- One call; `none` when it panics. -/
def exec (b : ByteKeyBTree) : Op → Option (ByteKeyBTree × Reply)
  | .upsertAt item ts => let r := b.upsertAt item ts; some (r.1, .bool r.2)
  | .upsertManyAt items atTime => (b.upsertManyAt items atTime).map fun r => (r.1, .count r.2)
  | .delete item => let r := b.delete item; some (r.1, .bool r.2)
  | .deleteMany items => (b.deleteMany items).map fun r => (r.1, .count r.2)
  | .has item => some (b, .bool (b.has item))
  | .getNodeItem item => let r := b.getNodeItem item; some (b, .nodeItem r.1 r.2)
  | .getLastWriteUnix item => let r := b.getLastWriteUnix item; some (b, .lastWrite r.1 r.2)
  | .size => some (b, .count b.size)
  | .reset => some (b.reset, .unit)
  | .purgeExpiredAt now ttl n => let r := b.purgeExpiredAt now ttl n; some (r.1, .count r.2)
  | .listExpiredAt now ttl n => some (b, .items (b.listExpiredAt now ttl n))

/-- The calls of `ops` one after another: the last tree and the replies; `none` once a call
panics. -/
def run (b : ByteKeyBTree) (ops : List Op) : Option (ByteKeyBTree × List Reply) :=
  ops.foldlM (fun r op => (r.1.exec op).map fun s => (s.1, r.2 ++ [s.2])) (b, [])

/-! ### The batch loops -/

variable (b : ByteKeyBTree)

/-- The body of `UpsertManyAt`'s loop on an entry that is there. -/
theorem upsertManyAt_loop (atTime : Time) :
    (fun (r : ByteKeyBTree × Nat) (item : Option Item) =>
      match item with
      | none => none
      | some item =>
        if List.length item.key = 0 then some r
        else
          let prev := r.1.tree.replaceOrInsert (item.setExpirationTime atTime)
          some ((⟨prev.1⟩ : ByteKeyBTree), if prev.2.isNone then r.2 + 1 else r.2)) =
      fun r item => item.map fun item =>
        ((r.1.upsertAt (some item) atTime).1,
          if (r.1.upsertAt (some item) atTime).2 then r.2 + 1 else r.2) := by
  funext r item
  cases item with
  | none => rfl
  | some item => by_cases hk : item.key = [] <;> simp [upsertAt, hk]

theorem deleteMany_loop :
    (fun (r : ByteKeyBTree × Nat) (item : Option Item) =>
      match item with
      | none => none
      | some item =>
        if List.length item.key = 0 then some r
        else
          let d := r.1.tree.delete item.key
          some ((⟨d.1⟩ : ByteKeyBTree), if d.2.isSome then r.2 + 1 else r.2)) =
      fun r item => item.map fun item =>
        ((r.1.delete (some item)).1, if (r.1.delete (some item)).2 then r.2 + 1 else r.2) := by
  funext r item
  cases item with
  | none => rfl
  | some item => by_cases hk : item.key = [] <;> simp [delete, hk]

/-- `UpsertManyAt` panics exactly on a batch with a nil entry. -/
theorem upsertManyAt_eq_none_iff (items : List (Option Item)) (atTime : Time) :
    b.upsertManyAt items atTime = none ↔ none ∈ items := by
  unfold upsertManyAt
  split_ifs with h
  · simp [List.eq_nil_of_length_eq_zero h]
  · rw [upsertManyAt_loop, foldlM_map_eq_none_iff]

/-- `DeleteMany` panics exactly on a batch with a nil entry. -/
theorem deleteMany_eq_none_iff (items : List (Option Item)) :
    b.deleteMany items = none ↔ none ∈ items := by
  unfold deleteMany
  split_ifs with h
  · simp [List.eq_nil_of_length_eq_zero h]
  · rw [deleteMany_loop, foldlM_map_eq_none_iff]

/-- On a batch with no nil entry `UpsertManyAt` is the left fold of `UpsertAt`, counting the calls
that answer `true`. -/
theorem upsertManyAt_eq_of_not_mem {items : List (Option Item)} (h : none ∉ items) (atTime : Time) :
    b.upsertManyAt items atTime = some (foldCount (fun b it => b.upsertAt it atTime) b items) := by
  unfold upsertManyAt foldCount
  split_ifs with hl
  · rw [List.eq_nil_of_length_eq_zero hl]; rfl
  · rw [upsertManyAt_loop]
    refine foldlM_map_of_not_mem (fun _ _ => ?_) _ h
    rfl

theorem deleteMany_eq_of_not_mem {items : List (Option Item)} (h : none ∉ items) :
    b.deleteMany items = some (foldCount (fun b it => b.delete it) b items) := by
  unfold deleteMany foldCount
  split_ifs with hl
  · rw [List.eq_nil_of_length_eq_zero hl]; rfl
  · rw [deleteMany_loop]
    refine foldlM_map_of_not_mem (fun _ _ => ?_) _ h
    rfl

/-- A nil entry makes a batch call panic where the fold of single calls skips it: `UpsertManyAt`
is not the fold of `UpsertAt`, nor `DeleteMany` the fold of `Delete`, on the batch `[nil]`. -/
theorem batch_nil_entry_unlike_fold (atTime : Time) :
    b.upsertManyAt [none] atTime = none ∧
      foldCount (fun b it => b.upsertAt it atTime) b [none] = (b, 0) ∧
    b.deleteMany [none] = none ∧ foldCount (fun b it => b.delete it) b [none] = (b, 0) :=
  ⟨(upsertManyAt_eq_none_iff b _ _).2 (List.mem_singleton_self _), rfl,
    (deleteMany_eq_none_iff b _).2 (List.mem_singleton_self _), rfl⟩

/-- A batch call panics exactly when the batch has a nil entry, while the same batch with its nil
entries removed never panics. -/
theorem batch_panics_iff_nil_entry (items : List (Option Item)) (atTime : Time) :
    (b.upsertManyAt items atTime = none ↔ none ∈ items) ∧
      (b.upsertManyAt (items.filter Option.isSome) atTime).isSome ∧
    (b.deleteMany items = none ↔ none ∈ items) ∧
      (b.deleteMany (items.filter Option.isSome)).isSome := by
  have hnil : none ∉ items.filter Option.isSome := by simp
  refine ⟨upsertManyAt_eq_none_iff b _ _, ?_, deleteMany_eq_none_iff b _, ?_⟩
  · rw [upsertManyAt_eq_of_not_mem b hnil]; rfl
  · rw [deleteMany_eq_of_not_mem b hnil]; rfl

/-- An upsert touches only the key of its item. -/
theorem get_upsertAt_of_ne {item : Option Item} {k : Bytes} (h : ∀ it ∈ item, it.key ≠ k)
    (ts : Time) : (b.upsertAt item ts).1.tree.get k = b.tree.get k := by
  cases item with
  | none => rfl
  | some it =>
    dsimp only [upsertAt]
    split_ifs
    · rfl
    · simp [h it rfl]

theorem get_upsertManyAt_of_not_mem {items : List (Option Item)} {k : Bytes} {atTime : Time}
    {r : ByteKeyBTree × Nat} (hr : b.upsertManyAt items atTime = some r)
    (hk : ∀ it, some it ∈ items → it.key ≠ k) : r.1.tree.get k = b.tree.get k := by
  have hnil : none ∉ items := fun h => by simp [(upsertManyAt_eq_none_iff b items atTime).2 h] at hr
  rw [upsertManyAt_eq_of_not_mem b hnil, Option.some_inj] at hr
  rw [← hr, foldCount_fst]
  clear hr hnil
  induction items generalizing b with
  | nil => rfl
  | cons item items ih =>
    rw [List.foldl_cons, ih _ fun it h => hk it (List.mem_cons_of_mem _ h),
      get_upsertAt_of_ne _ fun it h => hk it (h ▸ List.mem_cons_self _ _)]

/-! ### Each call is the call on the map -/

theorem upsertAt_spec (item : Option Item) (ts : Time) :
    ((b.upsertAt item ts).1.toKeyMap, (b.upsertAt item ts).2) = mapUpsertAt b.toKeyMap item ts := by
  cases item with
  | none => rfl
  | some item =>
    dsimp only [upsertAt, mapUpsertAt]
    split_ifs
    · rfl
    · simpa using BTree.toFinmap_replaceOrInsert_eq_upsert b.tree (item.setExpirationTime ts)

theorem delete_spec (item : Option Item) :
    ((b.delete item).1.toKeyMap, (b.delete item).2) = mapDelete b.toKeyMap item := by
  cases item with
  | none => rfl
  | some item =>
    dsimp only [delete, mapDelete]
    split_ifs
    · rfl
    · exact BTree.toFinmap_delete_eq_erase b.tree item.key

theorem scanExpired_eq (cutoff maxCount : Int) :
    b.scanExpired cutoff maxCount =
      KeyMap.expired Item.getExpirationTime b.toKeyMap cutoff maxCount := by
  rw [scanExpired, BTree.ascend, ascendList_expiredVisit, KeyMap.expired, toKeyMap,
    BTree.records_toFinmap, List.map_id]

theorem listExpiredAt_eq (now : Time) (ttl : Duration) (maxCount : Int) :
    b.listExpiredAt now ttl maxCount = mapExpired b.toKeyMap now ttl maxCount := by
  unfold listExpiredAt mapExpired
  split_ifs
  · rfl
  · exact scanExpired_eq b _ _

theorem mem_expired {cutoff n : Int} {it : Item}
    (h : it ∈ KeyMap.expired Item.getExpirationTime b.toKeyMap cutoff n) :
    it ∈ b.tree.items ∧ it.getExpirationTime ≤ cutoff := by
  rw [KeyMap.expired, toKeyMap, BTree.records_toFinmap] at h
  simpa using mem_takeLimit_filter h

theorem nodup_expired_keys (cutoff n : Int) :
    ((KeyMap.expired Item.getExpirationTime b.toKeyMap cutoff n).map Item.key).Nodup := by
  rw [KeyMap.expired, toKeyMap, BTree.records_toFinmap]
  exact (List.pairwise_map.2 (b.tree.sorted.sublist
    ((takeLimit_sublist _ _).trans (List.filter_sublist _)))).nodup

/-- Run alone, `PurgeExpiredAt` removes exactly the keys of the selected records and counts each. -/
theorem purgeExpiredAt_eq (now : Time) (ttl : Duration) (n : Int) :
    (b.purgeExpiredAt now ttl n).1.tree.items =
        b.tree.items.filter (fun it => it.key ∉ (mapExpired b.toKeyMap now ttl n).map Item.key) ∧
      (b.purgeExpiredAt now ttl n).2 = (mapExpired b.toKeyMap now ttl n).length := by
  unfold purgeExpiredAt mapExpired
  by_cases httl : ttl.toInt ≤ 0
  · simp [httl]
  simp only [httl, if_false, scanExpired_eq]
  split_ifs with hlen
  · simp [List.eq_nil_of_length_eq_zero hlen]
  · obtain ⟨hitems, hcount⟩ := BTree.deleteEach_of_nodup b.tree 0
      (nodup_expired_keys b (cutoffUnix now ttl) n) fun k hk => by
        obtain ⟨it, hit, rfl⟩ := List.mem_map.1 hk
        simp [BTree.get_key (mem_expired b hit).1]
    exact ⟨hitems, hcount.trans (by simp)⟩

theorem purgeExpiredAt_spec (now : Time) (ttl : Duration) (n : Int) :
    (b.purgeExpiredAt now ttl n).1.toKeyMap =
      ((mapExpired b.toKeyMap now ttl n).map Item.key).foldl (fun M k => Finmap.erase k M)
        b.toKeyMap := by
  unfold purgeExpiredAt mapExpired
  by_cases httl : ttl.toInt ≤ 0
  · simp [httl]
  simp only [httl, if_false, scanExpired_eq]
  split_ifs with hlen
  · simp [List.eq_nil_of_length_eq_zero hlen]
  · exact BTree.toFinmap_deleteEach _ _

/-- `ForEach` hands the callback the map's records in ascending key order, and stops after the
first call that answers `false`. -/
theorem forEach_eq {σ : Type*} (callback : σ → Bytes → Int → σ × Bool) (init : σ) :
    b.forEach (some callback) init =
      .ok (ascendList (fun s it => callback s it.key it.getExpirationTime) init
        (KeyMap.records b.toKeyMap)) := by
  simp [forEach, BTree.ascend, toKeyMap, BTree.records_toFinmap]

/-- One call that does not panic on a nil batch entry is the same call on the map. -/
theorem exec_spec (op : Op) (h : op.NilFree) :
    (b.exec op).map (fun r => (r.1.toKeyMap, r.2)) = some (op.spec b.toKeyMap) := by
  cases op with
  | upsertAt item ts => simp only [exec, Op.spec, ← upsertAt_spec, Option.map_some']
  | upsertManyAt items atTime =>
    simp only [exec, Op.spec, upsertManyAt_eq_of_not_mem b h, Option.map_some']
    rw [← foldCount_hom toKeyMap _ (fun M it => mapUpsertAt M it atTime)
      fun b it => upsertAt_spec b it atTime]
  | delete item => simp only [exec, Op.spec, ← delete_spec, Option.map_some']
  | deleteMany items =>
    simp only [exec, Op.spec, deleteMany_eq_of_not_mem b h, Option.map_some']
    rw [← foldCount_hom toKeyMap _ mapDelete delete_spec]
  | has item =>
    cases item with
    | none => rfl
    | some it =>
      simp only [exec, Op.spec, has, toKeyMap, Option.map_some', Option.elim]
      by_cases hk : List.length it.key = 0
      · simp [hk]
      · simp [hk, ← Finmap.lookup_isSome, BTree.lookup_toFinmap]
  | getNodeItem item =>
    cases item with
    | none => rfl
    | some it =>
      simp only [exec, Op.spec, getNodeItem, toKeyMap, Option.map_some', Option.elim,
        BTree.lookup_toFinmap]
      split_ifs
      · rfl
      · cases b.tree.get it.key <;> rfl
  | getLastWriteUnix item =>
    cases item with
    | none => rfl
    | some it =>
      simp only [exec, Op.spec, getLastWriteUnix, toKeyMap, Option.map_some', Option.elim,
        BTree.lookup_toFinmap]
      cases b.tree.get it.key <;> rfl
  | size => simp only [exec, Op.spec, size, toKeyMap, BTree.card_keys_toFinmap, Option.map_some']
  | reset =>
    simp only [exec, Op.spec, reset, toKeyMap, Option.map_some']
    exact congrArg (fun M => some (M, Reply.unit))
      (Finmap.ext_lookup fun k => by simp [BTree.lookup_toFinmap])
  | purgeExpiredAt now ttl n =>
    simp only [exec, Op.spec, purgeExpiredAt_spec, (purgeExpiredAt_eq b now ttl n).2,
      Option.map_some']
  | listExpiredAt now ttl n => simp only [exec, Op.spec, listExpiredAt_eq, Option.map_some']

/-- Every run whose batches have no nil entry completes, answers as the same run on the map, and
ends on the map of its last tree. -/
theorem run_eq_specRun_of_nilFree (ops : List Op) (h : ∀ op ∈ ops, op.NilFree) :
    (b.run ops).map (fun r => (r.1.toKeyMap, r.2)) = some (Op.specRun b.toKeyMap ops) := by
  unfold run Op.specRun
  generalize hr : ((b, []) : ByteKeyBTree × List Reply) = r
  have hM : ((b.toKeyMap, []) : KeyMap Item × List Reply) = (r.1.toKeyMap, r.2) := by
    rw [← hr]
  rw [hM]
  clear hr hM
  induction ops generalizing r with
  | nil => rfl
  | cons op ops ih =>
    have hop := exec_spec r.1 op (h op (List.mem_cons_self _ _))
    obtain ⟨s, hs, hss⟩ := Option.map_eq_some'.1 hop
    simp only [List.foldlM_cons, List.foldl_cons, hs, Option.map_some', Option.some_bind, ← hss]
    exact ih (fun op hop => h op (List.mem_cons_of_mem _ hop)) _

/-- A batch of two values; a `FilterNodeItem` with the first key, which replaces the stored
`ValueNodeItem`; a third value written early; a batch delete of the second key; and a purge with
cutoff 40, which removes the third key and keeps the first, rewritten at 50. -/
def replaceOps : List Op :=
  [.upsertManyAt [some (.valueNodeItem [7] [1] 0), some (.valueNodeItem [8] [2] 0)] (Time.ofUnix 5),
    .upsertAt (some (.filterNodeItem [1] 0)) (Time.ofUnix 50),
    .upsertAt (some (.valueNodeItem [9] [3] 0)) (Time.ofUnix 10),
    .deleteMany [some (.filterNodeItem [2] 0)],
    .purgeExpiredAt (Time.ofUnix 100) 60000000000 0]

theorem run_eq_specRun_replaceOps :
    (∀ op ∈ replaceOps, op.NilFree) ∧
      ((⟨BTree.empty _⟩ : ByteKeyBTree).run replaceOps).map (fun r => (r.1.toKeyMap, r.2)) =
        some (Op.specRun (⟨BTree.empty _⟩ : ByteKeyBTree).toKeyMap replaceOps) :=
  have h : ∀ op ∈ replaceOps, op.NilFree := by
    simp only [replaceOps, List.forall_mem_cons]
    exact ⟨by simp [Op.NilFree], trivial, trivial, by simp [Op.NilFree], trivial,
      fun _ h => absurd h (List.not_mem_nil _)⟩
  ⟨h, run_eq_specRun_of_nilFree _ _ h⟩

/-- The run keeps only the filter item, stamped at 50. -/
example : ((⟨BTree.empty _⟩ : ByteKeyBTree).run replaceOps).map (fun r => (r.1.tree.items, r.2)) =
    some ([.filterNodeItem [1] 50], [.count 2, .bool false, .bool true, .count 1, .count 1]) := by
  decide

end ByteKeyBTree

end TtlItems
end MemoryStorage
