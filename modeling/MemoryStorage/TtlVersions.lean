import MemoryStorage.TtlKeys
import MemoryStorage.TtlItems

/-!
# The two versions of `ByteKeyBTree`

The first version keeps `nodeItem`s, a key and a timestamp; the second keeps the caller's `Item`s,
which may carry a value as well. Both order items by key alone and run the same loops, so the second
with its values forgotten (`toKeys`) should be the first, called with the keys of its arguments
(`Op.toKeys`): `GetNodeItem` then answers as `Has`, and `ListExpiredAt` gives the keys of the records
it lists (`Reply.toKeys`).

A nil argument is refused as the empty key is, except by `GetLastWriteUnix`, which looks the empty
key up; no tree holds it, since every upsert refuses it (`exec_get_nil`). On those trees, every run
whose batches have no nil entry is, call for call, the same run on the first version
(`run_toKeys`).
-/

namespace MemoryStorage

/-! ### Trees of images -/

namespace BTree
variable {K α β : Type*} [LinearOrder K] {key : α → K} {key' : β → K}
  (f : α → β) (hf : ∀ a, key' (f a) = key a)

/-- The tree of the images `f x` of the items, for an `f` that keeps each item's key. -/
def map (t : BTree key) : BTree key' :=
  ⟨t.items.map f, List.pairwise_map.2 (by simpa only [hf] using t.sorted)⟩

@[simp] theorem items_map (t : BTree key) : (t.map f hf).items = t.items.map f := rfl

theorem get_map (t : BTree key) (k : K) : (t.map f hf).get k = (t.get k).map f := by
  simp [get, findKey, List.find?_map, Function.comp_def, hf]

include hf in
theorem insertItem_map (x : α) (l : List α) :
    insertItem key' (f x) (l.map f) = (insertItem key x l).map f := by
  induction l with
  | nil => rfl
  | cons y ys ih =>
    simp only [insertItem, List.map_cons, hf]
    split_ifs <;> simp only [List.map_cons, ih]

theorem replaceOrInsert_map (t : BTree key) (x : α) :
    (t.map f hf).replaceOrInsert (f x) =
      ((t.replaceOrInsert x).1.map f hf, (t.replaceOrInsert x).2.map f) := by
  rw [replaceOrInsert, replaceOrInsert, get_map f hf, hf]
  simp only [map, insertItem_map f hf]

theorem delete_map (t : BTree key) (k : K) :
    (t.map f hf).delete k = ((t.delete k).1.map f hf, (t.delete k).2.map f) := by
  rw [delete, delete, get_map f hf]
  simp [map, List.filter_map, Function.comp_def, hf]

theorem deleteEach_map (t : BTree key) (n : Nat) (ks : List K) :
    deleteEach (t.map f hf, n) ks =
      ((deleteEach (t, n) ks).1.map f hf, (deleteEach (t, n) ks).2) := by
  induction ks generalizing t n with
  | nil => rfl
  | cons k ks ih =>
    rw [deleteEach, List.foldl_cons, ← deleteEach, delete_map]
    dsimp only
    rw [Option.isSome_map', ih]
    rfl

end BTree

theorem takeLimit_map {β γ : Type*} (f : β → γ) (n : Int) (l : List β) :
    takeLimit n (l.map f) = (takeLimit n l).map f := by
  unfold takeLimit
  split_ifs <;> simp [List.map_take]

namespace TtlItems

/-- The `nodeItem` of the first version that an `Item` stands for: its key and its timestamp. -/
def Item.toNodeItem (it : Item) : TtlKeys.NodeItem := ⟨it.key, it.getExpirationTime⟩

/-- The key an argument of interface type passes on: a nil item is refused as the empty key is. -/
def keyOf : Option Item → Bytes
  | none => []
  | some it => it.key

/-- The call of the first version with the keys of the arguments; `GetNodeItem` becomes `Has`. -/
def Op.toKeys : Op → TtlKeys.Op
  | .upsertAt item ts => .upsertAt (keyOf item) ts
  | .upsertManyAt items atTime => .upsertManyAt (items.map keyOf) atTime
  | .delete item => .delete (keyOf item)
  | .deleteMany items => .deleteMany (items.map keyOf)
  | .has item => .has (keyOf item)
  | .getNodeItem item => .has (keyOf item)
  | .getLastWriteUnix item => .getLastWriteUnix (keyOf item)
  | .size => .size
  | .reset => .reset
  | .purgeExpiredAt now ttl n => .purgeExpiredAt now ttl n
  | .listExpiredAt now ttl n => .listExpiredAt now ttl n

/-- A reply with the records forgotten: their keys, or only whether one was found. -/
def Reply.toKeys : Reply → TtlKeys.Reply
  | .bool b => .bool b
  | .count n => .count n
  | .nodeItem _ ok => .bool ok
  | .lastWrite ts ok => .lastWrite ts ok
  | .items its => .keys (its.map Item.key)
  | .unit => .unit

namespace ByteKeyBTree

/-- The tree of the first version a tree of `Item`s stands for: the values forgotten. -/
def toKeys (b : ByteKeyBTree) : TtlKeys.ByteKeyBTree := ⟨b.tree.map Item.toNodeItem fun _ => rfl⟩

variable (b : ByteKeyBTree)

@[simp] theorem get_toKeys (k : Bytes) : b.toKeys.tree.get k = (b.tree.get k).map Item.toNodeItem :=
  BTree.get_map Item.toNodeItem (fun it => (rfl : it.toNodeItem.keyBytes = it.key)) b.tree k

/-! ### Each call is the call of the first version -/

theorem upsertAt_toKeys (item : Option Item) (ts : Time) :
    ((b.upsertAt item ts).1.toKeys, (b.upsertAt item ts).2) = b.toKeys.upsertAt (keyOf item) ts := by
  cases item with
  | none => rfl
  | some it =>
    dsimp only [upsertAt, TtlKeys.ByteKeyBTree.upsertAt, keyOf]
    split_ifs
    · rfl
    · have hx : (⟨TtlKeys.cloneBytes it.key, ts.unix⟩ : TtlKeys.NodeItem) =
          (it.setExpirationTime ts).toNodeItem := by simp [Item.toNodeItem]
      simp only [toKeys, hx, BTree.replaceOrInsert_map, Option.isNone_map']

theorem delete_toKeys (item : Option Item) :
    ((b.delete item).1.toKeys, (b.delete item).2) = b.toKeys.delete (keyOf item) := by
  cases item with
  | none => rfl
  | some it =>
    dsimp only [delete, TtlKeys.ByteKeyBTree.delete, keyOf]
    split_ifs
    · rfl
    · simp only [toKeys, BTree.delete_map, Option.isSome_map']

theorem foldCount_map {σ γ δ : Type*} (g : σ → δ → σ × Bool) (h : γ → δ) (s : σ)
    (l : List γ) :
    foldCount g s (l.map h) = foldCount (fun s x => g s (h x)) s l := by
  rw [foldCount, foldCount, List.foldl_map]

theorem upsertManyAt_toKeys {items : List (Option Item)} (h : none ∉ items) (atTime : Time) :
    (b.upsertManyAt items atTime).map (fun r => (r.1.toKeys, r.2)) =
      some (b.toKeys.upsertManyAt (items.map keyOf) atTime) := by
  rw [upsertManyAt_eq_of_not_mem b h, TtlKeys.ByteKeyBTree.upsertManyAt_eq, foldCount_map,
    Option.map_some', foldCount_hom toKeys _ (fun s x => s.upsertAt (keyOf x) atTime)
      fun b it => upsertAt_toKeys b it atTime]

theorem deleteMany_toKeys {items : List (Option Item)} (h : none ∉ items) :
    (b.deleteMany items).map (fun r => (r.1.toKeys, r.2)) =
      some (b.toKeys.deleteMany (items.map keyOf)) := by
  rw [deleteMany_eq_of_not_mem b h, TtlKeys.ByteKeyBTree.deleteMany_eq, foldCount_map,
    Option.map_some', foldCount_hom toKeys _ (fun s x => s.delete (keyOf x))
      fun b it => delete_toKeys b it]

theorem has_toKeys (item : Option Item) : b.has item = b.toKeys.has (keyOf item) := by
  cases item with
  | none => rfl
  | some it => simp [has, TtlKeys.ByteKeyBTree.has, keyOf]

theorem getNodeItem_toKeys (item : Option Item) :
    (b.getNodeItem item).2 = b.toKeys.has (keyOf item) := by
  cases item with
  | none => rfl
  | some it =>
    dsimp only [getNodeItem, TtlKeys.ByteKeyBTree.has, keyOf]
    split_ifs
    · rfl
    · rw [get_toKeys]; cases b.tree.get it.key <;> rfl

/-- The one call that tells a nil item from the empty key, on a tree that does not hold it. -/
theorem getLastWriteUnix_toKeys (hb : b.tree.get [] = none) (item : Option Item) :
    b.getLastWriteUnix item = b.toKeys.getLastWriteUnix (keyOf item) := by
  cases item with
  | none => simp [getLastWriteUnix, TtlKeys.ByteKeyBTree.getLastWriteUnix, keyOf, hb]
  | some it =>
    simp only [getLastWriteUnix, TtlKeys.ByteKeyBTree.getLastWriteUnix, keyOf, get_toKeys]
    cases b.tree.get it.key <;> rfl

theorem scanExpired_toKeys (cutoff n : Int) :
    b.toKeys.scanExpired cutoff n = (b.scanExpired cutoff n).map Item.key := by
  simp [scanExpired, TtlKeys.ByteKeyBTree.scanExpired, BTree.ascend, toKeys, ascendList_expiredVisit,
    List.filter_map, takeLimit_map, Function.comp_def, Item.toNodeItem]

theorem purgeExpiredAt_toKeys (now : Time) (ttl : Duration) (n : Int) :
    ((b.purgeExpiredAt now ttl n).1.toKeys, (b.purgeExpiredAt now ttl n).2) =
      b.toKeys.purgeExpiredAt now ttl n := by
  unfold purgeExpiredAt TtlKeys.ByteKeyBTree.purgeExpiredAt
  by_cases httl : ttl.toInt ≤ 0
  · simp only [httl, if_true]
  simp only [httl, if_false, scanExpired_toKeys, List.length_map]
  split_ifs
  · rfl
  · simp only [purgeDelete, TtlKeys.ByteKeyBTree.purgeDelete, toKeys, BTree.deleteEach_map]

theorem listExpiredAt_toKeys (now : Time) (ttl : Duration) (n : Int) :
    (b.listExpiredAt now ttl n).map Item.key = b.toKeys.listExpiredAt now ttl n := by
  unfold listExpiredAt TtlKeys.ByteKeyBTree.listExpiredAt
  split_ifs
  · rfl
  · exact (scanExpired_toKeys b _ _).symm

/-! ### Runs -/

theorem get_nil_upsertAt (item : Option Item) (ts : Time) :
    (b.upsertAt item ts).1.tree.get [] = b.tree.get [] := by
  cases item with
  | none => rfl
  | some it =>
    dsimp only [upsertAt]
    split_ifs with h
    · rfl
    · simp [(List.length_eq_zero.not).1 h]

theorem get_nil_delete (item : Option Item) : (b.delete item).1.tree.get [] = b.tree.get [] := by
  cases item with
  | none => rfl
  | some it =>
    dsimp only [delete]
    split_ifs with h
    · rfl
    · simp [Ne.symm ((List.length_eq_zero.not).1 h)]

theorem get_nil_foldCount {g : ByteKeyBTree → Option Item → ByteKeyBTree × Bool}
    (hg : ∀ b x, (g b x).1.tree.get [] = b.tree.get []) (l : List (Option Item)) :
    (foldCount g b l).1.tree.get [] = b.tree.get [] := by
  rw [foldCount_fst]
  induction l generalizing b with
  | nil => rfl
  | cons x xs ih => rw [List.foldl_cons, ih, hg]

/-- No call stores the empty key: the upserts refuse it, and the other calls only remove keys. -/
theorem exec_get_nil (hb : b.tree.get [] = none) {op : Op} (hop : op.NilFree)
    {r : ByteKeyBTree × Reply} (h : b.exec op = some r) : r.1.tree.get [] = none := by
  cases op with
  | upsertAt item ts => cases h; rw [get_nil_upsertAt, hb]
  | upsertManyAt items atTime =>
    simp only [exec, upsertManyAt_eq_of_not_mem b hop, Option.map_some', Option.some_inj] at h
    rw [← h, get_nil_foldCount b fun b it => get_nil_upsertAt b it atTime, hb]
  | delete item => cases h; rw [get_nil_delete, hb]
  | deleteMany items =>
    simp only [exec, deleteMany_eq_of_not_mem b hop, Option.map_some', Option.some_inj] at h
    rw [← h, get_nil_foldCount b fun b it => get_nil_delete b it, hb]
  | reset => cases h; rfl
  | purgeExpiredAt now ttl n =>
    cases h
    simp only [purgeExpiredAt, purgeDelete]
    split_ifs <;> simp [BTree.get_deleteEach, hb]
  | has | getNodeItem | getLastWriteUnix | size | listExpiredAt => cases h; exact hb

/-- One call of the second version, on a tree that does not hold the empty key, is with the values
forgotten the same call of the first version on the keys of its arguments. -/
theorem exec_toKeys (hb : b.tree.get [] = none) (op : Op) (hop : op.NilFree) :
    (b.exec op).map (fun r => (r.1.toKeys, r.2.toKeys)) = some (b.toKeys.exec op.toKeys) := by
  cases op with
  | upsertAt item ts =>
    simp only [exec, Op.toKeys, TtlKeys.ByteKeyBTree.exec, ← upsertAt_toKeys, Option.map_some']
    rfl
  | upsertManyAt items atTime =>
    obtain ⟨r, hr, hrk⟩ := Option.map_eq_some'.1 (upsertManyAt_toKeys b hop atTime)
    simp only [exec, Op.toKeys, TtlKeys.ByteKeyBTree.exec, hr, ← hrk, Option.map_some']; rfl
  | delete item =>
    simp only [exec, Op.toKeys, TtlKeys.ByteKeyBTree.exec, ← delete_toKeys, Option.map_some']; rfl
  | deleteMany items =>
    obtain ⟨r, hr, hrk⟩ := Option.map_eq_some'.1 (deleteMany_toKeys b hop)
    simp only [exec, Op.toKeys, TtlKeys.ByteKeyBTree.exec, hr, ← hrk, Option.map_some']; rfl
  | has item => simp only [exec, Op.toKeys, TtlKeys.ByteKeyBTree.exec, has_toKeys]; rfl
  | getNodeItem item =>
    simp only [exec, Op.toKeys, TtlKeys.ByteKeyBTree.exec, ← getNodeItem_toKeys]; rfl
  | getLastWriteUnix item =>
    simp only [exec, Op.toKeys, TtlKeys.ByteKeyBTree.exec, getLastWriteUnix_toKeys b hb]; rfl
  | size => simp only [exec, Op.toKeys, TtlKeys.ByteKeyBTree.exec, size, TtlKeys.ByteKeyBTree.size,
      toKeys, BTree.len, BTree.items_map, List.length_map]; rfl
  | reset => rfl
  | purgeExpiredAt now ttl n =>
    simp only [exec, Op.toKeys, TtlKeys.ByteKeyBTree.exec, ← purgeExpiredAt_toKeys]; rfl
  | listExpiredAt now ttl n =>
    simp only [exec, Op.toKeys, TtlKeys.ByteKeyBTree.exec, ← listExpiredAt_toKeys]; rfl

/-- The second version refines the first: from a tree that does not hold the empty key (every new
tree), every run whose batches have no nil entry completes, and with the values forgotten goes
through the trees and gives the answers of the same run of the first version on the keys. -/
theorem run_toKeys (hb : b.tree.get [] = none) (ops : List Op) (h : ∀ op ∈ ops, op.NilFree) :
    (b.run ops).map (fun r => (r.1.toKeys, r.2.map Reply.toKeys)) =
      some (b.toKeys.run (ops.map Op.toKeys)) := by
  unfold run TtlKeys.ByteKeyBTree.run
  rw [List.foldl_map]
  generalize hr : ((b, []) : ByteKeyBTree × List Reply) = r
  have hM : ((b.toKeys, []) : TtlKeys.ByteKeyBTree × List TtlKeys.Reply) =
      (r.1.toKeys, r.2.map Reply.toKeys) := by rw [← hr]; rfl
  replace hb : r.1.tree.get [] = none := by rw [← hr]; exact hb
  rw [hM]
  clear hr hM
  induction ops generalizing r with
  | nil => rfl
  | cons op ops ih =>
    have hop := h op (List.mem_cons_self _ _)
    obtain ⟨s, hs, hss⟩ := Option.map_eq_some'.1 (exec_toKeys r.1 hb op hop)
    have ih' := ih (fun op hop => h op (List.mem_cons_of_mem _ hop)) (s.1, r.2 ++ [s.2])
      (exec_get_nil r.1 hb hop hs)
    simp only [List.map_append, List.map_cons, List.map_nil] at ih'
    simp only [List.foldlM_cons, List.foldl_cons, hs, Option.some_bind, ← hss]
    exact ih'

/-- Calls that store a record with a value and one without, ask with a nil item, and list and purge
what has expired a minute later. -/
def mixedOps : List Op :=
  [.upsertAt (some (.valueNodeItem [7] [1] 0)) (Time.ofUnix 5),
    .upsertManyAt [some (.filterNodeItem [2] 0)] (Time.ofUnix 50), .getLastWriteUnix none,
    .getNodeItem (some (.filterNodeItem [1] 0)), .listExpiredAt (Time.ofUnix 100) 60000000000 0,
    .purgeExpiredAt (Time.ofUnix 100) 60000000000 0]

theorem run_toKeys_mixed :
    (⟨BTree.empty _⟩ : ByteKeyBTree).tree.get [] = none ∧ (∀ op ∈ mixedOps, op.NilFree) ∧
      ((⟨BTree.empty _⟩ : ByteKeyBTree).run mixedOps).map
          (fun r => (r.1.toKeys, r.2.map Reply.toKeys)) =
        some ((⟨BTree.empty _⟩ : ByteKeyBTree).toKeys.run (mixedOps.map Op.toKeys)) :=
  have hb : (⟨BTree.empty _⟩ : ByteKeyBTree).tree.get [] = none := rfl
  have hops : ∀ op ∈ mixedOps, op.NilFree := by
    simp only [mixedOps, List.forall_mem_cons]
    exact ⟨trivial, by simp [Op.NilFree], trivial, trivial, trivial, trivial,
      fun _ h => absurd h (List.not_mem_nil _)⟩
  ⟨hb, hops, run_toKeys _ hb mixedOps hops⟩

end ByteKeyBTree

end TtlItems
end MemoryStorage
