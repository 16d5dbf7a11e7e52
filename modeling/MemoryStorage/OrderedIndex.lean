import MemoryStorage.Basic
import Mathlib.Data.Finmap

/-!
# `btree.BTree` through its interface

Both stores use github.com/google/btree only through `ReplaceOrInsert`, `Get`, `Delete`, `Ascend`,
`Len` and `Clear`, with a `Less` that compares keys only. A tree is modelled by its items in
ascending key order; the order is a field, so every tree the operations build is sorted. Each
operation gets its lookup lemma, and `BTree.toFinmap`, the finite map a tree denotes, turns every
operation into the matching `Finmap` operation.
-/

namespace MemoryStorage

variable {K α σ : Type*} [LinearOrder K]

/-- The items of a `btree.BTree` keyed by `key`, in ascending key order. -/
structure BTree (key : α → K) where
  items : List α
  sorted : items.Pairwise (fun a b => key a < key b)

section Lists
variable (key : α → K)

/-- The item with key `k`, as `Get` finds it. -/
def findKey (k : K) (l : List α) : Option α := l.find? (fun x => key x = k)

/-- The item list after `ReplaceOrInsert x`: `x` takes the place of the item with its key, or goes
in at its place in the order. -/
def insertItem (x : α) : List α → List α
  | [] => [x]
  | y :: ys =>
    if key x < key y then x :: y :: ys
    else if key y < key x then y :: insertItem x ys
    else x :: ys

/-- `Ascend(visit)`: run `visit` on the items from the smallest key on, and stop after the first
visit that answers `false`. The visitor's captured variables are the state `σ`. -/
def ascendList (visit : σ → α → σ × Bool) : σ → List α → σ
  | acc, [] => acc
  | acc, x :: xs =>
    if (visit acc x).2 then ascendList visit (visit acc x).1 xs else (visit acc x).1

variable {key}

@[simp] theorem findKey_nil (k : K) : findKey key k ([] : List α) = none := rfl

theorem findKey_cons (k : K) (y : α) (ys : List α) :
    findKey key k (y :: ys) = if key y = k then some y else findKey key k ys := by
  by_cases h : key y = k <;> simp [findKey, h]

theorem findKey_eq_some {k : K} {l : List α} {x : α} (h : findKey key k l = some x) :
    x ∈ l ∧ key x = k := by
  simpa [findKey] using And.intro (List.mem_of_find?_eq_some h) (List.find?_some h)

theorem findKey_eq_none {k : K} {l : List α} : findKey key k l = none ↔ ∀ x ∈ l, key x ≠ k := by
  simp [findKey]

theorem findKey_of_mem {l : List α} (hl : l.Pairwise (fun a b => key a < key b)) {x : α}
    (hx : x ∈ l) : findKey key (key x) l = some x := by
  induction l with
  | nil => cases hx
  | cons y ys ih =>
    rw [findKey_cons]
    rcases List.mem_cons.1 hx with rfl | hx
    · simp
    · have : key y ≠ key x := (List.rel_of_pairwise_cons hl hx).ne
      rw [if_neg this, ih hl.of_cons hx]

theorem findKey_insertItem (x : α) (k : K) (l : List α) :
    findKey key k (insertItem key x l) = if key x = k then some x else findKey key k l := by
  induction l with
  | nil => simp [insertItem, findKey_cons]
  | cons y ys ih =>
    simp only [insertItem]
    split
    · simp only [findKey_cons]
    · split
      · rename_i hxy hyx
        rw [findKey_cons, ih, findKey_cons]
        by_cases hy : key y = k
        · have : key x ≠ k := fun h => (ne_of_lt hyx) (hy.trans h.symm)
          simp [hy, this]
        · simp [hy]
      · have hxy : key y = key x := le_antisymm (not_lt.1 ‹_›) (not_lt.1 ‹_›)
        rw [findKey_cons, findKey_cons, hxy]
        split <;> rfl

theorem mem_insertItem {x z : α} {l : List α} (h : z ∈ insertItem key x l) : z = x ∨ z ∈ l := by
  induction l with
  | nil => simpa [insertItem] using h
  | cons y ys ih =>
    simp only [insertItem] at h
    split at h
    · simpa using h
    · split at h
      · rcases List.mem_cons.1 h with rfl | h
        · exact .inr (List.mem_cons_self _ _)
        · exact (ih h).imp_right (List.mem_cons_of_mem y)
      · rcases List.mem_cons.1 h with rfl | h
        · exact .inl rfl
        · exact .inr (List.mem_cons_of_mem y h)

theorem pairwise_insertItem (x : α) {l : List α} (hl : l.Pairwise (fun a b => key a < key b)) :
    (insertItem key x l).Pairwise (fun a b => key a < key b) := by
  induction l with
  | nil => simp [insertItem]
  | cons y ys ih =>
    have hy := List.pairwise_cons.1 hl
    simp only [insertItem]
    split
    · exact .cons (fun z hz => (List.mem_cons.1 hz).elim (fun h => h ▸ ‹_›)
        fun hz => lt_trans ‹_› (hy.1 z hz)) hl
    · split
      · exact .cons (fun z hz => (mem_insertItem hz).elim (fun h => h ▸ ‹_›) (hy.1 z))
          (ih hy.2)
      · have hxy : key x = key y := le_antisymm (not_lt.1 ‹_›) (not_lt.1 ‹_›)
        exact .cons (fun z hz => hxy ▸ hy.1 z hz) hy.2

theorem length_insertItem (x : α) {l : List α} (hl : l.Pairwise (fun a b => key a < key b)) :
    (insertItem key x l).length = if (findKey key (key x) l).isSome then l.length else l.length + 1 := by
  induction l with
  | nil => simp [insertItem]
  | cons y ys ih =>
    have hy := List.pairwise_cons.1 hl
    simp only [insertItem, findKey_cons]
    split
    · have : findKey key (key x) ys = none :=
        findKey_eq_none.2 fun z hz => (ne_of_lt (lt_trans ‹_› (hy.1 z hz))).symm
      simp [(ne_of_lt ‹key x < key y›).symm, this]
    · split
      · rename_i hyx
        rw [if_neg (ne_of_lt hyx), List.length_cons, List.length_cons, ih hy.2]
        split <;> rfl
      · have hxy : key y = key x := le_antisymm (not_lt.1 ‹_›) (not_lt.1 ‹_›)
        simp [hxy]

theorem findKey_filter (k k' : K) (l : List α) :
    findKey key k' (l.filter fun y => key y ≠ k) = if k' = k then none else findKey key k' l := by
  rw [findKey, List.find?_filter]
  split
  · subst_vars; simp
  · rw [findKey]; congr; funext y; by_cases h : key y = k' <;> simp [h, ‹¬k' = k›]

theorem length_filter_key (k : K) {l : List α} (hl : l.Pairwise (fun a b => key a < key b)) :
    (l.filter fun y => key y ≠ k).length + (if (findKey key k l).isSome then 1 else 0) = l.length := by
  induction l with
  | nil => simp
  | cons y ys ih =>
    have hy := List.pairwise_cons.1 hl
    have := ih hy.2
    rw [findKey_cons]
    by_cases h : key y = k
    · have : findKey key k ys = none :=
        findKey_eq_none.2 fun z hz => h ▸ (ne_of_lt (hy.1 z hz)).symm
      simp_all
    · have hf : ((y :: ys).filter fun z => key z ≠ k).length
          = (ys.filter fun z => key z ≠ k).length + 1 := by simp [List.filter_cons, h]
      rw [hf, if_neg h, List.length_cons]
      omega

end Lists

namespace BTree
variable {key : α → K}

/-- `btree.New(degree)`, and the tree `Clear` leaves. The degree changes no observable result. -/
def empty (key : α → K) : BTree key := ⟨[], .nil⟩

/-- `Get(probe)`: the item whose key is the probe's. -/
def get (t : BTree key) (k : K) : Option α := findKey key k t.items

/-- `ReplaceOrInsert(x)`: the new tree and the item `x` replaced, if any. -/
def replaceOrInsert (t : BTree key) (x : α) : BTree key × Option α :=
  (⟨insertItem key x t.items, pairwise_insertItem x t.sorted⟩, t.get (key x))

/-- `Delete(probe)`: the new tree and the item removed, if any. -/
def delete (t : BTree key) (k : K) : BTree key × Option α :=
  (⟨t.items.filter (fun y => key y ≠ k), t.sorted.filter _⟩, t.get k)

/-- `Len()`. -/
def len (t : BTree key) : Nat := t.items.length

/-- `Ascend(visit)`. -/
def ascend (t : BTree key) (visit : σ → α → σ × Bool) (init : σ) : σ :=
  ascendList visit init t.items

@[simp] theorem get_empty (k : K) : (empty key).get k = none := rfl

@[simp] theorem len_empty : (empty key).len = 0 := rfl

@[simp] theorem replaceOrInsert_snd (t : BTree key) (x : α) :
    (t.replaceOrInsert x).2 = t.get (key x) := rfl

@[simp] theorem delete_snd (t : BTree key) (k : K) : (t.delete k).2 = t.get k := rfl

@[simp] theorem get_replaceOrInsert (t : BTree key) (x : α) (k : K) :
    (t.replaceOrInsert x).1.get k = if key x = k then some x else t.get k :=
  findKey_insertItem x k t.items

@[simp] theorem get_delete (t : BTree key) (k k' : K) :
    (t.delete k).1.get k' = if k' = k then none else t.get k' :=
  findKey_filter k k' t.items

theorem len_replaceOrInsert (t : BTree key) (x : α) :
    (t.replaceOrInsert x).1.len = if (t.get (key x)).isSome then t.len else t.len + 1 :=
  length_insertItem x t.sorted

theorem len_delete (t : BTree key) (k : K) :
    (t.delete k).1.len + (if (t.get k).isSome then 1 else 0) = t.len :=
  length_filter_key k t.sorted

theorem get_eq_some {t : BTree key} {k : K} {x : α} (h : t.get k = some x) :
    x ∈ t.items ∧ key x = k :=
  findKey_eq_some h

theorem get_eq_none {t : BTree key} {k : K} : t.get k = none ↔ ∀ x ∈ t.items, key x ≠ k :=
  findKey_eq_none

theorem get_key {t : BTree key} {x : α} (hx : x ∈ t.items) : t.get (key x) = some x :=
  findKey_of_mem t.sorted hx

theorem delete_of_get_eq_none {t : BTree key} {k : K} (h : t.get k = none) : (t.delete k).1 = t := by
  cases t
  simp only [delete, mk.injEq]
  exact List.filter_eq_self.2 fun y hy => by simpa using findKey_eq_none.1 h y hy

theorem mem_iff_get {t : BTree key} {z : α} : z ∈ t.items ↔ t.get (key z) = some z :=
  ⟨get_key, fun h => (get_eq_some h).1⟩

theorem mem_replaceOrInsert {t : BTree key} {x z : α} :
    z ∈ (t.replaceOrInsert x).1.items ↔ z = x ∨ (z ∈ t.items ∧ key z ≠ key x) := by
  rw [mem_iff_get, get_replaceOrInsert, mem_iff_get]
  by_cases h : key x = key z
  · simp only [h, if_true, Option.some.injEq, ne_eq, not_true_eq_false, and_false, or_false]
    exact eq_comm
  · have : z ≠ x := fun e => h (e ▸ rfl)
    simp [h, Ne.symm h, this]

theorem mem_delete {t : BTree key} {k : K} {z : α} :
    z ∈ (t.delete k).1.items ↔ z ∈ t.items ∧ key z ≠ k := by
  simp [delete]

/-- The finite map a tree denotes: each key to the item stored under it. -/
def toFinmap (t : BTree key) : Finmap (fun _ : K => α) :=
  AList.toFinmap ⟨t.items.map fun x => ⟨key x, x⟩, by
    simpa [List.NodupKeys, List.keys, Function.comp_def] using (List.pairwise_map.2 t.sorted).nodup⟩

theorem lookup_toFinmap (t : BTree key) (k : K) : t.toFinmap.lookup k = t.get k := by
  rw [toFinmap, Finmap.lookup_toFinmap, get]
  show List.dlookup k (t.items.map fun x => (⟨key x, x⟩ : Σ _ : K, α)) = _
  induction t.items with
  | nil => rfl
  | cons y ys ih =>
    rw [findKey_cons, List.map_cons]
    by_cases h : key y = k
    · subst h; simp
    · rw [List.dlookup_cons_ne _ _ (Ne.symm h), ih, if_neg h]

theorem card_keys_toFinmap (t : BTree key) : t.toFinmap.keys.card = t.len := by
  rw [toFinmap, Finset.card_def, Finmap.keys_val]
  simp [AList.keys, List.keys, len]

theorem toFinmap_replaceOrInsert (t : BTree key) (x : α) :
    (t.replaceOrInsert x).1.toFinmap = t.toFinmap.insert (key x) x :=
  Finmap.ext_lookup fun k => by
    rw [lookup_toFinmap, get_replaceOrInsert]
    by_cases h : key x = k
    · subst h; simp
    · rw [if_neg h, Finmap.lookup_insert_of_ne _ (Ne.symm h), lookup_toFinmap]

theorem toFinmap_delete (t : BTree key) (k : K) :
    (t.delete k).1.toFinmap = t.toFinmap.erase k :=
  Finmap.ext_lookup fun k' => by
    rw [lookup_toFinmap, get_delete]
    by_cases h : k' = k
    · subst h; simp
    · rw [if_neg h, Finmap.lookup_erase_ne h, lookup_toFinmap]

end BTree

end MemoryStorage
