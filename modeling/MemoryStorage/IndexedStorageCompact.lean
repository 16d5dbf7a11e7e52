import MemoryStorage.IndexedStorageMap
import MemoryStorage.TtlIndex

/-!
# What `CompactIncremental` keeps

`CompactIncremental` visits the index in key order and counts every entry it visits. It copies
the value of each visited entry whose slot is not nil, and stops after `batchSize` entries when
`batchSize > 0`. It installs what it built whether or not the scan reached the end.

So, from a store laid out as `Inv` says, a compaction keeps the keys among the first `batchSize`
entries (all of them when `batchSize <= 0`) whose value is not nil, each with its value
(`keptEntries`, `Compaction.scan_kept`). Every other key is gone (`compactIncremental_get`).
`Get` of a key after the prefix answers `(nil, false)`, and so does `Get` of a key whose value
was stored as nil, even after a compaction that scans the whole index.
-/

namespace MemoryStorage
namespace BTreeIndexedStorage
variable {K : Type*}

/-- The entries of `l` whose slot holds a value: those a compaction that visits them copies. -/
def keptEntries (storage : List Slice) (l : List (Entry K)) : List (Entry K) :=
  l.filter fun e => (storage[e.pos]?).join.isSome

@[simp] theorem keptEntries_nil (storage : List Slice) :
    keptEntries storage ([] : List (Entry K)) = [] := rfl

theorem keptEntries_cons (storage : List Slice) (e : Entry K) (l : List (Entry K)) :
    keptEntries storage (e :: l) =
      if (storage[e.pos]?).join.isSome then e :: keptEntries storage l else keptEntries storage l := by
  simp only [keptEntries, List.filter_cons]

variable [LinearOrder K]

/-- On a sublist of a sorted list, a key is found as in the whole list if the sublist has it. -/
theorem findKey_sublist {α : Type*} {key : α → K} {l l' : List α}
    (hl : l.Pairwise (fun a b => key a < key b)) (hs : l'.Sublist l) (k : K) :
    findKey key k l' = if k ∈ l'.map key then findKey key k l else none := by
  split_ifs with hk
  · obtain ⟨e, he, rfl⟩ := List.mem_map.1 hk
    rw [findKey_of_mem (hl.sublist hs) he, findKey_of_mem hl (hs.subset he)]
  · exact findKey_eq_none.2 fun x hx hxk => hk (List.mem_map.2 ⟨x, hx, hxk⟩)

/-- Keeping one entry adds its value under its key when the value is not nil. -/
theorem Compaction.lookupVal_keep {c : Compaction K} (hc : c.Ok) (k : K) (val : Slice) (k' : K) :
    lookupVal (c.keep k val).newTree (c.keep k val).newStorage k' =
      if k = k' ∧ val.isSome then some val else lookupVal c.newTree c.newStorage k' := by
  unfold Compaction.keep
  by_cases hv : val.isSome
  · simp only [hv, if_true, and_true, lookupVal_appendEntry hc.layout]
  · simp [hv]

theorem Compaction.len_keep {c : Compaction K} {k : K} (hk : c.newTree.get k = none) (val : Slice) :
    (c.keep k val).newTree.len = c.newTree.len + if val.isSome then 1 else 0 := by
  unfold Compaction.keep
  by_cases hv : val.isSome <;> simp [hv, appendEntry, BTree.len_replaceOrInsert, hk]

/-- The callback from `c`, over entries in key order above everything built so far, ends in a state
that holds what `c` held and the kept entries among the first `b - count` it visits (all of them
when that is not positive). -/
theorem Compaction.scan_kept {storage : List Slice} {b : Int} {l : List (Entry K)}
    (hl : l.Pairwise (fun x y => x.k < y.k)) (hpos : ∀ e ∈ l, e.pos < storage.length) :
    ∀ {c : Compaction K}, c.Ok → (∀ x ∈ c.newTree.items, ∀ e ∈ l, x.k < e.k) →
      (b ≤ 0 ∨ (c.count : Int) < b) →
      ∃ c', ascendList (compactVisit storage b) (some c) l = some c' ∧
        (∀ k, lookupVal c'.newTree c'.newStorage k = (lookupVal c.newTree c.newStorage k).or
          ((findKey Entry.k k (keptEntries storage (takeLimit (b - c.count) l))).bind
            fun e => storage[e.pos]?)) ∧
        c'.newTree.len = c.newTree.len + (keptEntries storage (takeLimit (b - c.count) l)).length := by
  induction l with
  | nil => exact fun {c} _ _ _ => ⟨c, rfl, fun k => by simp, by simp⟩
  | cons e es ih =>
    intro c hc hlt hb
    have he : e.pos < storage.length := hpos e (List.mem_cons_self _ _)
    have hv : storage[e.pos]? = some storage[e.pos] := List.getElem?_eq_getElem he
    have hfresh : c.newTree.get e.k = none := BTree.get_eq_none.2 fun x hx =>
      ne_of_lt (hlt x hx e (List.mem_cons_self _ _))
    have hnone : lookupVal c.newTree c.newStorage e.k = none :=
      (lookupVal_eq_none hc.layout).2 hfresh
    have hk := hc.keep hfresh storage[e.pos]
    have hlook := Compaction.lookupVal_keep hc e.k storage[e.pos]
    have hlen := Compaction.len_keep hfresh storage[e.pos]
    simp only [ascendList, compactVisit, hv, Compaction.keep_count]
    by_cases hstop : 0 < b ∧ b ≤ (c.count : Int) + 1
    · have h1 : b - c.count = 1 := by omega
      refine ⟨{ c.keep e.k storage[e.pos] with count := c.count + 1 }, by simp [hstop],
        fun k => ?_, ?_⟩
      · rw [hlook, h1, takeLimit_cons, if_pos rfl, keptEntries_cons]
        by_cases hek : e.k = k
        · subst hek; by_cases hs : storage[e.pos].isSome <;> simp [hs, hv, hnone, findKey_cons]
        · by_cases hs : storage[e.pos].isSome <;> simp [hek, hs, hv, findKey_cons]
      · rw [hlen, h1, takeLimit_cons, if_pos rfl, keptEntries_cons]
        by_cases hs : storage[e.pos].isSome <;> simp [hs, hv]
    · have h1 : b - c.count ≠ 1 := by omega
      obtain ⟨c', hrun, hlook', hlen'⟩ :=
        ih hl.of_cons (fun e he => hpos e (List.mem_cons_of_mem _ he))
        (c := { c.keep e.k storage[e.pos] with count := c.count + 1 }) ⟨hk.layout, hk.len_eq⟩
        (fun x hx e' he' => (Compaction.mem_keep hx).elim
          (fun h => h ▸ List.rel_of_pairwise_cons hl he')
          fun hx => hlt x hx e' (List.mem_cons_of_mem _ he'))
        (by push_cast; omega)
      have hcount : b - ((c.count + 1 : Nat) : Int) = b - c.count - 1 := by omega
      refine ⟨c', by simpa [hstop] using hrun, fun k => ?_, ?_⟩
      · rw [hlook', hlook, hcount, takeLimit_cons, if_neg h1, keptEntries_cons]
        by_cases hek : e.k = k
        · subst hek; by_cases hs : storage[e.pos].isSome <;> simp [hs, hv, hnone, findKey_cons]
        · by_cases hs : storage[e.pos].isSome <;> simp [hek, hs, hv, findKey_cons]
      · rw [hlen', hlen, hcount, takeLimit_cons, if_neg h1, keptEntries_cons]
        by_cases hs : storage[e.pos].isSome <;> simp [hs, hv]
        omega

/-- The store a compaction installs holds exactly the kept entries among the first `batchSize`
entries of the index, with their values. -/
theorem compactIncremental_kept {s s' : BTreeIndexedStorage K} (h : Inv s)
    (hc : s.compactIncremental = some s') :
    (∀ k, lookupVal s'.tree s'.storage k =
      (findKey Entry.k k (keptEntries s.storage (takeLimit s.batchSize s.tree.items))).bind
        fun e => s.storage[e.pos]?) ∧
    s'.tree.len = (keptEntries s.storage (takeLimit s.batchSize s.tree.items)).length := by
  obtain ⟨c, hrun, hlook, hlen⟩ := Compaction.scan_kept (b := s.batchSize) s.tree.sorted
    h.layout.pos_lt (c := ⟨[], BTree.empty _, 0⟩) ⟨Layout.empty, rfl⟩
    (fun x hx => by simp [BTree.empty] at hx) (by simp only [Nat.cast_zero]; omega)
  unfold BTreeIndexedStorage.compactIncremental at hc
  rw [if_neg (not_le.2 h.degree_gt)] at hc
  simp only [BTree.ascend, hrun] at hc
  have hs' : s'.tree = c.newTree ∧ s'.storage = c.newStorage := by
    split at hc <;> (cases hc; exact ⟨rfl, rfl⟩)
  refine ⟨fun k => ?_, ?_⟩
  · rw [hs'.1, hs'.2, hlook k]
    simp [lookupVal, BTree.get]
  · simpa [hs'.1, BTree.len, BTree.empty] using hlen

/-- `Get` and `Len()` after a compaction, read off `compactIncremental_kept`. -/
theorem get_of_compactIncremental_eq {s s' : BTreeIndexedStorage K} (h : Inv s)
    (hc : s.compactIncremental = some s') :
    (∀ k, s'.get k = if k ∈ (takeLimit s.batchSize s.tree.items).map Entry.k then
        (s.get k).map (fun r => (r.1, r.1.isSome)) else some (none, false)) ∧
    s'.len = (keptEntries s.storage (takeLimit s.batchSize s.tree.items)).length := by
  obtain ⟨hlook, hlen⟩ := compactIncremental_kept h hc
  refine ⟨fun k => ?_, hlen⟩
  have hpre := takeLimit_sublist s.batchSize s.tree.items
  have hsub : (keptEntries s.storage (takeLimit s.batchSize s.tree.items)).Sublist s.tree.items :=
    (List.filter_sublist _).trans hpre
  rw [(h.compactIncremental hc).layout.get_eq, hlook, findKey_sublist s.tree.sorted hsub,
    h.layout.get_eq]
  have hfind : findKey Entry.k k s.tree.items = s.tree.get k := rfl
  split_ifs with hkept hp hp
  · obtain ⟨e, he, rfl⟩ := List.mem_map.1 hkept
    obtain ⟨v, hv⟩ : ∃ v, s.storage[e.pos]? = some v :=
      ⟨_, List.getElem?_eq_getElem (h.layout.pos_lt e (hsub.subset he))⟩
    have hval := (List.mem_filter.1 he).2
    rw [hv] at hval
    simp only [hfind, BTree.get_key (hsub.subset he), lookupVal, hv, Option.some_bind]
    simp [show v.isSome = true from hval]
  · exact absurd (List.map_subset _ (List.filter_sublist _).subset hkept) hp
  · obtain ⟨e, he, rfl⟩ := List.mem_map.1 hp
    obtain ⟨v, hv⟩ : ∃ v, s.storage[e.pos]? = some v :=
      ⟨_, List.getElem?_eq_getElem (h.layout.pos_lt e (hpre.subset he))⟩
    have hval : ¬(s.storage[e.pos]?).join.isSome :=
      fun hv => hkept (List.mem_map.2 ⟨e, List.mem_filter.2 ⟨he, by simpa using hv⟩, rfl⟩)
    rw [hv] at hval
    obtain rfl : v = none := Option.not_isSome_iff_eq_none.1 hval
    simp only [lookupVal, BTree.get_key (hpre.subset he), hv, Option.some_bind]
    rfl
  · rfl

/-- `CompactIncremental` on a store laid out as `Inv` says does not panic, and keeps only what its
scan reached and found not nil. After it, `Get` of a key among the first `batchSize` entries of
the index (all of them when `batchSize <= 0`) answers the value it answered before, found exactly
when that value is not nil. `Get` of every other key answers `(nil, false)`, and `Len()` counts
the entries kept. -/
theorem compactIncremental_get {s : BTreeIndexedStorage K} (h : Inv s) :
    ∃ s', s.compactIncremental = some s' ∧
      (∀ k, s'.get k = if k ∈ (takeLimit s.batchSize s.tree.items).map Entry.k then
          (s.get k).map (fun r => (r.1, r.1.isSome)) else some (none, false)) ∧
      s'.len = (keptEntries s.storage (takeLimit s.batchSize s.tree.items)).length :=
  have ⟨s', hc, _⟩ := h.compactIncremental_ok
  ⟨s', hc, get_of_compactIncremental_eq h hc⟩

/-- Three keys, the first stored as nil, in a store that compacts two entries at a time. -/
def nilFirstStore : BTreeIndexedStorage Key8 :=
  (((⟨BTree.empty _, [], 0, 0.3, 16, 2⟩ : BTreeIndexedStorage Key8).add
    ⟨[0, 0, 0, 0, 0, 0, 0, 1], rfl⟩ none).add ⟨[0, 0, 0, 0, 0, 0, 0, 2], rfl⟩ (some [2])).add
    ⟨[0, 0, 0, 0, 0, 0, 0, 3], rfl⟩ (some [3])

theorem compactIncremental_get_nil_first :
    Inv nilFirstStore ∧ ∃ s', nilFirstStore.compactIncremental = some s' ∧
      (∀ k, s'.get k = if k ∈ (takeLimit nilFirstStore.batchSize nilFirstStore.tree.items).map Entry.k
          then (nilFirstStore.get k).map (fun r => (r.1, r.1.isSome)) else some (none, false)) ∧
      s'.len = (keptEntries nilFirstStore.storage
        (takeLimit nilFirstStore.batchSize nilFirstStore.tree.items)).length :=
  have h : Inv nilFirstStore :=
    ((Inv.init (show newBTreeIndexedStorage 16 0 0.3 2 =
      some (⟨BTree.empty _, [], 0, 0.3, 16, 2⟩ : BTreeIndexedStorage Key8) from rfl)).add _ _).add _ _
      |>.add _ _
  ⟨h, compactIncremental_get h⟩

/-- Of the three keys only the second survives: the first was stored as nil, and the third is
after the two entries the compaction scans. -/
example : nilFirstStore.compactIncremental.map (fun s => (s.get ⟨[0, 0, 0, 0, 0, 0, 0, 1], rfl⟩,
    s.get ⟨[0, 0, 0, 0, 0, 0, 0, 2], rfl⟩, s.get ⟨[0, 0, 0, 0, 0, 0, 0, 3], rfl⟩, s.len)) =
      some (some (none, false), some (some [2], true), some (none, false), 1) :=
  rfl

end BTreeIndexedStorage
end MemoryStorage
