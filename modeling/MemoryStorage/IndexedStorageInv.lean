import MemoryStorage.IndexedStorage
import Mathlib.Data.Finset.Card

/-!
# The representation invariant of `BTreeIndexedStorage`

`Inv`: every index entry points into `storage`, distinct keys point to distinct slots, every slot
no entry points to is cleared (`Layout`), and `tombstones` is the number of unreferenced slots.
`Add` keeps it by one append (`Layout.append`), `Delete` by clearing one slot (`Layout.clear`).
`CompactIncremental`'s callback builds its new log and index by the same appends, in key order, so
what it installs is laid out the same way with no tombstones, whether or not the scan reached the
end of the index (`Compaction.Ok.scan`). Every reachable state satisfies `Inv`, and in such a
state neither `Get`, `Delete` nor a compaction panics.
-/

namespace MemoryStorage
namespace BTreeIndexedStorage
variable {K : Type*} [LinearOrder K]

/-- Where the index points into the log: in range, one slot per key, every other slot cleared. -/
structure Layout (tree : BTree (Entry.k (K := K))) (storage : List Slice) : Prop where
  pos_lt : ∀ e ∈ tree.items, e.pos < storage.length
  pos_inj : ∀ e ∈ tree.items, ∀ e' ∈ tree.items, e.pos = e'.pos → e.k = e'.k
  unref_nil : ∀ p < storage.length, (∀ e ∈ tree.items, e.pos ≠ p) → storage[p]? = some none

namespace Layout
variable {tree : BTree (Entry.k (K := K))} {storage : List Slice}

theorem empty : Layout (BTree.empty (Entry.k (K := K))) [] :=
  ⟨by simp [BTree.empty], by simp [BTree.empty], by simp⟩

theorem append (h : Layout tree storage) {k : K} (hk : tree.get k = none) (v : Slice) :
    Layout (appendEntry tree storage k v).1 (appendEntry tree storage k v).2 := by
  have hne : ∀ e ∈ tree.items, e.k ≠ k := fun e he hek => by
    rw [← hek, BTree.get_key he] at hk; cases hk
  simp only [appendEntry]
  refine ⟨fun e he => ?_, fun e he e' he' hp => ?_, fun p hp hnone => ?_⟩
  · rw [BTree.mem_replaceOrInsert] at he
    rw [List.length_append, List.length_singleton]
    rcases he with rfl | ⟨he, -⟩
    · exact Nat.lt_succ_self _
    · exact Nat.lt_succ_of_lt (h.pos_lt e he)
  · rw [BTree.mem_replaceOrInsert] at he he'
    rcases he with rfl | ⟨he, -⟩ <;> rcases he' with rfl | ⟨he', -⟩
    · rfl
    · exact absurd hp (ne_of_gt (h.pos_lt e' he'))
    · exact absurd hp (ne_of_lt (h.pos_lt e he))
    · exact h.pos_inj e he e' he' hp
  · have hp' : p < storage.length := by
      have := hnone ⟨k, storage.length⟩ (BTree.mem_replaceOrInsert.2 (.inl rfl))
      simp only [List.length_append, List.length_singleton] at hp this; omega
    rw [List.getElem?_append_left hp']
    exact h.unref_nil p hp' fun e he => hnone e (BTree.mem_replaceOrInsert.2 (.inr ⟨he, hne e he⟩))

theorem clear (h : Layout tree storage) {k : K} {e : Entry K} (he : tree.get k = some e) :
    Layout (tree.delete k).1 (storage.set e.pos none) := by
  obtain ⟨hmem, rfl⟩ := BTree.get_eq_some he
  refine ⟨fun e' he' => ?_, fun e₁ h₁ e₂ h₂ hp => ?_, fun p hp hnone => ?_⟩
  · rw [List.length_set]; exact h.pos_lt e' (BTree.mem_delete.1 he').1
  · exact h.pos_inj e₁ (BTree.mem_delete.1 h₁).1 e₂ (BTree.mem_delete.1 h₂).1 hp
  · rw [List.length_set] at hp
    rw [List.getElem?_set]
    by_cases hpe : e.pos = p
    · simp [hpe, hp]
    · rw [if_neg hpe]
      refine h.unref_nil p hp fun e' he' => ?_
      by_cases hk : e'.k = e.k
      · have : e' = e := Option.some_inj.1 ((BTree.get_key he').symm.trans (hk ▸ he))
        exact this ▸ hpe
      · exact hnone e' (BTree.mem_delete.2 ⟨he', hk⟩)

/-- Distinct entries point to distinct slots, so there are at most as many as slots. -/
theorem len_le (h : Layout tree storage) : tree.len ≤ storage.length := by
  have hnd : (tree.items.map Entry.pos).Nodup := by
    refine List.Nodup.map_on (fun e he e' he' hp => ?_)
      (tree.sorted.imp fun hab => ne_of_apply_ne Entry.k (ne_of_lt hab))
    exact Option.some_inj.1 ((BTree.get_key he).symm.trans (h.pos_inj e he e' he' hp ▸
      BTree.get_key he'))
  calc tree.len = (tree.items.map Entry.pos).toFinset.card := by
        rw [List.toFinset_card_of_nodup hnd, List.length_map]; rfl
    _ ≤ (Finset.range storage.length).card := Finset.card_le_card fun p hp => by
        simp only [List.mem_toFinset, List.mem_map] at hp
        obtain ⟨e, he, rfl⟩ := hp
        exact Finset.mem_range.2 (h.pos_lt e he)
    _ = storage.length := Finset.card_range _

end Layout

/-- The representation invariant of `BTreeIndexedStorage`. -/
structure Inv (s : BTreeIndexedStorage K) : Prop where
  layout : Layout s.tree s.storage
  tombstones_eq : s.tombstones = s.storage.length - s.tree.len
  degree_gt : 1 < s.degree

namespace Inv
variable {s s' : BTreeIndexedStorage K}

theorem init {degree capacity batchSize : Int} {threshold : Float}
    (h : newBTreeIndexedStorage degree capacity threshold batchSize = some s) : Inv s := by
  unfold newBTreeIndexedStorage at h
  split at h
  · cases h
  · cases h; exact ⟨Layout.empty, rfl, show 1 < degree by omega⟩

theorem add (h : Inv s) (k : K) (v : Slice) : Inv (s.add k v) := by
  unfold BTreeIndexedStorage.add
  split
  · exact h
  · rename_i hk
    refine ⟨h.layout.append hk v, ?_, h.degree_gt⟩
    simp only [appendEntry, BTree.len_replaceOrInsert, hk, Option.isSome_none, List.length_append,
      List.length_singleton, h.tombstones_eq]
    push_cast; omega

theorem delete (h : Inv s) {k : K} {b : Bool} (hd : s.delete k = some (s', b)) : Inv s' := by
  unfold BTreeIndexedStorage.delete at hd
  split at hd
  next tree heq =>
    cases hd
    have hg : s.tree.get k = none := by rw [← BTree.delete_snd, heq]
    rw [show tree = s.tree by rw [← BTree.delete_of_get_eq_none hg, heq]]
    exact h
  next tree e heq =>
    split at hd
    · cases hd
      have hg : s.tree.get k = some e := by rw [← BTree.delete_snd, heq]
      have hl := BTree.len_delete s.tree k
      rw [heq, hg] at hl
      refine ⟨?_, ?_, h.degree_gt⟩
      · simpa [heq] using h.layout.clear hg
      · simp only [List.length_set, h.tombstones_eq, Option.isSome_some, if_true] at hl ⊢
        omega
    · cases hd

end Inv

/-- What `CompactIncremental`'s callback keeps true of what it has built. -/
structure Compaction.Ok (c : Compaction K) : Prop where
  layout : Layout c.newTree c.newStorage
  len_eq : c.newTree.len = c.newStorage.length

theorem Compaction.Ok.keep {c : Compaction K} (hc : c.Ok) {k : K} (hk : c.newTree.get k = none)
    (val : Slice) : (c.keep k val).Ok := by
  unfold Compaction.keep
  split
  · refine ⟨hc.layout.append hk val, ?_⟩
    simp [appendEntry, BTree.len_replaceOrInsert, hk, hc.len_eq]
  · exact hc

theorem Compaction.mem_keep {c : Compaction K} {k : K} {val : Slice} {x : Entry K}
    (hx : x ∈ (c.keep k val).newTree.items) : x.k = k ∨ x ∈ c.newTree.items := by
  unfold Compaction.keep at hx
  split at hx
  · rcases BTree.mem_replaceOrInsert.1 hx with rfl | ⟨hx, -⟩
    · exact .inl rfl
    · exact .inr hx
  · exact .inr hx

/-- The callback, run over entries in key order whose positions are in range and whose keys are
above every key built so far, ends without panicking in a state that is laid out as a store. -/
theorem Compaction.Ok.scan {storage : List Slice} (b : Int) :
    ∀ {l : List (Entry K)} {c : Compaction K}, l.Pairwise (fun x y => x.k < y.k) →
      (∀ e ∈ l, e.pos < storage.length) → c.Ok → (∀ x ∈ c.newTree.items, ∀ e ∈ l, x.k < e.k) →
      ∃ c', ascendList (compactVisit storage b) (some c) l = some c' ∧ c'.Ok
  | [], c, _, _, hc, _ => ⟨c, rfl, hc⟩
  | e :: es, c, hl, hpos, hc, hlt => by
    have he : e.pos < storage.length := hpos e (List.mem_cons_self _ _)
    have hv : storage[e.pos]? = some storage[e.pos] := List.getElem?_eq_getElem he
    have hfresh : c.newTree.get e.k = none := BTree.get_eq_none.2 fun x hx =>
      ne_of_lt (hlt x hx e (List.mem_cons_self _ _))
    have hk := hc.keep hfresh storage[e.pos]
    have hlt' : ∀ x ∈ (c.keep e.k storage[e.pos]).newTree.items, ∀ e' ∈ es, x.k < e'.k :=
      fun x hx e' he' => (Compaction.mem_keep hx).elim (fun h => h ▸ List.rel_of_pairwise_cons hl he')
        fun hx => hlt x hx e' (List.mem_cons_of_mem _ he')
    simp only [ascendList, compactVisit, hv]
    split
    · exact Compaction.Ok.scan b hl.of_cons (fun e he => hpos e (List.mem_cons_of_mem _ he))
        (c := { c.keep e.k storage[e.pos] with count := _ }) ⟨hk.layout, hk.len_eq⟩ hlt'
    · exact ⟨_, rfl, ⟨hk.layout, hk.len_eq⟩⟩

namespace Inv
variable {s s' : BTreeIndexedStorage K}

theorem compactIncremental_ok (h : Inv s) :
    ∃ s', s.compactIncremental = some s' ∧ Inv s' := by
  obtain ⟨c, hc, hok⟩ := Compaction.Ok.scan s.batchSize s.tree.sorted h.layout.pos_lt
    (c := ⟨[], BTree.empty _, 0⟩) ⟨Layout.empty, rfl⟩ (fun x hx => by simp [BTree.empty] at hx)
  unfold BTreeIndexedStorage.compactIncremental
  rw [if_neg (not_le.2 h.degree_gt)]
  simp only [BTree.ascend, hc]
  split <;> exact ⟨_, rfl, hok.layout, by simp [hok.len_eq], h.degree_gt⟩

theorem compactIncremental (h : Inv s) (hc : s.compactIncremental = some s') : Inv s' := by
  obtain ⟨s'', hs'', hinv⟩ := h.compactIncremental_ok
  rw [hc] at hs''; cases hs''; exact hinv

theorem step {σ σ' : Sys K} {op : Op K} (h : Inv σ.store) (hs : σ.step op = some σ') :
    Inv σ'.store := by
  cases op with
  | add k v => cases hs; exact h.add k v
  | delete k =>
    obtain ⟨r, hr, rfl⟩ := Option.map_eq_some'.1 hs
    exact h.delete hr
  | compactIncremental =>
    obtain ⟨r, hr, rfl⟩ := Option.map_eq_some'.1 hs
    exact h.compactIncremental hr
  | spawnedCompaction =>
    simp only [Sys.step] at hs
    split at hs
    · cases hs
    · obtain ⟨r, hr, rfl⟩ := Option.map_eq_some'.1 hs
      exact h.compactIncremental hr

theorem get_ne_none (h : Inv s) (k : K) : s.get k ≠ none := by
  unfold BTreeIndexedStorage.get
  split
  · simp
  · rename_i e he
    simp [List.getElem?_eq_getElem (h.layout.pos_lt e (BTree.get_eq_some he).1)]

theorem delete_ne_none (h : Inv s) (k : K) : s.delete k ≠ none := by
  unfold BTreeIndexedStorage.delete
  split
  · simp
  · rename_i tree e heq
    have hg : s.tree.get k = some e := by rw [← BTree.delete_snd, heq]
    simp [h.layout.pos_lt e (BTree.get_eq_some hg).1]

/-- What `Delete` divides when it finds the key: `tombstones + 1` over `len(storage)`. -/
theorem delete_ratio (h : Inv s) {k : K} {e : Entry K} (he : s.tree.get k = some e) :
    0 < s.storage.length ∧ 0 ≤ s.tombstones + 1 ∧ s.tombstones + 1 ≤ s.storage.length := by
  have hmem := (BTree.get_eq_some he).1
  have hpos := h.layout.pos_lt e hmem
  have hlen : 0 < s.tree.len := List.length_pos_of_mem hmem
  have hle := h.layout.len_le
  have := h.tombstones_eq
  omega

end Inv

theorem Reachable.inv {σ : Sys K} (h : Reachable σ) : Inv σ.store := by
  induction h with
  | init hs => exact Inv.init hs
  | step _ _ hs ih => exact ih.step hs

/-- Every reachable state satisfies the representation invariant; in it `Get` and `Delete` never
index `storage` out of range, and the ratio `Delete` computes has a positive denominator and lies
in `[0, 1]`. -/
theorem reachable_inv_delete_ratio {σ : Sys K} (h : Reachable σ) :
    Inv σ.store ∧ (∀ k, σ.store.get k ≠ none) ∧ (∀ k, σ.store.delete k ≠ none) ∧
    ∀ k e, σ.store.tree.get k = some e →
      0 < σ.store.storage.length ∧ 0 ≤ σ.store.tombstones + 1 ∧
        σ.store.tombstones + 1 ≤ σ.store.storage.length :=
  have hi := h.inv
  ⟨hi, hi.get_ne_none, hi.delete_ne_none, fun _ _ he => hi.delete_ratio he⟩

/-- A fresh store with threshold 0.3, degree 16 and batches of 100. -/
def sampleStore : BTreeIndexedStorage Key8 := ⟨BTree.empty _, [], 0, 0.3, 16, 100⟩

/-- `Add(1, [1])`, `Add(2, [2])`, then `Delete(1)`: a tombstone in slot 0, and a compaction pending
exactly when the ratio `1/2` passes the threshold. -/
theorem sampleStore_step_delete :
    (⟨(sampleStore.add ⟨[0, 0, 0, 0, 0, 0, 0, 1], rfl⟩ (some [1])).add
        ⟨[0, 0, 0, 0, 0, 0, 0, 2], rfl⟩ (some [2]), 0⟩ : Sys Key8).step
      (.delete ⟨[0, 0, 0, 0, 0, 0, 0, 1], rfl⟩) =
      some ⟨(⟨BTree.empty _, [none], 1, 0.3, 16, 100⟩ : BTreeIndexedStorage Key8).add
        ⟨[0, 0, 0, 0, 0, 0, 0, 2], rfl⟩ (some [2]), if overThreshold 1 2 0.3 then 1 else 0⟩ := by
  have hd : ((sampleStore.add ⟨[0, 0, 0, 0, 0, 0, 0, 1], rfl⟩ (some [1])).add
      ⟨[0, 0, 0, 0, 0, 0, 0, 2], rfl⟩ (some [2])).delete ⟨[0, 0, 0, 0, 0, 0, 0, 1], rfl⟩ =
      some ((⟨BTree.empty _, [none], 1, 0.3, 16, 100⟩ : BTreeIndexedStorage Key8).add
        ⟨[0, 0, 0, 0, 0, 0, 0, 2], rfl⟩ (some [2]), overThreshold 1 2 0.3) := rfl
  simp only [Sys.step, hd, Option.map_some', zero_add]

/-- Two `Add`s, a `Delete` and the compaction after it leave the store as if only the second key
had been added. At run time `1/2 > 0.3`, so the `Delete` spawns that compaction; the kernel does
not evaluate `Float` comparisons, so the proof takes both answers of the test, and the compaction
is the spawned one whenever the test passes. -/
theorem reachable_inv_delete_ratio_compacted :
    Reachable (⟨sampleStore.add ⟨[0, 0, 0, 0, 0, 0, 0, 2], rfl⟩ (some [2]), 0⟩ : Sys Key8) ∧
    Inv (sampleStore.add ⟨[0, 0, 0, 0, 0, 0, 0, 2], rfl⟩ (some [2])) ∧
    (∀ k, (sampleStore.add ⟨[0, 0, 0, 0, 0, 0, 0, 2], rfl⟩ (some [2])).get k ≠ none) ∧
    (∀ k, (sampleStore.add ⟨[0, 0, 0, 0, 0, 0, 0, 2], rfl⟩ (some [2])).delete k ≠ none) ∧
    ∀ k e, (sampleStore.add ⟨[0, 0, 0, 0, 0, 0, 0, 2], rfl⟩ (some [2])).tree.get k = some e →
      0 < [some [2]].length ∧ (0 : Int) ≤ 0 + 1 ∧ (0 : Int) + 1 ≤ [some [2]].length :=
  have h : Reachable (⟨sampleStore.add ⟨[0, 0, 0, 0, 0, 0, 0, 2], rfl⟩ (some [2]), 0⟩ : Sys Key8) := by
    have h₂ := ((@Reachable.init Key8 _ 16 10 0.3 100 sampleStore rfl).step
      (.add ⟨[0, 0, 0, 0, 0, 0, 0, 1], rfl⟩ (some [1])) rfl).step
      (.add ⟨[0, 0, 0, 0, 0, 0, 0, 2], rfl⟩ (some [2])) rfl
    have h₃ := h₂.step _ sampleStore_step_delete
    cases hb : overThreshold 1 2 0.3
    · rw [hb] at h₃
      exact h₃.step .compactIncremental rfl
    · rw [hb] at h₃
      exact h₃.step .spawnedCompaction rfl
  ⟨h, reachable_inv_delete_ratio h⟩

end BTreeIndexedStorage
end MemoryStorage
