import MemoryStorage.IndexedStorageInv
import Mathlib.Data.Finmap

/-!
# `BTreeIndexedStorage` against a first-writer-wins map

The map `M` the `Add`s and `Delete`s of a run build: `Add(k, v)` sets `M[k] := v` only when `k` is
not in `M`, `Delete(k)` removes `k`. `Get` and `Len` should read `M`. They do, as long as every
compaction scans the whole index and no stored value is nil (`CompleteRun.refines`): the value
log then only renumbers. A compaction that stops after `batchSize < Len()` entries installs the
prefix it built and loses the live keys after it, and a compaction treats a stored nil as a
tombstone; both lose a key of `M`.
-/

namespace MemoryStorage
namespace BTreeIndexedStorage
variable {K : Type*} [LinearOrder K]

/-- The abstract map after `Add(k, v)`: first writer wins. -/
def absAdd (M : Finmap (fun _ : K => Slice)) (k : K) (v : Slice) : Finmap (fun _ : K => Slice) :=
  match M.lookup k with
  | some _ => M
  | none => M.insert k v

/-- What `Get` and `Len` should read: the first-writer-wins map. -/
structure Refines (s : BTreeIndexedStorage K) (M : Finmap (fun _ : K => Slice)) : Prop where
  get_eq : ∀ k, s.get k = some ((M.lookup k).elim (none, false) (·, true))
  len_eq : s.len = M.keys.card

/-- With `batchSize = 1`, `CompactIncremental` after two `Add`s scans only the smaller key and
installs that prefix: the larger key, live in the map, is gone. A stored nil is dropped the same
way by a full compaction (`batchSize = 0`). -/
theorem compactIncremental_loses_live_keys :
    ((newBTreeIndexedStorage 16 10 0.3 1 : Option (BTreeIndexedStorage Key8)).bind fun s =>
      (Sys.run ⟨s, 0⟩ [.add ⟨[0, 0, 0, 0, 0, 0, 0, 1], rfl⟩ (some [1]),
        .add ⟨[0, 0, 0, 0, 0, 0, 0, 2], rfl⟩ (some [2]), .compactIncremental]).bind fun σ =>
          σ.store.get ⟨[0, 0, 0, 0, 0, 0, 0, 2], rfl⟩) = some (none, false) ∧
    (absAdd (absAdd ∅ (⟨[0, 0, 0, 0, 0, 0, 0, 1], rfl⟩ : Key8) (some [1]))
      ⟨[0, 0, 0, 0, 0, 0, 0, 2], rfl⟩ (some [2])).lookup ⟨[0, 0, 0, 0, 0, 0, 0, 2], rfl⟩ =
        some (some [2]) ∧
    ((newBTreeIndexedStorage 16 10 0.3 0 : Option (BTreeIndexedStorage Key8)).bind fun s =>
      (Sys.run ⟨s, 0⟩ [.add ⟨[0, 0, 0, 0, 0, 0, 0, 1], rfl⟩ none, .compactIncremental]).bind
        fun σ => σ.store.get ⟨[0, 0, 0, 0, 0, 0, 0, 1], rfl⟩) = some (none, false) ∧
    (absAdd ∅ (⟨[0, 0, 0, 0, 0, 0, 0, 1], rfl⟩ : Key8) none).lookup ⟨[0, 0, 0, 0, 0, 0, 0, 1], rfl⟩ =
      some none := by
  decide

/-- The value the index and log hold for `k`: its entry's slot. -/
def lookupVal (tree : BTree (Entry.k (K := K))) (storage : List Slice) (k : K) : Option Slice :=
  (tree.get k).bind fun e => storage[e.pos]?

section Lookup
variable {tree : BTree (Entry.k (K := K))} {storage : List Slice}

theorem lookupVal_eq_none (h : Layout tree storage) {k : K} :
    lookupVal tree storage k = none ↔ tree.get k = none := by
  unfold lookupVal
  cases hg : tree.get k with
  | none => simp
  | some e => simp [List.getElem?_eq_getElem (h.pos_lt e (BTree.get_eq_some hg).1)]

theorem Layout.get_eq {s : BTreeIndexedStorage K} (h : Layout s.tree s.storage) (k : K) :
    s.get k = some ((lookupVal s.tree s.storage k).elim (none, false) (·, true)) := by
  unfold BTreeIndexedStorage.get lookupVal
  cases hg : s.tree.get k with
  | none => rfl
  | some e => simp [List.getElem?_eq_getElem (h.pos_lt e (BTree.get_eq_some hg).1)]

theorem lookupVal_appendEntry (h : Layout tree storage) (k : K) (v : Slice) (k' : K) :
    lookupVal (appendEntry tree storage k v).1 (appendEntry tree storage k v).2 k' =
      if k = k' then some v else lookupVal tree storage k' := by
  simp only [lookupVal, appendEntry, BTree.get_replaceOrInsert]
  split
  · simp
  · cases hg : tree.get k' with
    | none => rfl
    | some e => exact List.getElem?_append_left (h.pos_lt e (BTree.get_eq_some hg).1)

theorem lookupVal_clear (h : Layout tree storage) {k : K} {e : Entry K} (he : tree.get k = some e)
    (k' : K) :
    lookupVal (tree.delete k).1 (storage.set e.pos none) k' =
      if k' = k then none else lookupVal tree storage k' := by
  simp only [lookupVal, BTree.get_delete]
  split
  · rfl
  · cases hg : tree.get k' with
    | none => rfl
    | some e' =>
      obtain ⟨hm, rfl⟩ := BTree.get_eq_some he
      obtain ⟨hm', rfl⟩ := BTree.get_eq_some hg
      have : e.pos ≠ e'.pos := fun hp => ‹¬e'.k = e.k› (h.pos_inj e hm e' hm' hp).symm
      simp [List.getElem?_set, this]

end Lookup

theorem keys_insert_card {M : Finmap (fun _ : K => Slice)} {k : K} (hk : M.lookup k = none)
    (v : Slice) : (M.insert k v).keys.card = M.keys.card + 1 := by
  have : (M.insert k v).keys = insert k M.keys :=
    Finset.ext fun a => by simp [Finmap.mem_keys, Finmap.mem_insert]
  have hnot : k ∉ M.keys := by simpa [Finmap.mem_keys] using Finmap.lookup_eq_none.1 hk
  rw [this, Finset.card_insert_of_not_mem hnot]

/-- The index and log hold exactly `M`, and the index has one entry per key of `M`. -/
structure Mirrors (s : BTreeIndexedStorage K) (M : Finmap (fun _ : K => Slice)) : Prop where
  lookup_eq : ∀ k, lookupVal s.tree s.storage k = M.lookup k
  len_eq : s.tree.len = M.keys.card

namespace Mirrors
variable {s s' : BTreeIndexedStorage K} {M : Finmap (fun _ : K => Slice)}

theorem toRefines (hm : Mirrors s M) (h : Inv s) : Refines s M :=
  ⟨fun k => by rw [h.layout.get_eq k, hm.lookup_eq k], hm.len_eq⟩

theorem add (hm : Mirrors s M) (h : Inv s) (k : K) (v : Slice) :
    Mirrors (s.add k v) (absAdd M k v) := by
  unfold BTreeIndexedStorage.add absAdd
  cases hg : s.tree.get k with
  | some e =>
    have : M.lookup k ≠ none := by
      rw [← hm.lookup_eq, Ne, lookupVal_eq_none h.layout, hg]; simp
    obtain ⟨w, hw⟩ := Option.ne_none_iff_exists'.1 this
    simpa [hw] using hm
  | none =>
    have hM : M.lookup k = none := by rw [← hm.lookup_eq, lookupVal_eq_none h.layout, hg]
    refine ⟨fun k' => ?_, ?_⟩ <;> simp only [hM]
    · rw [lookupVal_appendEntry h.layout]
      by_cases e : k = k'
      · subst e; simp
      · rw [if_neg e, hm.lookup_eq, Finmap.lookup_insert_of_ne _ (Ne.symm e)]
    · simp [appendEntry, BTree.len_replaceOrInsert, hg, keys_insert_card hM, hm.len_eq]

theorem delete (hm : Mirrors s M) (h : Inv s) {k : K} {b : Bool}
    (hd : s.delete k = some (s', b)) : Mirrors s' (M.erase k) := by
  unfold BTreeIndexedStorage.delete at hd
  split at hd
  next tree heq =>
    cases hd
    have hg : s.tree.get k = none := by rw [← BTree.delete_snd, heq]
    have hM : M.lookup k = none := by rw [← hm.lookup_eq, lookupVal_eq_none h.layout, hg]
    have : M.erase k = M := Finmap.ext_lookup fun k' => by
      by_cases e : k' = k
      · subst e; rw [Finmap.lookup_erase, hM]
      · rw [Finmap.lookup_erase_ne e]
    rw [this, show tree = s.tree by rw [← BTree.delete_of_get_eq_none hg, heq]]
    exact hm
  next tree e heq =>
    split at hd
    · cases hd
      have hg : s.tree.get k = some e := by rw [← BTree.delete_snd, heq]
      have ht : tree = (s.tree.delete k).1 := by rw [heq]
      have hmem : k ∈ M.keys := by
        rw [Finmap.mem_keys, ← Finmap.lookup_isSome, ← hm.lookup_eq, Option.isSome_iff_ne_none,
          Ne, lookupVal_eq_none h.layout, hg]; simp
      refine ⟨fun k' => ?_, ?_⟩ <;> dsimp only <;> rw [ht]
      · rw [lookupVal_clear h.layout hg]
        by_cases e' : k' = k
        · subst e'; simp
        · rw [if_neg e', hm.lookup_eq, Finmap.lookup_erase_ne e']
      · have hl := BTree.len_delete s.tree k
        rw [hg] at hl
        rw [Finmap.keys_erase, Finset.card_erase_of_mem hmem, ← hm.len_eq]
        simp only [Option.isSome_some, if_true] at hl
        omega
    · cases hd

end Mirrors

theorem Compaction.keep_count (c : Compaction K) (k : K) (val : Slice) :
    (c.keep k val).count = c.count := by
  unfold Compaction.keep; split <;> rfl

/-- A scan over non-nil values that does not stop before its last entry appends every one of
them: the new index and log then hold what they held, and the scanned values. -/
theorem Compaction.Ok.scan_all {storage : List Slice} {b : Int} :
    ∀ {l : List (Entry K)} {c : Compaction K}, l.Pairwise (fun x y => x.k < y.k) →
      (∀ e ∈ l, ∃ v : Bytes, storage[e.pos]? = some (some v)) → c.Ok →
      (∀ x ∈ c.newTree.items, ∀ e ∈ l, x.k < e.k) → (b ≤ 0 ∨ c.count + l.length ≤ b) →
      ∃ c', ascendList (compactVisit storage b) (some c) l = some c' ∧ c'.Ok ∧
        (∀ k, lookupVal c'.newTree c'.newStorage k = (lookupVal c.newTree c.newStorage k).or
          ((findKey Entry.k k l).bind fun e => storage[e.pos]?)) ∧
        c'.newTree.len = c.newTree.len + l.length
  | [], c, _, _, hc, _, _ =>
    ⟨c, rfl, hc, fun k => by cases lookupVal c.newTree c.newStorage k <;> rfl, rfl⟩
  | e :: es, c, hl, hval, hc, hlt, hb => by
    obtain ⟨v, hv⟩ := hval e (List.mem_cons_self _ _)
    have hfresh : c.newTree.get e.k = none := BTree.get_eq_none.2 fun x hx =>
      ne_of_lt (hlt x hx e (List.mem_cons_self _ _))
    have hk := hc.keep hfresh (some v)
    have hkeep : c.keep e.k (some v) = { c with
        newTree := (appendEntry c.newTree c.newStorage e.k (some v)).1,
        newStorage := (appendEntry c.newTree c.newStorage e.k (some v)).2 } := by
      simp [Compaction.keep]
    obtain ⟨c', hrun, hok, hlook, hlen⟩ := Compaction.Ok.scan_all (b := b) (l := es)
      (c := { c.keep e.k (some v) with count := (c.keep e.k (some v)).count + 1 }) hl.of_cons
      (fun e he => hval e (List.mem_cons_of_mem _ he)) ⟨hk.layout, hk.len_eq⟩
      (fun x hx e' he' => (Compaction.mem_keep hx).elim
        (fun h => h ▸ List.rel_of_pairwise_cons hl he')
        fun hx => hlt x hx e' (List.mem_cons_of_mem _ he'))
      (by dsimp only; rw [Compaction.keep_count]; simp only [List.length_cons] at hb; omega)
    refine ⟨c', ?_, hok, fun k => ?_, ?_⟩
    · simp only [ascendList, compactVisit, hv]
      split
      · exact hrun
      · rename_i hstop
        rw [Compaction.keep_count] at hstop
        simp only [List.length_cons] at hb
        have : es = [] := List.eq_nil_of_length_eq_zero (by simp at hstop; omega)
        subst this; exact hrun
    · rw [hlook k, hkeep]
      simp only [lookupVal_appendEntry hc.layout, findKey_cons]
      by_cases he : e.k = k
      · subst he
        rw [(lookupVal_eq_none hc.layout).2 hfresh]
        simp [hv, Option.or]
      · simp [he]
    · rw [hlen, hkeep]
      simp [appendEntry, BTree.len_replaceOrInsert, hfresh, List.length_cons]
      omega

theorem Mirrors.compactIncremental {s s' : BTreeIndexedStorage K} {M : Finmap (fun _ : K => Slice)}
    (hm : Mirrors s M) (h : Inv s) (hnil : ∀ k, M.lookup k ≠ some none)
    (hb : s.batchSize ≤ 0 ∨ s.len ≤ s.batchSize) (hc : s.compactIncremental = some s') :
    Mirrors s' M := by
  have hval : ∀ e ∈ s.tree.items, ∃ v : Bytes, s.storage[e.pos]? = some (some v) := by
    intro e he
    have hp := h.layout.pos_lt e he
    have hl := hm.lookup_eq e.k
    simp only [lookupVal, BTree.get_key he, Option.some_bind, List.getElem?_eq_getElem hp] at hl ⊢
    cases hs : s.storage[e.pos] with
    | none => exact absurd (hs ▸ hl).symm (hnil e.k)
    | some v => exact ⟨v, rfl⟩
  obtain ⟨c, hrun, -, hlook, hlen⟩ := Compaction.Ok.scan_all (b := s.batchSize)
    (c := ⟨[], BTree.empty _, 0⟩) s.tree.sorted hval ⟨Layout.empty, rfl⟩
    (fun x hx => by simp [BTree.empty] at hx) (by simpa [len] using hb)
  unfold BTreeIndexedStorage.compactIncremental at hc
  rw [if_neg (not_le.2 h.degree_gt)] at hc
  simp only [BTree.ascend, hrun] at hc
  have hm' : Mirrors { s with storage := c.newStorage, tree := c.newTree, tombstones := 0 } M := by
    refine ⟨fun k => ?_, ?_⟩
    · rw [← hm.lookup_eq, hlook k]
      simp [lookupVal, Option.or, BTree.get]
    · simpa [BTree.len, BTree.empty, ← hm.len_eq] using hlen
  split at hc <;> (cases hc; exact hm')

/-- The runs in which no `Add` stores nil and every compaction, explicit or spawned by `Delete`,
scans the whole index when it runs, each with the first-writer-wins map its `Add`s and `Delete`s
build. -/
inductive CompleteRun : Sys K → Finmap (fun _ : K => Slice) → Prop
  | init {degree capacity batchSize : Int} {threshold : Float} {s : BTreeIndexedStorage K} :
      newBTreeIndexedStorage degree capacity threshold batchSize = some s → CompleteRun ⟨s, 0⟩ ∅
  | add {σ σ' : Sys K} {M : Finmap (fun _ : K => Slice)} {k : K} {v : Bytes} :
      CompleteRun σ M → σ.step (.add k (some v)) = some σ' → CompleteRun σ' (absAdd M k (some v))
  | delete {σ σ' : Sys K} {M : Finmap (fun _ : K => Slice)} {k : K} :
      CompleteRun σ M → σ.step (.delete k) = some σ' → CompleteRun σ' (M.erase k)
  | compact {σ σ' : Sys K} {M : Finmap (fun _ : K => Slice)} {op : Op K} :
      CompleteRun σ M → op = .compactIncremental ∨ op = .spawnedCompaction →
      σ.store.batchSize ≤ 0 ∨ σ.store.len ≤ σ.store.batchSize →
      σ.step op = some σ' → CompleteRun σ' M

theorem CompleteRun.mirrors {σ : Sys K} {M : Finmap (fun _ : K => Slice)} (h : CompleteRun σ M) :
    Inv σ.store ∧ Mirrors σ.store M ∧ ∀ k, M.lookup k ≠ some none := by
  induction h with
  | init hs =>
    refine ⟨Inv.init hs, ⟨fun k => ?_, ?_⟩, fun k => by simp⟩ <;>
      unfold newBTreeIndexedStorage at hs <;> split at hs <;> cases hs
    · simp [lookupVal]
    · rfl
  | @add σ σ' M k v _ hs ih =>
    obtain ⟨hi, hm, hn⟩ := ih
    cases hs
    refine ⟨hi.add _ _, hm.add hi _ _, fun k' => ?_⟩
    unfold absAdd
    split
    · exact hn k'
    · by_cases e : k' = k
      · subst e; simp
      · rw [Finmap.lookup_insert_of_ne _ e]; exact hn k'
  | @delete σ σ' M k _ hs ih =>
    obtain ⟨hi, hm, hn⟩ := ih
    obtain ⟨r, hr, rfl⟩ := Option.map_eq_some'.1 hs
    refine ⟨hi.delete hr, hm.delete hi hr, fun k' => ?_⟩
    by_cases e : k' = k
    · subst e; simp
    · rw [Finmap.lookup_erase_ne e]; exact hn k'
  | compact _ hop hb hs ih =>
    obtain ⟨hi, hm, hn⟩ := ih
    rcases hop with rfl | rfl
    · obtain ⟨r, hr, rfl⟩ := Option.map_eq_some'.1 hs
      exact ⟨hi.compactIncremental hr, hm.compactIncremental hi hn hb hr, hn⟩
    · simp only [Sys.step] at hs
      split at hs
      · cases hs
      · obtain ⟨r, hr, rfl⟩ := Option.map_eq_some'.1 hs
        exact ⟨hi.compactIncremental hr, hm.compactIncremental hi hn hb hr, hn⟩

/-- In a run where no `Add` stores nil and every compaction scans the whole index, `Get` and `Len`
read the first-writer-wins map of the run's `Add`s and `Delete`s. -/
theorem CompleteRun.refines {σ : Sys K} {M : Finmap (fun _ : K => Slice)} (h : CompleteRun σ M) :
    Refines σ.store M :=
  have ⟨hi, hm, _⟩ := h.mirrors
  hm.toRefines hi

/-- `Add(1, [1])`, `Add(2, [2])`, `Delete(1)` and a full compaction (the one the `Delete` spawns
whenever the ratio `1/2` passes the threshold) read the map that holds only key `2`. -/
theorem completeRun_refines_delete_compact :
    CompleteRun ⟨sampleStore.add ⟨[0, 0, 0, 0, 0, 0, 0, 2], rfl⟩ (some [2]), 0⟩
      ((absAdd (absAdd ∅ ⟨[0, 0, 0, 0, 0, 0, 0, 1], rfl⟩ (some [1]))
        ⟨[0, 0, 0, 0, 0, 0, 0, 2], rfl⟩ (some [2])).erase ⟨[0, 0, 0, 0, 0, 0, 0, 1], rfl⟩) ∧
    Refines (sampleStore.add ⟨[0, 0, 0, 0, 0, 0, 0, 2], rfl⟩ (some [2]))
      ((absAdd (absAdd ∅ ⟨[0, 0, 0, 0, 0, 0, 0, 1], rfl⟩ (some [1]))
        ⟨[0, 0, 0, 0, 0, 0, 0, 2], rfl⟩ (some [2])).erase ⟨[0, 0, 0, 0, 0, 0, 0, 1], rfl⟩) :=
  have h : CompleteRun _ _ := by
    have h₃ := (((@CompleteRun.init Key8 _ 16 10 100 0.3 sampleStore rfl).add rfl).add rfl).delete
      sampleStore_step_delete
    cases hb : overThreshold 1 2 0.3
    · rw [hb] at h₃
      exact h₃.compact (.inl rfl) (.inr (by decide)) rfl
    · rw [hb] at h₃
      exact h₃.compact (.inr rfl) (.inr (by decide)) rfl
  ⟨h, CompleteRun.refines h⟩

end BTreeIndexedStorage
end MemoryStorage
