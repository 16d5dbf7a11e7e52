import MemoryStorage.Basic
import Mathlib.Logic.Function.Basic

/-!
# `SimpleFastStorage`: a Go map into an append-only slice

`Add` stores a value the first time its key is seen and ignores the key afterwards; `Get` reads
the slot the key points to. After any run of `Add`s (each under the write lock, so every
interleaving is such a run) the map sends the added keys one-to-one onto the slots of `storage`,
and each slot holds the value of the first `Add` of its key (`Inv`). So `Get` returns that value
and never reads out of range.
-/

namespace MemoryStorage

/-- `SimpleFastStorage`: the map `set` from keys to positions, and the stored values. -/
structure SimpleFastStorage (K : Type*) where
  set : K → Option Nat
  storage : List Slice

namespace SimpleFastStorage
variable {K : Type*} [DecidableEq K]

/-- `NewSimpleFastStorage(approximately)`; the capacity hint changes nothing observable. -/
def newSimpleFastStorage : SimpleFastStorage K := ⟨fun _ => none, []⟩

/-- `Add(index, value)`. -/
def add (s : SimpleFastStorage K) (index : K) (value : Slice) : SimpleFastStorage K :=
  match s.set index with
  | some _ => s
  | none => ⟨Function.update s.set index (some s.storage.length), s.storage ++ [value]⟩

/-- `Get(index)`; `none` is the panic of an out-of-range `s.storage[pos]`. -/
def get (s : SimpleFastStorage K) (index : K) : Option (Slice × Bool) :=
  match s.set index with
  | some pos => s.storage[pos]?.map (·, true)
  | none => some (none, false)

/-- The store after the `Add`s of `ops`, in order. -/
def run (ops : List (K × Slice)) : SimpleFastStorage K :=
  ops.foldl (fun s op => s.add op.1 op.2) newSimpleFastStorage

/-- The value of the first `Add` of `k` in `ops`: first writer wins. -/
def firstAdd (ops : List (K × Slice)) (k : K) : Option Slice :=
  (ops.find? (·.1 = k)).map (·.2)

theorem firstAdd_append (ops : List (K × Slice)) (k : K) (v : Slice) (k' : K) :
    firstAdd (ops ++ [(k, v)]) k' =
      (firstAdd ops k').or (if k = k' then some v else none) := by
  simp only [firstAdd, List.find?_append]
  cases ops.find? (·.1 = k') <;> by_cases e : k = k' <;> simp [e]

theorem firstAdd_isSome {ops : List (K × Slice)} {k : K} :
    (firstAdd ops k).isSome ↔ k ∈ ops.map Prod.fst := by
  simp only [firstAdd, Option.isSome_map', List.find?_isSome, List.mem_map, decide_eq_true_eq]

/-- The representation invariant after the `Add`s of `ops`: `set` is a bijection from the added
keys onto the slots, and every slot holds the first value added under its key. -/
structure Inv (ops : List (K × Slice)) (s : SimpleFastStorage K) : Prop where
  dom : ∀ k, (s.set k).isSome ↔ k ∈ ops.map Prod.fst
  lt : ∀ k p, s.set k = some p → p < s.storage.length
  inj : ∀ k k' p, s.set k = some p → s.set k' = some p → k = k'
  onto : ∀ p < s.storage.length, ∃ k, s.set k = some p
  val : ∀ k p, s.set k = some p → s.storage[p]? = firstAdd ops k

theorem inv_new : Inv [] (newSimpleFastStorage : SimpleFastStorage K) :=
  ⟨by simp [newSimpleFastStorage], by simp [newSimpleFastStorage],
    by simp [newSimpleFastStorage], by simp [newSimpleFastStorage],
    by simp [newSimpleFastStorage]⟩

section Step
variable {ops : List (K × Slice)} {s : SimpleFastStorage K} {k : K}

theorem Inv.firstAdd_isSome (h : Inv ops s) : (firstAdd ops k).isSome = (s.set k).isSome := by
  rw [Bool.eq_iff_iff, h.dom, MemoryStorage.SimpleFastStorage.firstAdd_isSome]

theorem Inv.add_present (h : Inv ops s) (hk : (s.set k).isSome) (v : Slice) :
    Inv (ops ++ [(k, v)]) s := by
  have hmem : k ∈ ops.map Prod.fst := (h.dom k).1 hk
  refine ⟨fun k' => ?_, h.lt, h.inj, h.onto, fun k' p hp => ?_⟩
  · rw [h.dom k', List.map_append, List.mem_append]
    by_cases e : k' = k <;> simp [e, hmem]
  · obtain ⟨w, hw⟩ := Option.isSome_iff_exists.1 ((h.firstAdd_isSome (k := k')).trans (by simp [hp]))
    rw [h.val k' p hp, firstAdd_append, hw]; rfl

theorem Inv.add_fresh (h : Inv ops s) (hk : s.set k = none) (v : Slice) :
    Inv (ops ++ [(k, v)]) ⟨Function.update s.set k (some s.storage.length), s.storage ++ [v]⟩ := by
  have hnew : firstAdd ops k = none := by
    simpa [hk] using (h.firstAdd_isSome (k := k))
  refine ⟨fun k' => ?_, fun k' p hp => ?_, fun k₁ k₂ p h₁ h₂ => ?_, fun p hp => ?_,
    fun k' p hp => ?_⟩ <;> dsimp only at *
  · rw [Function.update_apply]
    split_ifs with e
    · simp [e]
    · simp [h.dom k', e]
  · rw [Function.update_apply] at hp
    split_ifs at hp with e
    · cases hp; simp
    · simpa using Nat.lt_succ_of_lt (h.lt k' p hp)
  · rw [Function.update_apply] at h₁ h₂
    split_ifs at h₁ h₂ with e₁ e₂ e₂
    · rw [e₁, e₂]
    · cases h₁; exact absurd (h.lt k₂ _ h₂) (lt_irrefl _)
    · cases h₂; exact absurd (h.lt k₁ _ h₁) (lt_irrefl _)
    · exact h.inj k₁ k₂ p h₁ h₂
  · rw [List.length_append, List.length_singleton] at hp
    rcases Nat.lt_succ_iff_lt_or_eq.1 hp with hp | rfl
    · obtain ⟨k', hk'⟩ := h.onto p hp
      have e : k' ≠ k := fun e => by simp [e, hk] at hk'
      exact ⟨k', by rw [Function.update_noteq e, hk']⟩
    · exact ⟨k, Function.update_same _ _ _⟩
  · rw [firstAdd_append]
    rw [Function.update_apply] at hp
    split_ifs at hp with e
    · cases hp; subst e; simp [hnew]
    · obtain ⟨w, hw⟩ := Option.isSome_iff_exists.1
        ((h.firstAdd_isSome (k := k')).trans (by simp [hp]))
      rw [List.getElem?_append_left (h.lt k' p hp), h.val k' p hp, hw]; rfl

theorem Inv.add (h : Inv ops s) (k : K) (v : Slice) : Inv (ops ++ [(k, v)]) (s.add k v) := by
  unfold SimpleFastStorage.add
  split
  · exact h.add_present (by simp [*]) v
  · exact h.add_fresh ‹_› v

end Step

theorem inv_foldl (pre ops : List (K × Slice)) (s : SimpleFastStorage K) (h : Inv pre s) :
    Inv (pre ++ ops) (ops.foldl (fun s op => s.add op.1 op.2) s) := by
  induction ops generalizing pre s with
  | nil => simpa using h
  | cons op ops ih => simpa using ih (pre ++ [op]) _ (h.add op.1 op.2)

theorem inv_run (ops : List (K × Slice)) : Inv ops (run ops : SimpleFastStorage K) := by
  simpa using inv_foldl [] ops _ inv_new

theorem Inv.get {ops : List (K × Slice)} {s : SimpleFastStorage K} (h : Inv ops s) (k : K) :
    s.get k = some ((firstAdd ops k).elim (none, false) (·, true)) := by
  have hs := h.firstAdd_isSome (k := k)
  unfold SimpleFastStorage.get
  split
  · rename_i p hp
    obtain ⟨w, hw⟩ := Option.isSome_iff_exists.1 (hs.trans (by simp [hp]))
    rw [h.val k p hp, hw]; rfl
  · rename_i hp
    have : firstAdd ops k = none := by simpa [hp] using hs
    rw [this]; rfl

/-- After any run of `Add`s, `set` sends the added keys bijectively onto `[0, len(storage))`, and
`Get(k)` returns the value of the first `Add` of `k`, or `(nil, false)` if `k` was never added,
without indexing `storage` out of range. -/
theorem run_set_bijective_get_first (ops : List (K × Slice)) :
    (∀ k, ((run ops).set k).isSome ↔ k ∈ ops.map Prod.fst) ∧
    (∀ k p, (run ops).set k = some p → p < (run ops).storage.length) ∧
    (∀ k k' p, (run ops).set k = some p → (run ops).set k' = some p → k = k') ∧
    (∀ p < (run ops).storage.length, ∃ k, (run ops).set k = some p) ∧
    ∀ k, (run ops).get k = some ((firstAdd ops k).elim (none, false) (·, true)) :=
  have h := inv_run ops
  ⟨h.dom, h.lt, h.inj, h.onto, h.get⟩

end SimpleFastStorage

end MemoryStorage
