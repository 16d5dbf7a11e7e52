import MemoryStorage.OrderedIndex
import Mathlib.Data.Finset.Sort

/-!
# The expiry scan and the delete loop of the TTL index

Both versions of `ByteKeyBTree` keep items with a key and the unix second of their last write in a
`btree.BTree`. `PurgeExpiredAt` and `ListExpiredAt` give `Ascend` the same callback: keep an item
last written at or before the cutoff, and stop once `maxCount > 0` items are kept. So a scan keeps
the first `maxCount` expired items in key order (`ascendList_expiredVisit`). The delete loops of
`PurgeExpiredAt` delete keys one at a time, so a key is gone after the loop exactly when the loop
named it (`get_deleteEach`), and a loop over distinct present keys removes each of them and counts
them all (`deleteEach_of_nodup`).

`KeyMap` is what a TTL index is for: a finite map from keys to records. Upserts and deletes on a
tree are upserts and erasures of the map the tree denotes.
-/

namespace MemoryStorage

variable {K α β : Type*} [LinearOrder K]

/-- `now.Add(-ttl).Unix()`: items last written at or before this second have expired. -/
def cutoffUnix (now : Time) (ttl : Duration) : Int := (now.add (-ttl)).unix

/-- The first `n` elements when `n > 0`, all of them otherwise. -/
def takeLimit (n : Int) (l : List β) : List β := if 0 < n then l.take n.toNat else l

/-- The `Ascend` callback of `PurgeExpiredAt` and `ListExpiredAt`: append `clone it` (a copy of the
key, or the item itself) when `ts it <= cutoff`, and stop once `maxCount > 0 && len(out) >= maxCount`. -/
def expiredVisit (ts : α → Int) (clone : α → β) (cutoff maxCount : Int) (out : List β) (it : α) :
    List β × Bool :=
  if ts it ≤ cutoff then
    (out ++ [clone it], !(0 < maxCount ∧ maxCount ≤ ((out ++ [clone it]).length : Int)))
  else (out, true)

section Scan
variable (ts : α → Int) (clone : α → β) (cutoff : Int)

theorem ascendList_expiredVisit_of_nonpos {n : Int} (hn : n ≤ 0) (out : List β) (l : List α) :
    ascendList (expiredVisit ts clone cutoff n) out l =
      out ++ (l.filter fun it => ts it ≤ cutoff).map clone := by
  induction l generalizing out with
  | nil => simp [ascendList]
  | cons x xs ih =>
    by_cases h : ts x ≤ cutoff
    · simp [ascendList, expiredVisit, h, ih, not_lt.2 hn]
    · simp [ascendList, expiredVisit, h, ih]

theorem ascendList_expiredVisit_of_pos {n : Int} (hn : 0 < n) (out : List β) (l : List α)
    (hout : out.length < n) :
    ascendList (expiredVisit ts clone cutoff n) out l =
      out ++ ((l.filter fun it => ts it ≤ cutoff).map clone).take (n.toNat - out.length) := by
  induction l generalizing out with
  | nil => simp [ascendList]
  | cons x xs ih =>
    by_cases h : ts x ≤ cutoff
    · obtain ⟨m, hm⟩ : ∃ m, n.toNat - out.length = m + 1 := ⟨n.toNat - out.length - 1, by omega⟩
      simp only [ascendList, expiredVisit, h, if_true, List.filter_cons, decide_True, List.map_cons,
        hm, List.take_succ_cons, List.length_append, List.length_singleton, hn, true_and]
      by_cases hstop : n ≤ (out.length : Int) + 1
      · have hm0 : m = 0 := by omega
        simp [hm0, not_lt.2 hstop]
      · have hm' : n.toNat - (out.length + 1) = m := by omega
        have hlen : ((out ++ [clone x]).length : Int) < n := by simp; omega
        rw [if_pos (by simpa using hstop), ih _ hlen]
        simp [hm']
    · simp [ascendList, expiredVisit, h, ih _ hout]

/-- A scan from an empty `out` keeps the first `n` expired items in key order, or all of them
when `n <= 0`. -/
theorem ascendList_expiredVisit (n : Int) (l : List α) :
    ascendList (expiredVisit ts clone cutoff n) [] l =
      (takeLimit n (l.filter fun it => ts it ≤ cutoff)).map clone := by
  unfold takeLimit
  split_ifs with hn
  · simpa [List.map_take] using ascendList_expiredVisit_of_pos ts clone cutoff hn [] l (by simpa)
  · simpa using ascendList_expiredVisit_of_nonpos ts clone cutoff (not_lt.1 hn) [] l

end Scan

@[simp] theorem takeLimit_nil (n : Int) : takeLimit n ([] : List β) = [] := by
  unfold takeLimit; split_ifs <;> simp

/-- One element taken: the last one when `n = 1`, and then `n - 1` more. -/
theorem takeLimit_cons (n : Int) (x : β) (l : List β) :
    takeLimit n (x :: l) = if n = 1 then [x] else x :: takeLimit (n - 1) l := by
  unfold takeLimit
  split_ifs with h₁ h₂ h₃ h₃ <;> try omega
  · subst h₂; rfl
  · rw [show n.toNat = (n - 1).toNat + 1 by omega, List.take_succ_cons]
  · rfl

theorem takeLimit_sublist (n : Int) (l : List β) : (takeLimit n l).Sublist l := by
  unfold takeLimit; split_ifs
  · exact List.take_sublist _ _
  · exact List.Sublist.refl l

theorem mem_takeLimit_filter {n : Int} {p : β → Bool} {l : List β} {x : β}
    (h : x ∈ takeLimit n (l.filter p)) : x ∈ l ∧ p x :=
  List.mem_filter.1 ((takeLimit_sublist n _).subset h)

namespace BTree
variable {key : α → K}

/-- The write-locked loop `for _, key := range keys { if tree.Delete(key) != nil { deleted++ } }`,
from the tree and the count so far. -/
def deleteEach (r : BTree key × Nat) (keys : List K) : BTree key × Nat :=
  keys.foldl (fun r k => ((r.1.delete k).1, if (r.1.delete k).2.isSome then r.2 + 1 else r.2)) r

theorem get_deleteEach (r : BTree key × Nat) (keys : List K) (k : K) :
    (deleteEach r keys).1.get k = if k ∈ keys then none else r.1.get k := by
  induction keys generalizing r with
  | nil => simp [deleteEach]
  | cons k' ks ih =>
    rw [deleteEach, List.foldl_cons, ← deleteEach, ih, get_delete]
    by_cases h : k = k' <;> simp [h]

/-- A loop over distinct keys that are all in the tree removes exactly them and counts each. -/
theorem deleteEach_of_nodup (t : BTree key) (m : Nat) {keys : List K} (hnd : keys.Nodup)
    (hin : ∀ k ∈ keys, (t.get k).isSome) :
    (deleteEach (t, m) keys).1.items = t.items.filter (fun x => key x ∉ keys) ∧
      (deleteEach (t, m) keys).2 = m + keys.length := by
  induction keys generalizing t m with
  | nil => simp [deleteEach]
  | cons k ks ih =>
    rw [List.nodup_cons] at hnd
    have hin' : ∀ k' ∈ ks, ((t.delete k).1.get k').isSome := fun k' hk' => by
      rw [get_delete, if_neg (fun e : k' = k => hnd.1 (e ▸ hk'))]
      exact hin k' (List.mem_cons_of_mem _ hk')
    rw [deleteEach, List.foldl_cons, delete_snd, if_pos (hin k (List.mem_cons_self _ _)),
      ← deleteEach]
    obtain ⟨hitems, hcount⟩ := ih (t.delete k).1 (m + 1) hnd.2 hin'
    refine ⟨?_, by rw [hcount, List.length_cons]; omega⟩
    rw [hitems, delete, List.filter_filter]
    congr 1
    funext x
    simp [Bool.and_comm]

end BTree

section FoldCount
variable {σ τ γ : Type*}

/-- The left fold of the call `f` over `xs`, counting the calls that answer `true`: what a batch
call of the TTL index is meant to be. -/
def foldCount (f : σ → γ → σ × Bool) (s : σ) (xs : List γ) : σ × Nat :=
  xs.foldl (fun r x => ((f r.1 x).1, if (f r.1 x).2 then r.2 + 1 else r.2)) (s, 0)

/-- A fold of calls that `abs` sends to calls of `g` goes to the fold of `g`. -/
theorem foldCount_hom (abs : σ → τ) (f : σ → γ → σ × Bool) (g : τ → γ → τ × Bool)
    (h : ∀ s x, (abs (f s x).1, (f s x).2) = g (abs s) x) (s : σ) (xs : List γ) :
    (abs (foldCount f s xs).1, (foldCount f s xs).2) = foldCount g (abs s) xs := by
  unfold foldCount
  generalize 0 = n
  induction xs generalizing s n with
  | nil => rfl
  | cons x xs ih =>
    simp only [List.foldl_cons, ← h]
    exact ih _ _

theorem foldCount_fst (f : σ → γ → σ × Bool) (s : σ) (xs : List γ) :
    (foldCount f s xs).1 = xs.foldl (fun s x => (f s x).1) s :=
  (List.foldl_hom Prod.fst (fun r x => ((f r.1 x).1, if (f r.1 x).2 then r.2 + 1 else r.2))
    (fun s x => (f s x).1) xs (s, 0) fun _ _ => rfl).symm

/-- A loop whose body panics on a nil entry (`none`) and runs `g` on the others panics exactly
when the list has a nil entry. -/
theorem foldlM_map_eq_none_iff (g : σ → γ → σ) (s : σ) (l : List (Option γ)) :
    l.foldlM (fun r x => x.map (g r)) s = none ↔ none ∈ l := by
  induction l generalizing s with
  | nil => simp
  | cons x xs ih => cases x <;> simp [ih]

/-- On a list with no nil entry such a loop is the fold of `g`, for any `G` that agrees with `g`
on the entries that are there. -/
theorem foldlM_map_of_not_mem {g : σ → γ → σ} {G : σ → Option γ → σ}
    (hG : ∀ r x, G r (some x) = g r x) (s : σ) {l : List (Option γ)} (hl : none ∉ l) :
    l.foldlM (fun r x => x.map (g r)) s = some (l.foldl G s) := by
  induction l generalizing s with
  | nil => rfl
  | cons x xs ih =>
    obtain ⟨x, rfl⟩ := Option.ne_none_iff_exists'.1 fun e => hl (e ▸ List.mem_cons_self _ _)
    simp only [List.foldlM_cons, Option.map_some', Option.some_bind, List.foldl_cons, hG]
    exact ih _ fun h => hl (List.mem_cons_of_mem _ h)

end FoldCount

/-- What a TTL index stands for: each live key with its record. -/
abbrev KeyMap (α : Type*) := Finmap (fun _ : Bytes => α)

namespace KeyMap
variable (key : α → Bytes)

/-- Store a record under its key; the answer is whether the key was new. -/
def upsert (M : KeyMap α) (x : α) : KeyMap α × Bool := (M.insert (key x) x, decide (key x ∉ M))

/-- Remove a key; the answer is whether it was there. -/
def erase (M : KeyMap α) (k : Bytes) : KeyMap α × Bool := (Finmap.erase k M, decide (k ∈ M))

/-- The records of `M` in ascending key order. -/
def records (M : KeyMap α) : List α := (M.keys.sort (· ≤ ·)).filterMap fun k => M.lookup k

/-- The records last written at or before `cutoff`, in key order; the first `n` when `n > 0`. -/
def expired (ts : α → Int) (M : KeyMap α) (cutoff n : Int) : List α :=
  takeLimit n (M.records.filter fun x => ts x ≤ cutoff)

end KeyMap

namespace BTree
variable {key : α → Bytes}

theorem toFinmap_replaceOrInsert_eq_upsert (t : BTree key) (x : α) :
    ((t.replaceOrInsert x).1.toFinmap, (t.replaceOrInsert x).2.isNone) =
      KeyMap.upsert key t.toFinmap x := by
  rw [toFinmap_replaceOrInsert, replaceOrInsert_snd, ← lookup_toFinmap, KeyMap.upsert]
  cases h : Finmap.lookup (key x) t.toFinmap <;> simp [Finmap.mem_iff, h]

theorem toFinmap_delete_eq_erase (t : BTree key) (k : Bytes) :
    ((t.delete k).1.toFinmap, (t.delete k).2.isSome) = KeyMap.erase t.toFinmap k := by
  rw [toFinmap_delete, delete_snd, ← lookup_toFinmap, KeyMap.erase]
  cases h : Finmap.lookup k t.toFinmap <;> simp [Finmap.mem_iff, h]

theorem keys_toFinmap (t : BTree key) : t.toFinmap.keys = (t.items.map key).toFinset := by
  ext k
  rw [Finmap.mem_keys, Finmap.mem_iff, List.mem_toFinset, List.mem_map]
  simp only [lookup_toFinmap]
  exact ⟨fun ⟨x, hx⟩ => ⟨x, get_eq_some hx⟩, fun ⟨x, hx, hk⟩ => ⟨x, hk ▸ get_key hx⟩⟩

/-- The records of the map a tree denotes are its items: `Ascend` visits the map in key order. -/
theorem records_toFinmap (t : BTree key) : KeyMap.records t.toFinmap = t.items := by
  have hsorted : (t.items.map key).Sorted (· < ·) := List.pairwise_map.2 t.sorted
  rw [KeyMap.records, keys_toFinmap, (List.toFinset_sort _ hsorted.nodup).2 hsorted.le_of_lt,
    List.filterMap_map]
  calc _ = t.items.filterMap some :=
        List.filterMap_congr fun x hx => by simp [lookup_toFinmap, get_key hx]
    _ = t.items := List.filterMap_some _

theorem toFinmap_deleteEach (r : BTree key × Nat) (keys : List Bytes) :
    (deleteEach r keys).1.toFinmap = keys.foldl (fun M k => Finmap.erase k M) r.1.toFinmap := by
  induction keys generalizing r with
  | nil => rfl
  | cons k ks ih => rw [deleteEach, List.foldl_cons, ← deleteEach, ih, toFinmap_delete]; rfl

end BTree

end MemoryStorage
