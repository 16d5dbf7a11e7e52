import MemoryStorage.TtlIndex

/-!
# `Store.ScanPrefix`: the keys under a prefix, in order, up to a limit

`ScanPrefix(prefix, limit, fn)` opens a read view, seeks its iterator to `prefix` and, while the
key under it starts with `prefix`, copies the pair, reads the value, calls `fn`, and stops after
`limit` calls when `limit > 0`. The first error of a value read or of `fn` ends the scan and is
returned.

The view is modelled by its live entries in increasing key order. In that order the keys with a
given prefix form one block, which starts at the first key not below the prefix
(`filter_isPrefixOf_eq_takeWhile`). The scan therefore calls `fn` on the first `limit` entries that
start with `prefix`, in key order, up to the first error (`scanPrefix_eq`).
-/

namespace MemoryStorage

/-! ### Prefixes in the order of `bytes.Compare` -/

section Lex
variable {a b pfx : List Byte}

theorem take_lt_or_eq_of_lt (h : a < b) (n : Nat) : a.take n < b.take n ∨ a.take n = b.take n := by
  induction n generalizing a b with
  | zero => exact .inr rfl
  | succ n ih =>
    cases h with
    | nil => exact .inl (by simpa using List.Lex.nil)
    | @cons x as bs h =>
      rcases ih h with h' | h'
      · exact .inl (List.Lex.cons h')
      · exact .inr (by simp [h'])
    | rel h => exact .inl (List.Lex.rel h)

theorem not_lt_of_prefix (h : pfx <+: a) : ¬a < pfx := by
  obtain ⟨t, rfl⟩ := h
  induction pfx with
  | nil => exact fun h => by cases h
  | cons x xs ih => exact fun h => ih (List.Lex.cons_iff.1 h)

/-- Past a key that is not below `pfx` and does not start with it, no larger key starts with it:
the keys with a prefix are one block of the order. -/
theorem not_prefix_of_lt (hpa : ¬a < pfx) (hna : ¬pfx <+: a) (hab : a < b) : ¬pfx <+: b := by
  have htake : pfx.take pfx.length = pfx := List.take_length pfx
  have hlt : pfx < a := lt_of_le_of_ne (not_lt.1 hpa) fun e => hna (e ▸ List.prefix_refl _)
  have hpa' : pfx < a.take pfx.length := by
    rcases take_lt_or_eq_of_lt hlt pfx.length with h | h
    · rwa [htake] at h
    · exact absurd (List.prefix_iff_eq_take.2 (htake.symm.trans h)) hna
  intro hpb
  rcases take_lt_or_eq_of_lt hab pfx.length with h | h <;>
    rw [← List.prefix_iff_eq_take.1 hpb] at h
  · exact lt_irrefl _ (hpa'.trans h)
  · exact lt_irrefl _ (h ▸ hpa')

end Lex

namespace Sdk

/-- `KV`. -/
structure KV where
  key : Bytes
  value : Bytes
deriving DecidableEq

/-- A read-only view of the database, as an iterator with the default options walks it: its live
entries in increasing key order. -/
structure View where
  entries : List (Bytes × Bytes)
  sorted : (entries.map Prod.fst).Sorted (· < ·)

/-- What `ScanPrefix` learns from outside: whether `item.Value` fails on a key, and what `fn`
returns on a pair. -/
structure ScanEnv where
  valueErr : Bytes → Option String
  fn : KV → Option String

/-- The loop of `ScanPrefix` from the iterator's position, after `count` calls of `fn`: the pairs
it passes to `fn`, and the error it returns. -/
def scanLoop (env : ScanEnv) (pfx : Bytes) (limit count : Int) :
    List (Bytes × Bytes) → List KV × Option String
  | [] => ([], none)
  | (k, v) :: rest =>
    if List.isPrefixOf pfx k then
      match env.valueErr k with
      | some e => ([], some e)
      | none =>
        match env.fn ⟨k, v⟩ with
        | some e => ([⟨k, v⟩], some e)
        | none =>
          if limit > 0 ∧ count + 1 ≥ limit then ([⟨k, v⟩], none)
          else
            let r := scanLoop env pfx limit (count + 1) rest
            (⟨k, v⟩ :: r.1, r.2)
    else ([], none)

/-- `ScanPrefix(prefix, limit, fn)`: `it.Seek(prefix)` starts at the first key not below
`prefix`. -/
def scanPrefix (view : View) (env : ScanEnv) (pfx : Bytes) (limit : Int) : List KV × Option String :=
  scanLoop env pfx limit 0 (view.entries.dropWhile fun kv => kv.1 < pfx)

/-- `fn` on each pair in turn, each value read first, up to the first error. -/
def callEach (env : ScanEnv) : List (Bytes × Bytes) → List KV × Option String
  | [] => ([], none)
  | (k, v) :: rest =>
    match env.valueErr k with
    | some e => ([], some e)
    | none =>
      match env.fn ⟨k, v⟩ with
      | some e => ([⟨k, v⟩], some e)
      | none =>
        let r := callEach env rest
        (⟨k, v⟩ :: r.1, r.2)

/-- The loop after `count` calls of `fn` makes at most `limit - count` more, on the block of keys
with the prefix at the front of what is left. -/
theorem scanLoop_eq (env : ScanEnv) (pfx : Bytes) (limit : Int) (l : List (Bytes × Bytes))
    (count : Int) (h₀ : 0 ≤ count) (hlt : 0 < limit → count < limit) :
    scanLoop env pfx limit count l =
      callEach env (takeLimit (limit - count) (l.takeWhile fun kv => List.isPrefixOf pfx kv.1)) := by
  induction l generalizing count with
  | nil => simp [scanLoop, callEach]
  | cons kv rest ih =>
    obtain ⟨k, v⟩ := kv
    by_cases hp : List.isPrefixOf pfx k
    · have htw : ((k, v) :: rest).takeWhile (fun kv => List.isPrefixOf pfx kv.1) =
          (k, v) :: rest.takeWhile (fun kv => List.isPrefixOf pfx kv.1) := by
        simp [List.takeWhile_cons, hp]
      simp only [scanLoop, hp, if_true, htw, takeLimit_cons]
      by_cases h1 : limit - count = 1
      · simp only [h1, if_true, callEach]
        rw [if_pos (by omega)]
      · simp only [h1, if_false, callEach]
        rw [if_neg (by omega), ih (count + 1) (by omega) (fun h => by omega),
          show limit - (count + 1) = limit - count - 1 by omega]
    · have htw : ((k, v) :: rest).takeWhile (fun kv => List.isPrefixOf pfx kv.1) = [] := by
        simp [List.takeWhile_cons, hp]
      simp [scanLoop, hp, htw, callEach]

theorem isPrefixOf_iff {pfx k : Bytes} : List.isPrefixOf pfx k ↔ pfx <+: k :=
  List.isPrefixOf_iff_prefix

/-- On entries in key order that start at or past `pfx`, the entries with the prefix are a block at
the front. -/
theorem takeWhile_eq_filter (pfx : Bytes) :
    ∀ l : List (Bytes × Bytes), l.Pairwise (fun a b => a.1 < b.1) →
      (∀ x ∈ l.head?, ¬x.1 < pfx) →
      l.takeWhile (fun kv => List.isPrefixOf pfx kv.1) = l.filter fun kv => List.isPrefixOf pfx kv.1
  | [], _, _ => rfl
  | x :: l, hs, hx => by
    have hx : ¬x.1 < pfx := hx x rfl
    have hlt : ∀ y ∈ l, x.1 < y.1 := (List.pairwise_cons.1 hs).1
    by_cases hp : List.isPrefixOf pfx x.1
    · simp only [List.takeWhile_cons, List.filter_cons, hp, if_true]
      rw [takeWhile_eq_filter pfx l (List.pairwise_cons.1 hs).2 fun y hy =>
          not_lt.2 ((not_lt.1 hx).trans (hlt y (List.mem_of_mem_head? hy)).le)]
    · simp only [List.takeWhile_cons, List.filter_cons, hp, Bool.false_eq_true, if_false]
      rw [eq_comm, List.filter_eq_nil_iff]
      intro y hy hpy
      exact not_prefix_of_lt hx (fun h => hp (isPrefixOf_iff.2 h)) (hlt y hy) (isPrefixOf_iff.1 hpy)

/-- From the first key not below `pfx`, the keys starting with `pfx` are the first ones: the
block the iterator walks is all of them. -/
theorem filter_isPrefixOf_eq_takeWhile (view : View) (pfx : Bytes) :
    (view.entries.dropWhile fun kv => kv.1 < pfx).takeWhile (fun kv => List.isPrefixOf pfx kv.1) =
      view.entries.filter fun kv => List.isPrefixOf pfx kv.1 := by
  have hs : view.entries.Pairwise (fun a b => a.1 < b.1) := List.pairwise_map.1 view.sorted
  conv_rhs => rw [← List.takeWhile_append_dropWhile (fun kv => decide (kv.1 < pfx)) view.entries]
  rw [List.filter_append, List.filter_eq_nil_iff.2, List.nil_append]
  · refine takeWhile_eq_filter pfx _ (hs.sublist (List.dropWhile_suffix _).sublist) fun x hx => ?_
    have := List.head?_dropWhile_not (fun kv => decide (kv.1 < pfx)) view.entries
    rw [Option.mem_def.1 hx] at this
    simpa using this
  · intro x hx hp
    exact not_lt_of_prefix (isPrefixOf_iff.1 hp) (by simpa using List.mem_takeWhile_imp hx)

/-- `ScanPrefix` calls `fn` on the entries whose key starts with the prefix, in key order, the
first `limit` of them when `limit > 0`, reading each value first, and stops at the first error,
which it returns. -/
theorem scanPrefix_eq (view : View) (env : ScanEnv) (pfx : Bytes) (limit : Int) :
    scanPrefix view env pfx limit =
      callEach env (takeLimit limit (view.entries.filter fun kv => List.isPrefixOf pfx kv.1)) := by
  rw [scanPrefix, scanLoop_eq env pfx limit _ 0 le_rfl id, sub_zero,
    filter_isPrefixOf_eq_takeWhile]

/-- Of the keys `[1, 2]`, `[1, 3]` and `[2]`, two start with `[1]`; a limit of 1 passes the first. -/
example : scanPrefix ⟨[([1, 2], [9]), ([1, 3], [8]), ([2], [7])], by decide⟩
    ⟨fun _ => none, fun _ => none⟩ [1] 1 = ([⟨[1, 2], [9]⟩], none) := by decide

end Sdk

end MemoryStorage
