import Mathlib.Algebra.Group.Int
import Mathlib.Order.MinMax

/-!
# `ComputeMemoryLimit`: cache and memtable sizes from a memory limit

The calculation clamps the limit to `[1 GiB, 20 GiB]`, keeps a safety margin, gives a share of the
rest to the memtables and splits what is left 2:1 between the block and index caches, aligning
every size down to 64 MiB. It is modelled over `Int` with Go's truncating division (`Int.tdiv`),
in three stages (`memTables`, `cacheSplit` and the whole), each returning with its result the
`int64` products, sums and differences it computes, so that their range can be checked. The one
float step, `int64(float64(budget) * memRatio)`, is a parameter `roundProduct`: the theorems hold
for every rounding that stays at most `budget/4 + 1`.

With that, every size is a multiple of 64 MiB and within its bounds, the sizes fit in the budget,
and every logged value lies in `[0, 2^63)`: no `int64` step wraps or goes negative
(`computeMemoryLimit_bounds`).
-/

namespace MemoryStorage
namespace Sdk

/-- `MiB`. -/
def MiB : Int := 1024 * 1024

/-- `GiB`. -/
def GiB : Int := 1024 * 1024 * 1024

/-- `ALIGN`: every size is a multiple of 64 MiB. -/
def ALIGN : Int := 64 * MiB

/-- `MemoryLimit`. -/
structure MemoryLimit where
  blockCacheSize : Int
  indexCacheSize : Int
  memTableSize : Int
  numMemtables : Int
deriving DecidableEq, Repr

/-- `ml`: the limit clamped to `[1 GiB, 20 GiB]`. -/
def clampLimit (memoryLimit : Int) : Int :=
  let ml := if memoryLimit < 1 * GiB then 1 * GiB else memoryLimit
  if ml > 20 * GiB then 20 * GiB else ml

/-- `safety`: a tenth of `ml`, at least `minSafety` (128 MiB) and at most a quarter of `ml`. -/
def safetyMargin (ml : Int) : Int :=
  let safety := ml.tdiv 10
  let safety := if safety < 128 * MiB then 128 * MiB else safety
  if safety > ml.tdiv 4 then ml.tdiv 4 else safety

/-- `memRatio`, the memtables' share of the budget. -/
def memRatio (ml : Int) : Float :=
  if ml ≥ 12 * GiB then 0.25 else if ml ≥ 6 * GiB then 0.20 else 0.15

/-- The memtables' part: `(numMemtables, memTableSize)` for `memBudget`, at most two memtables of
`[minMTSize, maxMTSize]` = `[64 MiB, 2 GiB]` each, aligned down; with the product it computes. -/
def memTables (memBudget : Int) : (Int × Int) × List Int :=
  let numMemtables : Int := if memBudget ≥ 1 * GiB then 2 else 1
  let numMemtables := if numMemtables > 2 then 2 else numMemtables
  let memTableSize := if numMemtables > 0 then memBudget.tdiv numMemtables else 0
  let memTableSize := if memTableSize < 64 * MiB then 64 * MiB else memTableSize
  let memTableSize := if memTableSize > 2 * GiB then 2 * GiB else memTableSize
  let aligned := memTableSize.tdiv ALIGN * ALIGN
  ((numMemtables, if aligned ≤ 0 then 64 * MiB else aligned), [aligned])

/-- The caches' part: split `cacheBudget` 2:1 between the block and index caches, raise them to
`minBlock` (256 MiB) and `minIndex` (128 MiB), scale both down when that overshoots, and align
both down; with the products, sums and differences it computes. -/
def cacheSplit (cacheBudget : Int) : (Int × Int) × List Int :=
  let twice := cacheBudget * 2
  let block := twice.tdiv 3
  let index := cacheBudget - block
  let block := if block < 256 * MiB then 256 * MiB else block
  let index := if index < 128 * MiB then 128 * MiB else index
  let totalCache := block + index
  let shrink := decide (totalCache > cacheBudget ∧ totalCache > 0)
  let scaled := block * cacheBudget
  let block := if shrink then scaled.tdiv totalCache else block
  let index' := cacheBudget - block
  let index := if shrink then index' else index
  let blockAligned := block.tdiv ALIGN * ALIGN
  let indexAligned := index.tdiv ALIGN * ALIGN
  ((if blockAligned < 0 then 0 else blockAligned, if indexAligned < 0 then 0 else indexAligned),
    [twice, cacheBudget - twice.tdiv 3, totalCache] ++ (if shrink then [scaled, index'] else []) ++
      [blockAligned, indexAligned])

/-- `ComputeMemoryLimit(memoryLimit)`, with `roundProduct budget memRatio` for
`int64(float64(budget) * memRatio)`; the values logged are the `int64` products, sums and
differences it computes. The three `Printf`s only print. -/
def computeMemoryLimit (roundProduct : Int → Float → Int) (memoryLimit : Int) :
    MemoryLimit × List Int :=
  let ml := clampLimit memoryLimit
  let safety := safetyMargin ml
  let budget₀ := ml - safety
  let budget := if budget₀ < 0 then ml else budget₀
  let memBudget := roundProduct budget (memRatio ml)
  let memBudget := if memBudget < 0 then 0 else memBudget
  let mt := memTables memBudget
  let memtableTotal₀ := mt.1.2 * mt.1.1
  let memtableTotal := if memtableTotal₀ > budget then budget else memtableTotal₀
  let cacheBudget₀ := budget - memtableTotal
  let cacheBudget := if cacheBudget₀ < 0 then 0 else cacheBudget₀
  let caches := cacheSplit cacheBudget
  (⟨caches.1.1, caches.1.2, mt.1.2, mt.1.1⟩,
    [budget₀] ++ mt.2 ++ [memtableTotal₀, cacheBudget₀] ++ caches.2)

/-! ### Each stage within its range -/

theorem clampLimit_mem (memoryLimit : Int) :
    1 * GiB ≤ clampLimit memoryLimit ∧ clampLimit memoryLimit ≤ 20 * GiB := by
  simp only [clampLimit, GiB]
  split_ifs <;> omega

theorem safetyMargin_mem {ml : Int} (h : 1 * GiB ≤ ml) :
    128 * MiB ≤ safetyMargin ml ∧ safetyMargin ml ≤ ml / 4 := by
  simp only [safetyMargin, GiB, MiB] at *
  simp (disch := omega) only [Int.tdiv_eq_ediv]
  split_ifs <;> omega

/-- At most two memtables of 64 MiB to 2 GiB, aligned, whose total stays within the larger of
`memBudget` and one minimal memtable. -/
theorem memTables_spec {memBudget : Int} (h : 0 ≤ memBudget) :
    ((memTables memBudget).1.1 = 1 ∨ (memTables memBudget).1.1 = 2) ∧
      64 * MiB ≤ (memTables memBudget).1.2 ∧ (memTables memBudget).1.2 ≤ 2 * GiB ∧
      ALIGN ∣ (memTables memBudget).1.2 ∧
      (memTables memBudget).1.2 * (memTables memBudget).1.1 ≤ max memBudget (64 * MiB) ∧
      ∀ v ∈ (memTables memBudget).2, 0 ≤ v ∧ v < 2 ^ 63 := by
  simp only [memTables, ALIGN, GiB, MiB, List.mem_singleton, forall_eq, le_max_iff]
  /- The count is fixed by `memBudget ≥ 1 GiB`; only the clamps and the alignment branch. -/
  by_cases hc : memBudget ≥ 1 * (1024 * 1024 * 1024)
  · simp only [hc, if_true, show ¬(2 : Int) > 2 by decide, show (2 : Int) > 0 by decide, if_false,
      Int.tdiv_eq_ediv h (show (0 : Int) ≤ 2 by decide)]
    split_ifs <;> simp (disch := omega) only [Int.tdiv_eq_ediv, or_true, true_or, true_and] at * <;>
      omega
  · simp only [hc, if_false, show ¬(1 : Int) > 2 by decide, show (1 : Int) > 0 by decide, if_true,
      Int.tdiv_one]
    split_ifs <;> simp (disch := omega) only [Int.tdiv_eq_ediv, or_true, true_or, true_and] at * <;>
      omega

/-- From 384 MiB on, the 2:1 split already meets both minimums, so nothing is scaled down, and
the aligned caches fit in `cacheBudget`. -/
theorem cacheSplit_spec {cacheBudget : Int} (h₁ : 384 * MiB ≤ cacheBudget)
    (h₂ : cacheBudget ≤ 20 * GiB) :
    256 * MiB ≤ (cacheSplit cacheBudget).1.1 ∧ 128 * MiB ≤ (cacheSplit cacheBudget).1.2 ∧
      ALIGN ∣ (cacheSplit cacheBudget).1.1 ∧ ALIGN ∣ (cacheSplit cacheBudget).1.2 ∧
      (cacheSplit cacheBudget).1.1 + (cacheSplit cacheBudget).1.2 ≤ cacheBudget ∧
      ∀ v ∈ (cacheSplit cacheBudget).2, 0 ≤ v ∧ v < 2 ^ 63 := by
  simp only [cacheSplit, ALIGN, GiB, MiB] at *
  have hdiv : (cacheBudget * 2).tdiv 3 = cacheBudget * 2 / 3 :=
    Int.tdiv_eq_ediv (by omega) (by decide)
  have hblock : ¬cacheBudget * 2 / 3 < 256 * (1024 * 1024) := by omega
  have hindex : ¬cacheBudget - cacheBudget * 2 / 3 < 128 * (1024 * 1024) := by omega
  have htotal : cacheBudget * 2 / 3 + (cacheBudget - cacheBudget * 2 / 3) = cacheBudget := by omega
  simp only [hdiv, hblock, hindex, if_false, htotal, lt_irrefl, false_and, gt_iff_lt,
    decide_False, Bool.false_eq_true, List.append_nil, List.mem_append, List.mem_cons,
    List.not_mem_nil, or_false, or_assoc, forall_eq_or_imp, forall_eq]
  split_ifs <;> simp (disch := omega) only [Int.tdiv_eq_ediv] at * <;> omega

/-! ### The whole calculation -/

/-- What `ComputeMemoryLimit` promises of its result for a budget: every size a multiple of
`ALIGN`, the memtable within `[minMTSize, maxMTSize]`, each cache at least its minimum, one or two
memtables, and all of it within `budget`. -/
structure MemoryLimit.Fits (budget : Int) (r : MemoryLimit) : Prop where
  block_aligned : ALIGN ∣ r.blockCacheSize
  index_aligned : ALIGN ∣ r.indexCacheSize
  memTable_aligned : ALIGN ∣ r.memTableSize
  memTable_ge : 64 * MiB ≤ r.memTableSize
  memTable_le : r.memTableSize ≤ 2 * GiB
  block_ge : 256 * MiB ≤ r.blockCacheSize
  index_ge : 128 * MiB ≤ r.indexCacheSize
  numMemtables_mem : r.numMemtables = 1 ∨ r.numMemtables = 2
  total_le : r.blockCacheSize + r.indexCacheSize + r.numMemtables * r.memTableSize ≤ budget

/-- The result fits the budget `ml - safety` and every logged value is a valid `int64`. -/
theorem computeMemoryLimit_fits (roundProduct : Int → Float → Int)
    (hround : ∀ b r, 0 ≤ b → roundProduct b r ≤ b / 4 + 1) (memoryLimit : Int) :
    (computeMemoryLimit roundProduct memoryLimit).1.Fits
        (clampLimit memoryLimit - safetyMargin (clampLimit memoryLimit)) ∧
      ∀ v ∈ (computeMemoryLimit roundProduct memoryLimit).2, 0 ≤ v ∧ v < 2 ^ 63 := by
  dsimp only [computeMemoryLimit]
  obtain ⟨hml₁, hml₂⟩ := clampLimit_mem memoryLimit
  generalize clampLimit memoryLimit = ml at *
  obtain ⟨hs₁, hs₂⟩ := safetyMargin_mem hml₁
  have hr := hround (ml - safetyMargin ml) (memRatio ml)
  generalize safetyMargin ml = safety at *
  unfold GiB MiB at *
  replace hr := hr (by omega)
  simp only [show ¬ml - safety < 0 by omega, if_false]
  generalize roundProduct (ml - safety) (memRatio ml) = m at *
  obtain ⟨hmb₀, hmb₁⟩ :
      0 ≤ (if m < 0 then 0 else m) ∧ (if m < 0 then 0 else m) ≤ (ml - safety) / 4 + 1 := by
    split_ifs <;> omega
  generalize (if m < 0 then 0 else m) = memBudget at *
  obtain ⟨hn, hs_lo, hs_hi, hs_dvd, htot, hlog⟩ := memTables_spec hmb₀
  generalize memTables memBudget = mt at *
  obtain ⟨⟨n, s⟩, log⟩ := mt
  simp only [MiB, GiB, le_max_iff] at *
  have hsn : 0 ≤ s * n := by rcases hn with rfl | rfl <;> omega
  simp only [show ¬s * n > ml - safety by omega, show ¬ml - safety - s * n < 0 by omega, if_false]
  obtain ⟨hb_lo, hi_lo, hb_dvd, hi_dvd, hbi, hclog⟩ :=
    cacheSplit_spec (show 384 * MiB ≤ ml - safety - s * n by unfold MiB; omega)
      (by unfold GiB; omega)
  generalize cacheSplit (ml - safety - s * n) = cs at *
  obtain ⟨⟨blk, idx⟩, clog⟩ := cs
  simp only [MiB, GiB, List.mem_append, List.mem_cons, List.not_mem_nil, or_false, or_assoc,
    forall_eq_or_imp, forall_eq] at *
  refine ⟨⟨hb_dvd, hi_dvd, hs_dvd, hs_lo, hs_hi, hb_lo, hi_lo, hn,
    by dsimp only; rw [Int.mul_comm]; omega⟩,
    ⟨by omega, by omega⟩, fun v hv => ?_⟩
  rcases hv with hv | rfl | rfl | hv
  · exact hlog v hv
  · omega
  · omega
  · exact hclog v hv

/-- For every rounding of `float64(budget) * memRatio` that stays at most `budget/4 + 1`, the
result fits the budget `ml - safety`, which is below the clamped limit `ml`, and no `int64`
product, sum or difference on the way leaves `[0, 2^63)`. -/
theorem computeMemoryLimit_bounds (roundProduct : Int → Float → Int)
    (hround : ∀ b r, 0 ≤ b → roundProduct b r ≤ b / 4 + 1) (memoryLimit : Int) :
    (computeMemoryLimit roundProduct memoryLimit).1.Fits
        (clampLimit memoryLimit - safetyMargin (clampLimit memoryLimit)) ∧
      clampLimit memoryLimit - safetyMargin (clampLimit memoryLimit) < clampLimit memoryLimit ∧
      ∀ v ∈ (computeMemoryLimit roundProduct memoryLimit).2, 0 ≤ v ∧ v < 2 ^ 63 := by
  have hfits := computeMemoryLimit_fits roundProduct hround memoryLimit
  have hsafety := (safetyMargin_mem (clampLimit_mem memoryLimit).1).1
  unfold MiB at hsafety
  exact ⟨hfits.1, by omega, hfits.2⟩

theorem computeMemoryLimit_bounds_quarter :
    (∀ (b : Int) (r : Float), 0 ≤ b → (fun (b : Int) (_ : Float) => b / 4) b r ≤ b / 4 + 1) ∧
      (computeMemoryLimit (fun b _ => b / 4) (16 * GiB)).1.Fits
          (clampLimit (16 * GiB) - safetyMargin (clampLimit (16 * GiB))) ∧
        clampLimit (16 * GiB) - safetyMargin (clampLimit (16 * GiB)) < clampLimit (16 * GiB) ∧
        ∀ v ∈ (computeMemoryLimit (fun b _ => b / 4) (16 * GiB)).2, 0 ≤ v ∧ v < 2 ^ 63 :=
  ⟨fun b _ _ => by dsimp only; omega, computeMemoryLimit_bounds _ (fun b _ _ => by omega) _⟩

/-- The repository's own `ComputeMemoryLimit(2 * sdk.GiB)`, where `memRatio` is `0.15`: 1 GiB of
block cache, 512 MiB of index cache and one 256 MiB memtable. -/
example : (computeMemoryLimit (fun b _ => b * 3 / 20) (2 * GiB)).1 =
    ⟨1024 * MiB, 512 * MiB, 256 * MiB, 1⟩ := by decide

/-! ### `Open` with the computed limit -/

/-- The cache and memtable fields of `Options` that `Open` reads. -/
structure CacheOptions where
  blockCacheSize : Int
  indexCacheSize : Int
  memTableSize : Int
  numMemtables : Int

/-- What `Open` sets one of badger's cache or memtable options to: the limit's value when a limit
is given and that value is positive, else the option's when positive, else nothing (badger's
default stays). -/
def openSize (limit : Option MemoryLimit) (field : MemoryLimit → Int) (opt : Int) : Option Int :=
  match limit with
  | some l => if field l > 0 then some (field l) else if opt > 0 then some opt else none
  | none => if opt > 0 then some opt else none

/-- `WithBlockCacheSize`, `WithIndexCacheSize`, `WithMemTableSize` and `WithNumMemtables` as
`Open(ctx, opts, limit)` applies them. -/
def openCacheSizes (opts : CacheOptions) (limit : Option MemoryLimit) :
    Option Int × Option Int × Option Int × Option Int :=
  (openSize limit (·.blockCacheSize) opts.blockCacheSize,
    openSize limit (·.indexCacheSize) opts.indexCacheSize,
    openSize limit (·.memTableSize) opts.memTableSize,
    openSize limit (·.numMemtables) opts.numMemtables)

theorem openSize_of_pos {l : MemoryLimit} {field : MemoryLimit → Int} (h : 0 < field l) (opt : Int) :
    openSize (some l) field opt = some (field l) := if_pos h

/-- A limit that fits a budget has all four sizes positive, so `Open` applies all of them, whatever
the options say. -/
theorem openCacheSizes_of_fits {budget : Int} {r : MemoryLimit} (h : r.Fits budget)
    (opts : CacheOptions) :
    openCacheSizes opts (some r) =
      (some r.blockCacheSize, some r.indexCacheSize, some r.memTableSize, some r.numMemtables) := by
  have := h.block_ge; have := h.index_ge; have := h.memTable_ge; have := h.numMemtables_mem
  unfold MiB at *
  simp only [openCacheSizes, openSize_of_pos (by omega : (0 : Int) < r.blockCacheSize),
    openSize_of_pos (by omega : (0 : Int) < r.indexCacheSize),
    openSize_of_pos (by omega : (0 : Int) < r.memTableSize),
    openSize_of_pos (by omega : (0 : Int) < r.numMemtables)]

/-- `Open(ctx, opts, ComputeMemoryLimit(memoryLimit))` configures badger with exactly the computed
block cache, index cache, memtable size and memtable count, whatever `opts` holds. -/
theorem open_applies_computeMemoryLimit (roundProduct : Int → Float → Int)
    (hround : ∀ b r, 0 ≤ b → roundProduct b r ≤ b / 4 + 1) (memoryLimit : Int)
    (opts : CacheOptions) :
    openCacheSizes opts (some (computeMemoryLimit roundProduct memoryLimit).1) =
      (some (computeMemoryLimit roundProduct memoryLimit).1.blockCacheSize,
        some (computeMemoryLimit roundProduct memoryLimit).1.indexCacheSize,
        some (computeMemoryLimit roundProduct memoryLimit).1.memTableSize,
        some (computeMemoryLimit roundProduct memoryLimit).1.numMemtables) :=
  openCacheSizes_of_fits (computeMemoryLimit_fits roundProduct hround memoryLimit).1 opts

theorem open_applies_computeMemoryLimit_quarter :
    (∀ (b : Int) (r : Float), 0 ≤ b → (fun (b : Int) (_ : Float) => b / 4) b r ≤ b / 4 + 1) ∧
      openCacheSizes ⟨0, 0, 0, 0⟩ (some (computeMemoryLimit (fun b _ => b / 4) (16 * GiB)).1) =
        (some (computeMemoryLimit (fun b _ => b / 4) (16 * GiB)).1.blockCacheSize,
          some (computeMemoryLimit (fun b _ => b / 4) (16 * GiB)).1.indexCacheSize,
          some (computeMemoryLimit (fun b _ => b / 4) (16 * GiB)).1.memTableSize,
          some (computeMemoryLimit (fun b _ => b / 4) (16 * GiB)).1.numMemtables) :=
  ⟨fun b _ _ => by dsimp only; omega,
    open_applies_computeMemoryLimit _ (fun b _ _ => by omega) _ _⟩

end Sdk
end MemoryStorage
