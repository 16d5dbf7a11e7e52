import MemoryStorage.Basic
import Mathlib.Data.BitVec

/-!
# `sleepWithJitter`: the backoff between retries

The exponential version computes `backoff := base * time.Duration(1<<uint(attempt-1))` in `int64`:
the shift of the untyped constant `1` takes the type of the conversion, so `1 << 63` is the least
`int64` and a shift by 64 or more is `0`, and the product wraps modulo `2^64`. It then clamps
`backoff` to `[0, max]` and draws the delay with `rand.Int63n(backoff)` when `backoff > 0`.

While `base * 2^(attempt-1)` stays below `2^63` the bound is `min(max, base * 2^(attempt-1))`
(`jitterCeiling_of_lt`). Past it the product wraps and the bound is whatever the wrapped value
clamps to, `0` when it is negative. `rand.Int63n` only ever gets a positive bound
(`sleepWithJitter_pos`).
-/

namespace MemoryStorage

/-- The `backoff` of `sleepWithJitter(ctx, base, max, attempt)` after its two clamps: the
ceiling of the jitter. -/
def jitterCeiling (base max : Duration) (attempt : Int) : Duration :=
  let attempt := if attempt < 1 then 1 else attempt
  let backoff := base * ((1 : Duration) <<< (attempt - 1).toNat)
  let backoff := if max.slt backoff then max else backoff
  if backoff.slt 0 then 0 else backoff

/-- The bound `sleepWithJitter` passes to `rand.Int63n`, or `none` when `j <= 0` and it returns
without drawing a delay. -/
def sleepWithJitter (base max : Duration) (attempt : Int) : Option Duration :=
  let j := jitterCeiling base max attempt
  if j.sle 0 then none else some j

theorem sleepWithJitter_pos {base max : Duration} {attempt : Int} {j : Duration}
    (h : sleepWithJitter base max attempt = some j) : 0 < j.toInt := by
  dsimp only [sleepWithJitter] at h
  split_ifs at h with hj
  cases h
  simpa [BitVec.sle] using hj

/-- `x.toInt` for a value whose sign bit is clear. -/
theorem toInt_of_lt {x : Duration} (h : x.toNat < 2 ^ 63) : x.toInt = x.toNat := by
  rw [BitVec.toInt_eq_toNat_cond, if_pos (by omega)]

theorem toNat_of_toInt_pos {x : Duration} (h : 0 < x.toInt) :
    x.toNat < 2 ^ 63 ∧ x.toInt = x.toNat := by
  rw [BitVec.toInt_eq_toNat_cond] at h ⊢
  have := x.isLt
  split_ifs at h ⊢ with hx
  · exact ⟨by omega, rfl⟩
  · omega

/-- While `base * 2^(attempt-1)` stays below `2^63`, the ceiling is `min(max, base * 2^(attempt-1))`. -/
theorem jitterCeiling_of_lt {base max : Duration} {attempt : Int} (hbase : 0 < base.toInt)
    (hmax : 0 < max.toInt) (ha : 1 ≤ attempt)
    (hlt : base.toInt * 2 ^ (attempt - 1).toNat < 2 ^ 63) :
    (jitterCeiling base max attempt).toInt = min max.toInt (base.toInt * 2 ^ (attempt - 1).toNat) := by
  obtain ⟨hb63, hb⟩ := toNat_of_toInt_pos hbase
  obtain ⟨n, hn⟩ : ∃ n, (attempt - 1).toNat = n := ⟨_, rfl⟩
  rw [hn] at hlt ⊢
  have hprod' : base.toNat * 2 ^ n < 2 ^ 63 := by rw [hb] at hlt; exact_mod_cast hlt
  have hpow : 2 ^ n < 2 ^ 63 := (Nat.le_mul_of_pos_left _ (by omega)).trans_lt hprod'
  have hshift : ((1 : Duration) <<< n).toNat = 2 ^ n := by
    rw [BitVec.toNat_shiftLeft, show (1 : Duration).toNat = 1 from rfl, Nat.shiftLeft_eq, one_mul]
    exact Nat.mod_eq_of_lt (by omega)
  have hprod : (base * ((1 : Duration) <<< n)).toInt = base.toInt * 2 ^ n := by
    rw [toInt_of_lt (by rw [BitVec.toNat_mul, hshift]; omega), BitVec.toNat_mul, hshift, hb,
      Nat.mod_eq_of_lt (by omega)]
    push_cast; rfl
  have hpos : 0 < base.toInt * 2 ^ n := Int.mul_pos hbase (by exact_mod_cast Nat.two_pow_pos n)
  have hattempt : (if attempt < 1 then 1 else attempt) = attempt := if_neg (not_lt.2 ha)
  simp only [jitterCeiling, hattempt, hn, BitVec.slt, hprod, decide_eq_true_eq,
    show (0 : Duration).toInt = 0 from rfl]
  split_ifs with h₁ h₂ h₂
  · omega
  · exact (min_eq_left h₁.le).symm
  · omega
  · rw [hprod]; exact (min_eq_right (not_lt.1 h₁)).symm

theorem jitterCeiling_of_lt_default_fifth :
    (0 < (5000000 : Duration).toInt ∧ 0 < (150000000 : Duration).toInt ∧ (1 : Int) ≤ 5 ∧
      (5000000 : Duration).toInt * 2 ^ ((5 : Int) - 1).toNat < 2 ^ 63) ∧
    (jitterCeiling 5000000 150000000 5).toInt =
      min (150000000 : Duration).toInt ((5000000 : Duration).toInt * 2 ^ ((5 : Int) - 1).toNat) :=
  ⟨⟨by decide, by decide, by decide, by decide⟩,
    jitterCeiling_of_lt (by decide) (by decide) (by decide) (by decide)⟩

end MemoryStorage
