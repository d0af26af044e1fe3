import JudgeLoom.Library.FloatArith

/-!
# The `math` module

Python's float arithmetic together with the functions of the C mathematical
library that it calls.  Their values are those of the platform, so they are
parameters; `MathLibrary.Accurate` collects what the C and IEEE standards promise
of them as far as a proof relies on it, and `MathLibrary.sample` is an instance
that can be evaluated.
-/

namespace JudgeLoom

/-- Float arithmetic with `math.sqrt`, `math.tanh`, `math.pi` and the operator `**`. -/
structure MathLibrary where
  arith : FloatArith
  sqrt : ℚ → ℚ
  tanh : ℚ → ℚ
  pow : ℚ → ℚ → ℚ
  pi : ℚ

namespace MathLibrary

/-- What IEEE arithmetic and the C library promise: rounding is monotone and exact on
short binary fractions, and `pow` is right within a factor of two, far less than it
guarantees, and monotone at the root. -/
structure Accurate (M : MathLibrary) : Prop where
  fl_mono : Monotone M.arith.fl
  fl_dyadic : ∀ n k : ℕ, n ≤ 2 ^ 53 → k ≤ 1000 → M.arith.fl (n / 2 ^ k) = n / 2 ^ k
  pow_two : ∀ x, 1 ≤ x → x ≤ 2 ^ 64 → x * x / 2 ≤ M.pow x 2 ∧ M.pow x 2 ≤ 2 * (x * x)
  one_le_pow_half : ∀ x, 1 ≤ x → 1 ≤ M.pow x (1 / 2)

namespace Accurate

variable {M : MathLibrary} (hM : M.Accurate)

include hM

theorem natCast_le_fl {x : ℚ} {n : ℕ} (hn : n ≤ 2 ^ 53) (h : n ≤ x) : n ≤ M.arith.fl x := by
  have hexact := hM.fl_dyadic n 0 hn (by norm_num)
  rw [pow_zero, div_one] at hexact
  exact hexact.symm.le.trans (hM.fl_mono h)

theorem fl_le_natCast {x : ℚ} {n : ℕ} (hn : n ≤ 2 ^ 53) (h : x ≤ n) : M.arith.fl x ≤ n := by
  have hexact := hM.fl_dyadic n 0 hn (by norm_num)
  rw [pow_zero, div_one] at hexact
  exact (hM.fl_mono h).trans hexact.le

theorem inv_pow_le_fl {x : ℚ} {k : ℕ} (hk : k ≤ 1000) (h : 1 / 2 ^ k ≤ x) :
    1 / 2 ^ k ≤ M.arith.fl x := by
  have hexact := hM.fl_dyadic 1 k (by norm_num) hk
  rw [Nat.cast_one] at hexact
  exact hexact.symm.le.trans (hM.fl_mono h)

theorem fl_le_inv_pow {x : ℚ} {k : ℕ} (hk : k ≤ 1000) (h : x ≤ 1 / 2 ^ k) :
    M.arith.fl x ≤ 1 / 2 ^ k := by
  have hexact := hM.fl_dyadic 1 k (by norm_num) hk
  rw [Nat.cast_one] at hexact
  exact (hM.fl_mono h).trans hexact.le

end Accurate

/-- The square root of a number, cut after forty binary places. -/
def sampleSqrt (x : ℚ) : ℚ := Nat.sqrt ⌊x * 2 ^ 80⌋.toNat / 2 ^ 40

/-- Squares, and square roots for any other exponent. -/
def samplePow (x y : ℚ) : ℚ := if y = 2 then x * x else sampleSqrt x

/-- Exact arithmetic, with square roots to forty binary places.  `tanh` is replaced
by `x / (1 + |x|)`, so only results that do not need `tanh` are those of Python. -/
def sample : MathLibrary where
  arith := .exact FloatArith.decimalRound
  sqrt := sampleSqrt
  tanh x := x / (1 + |x|)
  pow := samplePow
  pi := 3141592653589793 / 10 ^ 15

theorem one_le_sampleSqrt {x : ℚ} (hx : 1 ≤ x) : 1 ≤ sampleSqrt x := by
  have hfloor : (2 ^ 80 : ℤ) ≤ ⌊x * 2 ^ 80⌋ := by
    rw [Int.le_floor]
    push_cast
    linarith
  have hsqrt : 2 ^ 40 ≤ Nat.sqrt ⌊x * 2 ^ 80⌋.toNat := by
    rw [Nat.le_sqrt]
    omega
  have hcast : (2 ^ 40 : ℚ) ≤ Nat.sqrt ⌊x * 2 ^ 80⌋.toNat := by exact_mod_cast hsqrt
  rw [sampleSqrt, le_div_iff₀ (by norm_num)]
  linarith

theorem accurate_sample : sample.Accurate where
  fl_mono := monotone_id
  fl_dyadic _ _ _ _ := rfl
  pow_two x hx _ := by
    have hpow : samplePow x 2 = x * x := if_pos rfl
    have hsquare : 0 ≤ x * x := mul_self_nonneg x
    change x * x / 2 ≤ samplePow x 2 ∧ samplePow x 2 ≤ 2 * (x * x)
    rw [hpow]
    constructor <;> linarith
  one_le_pow_half x hx := by
    have hpow : samplePow x (1 / 2) = sampleSqrt x := if_neg (by norm_num)
    exact (one_le_sampleSqrt hx).trans hpow.ge

end MathLibrary

end JudgeLoom
