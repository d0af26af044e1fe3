import Mathlib.Data.Rat.Floor
import Mathlib.Algebra.Order.Field.Power
import Mathlib.Algebra.Order.Round
import Mathlib.Tactic.Linarith
import Mathlib.Tactic.Positivity
import Mathlib.Tactic.Ring
import Mathlib.Tactic.NormNum
import Mathlib.Tactic.FieldSimp

/-!
# Floating-point arithmetic over the rationals

A finite float is represented by the rational number it stands for.  What an
arithmetic does to an exact result is a parameter: a `FloatArith` has a rounding
`fl` of exact results to floats and a decimal rounding `round` (the `round(x, n)`
of Python).  Two instances matter:

* `FloatArith.exact`, where `fl` changes nothing, for any decimal rounding;
* `FloatArith.binary64`, IEEE 754 double precision, round to nearest, ties to
  even, with the correctly rounded decimal `round` of CPython.

The magnitudes at and above `limit` have no finite float.  Infinities, NaNs and
the sign of zero are outside this representation.
-/

/-- Rounding of exact rational results to floats, and decimal rounding. -/
structure FloatArith where
  /-- The float nearest to an exact result. -/
  fl : ℚ → ℚ
  /-- `round(x, n)`: the float nearest to `x` rounded to `n` decimals. -/
  round : ℚ → ℕ → ℚ
  /-- Magnitudes from here on have no finite float; `none` when all have one. -/
  limit : Option ℚ
  fl_zero : fl 0 = 0
  fl_one : fl 1 = 1
  fl_fl : ∀ q, fl (fl q) = fl q
  fl_round : ∀ q n, fl (round q n) = round q n
  limit_pos : ∀ bound ∈ limit, 0 < bound

namespace FloatArith

variable (A : FloatArith)

/-- `q` is a float of the arithmetic. -/
def IsFloat (q : ℚ) : Prop := A.fl q = q

def add (a b : ℚ) : ℚ := A.fl (a + b)

def sub (a b : ℚ) : ℚ := A.fl (a - b)

def mul (a b : ℚ) : ℚ := A.fl (a * b)

def div (a b : ℚ) : ℚ := A.fl (a / b)

/-- `q` is too large in magnitude for a finite float. -/
def overflows (q : ℚ) : Bool :=
  match A.limit with
  | none => false
  | some bound => decide (bound ≤ |q|)

/-- One step of the compensated sum: the running sum and its compensation. -/
def sumStep (acc : ℚ × ℚ) (x : ℚ) : ℚ × ℚ :=
  let t := A.add acc.1 x
  if |x| ≤ |acc.1| then (t, A.add acc.2 (A.add (A.sub acc.1 t) x))
  else (t, A.add acc.2 (A.add (A.sub x t) acc.1))

/-- The built-in `sum` of a list of floats, which is Neumaier's compensated sum
since Python 3.12. -/
def sum (xs : List ℚ) : ℚ :=
  let acc := xs.foldl A.sumStep (0, 0)
  A.add acc.1 acc.2

/-- The left-to-right sum of a `+=` loop. -/
def accumulate (xs : List ℚ) : ℚ := xs.foldl A.add 0

variable {A}

theorem overflows_zero : A.overflows 0 = false := by
  unfold overflows
  cases hlimit : A.limit with
  | none => rfl
  | some bound => simpa using A.limit_pos bound hlimit

theorem isFloat_zero : A.IsFloat 0 := A.fl_zero

theorem isFloat_fl (q : ℚ) : A.IsFloat (A.fl q) := A.fl_fl q

theorem isFloat_round (q : ℚ) (n : ℕ) : A.IsFloat (A.round q n) := A.fl_round q n

/-- One more zero does not change a sum. -/
theorem sum_append_zero (xs : List ℚ) : A.sum (xs ++ [0]) = A.sum xs := by
  have hfloats : ∀ acc : ℚ × ℚ, A.IsFloat acc.1 ∧ A.IsFloat acc.2 →
      A.IsFloat (xs.foldl A.sumStep acc).1 ∧ A.IsFloat (xs.foldl A.sumStep acc).2 := by
    induction xs with
    | nil => exact fun acc hacc => hacc
    | cons x rest ih =>
        intro acc _
        refine ih _ ?_
        unfold sumStep
        split_ifs <;> exact ⟨A.isFloat_fl _, A.isFloat_fl _⟩
  obtain ⟨htotal, hcompensation⟩ := hfloats (0, 0) ⟨isFloat_zero, isFloat_zero⟩
  unfold IsFloat at htotal hcompensation
  have hstep : A.sumStep (xs.foldl A.sumStep (0, 0)) 0 = xs.foldl A.sumStep (0, 0) := by
    simp [sumStep, add, sub, htotal, hcompensation, A.fl_zero]
  rw [sum, sum, List.foldl_append, List.foldl_cons, List.foldl_nil, hstep]

/-! ## Exact arithmetic -/

/-- Exact rational arithmetic with the decimal rounding `round`. -/
def exact (round : ℚ → ℕ → ℚ) : FloatArith where
  fl := id
  round := round
  limit := none
  fl_zero := rfl
  fl_one := rfl
  fl_fl _ := rfl
  fl_round _ _ := rfl
  limit_pos := by simp

section Exact

variable (rounding : ℚ → ℕ → ℚ)

@[simp] theorem exact_round : (exact rounding).round = rounding := rfl

@[simp] theorem exact_add (a b : ℚ) : (exact rounding).add a b = a + b := rfl

@[simp] theorem exact_sub (a b : ℚ) : (exact rounding).sub a b = a - b := rfl

@[simp] theorem exact_mul (a b : ℚ) : (exact rounding).mul a b = a * b := rfl

@[simp] theorem exact_div (a b : ℚ) : (exact rounding).div a b = a / b := rfl

/-- Without rounding the compensation stays zero. -/
@[simp] theorem exact_sum (xs : List ℚ) : (exact rounding).sum xs = xs.sum := by
  have hstep : ∀ total x : ℚ, (exact rounding).sumStep (total, 0) x = (total + x, 0) := by
    intro total x
    unfold sumStep
    split_ifs <;> simp
  have hfold : ∀ total : ℚ,
      xs.foldl (exact rounding).sumStep (total, 0) = (total + xs.sum, 0) := by
    induction xs with
    | nil => intro total; simp
    | cons x rest ih =>
        intro total
        rw [List.foldl_cons, hstep, ih, List.sum_cons, add_assoc]
  simp [sum, hfold]

@[simp] theorem exact_accumulate (xs : List ℚ) : (exact rounding).accumulate xs = xs.sum := by
  have hfold : ∀ total : ℚ, xs.foldl (exact rounding).add total = total + xs.sum := by
    induction xs with
    | nil => intro total; simp
    | cons x rest ih =>
        intro total
        rw [List.foldl_cons, exact_add, ih, List.sum_cons, add_assoc]
  simp [accumulate, hfold]

end Exact

/-! ## Sums and the order -/

/-- A sum of values that are not negative does not fall when one of them grows. -/
def SumsInOrder (A : FloatArith) : Prop :=
  ∀ xs ys : List ℚ, List.Forall₂ (· ≤ ·) xs ys → (∀ x ∈ xs, 0 ≤ x) → A.sum xs ≤ A.sum ys

theorem sumsInOrder_exact (rounding : ℚ → ℕ → ℚ) : (exact rounding).SumsInOrder := by
  intro xs ys hle _
  rw [exact_sum, exact_sum]
  exact hle.sum_le_sum

theorem SumsInOrder.nonneg (h : A.SumsInOrder) {xs : List ℚ} (hxs : ∀ x ∈ xs, 0 ≤ x) :
    0 ≤ A.sum xs := by
  have hzeros : A.sum (xs.map fun _ => 0) = 0 := by
    rw [List.map_const']
    induction xs.length with
    | zero => simp [sum, add, A.fl_zero]
    | succ n ih => rw [List.replicate_succ', sum_append_zero, ih]
  have hle := h (xs.map fun _ => 0) xs
    (List.forall₂_map_left_iff.mpr (List.forall₂_same.mpr hxs)) (by simp)
  rwa [hzeros] at hle

theorem isFloat_accumulate (xs : List ℚ) : A.IsFloat (A.accumulate xs) := by
  induction xs using List.reverseRecOn with
  | nil => exact isFloat_zero
  | append_singleton rest x _ =>
      rw [accumulate, List.foldl_append, List.foldl_cons, List.foldl_nil]
      exact isFloat_fl _

theorem accumulate_append_singleton (A : FloatArith) (xs : List ℚ) (x : ℚ) :
    A.accumulate (xs ++ [x]) = A.add (A.accumulate xs) x := by
  rw [accumulate, List.foldl_append]
  rfl

/-- A loop that adds up keeps the order. -/
theorem accumulate_le (hfl : Monotone A.fl) {xs ys : List ℚ} (hle : List.Forall₂ (· ≤ ·) xs ys) :
    A.accumulate xs ≤ A.accumulate ys := by
  have hfold : ∀ total total' : ℚ, total ≤ total' →
      xs.foldl A.add total ≤ ys.foldl A.add total' := by
    induction hle with
    | nil => exact fun _ _ htotal => htotal
    | cons hfirst _ ih =>
        intro total total' htotal
        exact ih _ _ (hfl (add_le_add htotal hfirst))
  exact hfold 0 0 le_rfl

/-- A loop that adds up more of the values that are not negative. -/
theorem accumulate_filter_le {α : Type*} (hfl : Monotone A.fl) {value : α → ℚ} {p p' : α → Bool}
    (xs : List α) (hvalue : ∀ x ∈ xs, 0 ≤ value x) (himp : ∀ x ∈ xs, p x → p' x) :
    A.accumulate ((xs.filter p).map value) ≤ A.accumulate ((xs.filter p').map value) := by
  induction xs using List.reverseRecOn with
  | nil => exact le_rfl
  | append_singleton rest x ih =>
      have ih := ih (fun y hy => hvalue y (List.mem_append_left _ hy))
        (fun y hy => himp y (List.mem_append_left _ hy))
      have hx : x ∈ rest ++ [x] := List.mem_append_right rest (List.mem_singleton_self x)
      simp only [List.filter_append, List.filter_singleton, List.map_append]
      cases hp : p x with
      | true =>
          rw [himp x hx hp]
          simp only [cond_true, List.map_cons, List.map_nil, accumulate_append_singleton]
          exact hfl (add_le_add_left ih _)
      | false =>
          cases p' x with
          | false => simpa using ih
          | true =>
              simp only [cond_true, cond_false, List.map_cons, List.map_nil, List.append_nil,
                accumulate_append_singleton]
              -- a float stays when nothing is added
              calc A.accumulate ((rest.filter p).map value)
                  ≤ A.accumulate ((rest.filter p').map value) := ih
                _ = A.fl (A.accumulate ((rest.filter p').map value)) :=
                    (isFloat_accumulate _).symm
                _ ≤ A.add (A.accumulate ((rest.filter p').map value)) (value x) :=
                    hfl (le_add_of_nonneg_right (hvalue x hx))

/-! ## Round half to even -/

/-- The nearest integer; halfway between two integers, the even one. -/
def roundHalfEven (q : ℚ) : ℤ :=
  if q - ⌊q⌋ < 1 / 2 then ⌊q⌋
  else if 1 / 2 < q - ⌊q⌋ then ⌊q⌋ + 1
  else if ⌊q⌋ % 2 = 0 then ⌊q⌋ else ⌊q⌋ + 1

theorem roundHalfEven_eq_or (q : ℚ) : roundHalfEven q = ⌊q⌋ ∨ roundHalfEven q = ⌊q⌋ + 1 := by
  unfold roundHalfEven
  split_ifs <;> simp

theorem le_roundHalfEven {q : ℚ} {z : ℤ} (h : z ≤ q) : z ≤ roundHalfEven q := by
  have hfloor : z ≤ ⌊q⌋ := Int.le_floor.mpr h
  rcases roundHalfEven_eq_or q with heq | heq <;> omega

theorem roundHalfEven_le {q : ℚ} {z : ℤ} (h : q ≤ z) : roundHalfEven q ≤ z := by
  rcases h.lt_or_eq with hlt | rfl
  · have hfloor : ⌊q⌋ < z := Int.floor_lt.mpr hlt
    rcases roundHalfEven_eq_or q with heq | heq <;> omega
  · simp [roundHalfEven]

@[simp] theorem roundHalfEven_intCast (z : ℤ) : roundHalfEven (z : ℚ) = z := by
  simp [roundHalfEven]

theorem roundHalfEven_mono {a b : ℚ} (hab : a ≤ b) : roundHalfEven a ≤ roundHalfEven b := by
  have hfloor : ⌊a⌋ ≤ ⌊b⌋ := Int.floor_mono hab
  rcases hfloor.lt_or_eq with hlt | heq
  · rcases roundHalfEven_eq_or a with ha | ha <;> rcases roundHalfEven_eq_or b with hb | hb <;>
      omega
  · -- within one unit the rounding depends on the fraction alone
    have hfraction : a - ⌊b⌋ ≤ b - ⌊b⌋ := sub_le_sub_right hab _
    have hlow : b - ⌊b⌋ < 1 / 2 → a - ⌊b⌋ < 1 / 2 := hfraction.trans_lt
    have hhigh : 1 / 2 < a - ⌊b⌋ → 1 / 2 < b - ⌊b⌋ := fun h => h.trans_le hfraction
    unfold roundHalfEven
    rw [heq]
    split_ifs <;> first | omega | (exfalso; tauto)

/-- A magnitude below an integer bound rounds to at most that bound. -/
theorem abs_roundHalfEven_le {q : ℚ} {bound : ℤ} (hq : |q| < bound) :
    |roundHalfEven q| ≤ bound := by
  obtain ⟨hlow, hhigh⟩ := abs_lt.mp hq
  have hfloor : ⌊q⌋ < bound := Int.floor_lt.mpr hhigh
  have hfloor' : -bound ≤ ⌊q⌋ := Int.le_floor.mpr (by push_cast; exact hlow.le)
  rw [abs_le]
  rcases roundHalfEven_eq_or q with h | h <;> rw [h] <;> constructor <;> omega

/-- `x` rounded to `n` decimals, ties to even. -/
def decimalRound (q : ℚ) (n : ℕ) : ℚ := roundHalfEven (q * 10 ^ n) / 10 ^ n

theorem decimalRound_mono (n : ℕ) : Monotone fun q => decimalRound q n := by
  intro a b hab
  have hscaled : roundHalfEven (a * 10 ^ n) ≤ roundHalfEven (b * 10 ^ n) :=
    roundHalfEven_mono (mul_le_mul_of_nonneg_right hab (by positivity))
  exact div_le_div_of_nonneg_right (by exact_mod_cast hscaled) (by positivity)

theorem decimalRound_zero (n : ℕ) : decimalRound 0 n = 0 := by
  simp [decimalRound, roundHalfEven]

/-- Whole cents stay when they are rounded to two decimals or more. -/
theorem decimalRound_of_cents (cents : ℤ) {n : ℕ} (hn : 2 ≤ n) :
    decimalRound (cents / 100) n = cents / 100 := by
  obtain ⟨k, rfl⟩ := Nat.exists_eq_add_of_le hn
  have hscaled : (cents : ℚ) / 100 * 10 ^ (2 + k) = ((cents * 10 ^ k : ℤ) : ℚ) := by
    push_cast
    ring
  rw [decimalRound, hscaled, roundHalfEven_intCast, ← hscaled]
  field_simp

theorem exists_cents (q : ℚ) : ∃ cents : ℤ, decimalRound q 2 = cents / 100 :=
  ⟨roundHalfEven (q * 10 ^ 2), by rw [decimalRound]; norm_num⟩

/-! ## IEEE 754 double precision -/

/-- The exponent of the largest power of two that is at most `q`, for `0 < q`. -/
def floorLog2 (q : ℚ) : ℤ :=
  let k : ℤ := (Nat.log2 q.num.natAbs : ℤ) - Nat.log2 q.den
  if (2 : ℚ) ^ k ≤ q then k else k - 1

theorem floorLog2_spec {q : ℚ} (hq : 0 < q) :
    (2 : ℚ) ^ floorLog2 q ≤ q ∧ q < (2 : ℚ) ^ (floorLog2 q + 1) := by
  have hnum : q.num.natAbs ≠ 0 := by
    have := Rat.num_pos.mpr hq
    omega
  have hden : q.den ≠ 0 := q.den_ne_zero
  have hq_eq : q = (q.num.natAbs : ℚ) / (q.den : ℚ) := by
    have habs : ((q.num.natAbs : ℤ) : ℚ) = (q.num : ℚ) := by
      rw [Int.natAbs_of_nonneg (Rat.num_nonneg.mpr hq.le)]
    rw [Int.cast_natCast] at habs
    rw [habs, Rat.num_div_den]
  have hnum_low : (2 : ℚ) ^ (Nat.log2 q.num.natAbs) ≤ q.num.natAbs := by
    exact_mod_cast Nat.log2_self_le hnum
  have hnum_high : (q.num.natAbs : ℚ) < 2 ^ (Nat.log2 q.num.natAbs + 1) := by
    exact_mod_cast Nat.lt_log2_self
  have hden_low : (2 : ℚ) ^ (Nat.log2 q.den) ≤ q.den := by
    exact_mod_cast Nat.log2_self_le hden
  have hden_high : (q.den : ℚ) < 2 ^ (Nat.log2 q.den + 1) := by
    exact_mod_cast Nat.lt_log2_self
  have hden_pos : (0 : ℚ) < q.den := by exact_mod_cast Nat.pos_of_ne_zero hden
  set k : ℤ := (Nat.log2 q.num.natAbs : ℤ) - Nat.log2 q.den with hk
  have hlow : (2 : ℚ) ^ (k - 1) ≤ q := by
    rw [show k - 1 = (Nat.log2 q.num.natAbs : ℤ) - ((Nat.log2 q.den + 1 : ℕ) : ℤ) by
      push_cast; omega, zpow_sub₀ (by norm_num), zpow_natCast, zpow_natCast]
    exact (div_le_div₀ (by positivity) hnum_low hden_pos hden_high.le).trans_eq hq_eq.symm
  have hhigh : q < (2 : ℚ) ^ (k + 1) := by
    rw [show k + 1 = ((Nat.log2 q.num.natAbs + 1 : ℕ) : ℤ) - (Nat.log2 q.den : ℤ) by
      push_cast; omega, zpow_sub₀ (by norm_num), zpow_natCast, zpow_natCast]
    exact hq_eq.trans_lt (div_lt_div₀ hnum_high hden_low (by positivity) (by positivity))
  unfold floorLog2
  simp only [← hk]
  split_ifs with h
  · exact ⟨h, hhigh⟩
  · exact ⟨hlow, by simpa using not_le.mp h⟩

/-- The exponent of the last place of the double nearest to `q`. -/
def ulpExponent (q : ℚ) : ℤ := max (floorLog2 |q| - 52) (-1074)

/-- Round to the nearest double, ties to even. -/
def nearestDouble (q : ℚ) : ℚ :=
  if q = 0 then 0
  else roundHalfEven (q / (2 : ℚ) ^ ulpExponent q) * (2 : ℚ) ^ ulpExponent q

theorem abs_div_ulp_lt {q : ℚ} (hq : q ≠ 0) :
    |q / (2 : ℚ) ^ ulpExponent q| < ((2 ^ 53 : ℤ) : ℚ) := by
  have hpos : (0 : ℚ) < 2 ^ ulpExponent q := by positivity
  rw [abs_div, abs_of_pos hpos, div_lt_iff₀ hpos]
  refine (floorLog2_spec (abs_pos.mpr hq)).2.trans_le ?_
  rw [show ((2 ^ 53 : ℤ) : ℚ) = (2 : ℚ) ^ (53 : ℤ) by norm_num, ← zpow_add₀ (by norm_num)]
  refine zpow_le_zpow_right₀ (by norm_num) ?_
  have := le_max_left (floorLog2 |q| - 52) (-1074)
  unfold ulpExponent
  omega

/-- An integer of at most 53 bits, scaled by a power of two that is in range, is a double. -/
theorem nearestDouble_of_scaled {m e : ℤ} (hm : |m| ≤ 2 ^ 53) (he : -1074 ≤ e) :
    nearestDouble (m * (2 : ℚ) ^ e) = m * (2 : ℚ) ^ e := by
  by_cases hzero : m = 0
  · simp [hzero, nearestDouble]
  have hy : (m : ℚ) * 2 ^ e ≠ 0 := mul_ne_zero (by exact_mod_cast hzero) (by positivity)
  have habs : |(m : ℚ) * 2 ^ e| = |m| * (2 : ℚ) ^ e := by
    rw [abs_mul, abs_of_pos (show (0 : ℚ) < 2 ^ e by positivity)]
    push_cast
    rfl
  -- the last place is a factor of the value, so the quotient is an integer
  obtain ⟨n, hn⟩ : ∃ n : ℤ, (m : ℚ) * 2 ^ e / 2 ^ ulpExponent ((m : ℚ) * 2 ^ e) = n := by
    by_cases hulp : ulpExponent ((m : ℚ) * 2 ^ e) ≤ e
    · obtain ⟨j, hj⟩ := Int.le.dest hulp
      refine ⟨m * 2 ^ j, ?_⟩
      rw [mul_div_assoc, ← zpow_sub₀ (by norm_num), ← eq_sub_of_add_eq' hj, zpow_natCast]
      push_cast
      rfl
    · have hlow : (2 : ℚ) ^ floorLog2 |(m : ℚ) * 2 ^ e| ≤ |m| * (2 : ℚ) ^ e :=
        (floorLog2_spec (abs_pos.mpr hy)).1.trans_eq habs
      have hbound : (2 : ℚ) ^ floorLog2 |(m : ℚ) * 2 ^ e| ≤ 2 ^ ((53 : ℤ) + e) := by
        refine hlow.trans ?_
        rw [zpow_add₀ (by norm_num)]
        refine mul_le_mul_of_nonneg_right ?_ (by positivity)
        exact_mod_cast hm
      have hexp := (zpow_le_zpow_iff_right₀ (by norm_num : (1 : ℚ) < 2)).mp hbound
      have hulp_eq : ulpExponent ((m : ℚ) * 2 ^ e) = e + 1 := by
        unfold ulpExponent at hulp ⊢
        omega
      have hlog_eq : floorLog2 |(m : ℚ) * 2 ^ e| = 53 + e := by
        unfold ulpExponent at hulp
        omega
      have hmag : |m| = 2 ^ 53 := by
        rw [hlog_eq, zpow_add₀ (by norm_num)] at hlow
        have : ((2 : ℚ) ^ (53 : ℤ)) ≤ |m| :=
          le_of_mul_le_mul_right hlow (by positivity)
        refine le_antisymm hm ?_
        exact_mod_cast this
      rw [hulp_eq, mul_div_assoc, ← zpow_sub₀ (by norm_num)]
      rcases abs_eq (by norm_num : (0 : ℤ) ≤ 2 ^ 53) |>.mp hmag with rfl | rfl
      · exact ⟨2 ^ 52, by norm_num⟩
      · exact ⟨-2 ^ 52, by norm_num⟩
  unfold nearestDouble
  rw [if_neg hy, hn, roundHalfEven_intCast, ← hn, div_mul_cancel₀ _ (by positivity)]

theorem nearestDouble_nearestDouble (q : ℚ) :
    nearestDouble (nearestDouble q) = nearestDouble q := by
  by_cases hq : q = 0
  · simp [hq, nearestDouble]
  have hq' : nearestDouble q =
      roundHalfEven (q / (2 : ℚ) ^ ulpExponent q) * (2 : ℚ) ^ ulpExponent q := by
    rw [nearestDouble, if_neg hq]
  rw [hq']
  exact nearestDouble_of_scaled (abs_roundHalfEven_le (abs_div_ulp_lt hq)) (le_max_right _ _)

theorem nearestDouble_one : nearestDouble 1 = 1 := by
  have h := nearestDouble_of_scaled (m := 1) (e := 0) (by norm_num) (by norm_num)
  simpa using h

/-- IEEE 754 double precision with the correctly rounded decimal `round`.  From
`2 ^ 1024 - 2 ^ 970` on, a magnitude rounds to an infinity. -/
def binary64 : FloatArith where
  fl := nearestDouble
  round q n := nearestDouble (decimalRound q n)
  limit := some (2 ^ 1024 - 2 ^ 970)
  fl_zero := by simp [nearestDouble]
  fl_one := nearestDouble_one
  fl_fl := nearestDouble_nearestDouble
  fl_round _ _ := nearestDouble_nearestDouble _
  limit_pos := by
    rintro bound ⟨⟩
    exact sub_pos.mpr (pow_lt_pow_right₀ (by norm_num) (by norm_num))

/-! ## Signs -/

/-- Rounding does not turn a magnitude negative, as IEEE arithmetic has it. -/
def KeepsNonneg (A : FloatArith) : Prop := ∀ q, 0 ≤ q → 0 ≤ A.fl q

theorem keepsNonneg_exact (rounding : ℚ → ℕ → ℚ) : (exact rounding).KeepsNonneg :=
  fun _ h => h

theorem keepsNonneg_binary64 : binary64.KeepsNonneg := by
  intro q hq
  change 0 ≤ nearestDouble q
  unfold nearestDouble
  split
  · exact le_rfl
  · have hscale : (0 : ℚ) < 2 ^ ulpExponent q := by positivity
    have hround : 0 ≤ roundHalfEven (q / (2 : ℚ) ^ ulpExponent q) := by
      apply le_roundHalfEven
      rw [Int.cast_zero]
      exact div_nonneg hq hscale.le
    exact mul_nonneg (Int.cast_nonneg hround) hscale.le

/-! ## Integers -/

/-- Integers of at most 53 bits are floats, as IEEE arithmetic has it. -/
def ExactIntegers (A : FloatArith) : Prop := ∀ z : ℤ, |z| ≤ 2 ^ 53 → A.fl z = z

theorem exactIntegers_exact (rounding : ℚ → ℕ → ℚ) : (exact rounding).ExactIntegers :=
  fun _ _ => rfl

theorem exactIntegers_binary64 : binary64.ExactIntegers := by
  intro z hz
  have h := nearestDouble_of_scaled (e := 0) hz (by norm_num)
  rwa [zpow_zero, mul_one] at h

/-- The compensation cannot decide a tie: `sum([0.1, 0.2])` is not `0.3`. -/
example : binary64.sum [binary64.fl (1 / 10), binary64.fl (1 / 5)] ≠ binary64.fl (3 / 10) := by
  decide +kernel

end FloatArith
