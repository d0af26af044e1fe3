import JudgeLoom.Authoring.Spec
import JudgeLoom.Judge.ImportedScore

/-!
# Default points

A problem's points are shared out evenly over the cases that are given none, by the import
and by the builder alike: each case gets the same quotient, rounded to two decimals.
The shares add up to the whole exactly when the quotient is a number with two decimals
(`sum_defaultPoints_iff`); otherwise the rounding loses or creates points.
-/

namespace JudgeLoom

/-! ## Even shares -/

/-- The quotient is a number of the arithmetic, which the rounding keeps. -/
def EvenShare (A : FloatArith) (rounding : ℚ → ℚ) (total : ℚ) (count : ℕ) : Prop :=
  A.IsFloat (total / count) ∧ rounding (total / count) = total / count

section Shares

variable {A : FloatArith} {rounding : ℚ → ℚ} {total : ℚ} {count : ℕ}

theorem sum_shares_iff (hfloat : ∀ q, A.IsFloat (rounding q)) (hcount : count ≠ 0) :
    (List.replicate count (rounding (A.div total count))).sum = total ↔
      EvenShare A rounding total count := by
  have hnonzero : (count : ℚ) ≠ 0 := Nat.cast_ne_zero.mpr hcount
  rw [List.sum_replicate, nsmul_eq_mul, mul_comm, ← eq_div_iff hnonzero]
  unfold EvenShare FloatArith.div
  constructor
  · intro hshare
    -- the share is a float, so that the quotient is one, and the division is exact
    have hquotient : A.IsFloat (total / count) := hshare ▸ hfloat _
    rw [hquotient] at hshare
    exact ⟨hquotient, hshare⟩
  · rintro ⟨hquotient, hshare⟩
    rw [hquotient, hshare]

/-- A number has two decimals if rounding to an integer keeps its hundredfold. -/
theorem round_hundredths_iff {round : ℚ → ℤ} (hround : ∀ z : ℤ, round z = z) (q : ℚ) :
    (round (q * 100) : ℚ) / 100 = q ↔ ∃ z : ℤ, q * 100 = z := by
  rw [div_eq_iff (by norm_num)]
  constructor
  · intro h
    exact ⟨_, h.symm⟩
  · rintro ⟨z, hz⟩
    rw [hz, hround]

theorem decimalRound_two_iff (q : ℚ) :
    FloatArith.decimalRound q 2 = q ↔ ∃ z : ℤ, q * 100 = z := by
  have hpow : (10 : ℚ) ^ 2 = 100 := by norm_num
  rw [FloatArith.decimalRound, hpow]
  exact round_hundredths_iff FloatArith.roundHalfEven_intCast q

/-- In exact arithmetic the hundredfold of the share has to be an integer. -/
theorem evenShare_decimalRound_iff :
    EvenShare (.exact FloatArith.decimalRound) (fun q => FloatArith.decimalRound q 2) total count ↔
      ∃ z : ℤ, total / count * 100 = z := by
  rw [EvenShare, decimalRound_two_iff]
  exact and_iff_right rfl

/-- The two ways to round halves make no difference. -/
theorem evenShare_round2_iff :
    EvenShare (.exact FloatArith.decimalRound)
        (Authoring.round2 (.exact FloatArith.decimalRound)) total count ↔
      ∃ z : ℤ, total / count * 100 = z := by
  unfold EvenShare Authoring.round2
  rw [FloatArith.exact_mul, FloatArith.exact_div,
    round_hundredths_iff Authoring.roundAway_intCast]
  exact and_iff_right rfl

end Shares

/-! ## Default points -/

namespace PackageImportService

variable {problem : Problem} {cases : List (ArchiveCase (Option ℚ))}

/-- The points of cases that are given none. -/
theorem map_points_applyDefaultPoints (A : FloatArith) (hpositive : 0 < problem.points)
    (hmissing : ∀ testCase ∈ cases, testCase.points = none) :
    (applyDefaultPoints A problem cases).map ArchiveCase.points =
      List.replicate cases.length (A.round (A.div problem.points cases.length) 2) := by
  unfold applyDefaultPoints
  rw [List.map_map]
  apply List.eq_replicate_iff.mpr
  refine ⟨List.length_map _, fun points hpoints => ?_⟩
  obtain ⟨testCase, hcase, rfl⟩ := List.mem_map.mp hpoints
  simp [hmissing testCase hcase, hpositive]

/-- A case without points. -/
def bareCase (name : String) : ArchiveCase (Option ℚ) where
  input := name ++ ".in"
  answer := name ++ ".out"
  group := "default"
  points := none
  inputSha256 := ""
  answerSha256 := ""

/-- A spec of 100 points with cases that are given none. -/
def bareSpec (count : ℕ) : Authoring.Spec where
  problemCode := "bare"
  points := 100
  generator := { language := "CPP17" }
  solution := { language := "CPP17" }
  cases := List.replicate count {}

/-- In exact arithmetic the default group is worth what its cases are worth together. -/
theorem points_defaultGroup (hpositive : 0 < problem.points)
    (hmissing : ∀ testCase ∈ cases, testCase.points = none) :
    (defaultGroup (.exact FloatArith.decimalRound)
        (applyDefaultPoints (.exact FloatArith.decimalRound) problem cases)).points =
      ((applyDefaultPoints (.exact FloatArith.decimalRound) problem cases).map
        ArchiveCase.points).sum := by
  have hpow : (10 : ℚ) ^ 2 = 100 := by norm_num
  unfold defaultGroup
  dsimp only
  rw [FloatArith.exact_sum, map_points_applyDefaultPoints _ hpositive hmissing,
    FloatArith.exact_round, decimalRound_two_iff, List.sum_replicate, nsmul_eq_mul,
    FloatArith.decimalRound, hpow]
  refine ⟨cases.length * FloatArith.roundHalfEven
    ((FloatArith.exact FloatArith.decimalRound).div problem.points cases.length * 100), ?_⟩
  push_cast
  ring

end PackageImportService

end JudgeLoom
