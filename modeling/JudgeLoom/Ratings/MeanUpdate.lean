import JudgeLoom.Ratings.Calculation

/-!
# The divisor of the mean update

The new precision `1 / variance_for(n + 1)` is shared out to the performances, the
latest first; what is left for the prior is `initial_weight`, by which `recalculate`
divides.  In exact arithmetic it is positive (`initialWeight_pos`): of what is left
before a performance, its share leaves at least its weight over the variance before
its contest (`TermSums.Covered`), because the weight shrinks at least as fast as the
precision does.
-/

namespace JudgeLoom

namespace EloMMR

/-- A weight that is shrunk by the square of the factor of a variance asks for no more
precision than before. -/
theorem shrink_le {variance gamma weight : ℚ} (hvariance : 0 < variance) (hgamma : 0 ≤ gamma)
    (hweight : 0 ≤ weight) :
    weight * (variance / (variance + gamma)) ^ 2 / variance ≤ weight / (variance + gamma) := by
  have htotal : 0 < variance + gamma := by linarith
  have hfactor : variance / (variance + gamma) ≤ 1 := by
    rw [div_le_one htotal]
    linarith
  calc weight * (variance / (variance + gamma)) ^ 2 / variance
      = weight / (variance + gamma) * (variance / (variance + gamma)) := by
        field_simp
    _ ≤ weight / (variance + gamma) * 1 :=
        mul_le_mul_of_nonneg_left hfactor (div_nonneg hweight htotal.le)
    _ = weight / (variance + gamma) := mul_one _

section Exact

variable (M : MathLibrary)

/-- The accumulators after the loop over the history. -/
def termSums (contestant : Contestant) (performance : ℚ) : TermSums :=
  (performance :: contestant.historical).zipIdx.foldl (addTerm M contestant) {}

/-- `initial_weight`. -/
def initialWeight (contestant : Contestant) (performance : ℚ) : ℚ :=
  M.arith.sub (M.arith.div 1 (varianceFor M (contestant.timesRanked + 1)))
    (termSums M contestant performance).weightSum

/-- The mean update fails exactly if it divides by zero. -/
theorem newMean_eq_none_iff {contestant : Contestant} {performance : ℚ} {bounds : ℚ × ℚ} :
    newMean M contestant performance bounds = none ↔ initialWeight M contestant performance = 0 := by
  by_cases hzero : initialWeight M contestant performance = 0
  · exact ⟨fun _ => hzero, fun _ => if_pos hzero⟩
  · have hsome : newMean M contestant performance bounds = some _ := if_neg hzero
    simp [hsome, hzero]

variable {M} (hexact : M.arith.fl = id) (hpow : ∀ x, M.pow x 2 = x ^ 2)

include hexact

/-- The precision after a contest: what is left of the one before, and that of a
performance. -/
theorem one_div_varianceFor_succ (timesRanked : ℕ) :
    1 / varianceFor M (timesRanked + 1) =
      1 / (varianceFor M timesRanked + varPerContest M) + 1 / beta2 M := by
  simp only [varianceFor, FloatArith.div, FloatArith.add, hexact, id, one_div_one_div]

include hpow

theorem beta2_pos : 0 < beta2 M := by
  rw [beta2, hpow, hexact]
  norm_num

theorem varPerContest_pos : 0 < varPerContest M := by
  have hbeta := beta2_pos hexact hpow
  simp only [varPerContest, FloatArith.mul, FloatArith.div, hexact, id]
  positivity

theorem varianceFor_pos (timesRanked : ℕ) : 0 < varianceFor M timesRanked := by
  have hbeta := beta2_pos hexact hpow
  have hgamma := varPerContest_pos hexact hpow
  induction timesRanked with
  | zero =>
      simp only [varianceFor, varInit, FloatArith.mul, FloatArith.div, hexact, id]
      positivity
  | succ timesRanked ih =>
      rw [← one_div_pos, one_div_varianceFor_succ hexact]
      positivity

/-- After the performance number `index` of the history: what is left of the new precision
covers the weight of that performance before its contest. -/
structure TermSums.Covered (M : MathLibrary) (timesRanked index : ℕ) (sums : TermSums) : Prop where
  weight_pos : 0 < sums.previousWeight
  le_rest : sums.previousWeight / (varianceFor M (timesRanked - index) + varPerContest M) ≤
    1 / varianceFor M (timesRanked + 1) - sums.weightSum

/-- The performance of the contest itself. -/
theorem covered_first (contestant : Contestant) (performance : ℚ) :
    (addTerm M contestant {} (performance, 0)).Covered M contestant.timesRanked 0 := by
  have hvariance := varianceFor_pos hexact hpow (contestant.timesRanked + 1)
  have hweight : (addTerm M contestant {} (performance, 0)).previousWeight = 1 := by
    simp [addTerm, FloatArith.div, FloatArith.add, FloatArith.mul, hexact, hpow, hvariance.ne']
  have hsum : (addTerm M contestant {} (performance, 0)).weightSum = 1 / beta2 M := by
    simp [addTerm, FloatArith.div, FloatArith.add, FloatArith.mul, hexact, hpow, hvariance.ne']
  constructor
  · rw [hweight]
    exact one_pos
  · rw [hweight, hsum, one_div_varianceFor_succ hexact, Nat.sub_zero]
    linarith

/-- An earlier performance. -/
theorem covered_addTerm {contestant : Contestant} {sums : TermSums} {index : ℕ} {performance : ℚ}
    (hsums : sums.Covered M contestant.timesRanked index) (hindex : index < contestant.timesRanked) :
    (addTerm M contestant sums (performance, index + 1)).Covered M contestant.timesRanked
      (index + 1) := by
  have hbeta := beta2_pos hexact hpow
  have hgamma := varPerContest_pos hexact hpow
  have hvariance := varianceFor_pos hexact hpow (contestant.timesRanked - index)
  set variance := varianceFor M (contestant.timesRanked - index) with hvarianceDef
  set weight := sums.previousWeight * (variance / (variance + varPerContest M)) ^ 2 with hweightDef
  have hweight : (addTerm M contestant sums (performance, index + 1)).previousWeight = weight := by
    simp [addTerm, FloatArith.div, FloatArith.add, FloatArith.mul, hexact, hpow, hweightDef,
      hvarianceDef]
  have hsum : (addTerm M contestant sums (performance, index + 1)).weightSum =
      sums.weightSum + weight / beta2 M := by
    simp [addTerm, FloatArith.div, FloatArith.add, FloatArith.mul, hexact, hpow, hweightDef,
      hvarianceDef]
  have hshrink : weight / variance ≤ sums.previousWeight / (variance + varPerContest M) :=
    shrink_le hvariance hgamma.le hsums.weight_pos.le
  have hsplit : weight / variance =
      weight / (varianceFor M (contestant.timesRanked - (index + 1)) + varPerContest M) +
        weight / beta2 M := by
    have hprecision := one_div_varianceFor_succ hexact (contestant.timesRanked - (index + 1))
    rw [show contestant.timesRanked - (index + 1) + 1 = contestant.timesRanked - index by omega,
      ← hvarianceDef] at hprecision
    rw [div_eq_mul_one_div, hprecision, mul_add, ← div_eq_mul_one_div, ← div_eq_mul_one_div]
  constructor
  · rw [hweight]
    have hprevious := hsums.weight_pos
    positivity
  · have hrest := hsums.le_rest
    rw [hweight, hsum]
    linarith

theorem covered_foldl {contestant : Contestant} {sums : TermSums} {index : ℕ} {earlier : List ℚ}
    (hsums : sums.Covered M contestant.timesRanked index)
    (hindex : index + earlier.length ≤ contestant.timesRanked) :
    ((earlier.zipIdx (index + 1)).foldl (addTerm M contestant) sums).Covered M
      contestant.timesRanked (index + earlier.length) := by
  induction earlier generalizing sums index with
  | nil => exact hsums
  | cons performance earlier ih =>
      rw [List.length_cons] at hindex ⊢
      rw [List.zipIdx_cons, List.foldl_cons, show index + (earlier.length + 1) = index + 1 + earlier.length by omega]
      exact ih (covered_addTerm hexact hpow hsums (by omega)) (by omega)

/-- The prior keeps a positive weight. -/
theorem initialWeight_pos {contestant : Contestant} (performance : ℚ)
    (hhistory : contestant.historical.length = contestant.timesRanked) :
    0 < initialWeight M contestant performance := by
  have hcovered := covered_foldl hexact hpow (covered_first hexact hpow contestant performance)
    (show 0 + contestant.historical.length ≤ contestant.timesRanked by omega)
  have hvariance := varianceFor_pos hexact hpow
    (contestant.timesRanked - (0 + contestant.historical.length))
  have hgamma := varPerContest_pos hexact hpow
  have hshare := div_pos hcovered.weight_pos (add_pos hvariance hgamma)
  have hrest := hcovered.le_rest
  simp only [initialWeight, termSums, List.zipIdx_cons, List.foldl_cons, FloatArith.sub,
    FloatArith.div, hexact, id]
  linarith

/-- With as many performances in the history as rated contests, every variance is positive,
every index is that of a contest, and the mean update does not divide by zero. -/
theorem newMean_isSome {contestant : Contestant} (performance : ℚ) (bounds : ℚ × ℚ)
    (hhistory : contestant.historical.length = contestant.timesRanked) :
    (∀ timesRanked, 0 < varianceFor M timesRanked) ∧
      (∀ entry ∈ (performance :: contestant.historical).zipIdx,
        (0 : ℤ) ≤ contestant.timesRanked + 1 - entry.2) ∧
        0 < initialWeight M contestant performance ∧
          (newMean M contestant performance bounds).isSome := by
  have hweight := initialWeight_pos hexact hpow performance hhistory
  refine ⟨varianceFor_pos hexact hpow, fun entry hentry => ?_, hweight, ?_⟩
  · have hindex := List.snd_lt_of_mem_zipIdx hentry
    rw [List.length_cons] at hindex
    omega
  · rw [Option.isSome_iff_ne_none, Ne, newMean_eq_none_iff]
    exact hweight.ne'

/-- Nobody divides by zero: `recalculate` returns. -/
theorem recalculate_isSome {contestants : List Contestant}
    (hhistory : ∀ contestant ∈ contestants,
      contestant.historical.length = contestant.timesRanked) :
    (recalculate M contestants).isSome := by
  unfold recalculate
  dsimp only
  split
  · rfl
  · apply List.isSome_mapM
    intro entry hentry
    have hlength := hhistory entry.1 (List.of_mem_zip hentry).1
    obtain ⟨-, -, -, hmean⟩ := newMean_isSome hexact hpow entry.2 (validRange M) hlength
    obtain ⟨mean, hmean⟩ := Option.isSome_iff_exists.mp hmean
    simp [hmean]

end Exact

/-- A participant of two earlier rated contests. -/
def experienced : Contestant where
  rank := 0
  oldMean := 1600
  timesRanked := 2
  historical := [1650, 1550]

theorem newMean_isSome_experienced :
    (∀ timesRanked, 0 < varianceFor MathLibrary.sample timesRanked) ∧
      (∀ entry ∈ ((1700 : ℚ) :: experienced.historical).zipIdx,
        (0 : ℤ) ≤ experienced.timesRanked + 1 - entry.2) ∧
        0 < initialWeight MathLibrary.sample experienced 1700 ∧
          (newMean MathLibrary.sample experienced 1700 (validRange MathLibrary.sample)).isSome :=
  newMean_isSome rfl
    (fun x => (show MathLibrary.samplePow x 2 = x * x from if_pos rfl).trans (pow_two x).symm) 1700
    (validRange MathLibrary.sample) rfl

end EloMMR

namespace RatingService

/-- A participant's history has one performance for each contest they are ranked in. -/
theorem length_historical {tables : RatingTables} {contest : ContestRow}
    {contestant : EloMMR.Contestant}
    (h : contestant ∈ contestants (selected tables contest)) :
    contestant.historical.length = contestant.timesRanked := by
  obtain ⟨entry, hentry, rfl⟩ := List.mem_map.mp h
  obtain ⟨standing, -, hselect⟩ := List.mem_filterMap.mp (List.of_mem_zip hentry).1
  obtain ⟨-, user, -, hitem⟩ := select_eq_some.mp hselect
  rw [hitem]
  exact List.length_map _

/-- In exact arithmetic the ratings of every contest can be computed. -/
theorem recalculate_selected_isSome {M : MathLibrary} (hexact : M.arith.fl = id)
    (hpow : ∀ x, M.pow x 2 = x ^ 2) (tables : RatingTables) (contest : ContestRow) :
    (EloMMR.recalculate M (contestants (selected tables contest))).isSome :=
  EloMMR.recalculate_isSome hexact hpow fun _ => length_historical

end RatingService

end JudgeLoom
