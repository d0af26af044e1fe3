import JudgeLoom.Library.Except
import JudgeLoom.Python.Math
import Mathlib.Data.Nat.Log

/-!
# The Elo-MMR rating engine

`apps/ratings/services/elo_mmr`.  The four parallel lists that `recalculate`
receives and the three that it returns are one list of records each.  `none` is
the `ZeroDivisionError` of an initial weight that is zero.

`_solve` halves its bracket until it is at most 2 wide.  `solveLoop` counts the
rounds: `solveRounds` is two more than halving exactly would need
(`width_solve`), which leaves room for the rounding of the midpoints.
-/

namespace JudgeLoom

namespace EloMMR

variable (M : MathLibrary)

/-- `BETA2 = 328.33**2`. -/
def beta2 : ℚ := M.pow (M.arith.fl (32833 / 100)) 2

/-- `MEAN_INIT`. -/
def meanInit : ℚ := 1500

/-- `RATING_INIT`. -/
def ratingInit : ℤ := 1200

/-- `VAR_INIT = 350**2 * (BETA2 / 212**2)`. -/
def varInit : ℚ := M.arith.mul (350 ^ 2) (M.arith.div (beta2 M) (212 ^ 2))

/-- `SD_INIT`. -/
def sdInit : ℚ := M.sqrt (varInit M)

/-- `VALID_RANGE`. -/
def validRange : ℚ × ℚ :=
  (M.arith.sub meanInit (M.arith.mul 20 (sdInit M)),
    M.arith.add meanInit (M.arith.mul 20 (sdInit M)))

/-- `VAR_PER_CONTEST = 1219.047619 * (BETA2 / 212**2)`. -/
def varPerContest : ℚ :=
  M.arith.mul (M.arith.fl (1219047619 / 10 ^ 6)) (M.arith.div (beta2 M) (212 ^ 2))

/-- `VAR_LIM`. -/
def varLim : ℚ :=
  let root := M.sqrt (M.arith.add (M.pow (varPerContest M) 2)
    (M.arith.mul (M.arith.mul 4 (beta2 M)) (varPerContest M)))
  M.arith.div (M.arith.sub root (varPerContest M)) 2

/-- `SD_LIM`. -/
def sdLim : ℚ := M.sqrt (varLim M)

/-- `TANH_C`. -/
def tanhC : ℚ := M.arith.div (M.sqrt 3) M.pi

/-- The prior variance for a participant with `timesRanked` rated contests. -/
def varianceFor : ℕ → ℚ
  | 0 => varInit M
  | timesRanked + 1 =>
      M.arith.div 1 (M.arith.add
        (M.arith.div 1 (M.arith.add (varianceFor timesRanked) (varPerContest M)))
        (M.arith.div 1 (beta2 M)))

section Variance

variable {M} (hM : M.Accurate)

include hM

theorem beta2_mem : 50000 ≤ beta2 M ∧ beta2 M ≤ 220000 := by
  have hlow : (328 : ℚ) ≤ M.arith.fl (32833 / 100) := by
    exact_mod_cast hM.natCast_le_fl (n := 328) (by norm_num) (by norm_num)
  have hhigh : M.arith.fl (32833 / 100) ≤ 329 := by
    exact_mod_cast hM.fl_le_natCast (n := 329) (by norm_num) (by norm_num)
  obtain ⟨hpow, hpow'⟩ := hM.pow_two (M.arith.fl (32833 / 100)) (by linarith) (by linarith)
  unfold beta2
  constructor <;> nlinarith

/-- `BETA2 / 212**2`. -/
theorem beta2_div_mem : 1 ≤ M.arith.div (beta2 M) (212 ^ 2) ∧
    M.arith.div (beta2 M) (212 ^ 2) ≤ 5 := by
  obtain ⟨hlow, hhigh⟩ := beta2_mem hM
  constructor
  · have h := hM.natCast_le_fl (n := 1) (x := beta2 M / 212 ^ 2) (by norm_num)
      (by rw [le_div_iff₀ (by norm_num)]; push_cast; linarith)
    exact_mod_cast h
  · have h := hM.fl_le_natCast (n := 5) (x := beta2 M / 212 ^ 2) (by norm_num)
      (by rw [div_le_iff₀ (by norm_num)]; push_cast; linarith)
    exact_mod_cast h

theorem varInit_mem : 1 ≤ varInit M ∧ varInit M ≤ 2 ^ 20 := by
  obtain ⟨hlow, hhigh⟩ := beta2_div_mem hM
  constructor
  · have h := hM.natCast_le_fl (n := 1) (x := 350 ^ 2 * M.arith.div (beta2 M) (212 ^ 2))
      (by norm_num) (by push_cast; linarith)
    exact_mod_cast h
  · have h := hM.fl_le_natCast (n := 2 ^ 20) (x := 350 ^ 2 * M.arith.div (beta2 M) (212 ^ 2))
      (by norm_num) (by push_cast; linarith)
    exact_mod_cast h

theorem varPerContest_mem : 1024 ≤ varPerContest M ∧ varPerContest M ≤ 2 ^ 20 := by
  obtain ⟨hlow, hhigh⟩ := beta2_div_mem hM
  have hfactor : (1219 : ℚ) ≤ M.arith.fl (1219047619 / 10 ^ 6) := by
    exact_mod_cast hM.natCast_le_fl (n := 1219) (by norm_num) (by norm_num)
  have hfactor' : M.arith.fl (1219047619 / 10 ^ 6) ≤ 1220 := by
    exact_mod_cast hM.fl_le_natCast (n := 1220) (by norm_num) (by norm_num)
  have hproduct := mul_le_mul hfactor hlow (by norm_num) (by linarith)
  have hproduct' := mul_le_mul hfactor' hhigh (by linarith) (by norm_num)
  constructor
  · have h := hM.natCast_le_fl (n := 1024)
      (x := M.arith.fl (1219047619 / 10 ^ 6) * M.arith.div (beta2 M) (212 ^ 2))
      (by norm_num) (by push_cast; linarith)
    exact_mod_cast h
  · have h := hM.fl_le_natCast (n := 2 ^ 20)
      (x := M.arith.fl (1219047619 / 10 ^ 6) * M.arith.div (beta2 M) (212 ^ 2))
      (by norm_num) (by push_cast; linarith)
    exact_mod_cast h

/-- Every prior variance is at least 1: no divisor of the recursion is zero, and no
rounding makes one vanish. -/
theorem varianceFor_mem (timesRanked : ℕ) :
    1 ≤ varianceFor M timesRanked ∧ varianceFor M timesRanked ≤ 2 ^ 20 := by
  induction timesRanked with
  | zero => exact varInit_mem hM
  | succ timesRanked ih =>
      obtain ⟨hlow, hhigh⟩ := ih
      obtain ⟨hper, hper'⟩ := varPerContest_mem hM
      obtain ⟨hbeta, hbeta'⟩ := beta2_mem hM
      have hsum : 1024 ≤ M.arith.add (varianceFor M timesRanked) (varPerContest M) := by
        have h := hM.natCast_le_fl (n := 1024) (x := varianceFor M timesRanked + varPerContest M)
          (by norm_num) (by push_cast; linarith)
        exact_mod_cast h
      have hsum' : M.arith.add (varianceFor M timesRanked) (varPerContest M) ≤ 2 ^ 21 := by
        have h := hM.fl_le_natCast (n := 2 ^ 21) (x := varianceFor M timesRanked + varPerContest M)
          (by norm_num) (by push_cast; linarith)
        exact_mod_cast h
      set total := M.arith.add (varianceFor M timesRanked) (varPerContest M) with htotal
      have hfirst : M.arith.div 1 total ≤ 1 / 2 ^ 10 :=
        hM.fl_le_inv_pow (by norm_num)
          (one_div_le_one_div_of_le (by norm_num) (by linarith))
      have hsecond : M.arith.div 1 (beta2 M) ≤ 1 / 2 ^ 10 :=
        hM.fl_le_inv_pow (by norm_num)
          (one_div_le_one_div_of_le (by norm_num) (by linarith))
      have hfirst' : 1 / 2 ^ 21 ≤ M.arith.div 1 total :=
        hM.inv_pow_le_fl (by norm_num) (one_div_le_one_div_of_le (by linarith) hsum')
      have hsecond' : 1 / 2 ^ 18 ≤ M.arith.div 1 (beta2 M) :=
        hM.inv_pow_le_fl (by norm_num) (one_div_le_one_div_of_le (by linarith) (by linarith))
      have hinverse : M.arith.add (M.arith.div 1 total) (M.arith.div 1 (beta2 M)) ≤ 1 / 2 ^ 9 :=
        hM.fl_le_inv_pow (by norm_num) (by linarith)
      have hinverse' : 1 / 2 ^ 18 ≤ M.arith.add (M.arith.div 1 total) (M.arith.div 1 (beta2 M)) :=
        hM.inv_pow_le_fl (by norm_num) (by linarith [show (0 : ℚ) ≤ 1 / 2 ^ 21 by norm_num])
      set inverse := M.arith.add (M.arith.div 1 total) (M.arith.div 1 (beta2 M)) with hinverseDef
      have hpos : 0 < inverse := lt_of_lt_of_le (by norm_num) hinverse'
      constructor
      · have h := hM.natCast_le_fl (n := 1) (x := 1 / inverse) (by norm_num)
          (by rw [le_div_iff₀ hpos]; push_cast; linarith)
        exact_mod_cast h
      · have h := hM.fl_le_natCast (n := 2 ^ 20) (x := 1 / inverse) (by norm_num)
          (by rw [div_le_iff₀ hpos]; push_cast; linarith)
        exact_mod_cast h

end Variance

/-- A term of a performance equation. -/
structure Term where
  mean : ℚ
  sd : ℚ
  weight : ℚ

/-- `_eval_tanhs`. -/
def evalTanhs (terms : List Term) (x : ℚ) : ℚ :=
  M.arith.sum (terms.map fun term =>
    M.arith.mul (M.arith.div term.weight term.sd)
      (M.tanh (M.arith.div (M.arith.sub x term.mean) (M.arith.mul 2 term.sd))))

/-! ## Solving an equation -/

/-- The bracket of `_solve`, with the values at its ends that it knows. -/
structure Bracket where
  left : ℚ
  right : ℚ
  leftY : Option ℚ := none
  rightY : Option ℚ := none

/-- The `while` loop of `_solve`: a root that was hit, or the last bracket. -/
def solveLoop (f : ℚ → ℚ) (target : ℚ) : ℕ → Bracket → ℚ ⊕ Bracket
  | 0, bracket => .inr bracket
  | rounds + 1, bracket =>
      if 2 < M.arith.sub bracket.right bracket.left then
        let middle := M.arith.div (M.arith.add bracket.left bracket.right) 2
        let value := f middle
        if target < value then
          solveLoop f target rounds { bracket with right := middle, rightY := some value }
        else if value < target then
          solveLoop f target rounds { bracket with left := middle, leftY := some value }
        else .inl middle
      else .inr bracket

/-- How many rounds the loop is given. -/
def solveRounds (bounds : ℚ × ℚ) : ℕ := Nat.clog 2 ⌈bounds.2 - bounds.1⌉₊ + 2

/-- `_solve`. -/
def solve (terms : List Term) (target linearFactor : ℚ) (bounds : ℚ × ℚ) : ℚ :=
  let f := fun x => M.arith.add (M.arith.mul linearFactor x) (evalTanhs M terms x)
  match solveLoop M f target (solveRounds bounds) { left := bounds.1, right := bounds.2 } with
  | .inl middle => middle
  | .inr bracket =>
      let leftY := bracket.leftY.getD (f bracket.left)
      if target ≤ leftY then bracket.left
      else
        let rightY := bracket.rightY.getD (f bracket.right)
        if rightY ≤ target then bracket.right
        else
          let ratio := M.arith.div (M.arith.sub target leftY) (M.arith.sub rightY leftY)
          M.arith.add (M.arith.mul bracket.left (M.arith.sub 1 ratio))
            (M.arith.mul bracket.right ratio)

/-- With exact midpoints the loop ends because the bracket is narrow. -/
theorem width_solveLoop {f : ℚ → ℚ} {target : ℚ} (hexact : M.arith.fl = id) {rounds : ℕ}
    {bracket last : Bracket} (hwidth : bracket.right - bracket.left ≤ 2 ^ (rounds + 1))
    (h : solveLoop M f target rounds bracket = .inr last) : last.right - last.left ≤ 2 := by
  induction rounds generalizing bracket with
  | zero =>
      cases h
      simpa using hwidth
  | succ rounds ih =>
      have hmiddle : M.arith.div (M.arith.add bracket.left bracket.right) 2 =
          (bracket.left + bracket.right) / 2 := by
        simp [FloatArith.div, FloatArith.add, hexact]
      have hhalf : (bracket.right - bracket.left) / 2 ≤ 2 ^ (rounds + 1) := by
        rw [pow_succ] at hwidth
        linarith
      unfold solveLoop at h
      simp only [hmiddle] at h
      split_ifs at h with hwide habove hbelow
      · exact ih (by dsimp only; linarith) h
      · exact ih (by dsimp only; linarith) h
      · cases h
        simpa [FloatArith.sub, hexact] using hwide

/-- The rounds that `solve` gives the loop suffice. -/
theorem solveRounds_spec (bounds : ℚ × ℚ) : bounds.2 - bounds.1 ≤ 2 ^ (solveRounds bounds + 1) := by
  have hceil : bounds.2 - bounds.1 ≤ ⌈bounds.2 - bounds.1⌉₊ := Nat.le_ceil _
  have hlog : ⌈bounds.2 - bounds.1⌉₊ ≤ 2 ^ Nat.clog 2 ⌈bounds.2 - bounds.1⌉₊ :=
    Nat.le_pow_clog (by norm_num) _
  have hpow : 2 ^ Nat.clog 2 ⌈bounds.2 - bounds.1⌉₊ ≤ 2 ^ (solveRounds bounds + 1) :=
    Nat.pow_le_pow_right (by norm_num) (by unfold solveRounds; omega)
  exact hceil.trans (by exact_mod_cast hlog.trans hpow)

/-- With exact midpoints `solve` never runs out of rounds. -/
theorem width_solve {f : ℚ → ℚ} {target : ℚ} {bounds : ℚ × ℚ} {last : Bracket}
    (hexact : M.arith.fl = id)
    (h : solveLoop M f target (solveRounds bounds) { left := bounds.1, right := bounds.2 } =
      .inr last) : last.right - last.left ≤ 2 :=
  width_solveLoop M hexact (solveRounds_spec bounds) h

/-! ## One contest -/

/-- What `recalculate` is told about a participant. -/
structure Contestant where
  rank : ℚ
  oldMean : ℚ
  timesRanked : ℕ
  historical : List ℚ

/-- What `recalculate` returns about a participant. -/
structure Outcome where
  displayed : ℤ
  mean : ℚ
  performance : ℚ

section Recalculate

variable (contestants : List Contestant)

/-- `delta`. -/
def delta (contestant : Contestant) : ℚ :=
  M.arith.mul (tanhC M) (M.sqrt (M.arith.add
    (M.arith.add (varianceFor M contestant.timesRanked) (varPerContest M)) (beta2 M)))

/-- `solve_index`: the performance that explains the rank. -/
def solveIndex (contestant : Contestant) (searchBounds : ℚ × ℚ) : ℚ :=
  let target := contestants.foldl (fun target opponent =>
    if contestant.rank < opponent.rank then
      M.arith.add target (M.arith.div 1 (delta M opponent))
    else if opponent.rank < contestant.rank then
      M.arith.sub target (M.arith.div 1 (delta M opponent))
    else target) 0
  let priorTerms := contestants.map fun opponent =>
    { mean := opponent.oldMean, sd := delta M opponent, weight := 1 : Term }
  solve M priorTerms target 0 searchBounds

/-- `new_performance[index] = ...`. -/
def solveAt (performances : List ℚ) (index : ℕ) (searchBounds : ℚ × ℚ) : List ℚ :=
  match contestants[index]? with
  | none => performances
  | some contestant => performances.set index (solveIndex M contestants contestant searchBounds)

/-- `fill`; every call is on a shorter range, so `right - left` calls nest at most. -/
def fill : ℕ → List ℚ → ℕ → ℕ → List ℚ
  | 0, performances, _, _ => performances
  | depth + 1, performances, left, right =>
      if 1 < right - left then
        let middle := (left + right) / 2
        let solved := solveAt M contestants performances middle
          (performances.getD right 0, performances.getD left 0)
        fill depth (fill depth solved left middle) middle right
      else performances

/-- `new_performance`, when there are at least two participants. -/
def newPerformances (bounds : ℚ × ℚ) : List ℚ :=
  let last := contestants.length - 1
  let start := List.replicate contestants.length 0
  fill M contestants last
    (solveAt M contestants (solveAt M contestants start 0 bounds) last bounds) 0 last

/-- The accumulators of the loop over a participant's history. -/
structure TermSums where
  terms : List Term := []
  previousWeight : ℚ := 1
  weightSum : ℚ := 0

/-- One round of that loop. -/
def addTerm (contestant : Contestant) (sums : TermSums) (entry : ℚ × ℕ) : TermSums :=
  let gamma2 := if 0 < entry.2 then varPerContest M else 0
  let historyVariance := varianceFor M (contestant.timesRanked + 1 - entry.2)
  let factor := M.arith.div historyVariance (M.arith.add historyVariance gamma2)
  let weight := M.arith.mul sums.previousWeight (M.pow factor 2)
  { terms := sums.terms ++
      [{ mean := entry.1, sd := M.arith.mul (M.sqrt (beta2 M)) (tanhC M), weight }]
    previousWeight := weight
    weightSum := M.arith.add sums.weightSum (M.arith.div weight (beta2 M)) }

/-- `new_mean[index]`. -/
def newMean (contestant : Contestant) (performance : ℚ) (bounds : ℚ × ℚ) : Option ℚ :=
  let sums := (performance :: contestant.historical).zipIdx.foldl (addTerm M contestant) {}
  let initialWeight := M.arith.sub
    (M.arith.div 1 (varianceFor M (contestant.timesRanked + 1))) sums.weightSum
  if initialWeight = 0 then none
  else
    let initialPerformance := M.arith.add
      (M.arith.div (evalTanhs M sums.terms.tail contestant.oldMean) initialWeight)
      contestant.oldMean
    some (solve M sums.terms (M.arith.mul initialWeight initialPerformance) initialWeight bounds)

/-- `displayed[index]`. -/
def displayed (contestant : Contestant) (mean : ℚ) : ℤ :=
  max 1 (FloatArith.roundHalfEven (M.arith.sub mean
    (M.arith.sub (M.sqrt (varianceFor M (contestant.timesRanked + 1))) (sdLim M))))

/-- `recalculate`, without a performance ceiling. -/
def recalculate : Option (List Outcome) :=
  let bounds := validRange M
  if contestants.length < 2 then
    some (contestants.map fun contestant =>
      { displayed := displayed M contestant contestant.oldMean
        mean := contestant.oldMean
        performance := contestant.oldMean })
  else
    (contestants.zip (newPerformances M contestants bounds)).mapM fun entry => do
      let mean ← newMean M entry.1 entry.2 bounds
      return { displayed := displayed M entry.1 mean, mean, performance := entry.2 }

theorem length_solveAt (performances : List ℚ) (index : ℕ) (searchBounds : ℚ × ℚ) :
    (solveAt M contestants performances index searchBounds).length = performances.length := by
  unfold solveAt
  split <;> simp

theorem length_fill (depth : ℕ) (performances : List ℚ) (left right : ℕ) :
    (fill M contestants depth performances left right).length = performances.length := by
  induction depth generalizing performances left right with
  | zero => rfl
  | succ depth ih =>
      unfold fill
      split
      · rw [ih, ih, length_solveAt]
      · rfl

theorem length_newPerformances (bounds : ℚ × ℚ) :
    (newPerformances M contestants bounds).length = contestants.length := by
  simp only [newPerformances, length_fill, length_solveAt, List.length_replicate]

/-- Every participant gets an outcome. -/
theorem length_of_recalculate_eq_some {M : MathLibrary} {contestants : List Contestant}
    {outcomes : List Outcome} (h : recalculate M contestants = some outcomes) :
    outcomes.length = contestants.length := by
  unfold recalculate at h
  dsimp only at h
  split at h
  · cases h
    exact List.length_map _
  · rw [List.length_of_mapM_eq_some h, List.length_zip, length_newPerformances, min_self]

end Recalculate

end EloMMR

end JudgeLoom
