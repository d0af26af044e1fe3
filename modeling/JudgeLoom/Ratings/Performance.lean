import JudgeLoom.Library.Bisection
import JudgeLoom.Ratings.EloMMR
import Mathlib.Algebra.Order.BigOperators.Group.List
import Mathlib.Data.List.Range

/-!
# The performances of a contest

`recalculate` gives every participant the performance that explains the rank.  The
first and the last participant are solved for in the whole search range; `fill` then
solves for the participant in the middle, between the performances of the two ends,
and goes on with both halves.

`_eval_tanhs` is a parameter here: with `evalTanhs` for it the run computes
`newPerformances` (`performancesWith_evalTanhs`).  In exact arithmetic `_solve` is a
bisection (`solveWith_eq_bisect`), so a performance stays between those of the ends
whatever the function is, and that alone puts the performances in the order of the
ranks.
-/

namespace JudgeLoom

namespace EloMMR

open Bisection

/-- An entry of `zip(ranks, delta)`. -/
structure Entrant where
  rank : ℚ
  width : ℚ

/-- The list `new_performance`, and the indices it was assigned at, the oldest first. -/
structure PerformanceRun where
  performances : List ℚ
  assigned : List ℕ := []

/-- `new_performance[index]`. -/
def PerformanceRun.performance (run : PerformanceRun) (index : ℕ) : ℚ :=
  run.performances.getD index 0

variable (M : MathLibrary) (eval : ℚ → ℚ) (entrants : List Entrant)

/-- The values that the bracket carries are those of the function at its ends. -/
structure Bracket.Sound (f : ℚ → ℚ) (bracket : Bracket) : Prop where
  left : ∀ value ∈ bracket.leftY, value = f bracket.left
  right : ∀ value ∈ bracket.rightY, value = f bracket.right

/-- What follows the `while` loop of `_solve`. -/
def crossing (f : ℚ → ℚ) (target : ℚ) : ℚ ⊕ Bracket → ℚ
  | .inl middle => middle
  | .inr bracket =>
      let leftY := bracket.leftY.getD (f bracket.left)
      if target ≤ leftY then bracket.left
      else
        let rightY := bracket.rightY.getD (f bracket.right)
        if rightY ≤ target then bracket.right
        else
          let ratio := M.arith.div (M.arith.sub target leftY) (M.arith.sub rightY leftY)
          M.arith.add (M.arith.mul bracket.left (M.arith.sub 1 ratio))
            (M.arith.mul bracket.right ratio)

/-- `_solve`, with `eval` for `_eval_tanhs` on the terms. -/
def solveWith (target linearFactor : ℚ) (bounds : ℚ × ℚ) : ℚ :=
  let f := fun x => M.arith.add (M.arith.mul linearFactor x) (eval x)
  crossing M f target
    (solveLoop M f target (solveRounds bounds) { left := bounds.1, right := bounds.2 })

theorem solve_eq_solveWith (terms : List Term) (target linearFactor : ℚ) (bounds : ℚ × ℚ) :
    solve M terms target linearFactor bounds =
      solveWith M (evalTanhs M terms) target linearFactor bounds :=
  rfl

/-- `target` in `solve_index`. -/
def targetOf (rank : ℚ) : ℚ :=
  entrants.foldl (fun target opponent =>
    if rank < opponent.rank then M.arith.add target (M.arith.div 1 opponent.width)
    else if opponent.rank < rank then M.arith.sub target (M.arith.div 1 opponent.width)
    else target) 0

/-- `solve_index`. -/
def solveIndexWith (run : PerformanceRun) (index : ℕ) (searchBounds : ℚ × ℚ) : PerformanceRun :=
  match entrants[index]? with
  | none => run
  | some entrant =>
      { performances := run.performances.set index
          (solveWith M eval (targetOf M entrants entrant.rank) 0 searchBounds)
        assigned := run.assigned ++ [index] }

/-- `fill`; `none` is a recursion that is not done within `depth` nested calls. -/
def fillWith : ℕ → PerformanceRun → ℕ → ℕ → Option PerformanceRun
  | 0, _, _, _ => none
  | depth + 1, run, left, right =>
      if 1 < right - left then
        let middle := (left + right) / 2
        let solved := solveIndexWith M eval entrants run middle
          (run.performance right, run.performance left)
        (fillWith depth solved left middle).bind fun filled => fillWith depth filled middle right
      else some run

/-- `updated_bounds`. -/
def searchBounds (ceiling : Option ℚ) : ℚ × ℚ :=
  ((validRange M).1, match ceiling with
    | none => (validRange M).2
    | some ceiling => min (validRange M).2 ceiling)

/-- The first and the last participant are solved for. -/
def solveEndsWith (bounds : ℚ × ℚ) : PerformanceRun :=
  let start : PerformanceRun := { performances := List.replicate entrants.length 0 }
  let first := solveIndexWith M eval entrants start 0 bounds
  solveIndexWith M eval entrants first (entrants.length - 1) bounds

/-- The part of `recalculate` that finds the performances of at least two participants. -/
def performancesWith (ceiling : Option ℚ) (depth : ℕ) : Option PerformanceRun :=
  fillWith M eval entrants depth (solveEndsWith M eval entrants (searchBounds M ceiling)) 0
    (entrants.length - 1)

/-! ## What is assigned -/

section Assigned

variable {M eval entrants} {run run' : PerformanceRun} {index left right depth : ℕ}

theorem solveIndexWith_of_lt (searchBounds : ℚ × ℚ) (h : index < entrants.length) :
    solveIndexWith M eval entrants run index searchBounds =
      { performances := run.performances.set index
          (solveWith M eval (targetOf M entrants entrants[index].rank) 0 searchBounds)
        assigned := run.assigned ++ [index] } := by
  unfold solveIndexWith
  rw [List.getElem?_eq_getElem h]

@[simp] theorem length_solveIndexWith (searchBounds : ℚ × ℚ) :
    (solveIndexWith M eval entrants run index searchBounds).performances.length =
      run.performances.length := by
  unfold solveIndexWith
  split <;> simp

theorem performance_solveIndexWith_self (searchBounds : ℚ × ℚ) (h : index < entrants.length)
    (hlength : run.performances.length = entrants.length) :
    (solveIndexWith M eval entrants run index searchBounds).performance index =
      solveWith M eval (targetOf M entrants entrants[index].rank) 0 searchBounds := by
  rw [solveIndexWith_of_lt _ h]
  simp [PerformanceRun.performance, hlength, h]

theorem performance_solveIndexWith_of_ne (searchBounds : ℚ × ℚ) {other : ℕ}
    (h : other ≠ index) :
    (solveIndexWith M eval entrants run index searchBounds).performance other =
      run.performance other := by
  unfold solveIndexWith
  split
  · rfl
  · simp [PerformanceRun.performance, List.getElem?_set_ne h.symm]

theorem fillWith_of_narrow (h : right - left ≤ 1) :
    fillWith M eval entrants (depth + 1) run left right = some run :=
  if_neg (by omega)

/-- A range with something inside is solved in the middle, and both halves are filled. -/
theorem fillWith_cases (hfill : fillWith M eval entrants depth run left right = some run') :
    (right - left ≤ 1 ∧ run' = run) ∨
      ∃ nested filled, depth = nested + 1 ∧ 1 < right - left ∧
        fillWith M eval entrants nested (solveIndexWith M eval entrants run ((left + right) / 2)
          (run.performance right, run.performance left)) left ((left + right) / 2) = some filled ∧
        fillWith M eval entrants nested filled ((left + right) / 2) right = some run' := by
  cases depth with
  | zero => cases hfill
  | succ nested =>
      by_cases hwide : 1 < right - left
      · have hbind := hfill
        unfold fillWith at hbind
        rw [if_pos hwide] at hbind
        obtain ⟨filled, hlower, hupper⟩ := Option.bind_eq_some_iff.mp hbind
        exact .inr ⟨nested, filled, rfl, hwide, hlower, hupper⟩
      · rw [fillWith_of_narrow (by omega)] at hfill
        exact .inl ⟨by omega, (Option.some.inj hfill).symm⟩

theorem length_fillWith (hfill : fillWith M eval entrants depth run left right = some run') :
    run'.performances.length = run.performances.length := by
  induction depth generalizing run run' left right with
  | zero => cases hfill
  | succ nested ih =>
      obtain ⟨-, rfl⟩ | ⟨_, filled, hdepth, -, hlower, hupper⟩ := fillWith_cases hfill
      · rfl
      · cases hdepth
        rw [ih hupper, ih hlower, length_solveIndexWith]

/-- Only what is strictly between the ends changes. -/
theorem performance_fillWith_outside
    (hfill : fillWith M eval entrants depth run left right = some run')
    (hindex : index ≤ left ∨ right ≤ index) : run'.performance index = run.performance index := by
  induction depth generalizing run run' left right with
  | zero => cases hfill
  | succ nested ih =>
      obtain ⟨-, rfl⟩ | ⟨_, filled, hdepth, hwide, hlower, hupper⟩ := fillWith_cases hfill
      · rfl
      · cases hdepth
        rw [ih hupper (by omega), ih hlower (by omega),
          performance_solveIndexWith_of_ne _ (by omega)]

/-- The middle keeps the performance it was given. -/
theorem performance_middle {filled : PerformanceRun}
    (hlower : fillWith M eval entrants depth (solveIndexWith M eval entrants run
      ((left + right) / 2) (run.performance right, run.performance left)) left
      ((left + right) / 2) = some filled)
    (hupper : fillWith M eval entrants depth filled ((left + right) / 2) right = some run')
    (hmiddle : (left + right) / 2 < entrants.length)
    (hlength : run.performances.length = entrants.length) :
    run'.performance ((left + right) / 2) =
      solveWith M eval (targetOf M entrants entrants[(left + right) / 2].rank) 0
        (run.performance right, run.performance left) := by
  rw [performance_fillWith_outside hupper (.inl le_rfl),
    performance_fillWith_outside hlower (.inr le_rfl),
    performance_solveIndexWith_self _ hmiddle hlength]

/-- What is strictly between the ends is assigned, each index once. -/
theorem assigned_fillWith (hfill : fillWith M eval entrants depth run left right = some run')
    (hright : right ≤ entrants.length) :
    ∃ filled : List ℕ, run'.assigned = run.assigned ++ filled ∧
      filled.Perm (List.range' (left + 1) (right - left - 1)) := by
  induction depth generalizing run run' left right with
  | zero => cases hfill
  | succ nested ih =>
      obtain ⟨hnarrow, rfl⟩ | ⟨_, between, hdepth, hwide, hlower, hupper⟩ := fillWith_cases hfill
      · refine ⟨[], (List.append_nil _).symm, ?_⟩
        rw [show right - left - 1 = 0 by omega]
        exact List.Perm.refl _
      · cases hdepth
        obtain ⟨lower, hassigned, hlowerPerm⟩ := ih hlower (by omega)
        obtain ⟨upper, hassigned', hupperPerm⟩ := ih hupper hright
        set middle := (left + right) / 2 with hmiddle
        rw [solveIndexWith_of_lt _ (show middle < entrants.length by omega)] at hassigned
        have hsplit : List.range' (left + 1) (right - left - 1) =
            List.range' (left + 1) (middle - left - 1) ++
              middle :: List.range' (middle + 1) (right - middle - 1) := by
          rw [show right - left - 1 = (middle - left - 1) + (right - middle - 1 + 1) by omega,
            ← List.range'_append_1, show left + 1 + (middle - left - 1) = middle by omega,
            List.range'_succ]
        refine ⟨middle :: (lower ++ upper), by simp [hassigned', hassigned], ?_⟩
        rw [hsplit]
        exact List.perm_middle.symm.trans (hlowerPerm.append (hupperPerm.cons middle))

/-- A range of at most `2 ^ depth` steps needs at most `depth + 1` nested calls. -/
theorem exists_fillWith (run : PerformanceRun) (hdepth : right - left ≤ 2 ^ depth) :
    ∃ run', fillWith M eval entrants (depth + 1) run left right = some run' := by
  induction depth generalizing run left right with
  | zero => exact ⟨run, fillWith_of_narrow hdepth⟩
  | succ depth ih =>
      by_cases hwide : 1 < right - left
      · rw [pow_succ] at hdepth
        set middle := (left + right) / 2 with hmiddle
        have hlowerRange : middle - left ≤ 2 ^ depth := by omega
        have hupperRange : right - middle ≤ 2 ^ depth := by omega
        obtain ⟨filled, hlower⟩ := ih (solveIndexWith M eval entrants run middle
          (run.performance right, run.performance left)) hlowerRange
        obtain ⟨run', hupper⟩ := ih filled hupperRange
        refine ⟨run', ?_⟩
        unfold fillWith
        rw [if_pos hwide]
        exact Option.bind_eq_some_iff.mpr ⟨filled, hlower, hupper⟩
      · exact ⟨run, fillWith_of_narrow (by omega)⟩

/-- More nested calls than needed change nothing. -/
theorem fillWith_mono {more : ℕ} (hmore : depth ≤ more)
    (hfill : fillWith M eval entrants depth run left right = some run') :
    fillWith M eval entrants more run left right = some run' := by
  induction depth generalizing run run' left right more with
  | zero => cases hfill
  | succ nested ih =>
      obtain ⟨more, rfl⟩ : ∃ n, more = n + 1 := ⟨more - 1, by omega⟩
      obtain ⟨hnarrow, rfl⟩ | ⟨_, filled, hdepth, hwide, hlower, hupper⟩ := fillWith_cases hfill
      · exact fillWith_of_narrow hnarrow
      · cases hdepth
        unfold fillWith
        rw [if_pos hwide]
        exact Option.bind_eq_some_iff.mpr
          ⟨filled, ih (by omega) hlower, ih (by omega) hupper⟩

/-! ### The ends -/

@[simp] theorem length_solveEndsWith (bounds : ℚ × ℚ) :
    (solveEndsWith M eval entrants bounds).performances.length = entrants.length := by
  simp [solveEndsWith]

theorem performance_first (bounds : ℚ × ℚ) (hcount : 2 ≤ entrants.length) :
    (solveEndsWith M eval entrants bounds).performance 0 =
      solveWith M eval (targetOf M entrants entrants[0].rank) 0 bounds := by
  rw [solveEndsWith, performance_solveIndexWith_of_ne _ (by omega),
    performance_solveIndexWith_self _ (by omega) (by simp)]

theorem performance_last (bounds : ℚ × ℚ) (hcount : 2 ≤ entrants.length) :
    (solveEndsWith M eval entrants bounds).performance (entrants.length - 1) =
      solveWith M eval (targetOf M entrants entrants[entrants.length - 1].rank) 0 bounds := by
  rw [solveEndsWith, performance_solveIndexWith_self _ (by omega) (by simp)]

theorem assigned_solveEndsWith (bounds : ℚ × ℚ) (hcount : 2 ≤ entrants.length) :
    (solveEndsWith M eval entrants bounds).assigned = [0, entrants.length - 1] := by
  rw [solveEndsWith, solveIndexWith_of_lt _ (by omega), solveIndexWith_of_lt _ (by omega)]
  rfl

end Assigned

/-! ## With `_eval_tanhs` -/

section EvalTanhs

variable (contestants : List Contestant)

/-- The entries of `zip(ranks, delta)`. -/
def entrantsOf : List Entrant :=
  contestants.map fun contestant => { rank := contestant.rank, width := delta M contestant }

/-- `prior_terms`. -/
def priorTerms : List Term :=
  contestants.map fun opponent => { mean := opponent.oldMean, sd := delta M opponent, weight := 1 }

variable {M contestants}

theorem solveIndex_eq_solveWith (contestant : Contestant) (searchBounds : ℚ × ℚ) :
    solveIndex M contestants contestant searchBounds =
      solveWith M (evalTanhs M (priorTerms M contestants))
        (targetOf M (entrantsOf M contestants) contestant.rank) 0 searchBounds := by
  rw [solveIndex, solve_eq_solveWith, targetOf, entrantsOf, List.foldl_map]
  rfl

theorem performances_solveIndexWith (run : PerformanceRun) (index : ℕ) (searchBounds : ℚ × ℚ) :
    (solveIndexWith M (evalTanhs M (priorTerms M contestants)) (entrantsOf M contestants) run index
      searchBounds).performances = solveAt M contestants run.performances index searchBounds := by
  unfold solveIndexWith solveAt
  cases hcontestant : contestants[index]? with
  | none => simp [entrantsOf, hcontestant]
  | some contestant =>
      simp [entrantsOf, hcontestant, solveIndex_eq_solveWith]

theorem performances_fillWith {depth enough : ℕ} {run run' : PerformanceRun} {left right : ℕ}
    (hfill : fillWith M (evalTanhs M (priorTerms M contestants)) (entrantsOf M contestants) depth
      run left right = some run') (henough : right - left ≤ enough) :
    run'.performances = fill M contestants enough run.performances left right := by
  induction depth generalizing run run' left right enough with
  | zero => cases hfill
  | succ nested ih =>
      obtain ⟨hnarrow, rfl⟩ | ⟨_, filled, hdepth, hwide, hlower, hupper⟩ := fillWith_cases hfill
      · cases enough with
        | zero => rfl
        | succ enough => exact (if_neg (by omega)).symm
      · cases hdepth
        obtain ⟨enough, rfl⟩ : ∃ n, enough = n + 1 := ⟨enough - 1, by omega⟩
        have hlowerEnough : (left + right) / 2 - left ≤ enough := by omega
        have hupperEnough : right - (left + right) / 2 ≤ enough := by omega
        unfold fill
        rw [if_pos hwide, ih hupper hupperEnough, ih hlower hlowerEnough,
          performances_solveIndexWith]
        rfl

/-- The run with `_eval_tanhs` computes the performances of `recalculate`. -/
theorem performancesWith_evalTanhs {depth : ℕ} {run : PerformanceRun}
    (hrun : performancesWith M (evalTanhs M (priorTerms M contestants)) (entrantsOf M contestants)
      none depth = some run) : run.performances = newPerformances M contestants (validRange M) := by
  have hlength : (entrantsOf M contestants).length = contestants.length := List.length_map _
  rw [performances_fillWith hrun le_rfl, solveEndsWith, performances_solveIndexWith,
    performances_solveIndexWith, hlength]
  rfl

/-- `recalculate` returns these performances. -/
theorem performance_of_recalculate_eq_some {outcomes : List Outcome}
    (hcount : 2 ≤ contestants.length) (h : recalculate M contestants = some outcomes) :
    outcomes.map Outcome.performance = newPerformances M contestants (validRange M) := by
  unfold recalculate at h
  rw [if_neg (by omega)] at h
  have hmap := List.map_of_mapM_eq_some (g := Outcome.performance) (k := Prod.snd) h (by
    intro entry outcome houtcome
    obtain ⟨mean, -, hmean⟩ := Option.bind_eq_some_iff.mp houtcome
    cases hmean
    rfl)
  rw [hmap, List.map_snd_zip]
  rw [length_newPerformances]

end EvalTanhs

/-! ## Exact arithmetic -/

theorem rank_le_rank {entrants : List Entrant}
    (hsorted : (entrants.map Entrant.rank).Pairwise (· ≤ ·)) {index index' : ℕ} (h : index ≤ index')
    (hindex' : index' < entrants.length) :
    (entrants[index]).rank ≤ (entrants[index']).rank := by
  rcases h.lt_or_eq with hlt | rfl
  · have hpair := List.pairwise_iff_getElem.mp hsorted index index' (by simp; omega)
      (by simpa using hindex') hlt
    simpa using hpair
  · exact le_rfl

/-- What an opponent adds to the target of a rank. -/
def opponentShare (rank : ℚ) (opponent : Entrant) : ℚ :=
  if rank < opponent.rank then 1 / opponent.width
  else if opponent.rank < rank then -(1 / opponent.width)
  else 0

theorem opponentShare_anti {rank rank' : ℚ} {opponent : Entrant} (hwidth : 0 < opponent.width)
    (h : rank ≤ rank') : opponentShare rank' opponent ≤ opponentShare rank opponent := by
  have hshare : 0 < 1 / opponent.width := one_div_pos.mpr hwidth
  unfold opponentShare
  split_ifs <;> linarith

theorem opponentShare_self_lt {rank' : ℚ} {opponent : Entrant} (hwidth : 0 < opponent.width)
    (h : opponent.rank < rank') :
    opponentShare rank' opponent < opponentShare opponent.rank opponent := by
  have hshare : 0 < 1 / opponent.width := one_div_pos.mpr hwidth
  unfold opponentShare
  rw [if_neg (by linarith), if_pos h, if_neg (lt_irrefl _), if_neg (lt_irrefl _)]
  linarith

section Exact

variable {M} {eval : ℚ → ℚ} (hexact : M.arith.fl = id)

include hexact

theorem crossing_inr {f : ℚ → ℚ} {target : ℚ} {bracket : Bracket} (hbracket : bracket.Sound f) :
    crossing M f target (.inr bracket) = interpolate f target bracket.left bracket.right := by
  have hleftY : bracket.leftY.getD (f bracket.left) = f bracket.left := by
    cases hvalue : bracket.leftY with
    | none => rfl
    | some value => exact hbracket.left value hvalue
  have hrightY : bracket.rightY.getD (f bracket.right) = f bracket.right := by
    cases hvalue : bracket.rightY with
    | none => rfl
    | some value => exact hbracket.right value hvalue
  simp only [crossing, hleftY, hrightY, interpolate, secant, FloatArith.div, FloatArith.sub,
    FloatArith.add, FloatArith.mul, hexact, id]

theorem crossing_solveLoop {f : ℚ → ℚ} {target : ℚ} (rounds : ℕ) {bracket : Bracket}
    (hbracket : bracket.Sound f) :
    crossing M f target (solveLoop M f target rounds bracket) =
      bisect f target 2 rounds bracket.left bracket.right := by
  induction rounds generalizing bracket with
  | zero => exact crossing_inr hexact hbracket
  | succ rounds ih =>
      have hmiddle : M.arith.div (M.arith.add bracket.left bracket.right) 2 =
          (bracket.left + bracket.right) / 2 := by
        simp [FloatArith.div, FloatArith.add, hexact]
      have hwidth : M.arith.sub bracket.right bracket.left = bracket.right - bracket.left := by
        simp [FloatArith.sub, hexact]
      unfold solveLoop
      rw [hwidth, hmiddle]
      by_cases hwide : 2 < bracket.right - bracket.left
      · rw [bisect_succ_of_wide hwide, if_pos hwide]
        dsimp only
        split_ifs with habove hbelow
        · exact ih ⟨hbracket.left, fun value hvalue => (Option.some.inj hvalue).symm⟩
        · exact ih ⟨fun value hvalue => (Option.some.inj hvalue).symm, hbracket.right⟩
        · rfl
      · rw [bisect_of_narrow _ (not_lt.mp hwide), if_neg hwide]
        exact crossing_inr hexact hbracket

theorem solveWith_eq_bisect (target : ℚ) (bounds : ℚ × ℚ) :
    solveWith M eval target 0 bounds =
      bisect eval target 2 (solveRounds bounds) bounds.1 bounds.2 := by
  have hf : (fun x => M.arith.add (M.arith.mul 0 x) (eval x)) = eval := by
    funext x
    simp [FloatArith.add, FloatArith.mul, hexact]
  unfold solveWith
  rw [hf]
  exact crossing_solveLoop hexact _ ⟨by simp, by simp⟩

theorem solveWith_mem (target : ℚ) {bounds : ℚ × ℚ} (hbounds : bounds.1 ≤ bounds.2) :
    bounds.1 ≤ solveWith M eval target 0 bounds ∧ solveWith M eval target 0 bounds ≤ bounds.2 := by
  rw [solveWith_eq_bisect hexact]
  exact bisect_mem _ hbounds

theorem solveWith_mono {target target' : ℚ} {bounds : ℚ × ℚ} (hbounds : bounds.1 ≤ bounds.2)
    (h : target ≤ target') :
    solveWith M eval target 0 bounds ≤ solveWith M eval target' 0 bounds := by
  rw [solveWith_eq_bisect hexact, solveWith_eq_bisect hexact]
  exact bisect_mono _ hbounds h

/-! ### Targets -/

variable {entrants : List Entrant}

theorem targetOf_eq_sum (rank : ℚ) :
    targetOf M entrants rank = (entrants.map (opponentShare rank)).sum := by
  have hfold : ∀ (opponents : List Entrant) (target : ℚ),
      opponents.foldl (fun target opponent =>
        if rank < opponent.rank then M.arith.add target (M.arith.div 1 opponent.width)
        else if opponent.rank < rank then M.arith.sub target (M.arith.div 1 opponent.width)
        else target) target = target + (opponents.map (opponentShare rank)).sum := by
    intro opponents
    induction opponents with
    | nil => simp
    | cons opponent opponents ih =>
        intro target
        rw [List.foldl_cons, ih, List.map_cons, List.sum_cons, ← add_assoc]
        congr 1
        unfold opponentShare
        split_ifs <;> simp [FloatArith.add, FloatArith.sub, FloatArith.div, hexact, sub_eq_add_neg]
  rw [targetOf, hfold, zero_add]

/-- A better rank has a larger target. -/
theorem targetOf_lt (hwidth : ∀ entrant ∈ entrants, 0 < entrant.width) {entrant : Entrant}
    (hmem : entrant ∈ entrants) {rank : ℚ} (h : entrant.rank < rank) :
    targetOf M entrants rank < targetOf M entrants entrant.rank := by
  rw [targetOf_eq_sum hexact, targetOf_eq_sum hexact]
  apply List.sum_lt_sum
  · exact fun opponent hopponent => opponentShare_anti (hwidth opponent hopponent) h.le
  · exact ⟨entrant, hmem, opponentShare_self_lt (hwidth entrant hmem) h⟩

theorem targetOf_anti (hwidth : ∀ entrant ∈ entrants, 0 < entrant.width) {rank rank' : ℚ}
    (h : rank ≤ rank') : targetOf M entrants rank' ≤ targetOf M entrants rank := by
  rw [targetOf_eq_sum hexact, targetOf_eq_sum hexact]
  apply List.sum_le_sum
  exact fun opponent hopponent => opponentShare_anti (hwidth opponent hopponent) h

/-! ### The order of the performances -/

variable {run run' : PerformanceRun} {left right depth : ℕ}

/-- `fill` puts what is between the ends in order.  The middle lies between the ends
because its search does, and then each half has ordered ends. -/
theorem performance_fillWith_anti
    (hfill : fillWith M eval entrants depth run left right = some run')
    (hright : right < entrants.length) (hlength : run.performances.length = entrants.length)
    (hends : run.performance right ≤ run.performance left) {index index' : ℕ}
    (hindex : left ≤ index) (hle : index ≤ index') (hindex' : index' ≤ right) :
    run'.performance index' ≤ run'.performance index := by
  induction depth generalizing run run' left right index index' with
  | zero => cases hfill
  | succ nested ih =>
      obtain ⟨hnarrow, rfl⟩ | ⟨_, filled, hdepth, hwide, hlower, hupper⟩ := fillWith_cases hfill
      · obtain rfl | ⟨rfl, rfl⟩ : index = index' ∨ index = left ∧ index' = right := by omega
        · exact le_rfl
        · exact hends
      · cases hdepth
        set middle := (left + right) / 2 with hmiddle
        have hmiddleLt : middle < entrants.length := by omega
        have hlength' := length_fillWith hlower
        rw [length_solveIndexWith, hlength] at hlength'
        set solved := solveIndexWith M eval entrants run middle
          (run.performance right, run.performance left) with hsolved
        have hsolvedLeft : solved.performance left = run.performance left :=
          performance_solveIndexWith_of_ne _ (by omega)
        have hsolvedRight : solved.performance right = run.performance right :=
          performance_solveIndexWith_of_ne _ (by omega)
        obtain ⟨hlow, hhigh⟩ : run.performance right ≤ solved.performance middle ∧
            solved.performance middle ≤ run.performance left := by
          rw [hsolved, performance_solveIndexWith_self _ hmiddleLt hlength]
          exact solveWith_mem hexact _ hends
        have hfilledMiddle : filled.performance middle = solved.performance middle :=
          performance_fillWith_outside hlower (.inr le_rfl)
        have hfilledRight : filled.performance right = solved.performance right :=
          performance_fillWith_outside hlower (.inr (by omega))
        have hlowerOrder : ∀ {i j : ℕ}, left ≤ i → i ≤ j → j ≤ middle →
            run'.performance j ≤ run'.performance i := by
          intro i j hi hij hj
          rw [performance_fillWith_outside hupper (.inl hj),
            performance_fillWith_outside hupper (.inl (hij.trans hj))]
          apply ih hlower hmiddleLt (by simpa [hsolved] using hlength) _ hi hij hj
          rw [hsolvedLeft]
          exact hhigh
        have hupperOrder : ∀ {i j : ℕ}, middle ≤ i → i ≤ j → j ≤ right →
            run'.performance j ≤ run'.performance i := by
          intro i j hi hij hj
          apply ih hupper hright hlength' _ hi hij hj
          rw [hfilledRight, hfilledMiddle, hsolvedRight]
          exact hlow
        -- Two indices in different halves are compared through the middle.
        by_cases hindexMiddle : index' ≤ middle
        · exact hlowerOrder hindex hle hindexMiddle
        · by_cases hmiddleIndex : middle ≤ index
          · exact hupperOrder hmiddleIndex hle hindex'
          · calc run'.performance index' ≤ run'.performance middle :=
                  hupperOrder le_rfl (by omega) hindex'
              _ ≤ run'.performance index := hlowerOrder hindex (by omega) le_rfl

theorem validRange_le (hsd : 0 ≤ sdInit M) : (validRange M).1 ≤ (validRange M).2 := by
  simp only [validRange, FloatArith.sub, FloatArith.add, FloatArith.mul, hexact, id]
  linarith

theorem searchBounds_le (hsd : 0 ≤ sdInit M) {ceiling : Option ℚ}
    (hceiling : ∀ value ∈ ceiling, (validRange M).1 ≤ value) :
    (searchBounds M ceiling).1 ≤ (searchBounds M ceiling).2 := by
  cases ceiling with
  | none => exact validRange_le hexact hsd
  | some value => exact le_min (validRange_le hexact hsd) (hceiling value rfl)

/-- The ends are in order before anything is filled in. -/
theorem performance_last_le_first {bounds : ℚ × ℚ} (hcount : 2 ≤ entrants.length)
    (hsorted : (entrants.map Entrant.rank).Pairwise (· ≤ ·))
    (hwidth : ∀ entrant ∈ entrants, 0 < entrant.width) (hbounds : bounds.1 ≤ bounds.2) :
    (solveEndsWith M eval entrants bounds).performance (entrants.length - 1) ≤
      (solveEndsWith M eval entrants bounds).performance 0 := by
  rw [performance_first _ hcount, performance_last _ hcount]
  apply solveWith_mono hexact hbounds
  apply targetOf_anti hexact hwidth
  exact rank_le_rank hsorted (Nat.zero_le _) (by omega)

/-- Whatever function is solved, the recursion ends, every index is assigned once, and the
performances lie in the search range, in the order of the ranks. -/
theorem performancesWith_antitone (hsd : 0 ≤ sdInit M) (hcount : 2 ≤ entrants.length)
    (hsorted : (entrants.map Entrant.rank).Pairwise (· ≤ ·))
    (hwidth : ∀ entrant ∈ entrants, 0 < entrant.width) {ceiling : Option ℚ}
    (hceiling : ∀ value ∈ ceiling, (validRange M).1 ≤ value) (eval : ℚ → ℚ) :
    ∃ run, (∀ depth, Nat.clog 2 (entrants.length - 1) < depth →
        performancesWith M eval entrants ceiling depth = some run) ∧
      run.assigned.Perm (List.range entrants.length) ∧
        run.performances.length = entrants.length ∧
          (∀ performance ∈ run.performances, (searchBounds M ceiling).1 ≤ performance ∧
            performance ≤ (searchBounds M ceiling).2) ∧
            run.performances.Pairwise (· ≥ ·) := by
  have hbounds := searchBounds_le hexact hsd hceiling
  set bounds := searchBounds M ceiling with hboundsDef
  obtain ⟨run, hrun⟩ : ∃ run, fillWith M eval entrants (Nat.clog 2 (entrants.length - 1) + 1)
      (solveEndsWith M eval entrants bounds) 0 (entrants.length - 1) = some run :=
    exists_fillWith _ (Nat.le_pow_clog (by norm_num) _)
  have hlength : run.performances.length = entrants.length := by
    rw [length_fillWith hrun, length_solveEndsWith]
  have horder : ∀ {i j : ℕ}, i ≤ j → j < entrants.length →
      run.performance j ≤ run.performance i := by
    intro i j hij hj
    exact performance_fillWith_anti hexact hrun (by omega) (length_solveEndsWith bounds)
      (performance_last_le_first hexact hcount hsorted hwidth hbounds) (Nat.zero_le i) hij
      (by omega)
  have hfirst : run.performance 0 ≤ bounds.2 := by
    rw [performance_fillWith_outside hrun (.inl le_rfl), performance_first _ hcount]
    exact (solveWith_mem hexact _ hbounds).2
  have hlast : bounds.1 ≤ run.performance (entrants.length - 1) := by
    rw [performance_fillWith_outside hrun (.inr le_rfl), performance_last _ hcount]
    exact (solveWith_mem hexact _ hbounds).1
  have hget : ∀ {i : ℕ} (hi : i < run.performances.length),
      run.performances[i] = run.performance i := by
    intro i hi
    simp [PerformanceRun.performance, hi]
  refine ⟨run, fun depth hdepth => fillWith_mono hdepth hrun, ?_, hlength, ?_, ?_⟩
  · obtain ⟨filled, hassigned, hperm⟩ := assigned_fillWith hrun (by omega)
    have hrange : List.range entrants.length =
        0 :: (List.range' 1 (entrants.length - 2) ++ [entrants.length - 1]) := by
      rw [List.range_eq_range', show entrants.length = (entrants.length - 2 + 1) + 1 by omega,
        List.range'_succ, ← List.range'_append_1]
      simp
      omega
    rw [hassigned, assigned_solveEndsWith _ hcount, hrange]
    apply List.Perm.cons
    exact (hperm.cons _).trans (List.perm_append_singleton _ _).symm
  · intro performance hmem
    obtain ⟨i, hi, rfl⟩ := List.getElem_of_mem hmem
    rw [hget hi]
    exact ⟨hlast.trans (horder (by omega) (by omega)),
      (horder (Nat.zero_le i) (by omega)).trans hfirst⟩
  · rw [List.pairwise_iff_getElem]
    intro i j hi hj hij
    rw [hget hi, hget hj]
    exact horder hij.le (by omega)

end Exact

/-! ## A winner and two that tie -/

/-- The ranks of three participants of whom the last two tie. -/
def tiedEntrants : List Entrant :=
  [{ rank := 0, width := 1 }, { rank := 3 / 2, width := 1 }, { rank := 3 / 2, width := 1 }]

theorem sdInit_sample_pos : 0 < sdInit MathLibrary.sample :=
  zero_lt_one.trans_le
    (MathLibrary.one_le_sampleSqrt (varInit_mem MathLibrary.accurate_sample).1)

theorem performancesWith_antitone_tied :
    ∃ run, (∀ depth, Nat.clog 2 (tiedEntrants.length - 1) < depth →
        performancesWith MathLibrary.sample id tiedEntrants none depth = some run) ∧
      run.assigned.Perm (List.range tiedEntrants.length) ∧
        run.performances.length = tiedEntrants.length ∧
          (∀ performance ∈ run.performances,
            (searchBounds MathLibrary.sample none).1 ≤ performance ∧
              performance ≤ (searchBounds MathLibrary.sample none).2) ∧
            run.performances.Pairwise (· ≥ ·) :=
  performancesWith_antitone rfl sdInit_sample_pos.le (by decide) (by norm_num [tiedEntrants])
    (by simp [tiedEntrants]) (by simp) id

end EloMMR

end JudgeLoom
