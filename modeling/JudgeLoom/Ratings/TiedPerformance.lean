import JudgeLoom.Ratings.Performance

/-!
# Performances of participants that tie

Participants that tie have one target, but `fill` searches for it between different
ends.  What one search returns is where a straight line crosses the target, not where
the function does, so the next search, with that point for an end, finds another one.

A function that jumps shows it for any ranks in which some, but not all, participants
tie (`exists_jump`): as long as the jump is between the ends, a search returns the
crossing of one line that does not depend on where the jump is, and going down the
recursion the jump can be kept between the ends until two that tie are separated.
-/

namespace JudgeLoom

namespace EloMMR

open Bisection

/-- `ranks[index]`. -/
def rankAt (entrants : List Entrant) (index : ℕ) : ℚ := (entrants.map Entrant.rank).getD index 0

/-- Participants of equal rank have equal performance. -/
def PerformanceRun.TiesEqual (entrants : List Entrant) (run : PerformanceRun) : Prop :=
  ∀ i j, i < entrants.length → j < entrants.length → rankAt entrants i = rankAt entrants j →
    run.performance i = run.performance j

theorem rank_getElem {entrants : List Entrant} {index : ℕ} (h : index < entrants.length) :
    (entrants[index]).rank = rankAt entrants index := by
  simp [rankAt, h]

/-- Two places have one rank exactly if the ranks are not all different. -/
theorem nodup_ranks_iff {entrants : List Entrant} :
    (entrants.map Entrant.rank).Nodup ↔
      ∀ i j, i < j → j < entrants.length → rankAt entrants i ≠ rankAt entrants j := by
  have hget : ∀ {i : ℕ} (hi : i < (entrants.map Entrant.rank).length),
      (entrants.map Entrant.rank)[i] = rankAt entrants i := by
    intro i hi
    have hi' : i < entrants.length := by simpa using hi
    simp [rankAt, hi']
  unfold List.Nodup
  rw [List.pairwise_iff_getElem]
  constructor
  · intro hne i j hij hj
    have hj' : j < (entrants.map Entrant.rank).length := by simpa using hj
    rw [← hget hj', ← hget (hij.trans hj')]
    exact hne i j _ _ hij
  · intro hne i j hi hj hij
    rw [hget hi, hget hj]
    exact hne i j hij (by simpa using hj)

/-! ## A function that jumps -/

/-- The identity, moved down below the threshold and up from it on. -/
def jump (size threshold x : ℚ) : ℚ := if x < threshold then x - size else x + size

section Jump

variable {size threshold left right target : ℚ}

theorem strictMono_jump (hsize : 0 ≤ size) : StrictMono (jump size threshold) := by
  intro x y hxy
  unfold jump
  split_ifs <;> linarith

theorem jump_of_lt (h : left < threshold) : jump size threshold left = left - size := if_pos h

theorem jump_of_le (h : threshold ≤ right) : jump size threshold right = right + size :=
  if_neg (not_lt.mpr h)

/-- With the jump in the bracket the crossing does not depend on where it is. -/
theorem interpolate_jump (hleft : left < threshold) (hright : threshold ≤ right)
    (hlow : left - size < target) (hhigh : target < right + size) :
    interpolate (jump size threshold) target left right =
      secant left right (left - size) (right + size) target := by
  unfold interpolate
  rw [jump_of_lt hleft, jump_of_le hright, if_neg (by linarith), if_neg (by linarith)]

/-- A jump close to the left end makes the search halve towards it. -/
theorem exists_bisect_jump (size : ℚ) (rounds : ℕ) (hbracket : left < right)
    (hwidth : right - left ≤ 2 ^ (rounds + 1)) :
    ∃ last, left < last ∧ last ≤ right ∧ last - left ≤ 2 ∧
      ∀ {threshold target : ℚ}, left < threshold → threshold ≤ last → left - size < target →
        target < left + size →
          bisect (jump size threshold) target 2 rounds left right =
            secant left last (left - size) (last + size) target := by
  induction rounds generalizing right with
  | zero =>
      refine ⟨right, hbracket, le_rfl, by simpa using hwidth, ?_⟩
      intro threshold target hleft hright hlow hhigh
      exact interpolate_jump hleft hright hlow (by linarith)
  | succ rounds ih =>
      by_cases hwide : 2 < right - left
      · have hmiddle : left < (left + right) / 2 := by linarith
        obtain ⟨last, hlt, hle, hnarrow, hlast⟩ := ih hmiddle (by rw [pow_succ] at hwidth; linarith)
        refine ⟨last, hlt, by linarith, hnarrow, ?_⟩
        intro threshold target hleft hright hlow hhigh
        rw [bisect_succ_of_wide hwide, jump_of_le (by linarith), if_pos (by linarith)]
        exact hlast hleft hright hlow hhigh
      · refine ⟨right, hbracket, le_rfl, not_lt.mp hwide, ?_⟩
        intro threshold target hleft hright hlow hhigh
        rw [bisect_of_narrow _ (not_lt.mp hwide)]
        exact interpolate_jump hleft hright hlow (by linarith)

end Jump

/-! ## Separating two that tie -/

section Separation

variable {M : MathLibrary} (hexact : M.arith.fl = id) {entrants : List Entrant}
  (hsorted : (entrants.map Entrant.rank).Pairwise (· ≤ ·))

include hsorted in
theorem rankAt_mono {i j : ℕ} (h : i ≤ j) (hj : j < entrants.length) :
    rankAt entrants i ≤ rankAt entrants j := by
  rw [← rank_getElem hj, ← rank_getElem (h.trans_lt hj)]
  exact rank_le_rank hsorted h hj

/-- Every target is far from the jump: the line between two points on its two sides
crosses it. -/
def JumpsOver (M : MathLibrary) (entrants : List Entrant) (size : ℚ) (bounds : ℚ × ℚ) : Prop :=
  ∀ entrant ∈ entrants, ∀ x, bounds.1 ≤ x → x ≤ bounds.2 →
    x - size < targetOf M entrants entrant.rank ∧ targetOf M entrants entrant.rank < x + size

theorem exists_jumpsOver (M : MathLibrary) (entrants : List Entrant) (bounds : ℚ × ℚ) :
    ∃ size, 0 ≤ size ∧ JumpsOver M entrants size bounds := by
  set sizes := entrants.map fun entrant => |targetOf M entrants entrant.rank| with hsizes
  have hnonneg : ∀ value ∈ sizes, 0 ≤ value := by
    intro value hvalue
    obtain ⟨entrant, -, rfl⟩ := List.mem_map.mp hvalue
    exact abs_nonneg _
  have hsum : 0 ≤ sizes.sum := List.sum_nonneg hnonneg
  refine ⟨sizes.sum + |bounds.1| + |bounds.2| + 1, by positivity, ?_⟩
  intro entrant hmem x hlow hhigh
  have htarget : |targetOf M entrants entrant.rank| ≤ sizes.sum :=
    List.single_le_sum hnonneg _ (List.mem_map_of_mem hmem)
  obtain ⟨htarget', htarget''⟩ := abs_le.mp htarget
  have h1 := neg_abs_le bounds.1
  have h2 := le_abs_self bounds.2
  have h3 := abs_nonneg bounds.1
  have h4 := abs_nonneg bounds.2
  constructor <;> linarith

include hexact in
/-- What `fill` does between ends with the jump between them: the middle gets the crossing
of a line that does not depend on where the jump is. -/
theorem fillWith_jump {size threshold low high : ℚ} {depth left right : ℕ}
    {run run' : PerformanceRun} (hwide : 1 < right - left)
    (hmiddle : (left + right) / 2 < entrants.length)
    (hlow : low - size < targetOf M entrants entrants[(left + right) / 2].rank)
    (hhigh : targetOf M entrants entrants[(left + right) / 2].rank < high + size)
    (hnarrow : high - low ≤ 2) (hthreshold : low < threshold) (hthreshold' : threshold ≤ high)
    (hlength : run.performances.length = entrants.length) (hleft : run.performance left = high)
    (hright : run.performance right = low)
    (hfill : fillWith M (jump size threshold) entrants depth run left right = some run') :
    let point := secant low high (low - size) (high + size)
      (targetOf M entrants entrants[(left + right) / 2].rank)
    run'.performance ((left + right) / 2) = point ∧ ∃ nested solved filled,
      (solved.performances.length = entrants.length ∧ solved.performance left = high ∧
        solved.performance ((left + right) / 2) = point ∧
          fillWith M (jump size threshold) entrants nested solved left ((left + right) / 2) =
            some filled) ∧
      filled.performances.length = entrants.length ∧
        filled.performance ((left + right) / 2) = point ∧ filled.performance right = low ∧
          fillWith M (jump size threshold) entrants nested filled ((left + right) / 2) right =
            some run' := by
  obtain ⟨hshort, -⟩ | ⟨nested, filled, -, -, hlower, hupper⟩ := fillWith_cases hfill
  · omega
  · set solved := solveIndexWith M (jump size threshold) entrants run ((left + right) / 2)
      (run.performance right, run.performance left) with hsolved
    have hlength' : solved.performances.length = entrants.length := by simpa [hsolved] using hlength
    have hpoint : solved.performance ((left + right) / 2) = secant low high (low - size)
        (high + size) (targetOf M entrants entrants[(left + right) / 2].rank) := by
      rw [hsolved, performance_solveIndexWith_self _ hmiddle hlength, solveWith_eq_bisect hexact,
        hleft, hright, bisect_of_narrow _ hnarrow]
      exact interpolate_jump hthreshold hthreshold' hlow hhigh
    have hfilled : filled.performance ((left + right) / 2) = _ :=
      (performance_fillWith_outside hlower (.inr le_rfl)).trans hpoint
    refine ⟨(performance_fillWith_outside hupper (.inl le_rfl)).trans hfilled, nested, solved,
      filled, ⟨hlength', ?_, hpoint, hlower⟩, ?_, hfilled, ?_, hupper⟩
    · rw [hsolved, performance_solveIndexWith_of_ne _ (by omega), hleft]
    · rw [length_fillWith hlower, hlength']
    · rw [performance_fillWith_outside hlower (.inr (by omega)), hsolved,
        performance_solveIndexWith_of_ne _ (by omega), hright]

include hexact hsorted in
/-- A range that is not one tie, but has one inside: some jump between the performances of
its ends separates two that tie.  The middle gets the crossing of one line wherever the
jump is.  If it ties with an end, the two are separated already; if not, one half has the
tie, and the jump is moved between the performances of the ends of that half. -/
theorem exists_jump {size : ℚ} {bounds : ℚ × ℚ} (hsize : JumpsOver M entrants size bounds)
    (width : ℕ) {left right : ℕ} (hwidth : right - left ≤ width)
    (hright : right < entrants.length) {low high : ℚ} (hlow : bounds.1 ≤ low)
    (hhigh : high ≤ bounds.2) (hlt : low < high) (hnarrow : high - low ≤ 2)
    (hends : rankAt entrants left ≠ rankAt entrants right)
    (htie : ∃ i j, left ≤ i ∧ i < j ∧ j ≤ right ∧ rankAt entrants i = rankAt entrants j) :
    ∃ threshold, low < threshold ∧ threshold ≤ high ∧
      ∀ {depth : ℕ} {run run' : PerformanceRun}, run.performances.length = entrants.length →
        run.performance left = high → run.performance right = low →
          fillWith M (jump size threshold) entrants depth run left right = some run' →
            ∃ i j, left ≤ i ∧ i < j ∧ j ≤ right ∧ rankAt entrants i = rankAt entrants j ∧
              run'.performance i ≠ run'.performance j := by
  induction width generalizing left right low high with
  | zero =>
      obtain ⟨i, j, hi, hij, hj, -⟩ := htie
      omega
  | succ width ih =>
      obtain ⟨i, j, hi, hij, hj, hrank⟩ := htie
      have hwide : 1 < right - left := by
        by_contra hshort
        obtain ⟨rfl, rfl⟩ : i = left ∧ j = right := by omega
        exact hends hrank
      set middle := (left + right) / 2 with hmiddle
      have hmiddleLt : middle < entrants.length := by omega
      set target := targetOf M entrants entrants[middle].rank with htarget
      have hmem : entrants[middle] ∈ entrants := List.getElem_mem hmiddleLt
      have hbelow : low - size < target := (hsize _ hmem low hlow (by linarith)).1
      have habove : target < high + size := (hsize _ hmem high (by linarith) hhigh).2
      set point := secant low high (low - size) (high + size) target with hpoint
      have hlowPoint : low < point := lt_secant hlt hbelow habove
      have hpointHigh : point < high := secant_lt hlt hbelow habove
      by_cases hmiddleLeft : rankAt entrants left = rankAt entrants middle
      · refine ⟨high, hlt, le_rfl, ?_⟩
        intro depth run run' hlength hleft hright' hfill
        obtain ⟨hrunMiddle, -⟩ := fillWith_jump hexact hwide hmiddleLt hbelow habove hnarrow hlt
          le_rfl hlength hleft hright' hfill
        refine ⟨left, middle, le_rfl, by omega, by omega, hmiddleLeft, ?_⟩
        rw [hrunMiddle, performance_fillWith_outside hfill (.inl le_rfl), hleft]
        exact hpointHigh.ne'
      · by_cases hmiddleRight : rankAt entrants middle = rankAt entrants right
        · refine ⟨high, hlt, le_rfl, ?_⟩
          intro depth run run' hlength hleft hright' hfill
          obtain ⟨hrunMiddle, -⟩ := fillWith_jump hexact hwide hmiddleLt hbelow habove hnarrow hlt
            le_rfl hlength hleft hright' hfill
          refine ⟨middle, right, by omega, by omega, le_rfl, hmiddleRight, ?_⟩
          rw [hrunMiddle, performance_fillWith_outside hfill (.inr le_rfl), hright']
          exact hlowPoint.ne'
        · obtain hinLeft | hinRight :
              (∃ i j, left ≤ i ∧ i < j ∧ j ≤ middle ∧ rankAt entrants i = rankAt entrants j) ∨
                ∃ i j, middle ≤ i ∧ i < j ∧ j ≤ right ∧ rankAt entrants i = rankAt entrants j := by
            by_cases hiMiddle : middle ≤ i
            · exact .inr ⟨i, j, hiMiddle, hij, hj, hrank⟩
            · by_cases hjMiddle : j ≤ middle
              · exact .inl ⟨i, j, hi, hij, hjMiddle, hrank⟩
              · -- A tie across the middle has the middle in it.
                have hup : rankAt entrants i ≤ rankAt entrants middle :=
                  rankAt_mono hsorted (by omega) hmiddleLt
                have hdown : rankAt entrants middle ≤ rankAt entrants j :=
                  rankAt_mono hsorted (by omega) (by omega)
                exact .inl ⟨i, middle, hi, by omega, le_rfl, by linarith⟩
          · obtain ⟨threshold, hthreshold, hthreshold', hseparated⟩ := ih (by omega) hmiddleLt
              (by linarith) hhigh hpointHigh (by linarith) hmiddleLeft hinLeft
            refine ⟨threshold, by linarith, hthreshold', ?_⟩
            intro depth run run' hlength hleft hright' hfill
            obtain ⟨-, nested, solved, filled, ⟨hlength', hsolvedLeft, hsolved, hlower⟩, -, -, -,
              hupper⟩ := fillWith_jump hexact hwide hmiddleLt hbelow habove hnarrow
                (hlowPoint.trans hthreshold) hthreshold' hlength hleft hright' hfill
            obtain ⟨i', j', hi', hij', hj', hrank', hne⟩ :=
              hseparated hlength' hsolvedLeft hsolved hlower
            refine ⟨i', j', hi', hij', by omega, hrank', ?_⟩
            rw [performance_fillWith_outside hupper (.inl (by omega)),
              performance_fillWith_outside hupper (.inl (by omega))]
            exact hne
          · obtain ⟨threshold, hthreshold, hthreshold', hseparated⟩ := ih (by omega) hright
              hlow (by linarith) hlowPoint (by linarith) hmiddleRight hinRight
            refine ⟨threshold, hthreshold, by linarith, ?_⟩
            intro depth run run' hlength hleft hright' hfill
            obtain ⟨-, nested, solved, filled, -, hlength', hfilled, hfilledRight, hupper⟩ :=
              fillWith_jump hexact hwide hmiddleLt hbelow habove hnarrow hthreshold
                (hthreshold'.trans hpointHigh.le) hlength hleft hright' hfill
            obtain ⟨i', j', hi', hij', hj', hrank', hne⟩ :=
              hseparated hlength' hfilled hfilledRight hupper
            exact ⟨i', j', by omega, hij', hj', hrank', hne⟩

/-! ## When ties are safe -/

variable (hsd : 0 < sdInit M) (hcount : 2 ≤ entrants.length)
  (hwidth : ∀ entrant ∈ entrants, 0 < entrant.width) {ceiling : Option ℚ}
  (hceiling : ∀ value ∈ ceiling, (validRange M).1 < value)

include hexact hsd hceiling in
theorem searchBounds_lt : (searchBounds M ceiling).1 < (searchBounds M ceiling).2 := by
  have hrange : (validRange M).1 < (validRange M).2 := by
    simp only [validRange, FloatArith.sub, FloatArith.add, FloatArith.mul, hexact, id]
    linarith
  cases ceiling with
  | none => exact hrange
  | some value => exact lt_min hrange (hceiling value rfl)

include hexact hcount in
/-- If all tie, all targets are equal, and every search is between equal ends. -/
theorem tiesEqual_of_oneRank {bounds : ℚ × ℚ} {eval : ℚ → ℚ} {depth : ℕ} {run : PerformanceRun}
    (hone : ∀ i < entrants.length, rankAt entrants i = rankAt entrants 0)
    (hrun : fillWith M eval entrants depth (solveEndsWith M eval entrants bounds) 0
      (entrants.length - 1) = some run) : run.TiesEqual entrants := by
  have hends : (solveEndsWith M eval entrants bounds).performance (entrants.length - 1) =
      (solveEndsWith M eval entrants bounds).performance 0 := by
    rw [performance_first _ hcount, performance_last _ hcount, rank_getElem, rank_getElem,
      hone _ (by omega)]
  have hconstant : ∀ i < entrants.length,
      run.performance i = (solveEndsWith M eval entrants bounds).performance 0 := by
    intro i hi
    have hanti : ∀ {j k : ℕ}, j ≤ k → k ≤ entrants.length - 1 →
        run.performance k ≤ run.performance j := fun hjk hk =>
      performance_fillWith_anti hexact hrun (by omega) (length_solveEndsWith bounds) hends.le
        (Nat.zero_le _) hjk hk
    apply le_antisymm
    · rw [← performance_fillWith_outside hrun (.inl le_rfl)]
      exact hanti (Nat.zero_le i) (by omega)
    · rw [← hends, ← performance_fillWith_outside hrun (.inr le_rfl)]
      exact hanti (by omega) le_rfl
  intro i j hi hj _
  rw [hconstant i hi, hconstant j hj]

include hexact hsorted hsd hcount hwidth hceiling in
/-- Ranks with some, but not all, equal: a jump separates two that tie. -/
theorem exists_not_tiesEqual (hends : rankAt entrants 0 ≠ rankAt entrants (entrants.length - 1))
    (htie : ∃ i j, i < j ∧ j < entrants.length ∧ rankAt entrants i = rankAt entrants j) :
    ∃ eval : ℚ → ℚ, StrictMono eval ∧ ∃ depth run,
      performancesWith M eval entrants ceiling depth = some run ∧ ¬ run.TiesEqual entrants := by
  have hbounds := searchBounds_lt hexact hsd hceiling
  set bounds := searchBounds M ceiling with hboundsDef
  obtain ⟨size, hsize, hover⟩ := exists_jumpsOver M entrants bounds
  obtain ⟨last, hleft, hlast, hnarrow, hbisect⟩ := exists_bisect_jump size
    (solveRounds bounds) hbounds (solveRounds_spec bounds)
  have htargets : ∀ i (hi : i < entrants.length),
      bounds.1 - size < targetOf M entrants entrants[i].rank ∧
        targetOf M entrants entrants[i].rank < bounds.1 + size :=
    fun i hi => hover _ (List.getElem_mem hi) _ le_rfl hbounds.le
  have hranks : rankAt entrants 0 < rankAt entrants (entrants.length - 1) :=
    lt_of_le_of_ne (rankAt_mono hsorted (Nat.zero_le _) (by omega)) hends
  have hlt : targetOf M entrants entrants[entrants.length - 1].rank <
      targetOf M entrants entrants[0].rank := by
    apply targetOf_lt hexact hwidth (List.getElem_mem _)
    rwa [rank_getElem, rank_getElem]
  -- The ends of the recursion, if the jump is between them.
  set low := secant bounds.1 last (bounds.1 - size) (last + size)
    (targetOf M entrants entrants[entrants.length - 1].rank) with hlow
  set high := secant bounds.1 last (bounds.1 - size) (last + size)
    (targetOf M entrants entrants[0].rank) with hhigh
  have hlowHigh : low < high := secant_lt_secant hleft (by linarith) hlt
  have hleftLow : bounds.1 < low :=
    lt_secant hleft (htargets _ (by omega)).1 (by linarith [(htargets (entrants.length - 1) (by omega)).2])
  have hhighLast : high < last :=
    secant_lt hleft (htargets _ (by omega)).1 (by linarith [(htargets 0 (by omega)).2])
  obtain ⟨i, j, hij, hj, hrank⟩ := htie
  obtain ⟨threshold, hthreshold, hthreshold', hseparated⟩ := exists_jump hexact hsorted hover
    (entrants.length - 1) (Nat.sub_zero _).le (by omega) hleftLow.le
    (by linarith) hlowHigh (by linarith) hends ⟨i, j, Nat.zero_le i, hij, by omega, hrank⟩
  refine ⟨jump size threshold, strictMono_jump hsize, ?_⟩
  obtain ⟨run, hrun⟩ : ∃ run, fillWith M (jump size threshold) entrants
      (Nat.clog 2 (entrants.length - 1) + 1)
      (solveEndsWith M (jump size threshold) entrants bounds) 0 (entrants.length - 1) = some run :=
    exists_fillWith _ (Nat.le_pow_clog (by norm_num) _)
  have hsolve : ∀ i (hi : i < entrants.length),
      solveWith M (jump size threshold) (targetOf M entrants entrants[i].rank) 0 bounds =
        secant bounds.1 last (bounds.1 - size) (last + size)
          (targetOf M entrants entrants[i].rank) := by
    intro i hi
    rw [solveWith_eq_bisect hexact]
    exact hbisect (by linarith) (by linarith) (htargets i hi).1 (htargets i hi).2
  refine ⟨_, run, hrun, fun hequal => ?_⟩
  obtain ⟨i', j', -, hij', hj', hrank', hne⟩ := hseparated (length_solveEndsWith bounds)
    ((performance_first _ hcount).trans (hsolve _ _))
    ((performance_last _ hcount).trans (hsolve _ _)) hrun
  exact hne (hequal i' j' (by omega) (by omega) hrank')

include hexact hsorted hsd hcount hwidth hceiling in
/-- Participants that tie get equal performances from every strictly increasing function
exactly if all of them tie or no two do. -/
theorem tiesEqual_iff :
    (∀ eval : ℚ → ℚ, StrictMono eval → ∀ depth run,
        performancesWith M eval entrants ceiling depth = some run → run.TiesEqual entrants) ↔
      (∃ rank, ∀ entrant ∈ entrants, entrant.rank = rank) ∨
        (entrants.map Entrant.rank).Nodup := by
  constructor
  · intro hequal
    by_contra hsome
    obtain ⟨hone, hdup⟩ := not_or.mp hsome
    have hends : rankAt entrants 0 ≠ rankAt entrants (entrants.length - 1) := by
      intro hsame
      apply hone
      refine ⟨rankAt entrants 0, fun entrant hmem => ?_⟩
      obtain ⟨i, hi, rfl⟩ := List.getElem_of_mem hmem
      rw [rank_getElem]
      apply le_antisymm
      · exact (rankAt_mono hsorted (by omega) (by omega)).trans hsame.ge
      · exact rankAt_mono hsorted (Nat.zero_le i) hi
    have htie : ∃ i j, i < j ∧ j < entrants.length ∧
        rankAt entrants i = rankAt entrants j := by
      by_contra hnone
      apply hdup
      rw [nodup_ranks_iff]
      exact fun i j hij hj hrank => hnone ⟨i, j, hij, hj, hrank⟩
    obtain ⟨eval, hmono, depth, run, hrun, hne⟩ :=
      exists_not_tiesEqual hexact hsorted hsd hcount hwidth hceiling hends htie
    exact hne (hequal eval hmono depth run hrun)
  · intro hcase eval hmono depth run hrun
    obtain ⟨rank, hone⟩ | hnodup := hcase
    · apply tiesEqual_of_oneRank hexact hcount _ hrun
      intro i hi
      rw [← rank_getElem hi, ← rank_getElem (by omega), hone _ (List.getElem_mem _),
        hone _ (List.getElem_mem _)]
    · rw [nodup_ranks_iff] at hnodup
      intro i j hi hj hrank
      rcases lt_trichotomy i j with hij | rfl | hji
      · exact absurd hrank (hnodup i j hij hj)
      · rfl
      · exact absurd hrank.symm (hnodup j i hji hi)

end Separation

/-! ## A winner and two that tie -/

theorem tiesEqual_iff_tied :
    (∀ eval : ℚ → ℚ, StrictMono eval → ∀ depth run,
        performancesWith MathLibrary.sample eval tiedEntrants none depth = some run →
          run.TiesEqual tiedEntrants) ↔
      (∃ rank, ∀ entrant ∈ tiedEntrants, entrant.rank = rank) ∨
        (tiedEntrants.map Entrant.rank).Nodup :=
  tiesEqual_iff rfl (by norm_num [tiedEntrants]) sdInit_sample_pos (by decide)
    (by simp [tiedEntrants]) (by simp)

/-- The two that tie get different performances. -/
theorem tied_not_tiesEqual :
    StrictMono (jump 10000 1500) ∧ rankAt tiedEntrants 1 = rankAt tiedEntrants 2 ∧
      ∃ run, performancesWith MathLibrary.sample (jump 10000 1500) tiedEntrants none 2 = some run ∧
        run.performance 1 ≠ run.performance 2 ∧ ¬ run.TiesEqual tiedEntrants := by
  have hrank : rankAt tiedEntrants 1 = rankAt tiedEntrants 2 := rfl
  have hdiffer : (performancesWith MathLibrary.sample (jump 10000 1500) tiedEntrants none 2).map
      (fun run => decide (run.performance 1 = run.performance 2)) = some false := by
    decide +kernel
  obtain ⟨run, hrun, hne⟩ := Option.map_eq_some_iff.mp hdiffer
  have hne' : run.performance 1 ≠ run.performance 2 := of_decide_eq_false hne
  exact ⟨strictMono_jump (by norm_num), hrank, run, hrun, hne',
    fun hequal => hne' (hequal 1 2 (by decide) (by decide) hrank)⟩

end EloMMR

end JudgeLoom
