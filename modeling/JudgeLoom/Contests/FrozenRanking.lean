import JudgeLoom.Contests.Ranking
import JudgeLoom.Library.Except

/-!
# The frozen scoreboard

During the freeze the scoreboard is meant to be the ranking of the contest as it
was at the freeze: `get_contest_ranking` on the tables without the submissions
created since, with every participation recalculated.  Both rankings rank the same
entries by the same key `(-score, tiebreaker, user_id)`.  They differ in the order
in which they read the participations: the frozen ranking reads them in the order
of the *stored* aggregates, later submissions included, and the sort is stable.  So
the two agree exactly when no tie of the key is ordered differently by the stored
and by the recalculated aggregates (`getFrozenRanking_eq_iff`).  The key contains
the user, so a tie means two participations of one user.
-/

namespace JudgeLoom

open AbstractContestFormat RankingService

/-- A query bounded by the freeze finds what an unbounded query finds among the
submissions created by then. -/
theorem ContestFormat.submissionQueryset_freeze (rows : List Submission)
    (participation : ContestParticipation) (contestProblem : ContestProblem) (limit : Time) :
    submissionQueryset rows participation contestProblem (some limit) =
      submissionQueryset (rows.filter fun submission => submission.createdAt ≤ limit) participation
        contestProblem none := by
  dsimp only [submissionQueryset]
  rw [List.filter_filter]
  refine congrArg _ (List.filter_congr fun submission _ => ?_)
  simp [Bool.and_assoc]

variable {A : FloatArith} {now : Time} {contest : ContestRow} {tables : ContestTables}

/-- The calculation up to the freeze is the calculation without the later submissions. -/
theorem RankingService.calculateFrozen_eq (row : ParticipationRow) :
    calculateFrozen A contest tables.submissions.rows row =
      calculate A contest (tables.submittedBy contest.freezeTime).submissions.rows row := by
  unfold calculateFrozen calculate
  refine calculateParticipation_congr fun contestProblem _ => ?_
  exact ContestFormat.submissionQueryset_freeze _ _ _ _

/-- Ties of the frozen key between participations of one user are ordered by the
stored aggregates as by the aggregates at the freeze. -/
def TiesKeepOrder (A : FloatArith) (tables : ContestTables) (contest : ContestRow) : Prop :=
  ∀ first ∈ eligible tables contest, ∀ second ∈ eligible tables contest,
    first.user = second.user → ∀ firstFrozen secondFrozen,
      calculateFrozen A contest tables.submissions.rows first = some firstFrozen →
      calculateFrozen A contest tables.submissions.rows second = some secondFrozen →
      firstFrozen.score = secondFrozen.score → firstFrozen.tiebreaker = secondFrozen.tiebreaker →
        (first.ordering ≤ second.ordering ↔
          (first.withScores firstFrozen).ordering ≤ (second.withScores secondFrozen).ordering)

section

variable {submissions : List Submission}

/-- The participations that are ranked, in the order of their ids. -/
def candidates (tables : ContestTables) (contest : ContestRow) : List ParticipationRow :=
  (tables.participations.rows.filter fun row => row.contest = contest.id).filter fun row =>
    !row.isDisqualified

theorem mem_candidates {row : ParticipationRow} :
    row ∈ candidates tables contest ↔ row ∈ eligible tables contest := by
  simp only [candidates, mem_eligible, List.mem_filter, decide_eq_true_eq, Bool.not_eq_true',
    and_assoc]

theorem mem_rows_of_mem_candidates {row : ParticipationRow} (h : row ∈ candidates tables contest) :
    row ∈ tables.participations.rows :=
  (mem_eligible.mp (mem_candidates.mp h)).1

theorem eligible_eq_sortBy :
    eligible tables contest = (candidates tables contest).sortBy ParticipationRow.ordering := by
  refine List.filter_sortBy _ fun first hfirst second hsecond h => ?_
  exact ContestTables.eq_of_ordering_eq (List.mem_of_mem_filter hfirst)
    (List.mem_of_mem_filter hsecond) h

/-- Two recalculated participations have different places in the default ordering. -/
theorem eq_of_ordering_recalculated_eq {first second : ParticipationRow}
    (hfirst : first ∈ tables.participations.rows) (hsecond : second ∈ tables.participations.rows)
    (h : (recalculated A contest submissions first).ordering =
      (recalculated A contest submissions second).ordering) : first = second := by
  have hid := ParticipationRow.id_eq_of_ordering_eq h
  rw [id_recalculated, id_recalculated] at hid
  exact tables.participations.key_injOn hfirst hsecond hid

/-- After a recalculation the same participations are ranked, with their new
aggregates, in the order of these. -/
theorem eligible_recalculateAll :
    eligible (recalculateAll A contest tables) contest =
      ((candidates tables contest).sortBy fun row =>
        (recalculated A contest tables.submissions.rows row).ordering).map
          (recalculated A contest tables.submissions.rows) := by
  rw [eligible_eq_sortBy, ← List.sortBy_map]
  congr 1
  unfold candidates recalculateAll
  rw [Table.filter_rows_updateWhere _ _ _ _ (by simp), List.filter_map]
  congr 2
  funext row
  simp

end

/-- Every calculation of the frozen ranking succeeds, and gives the aggregates of
`recalculated`. -/
theorem getFrozenRanking_eq (hfrozen : contest.isFrozen now = true)
    (hsome : ∀ row ∈ tables.participationsOf contest.id,
      (calculateFrozen A contest tables.submissions.rows row).isSome) :
    getFrozenRanking A now tables contest =
      contest.format.map fun _ => rankEntries ((eligible tables contest).map fun row =>
        entry tables (recalculated A contest
          (tables.submittedBy contest.freezeTime).submissions.rows row) .frozen) := by
  have hentries : ((eligible tables contest).mapM fun row => do
      let frozen ← calculateFrozen A contest tables.submissions.rows row
      return entry tables (row.withScores frozen) .frozen) =
      some ((eligible tables contest).map fun row => entry tables (recalculated A contest
        (tables.submittedBy contest.freezeTime).submissions.rows row) .frozen) := by
    refine List.mapM_eq_some_map fun row hrow => ?_
    have hmem : row ∈ tables.participationsOf contest.id := List.mem_of_mem_filter hrow
    obtain ⟨scores, hscores⟩ := Option.isSome_iff_exists.mp (hsome row hmem)
    rw [hscores, recalculated_of_some (calculateFrozen_eq row ▸ hscores)]
    rfl
  unfold getFrozenRanking
  rw [if_neg (by simp [hfrozen]), hentries]
  cases contest.format <;> rfl

/-- A ranking shows which participation has which rank. -/
theorem listed_inj {rows others : List ParticipationRow}
    (hrows : ∀ row ∈ rows, row ∈ tables.participations.rows)
    (hothers : ∀ row ∈ others, row ∈ tables.participations.rows)
    {f : ParticipationRow → ParticipationRow} (hf : ∀ row, (f row).id = row.id) :
    listed tables (rows.map f) = listed tables (others.map f) ↔ rows = others := by
  refine ⟨fun h => ?_, fun h => h ▸ rfl⟩
  have hids := congrArg (List.map RankingEntry.participationId) h
  simp only [map_participationId_listed, List.map_map, Function.comp_def, hf] at hids
  have hlookup : ∀ list : List ParticipationRow,
      (∀ row ∈ list, row ∈ tables.participations.rows) →
        (list.map fun row => row.id).map tables.participations.get? = list.map some := by
    intro list hlist
    rw [List.map_map]
    exact List.map_congr_left fun row hrow => Table.get?_key_of_mem (hlist row hrow)
  have hsome : rows.map some = others.map some := by
    rw [← hlookup rows hrows, ← hlookup others hothers, hids]
  exact List.map_injective_iff.mpr (Option.some_injective _) hsome

/-- Two recalculated participations tie in the ranking when they are of one user and
have one score and one tiebreaker. -/
theorem tiesKeepOrder_iff
    (hsome : ∀ row ∈ tables.participationsOf contest.id,
      (calculateFrozen A contest tables.submissions.rows row).isSome) :
    TiesKeepOrder A tables contest ↔
      ∀ first ∈ candidates tables contest, ∀ second ∈ candidates tables contest,
        rankKey (recalculated A contest
            (tables.submittedBy contest.freezeTime).submissions.rows first) =
          rankKey (recalculated A contest
            (tables.submittedBy contest.freezeTime).submissions.rows second) →
        (first.ordering ≤ second.ordering ↔
          (recalculated A contest
              (tables.submittedBy contest.freezeTime).submissions.rows first).ordering ≤
            (recalculated A contest
              (tables.submittedBy contest.freezeTime).submissions.rows second).ordering) := by
  simp only [mem_candidates, TiesKeepOrder]
  refine forall₄_congr fun first hfirst second hsecond => ?_
  obtain ⟨a, ha⟩ := Option.isSome_iff_exists.mp (hsome first (List.mem_of_mem_filter hfirst))
  obtain ⟨b, hb⟩ := Option.isSome_iff_exists.mp (hsome second (List.mem_of_mem_filter hsecond))
  rw [recalculated_of_some (calculateFrozen_eq first ▸ ha),
    recalculated_of_some (calculateFrozen_eq second ▸ hb), ha, hb]
  have hkey : rankKey (first.withScores a) = rankKey (second.withScores b) ↔
      a.score = b.score ∧ a.tiebreaker = b.tiebreaker ∧ first.user = second.user := by
    simp [rankKey, ParticipationRow.withScores]
  rw [hkey]
  constructor
  · rintro h ⟨hscore, htiebreaker, huser⟩
    exact h huser a b rfl rfl hscore htiebreaker
  · intro h huser a' b' ha' hb' hscore htiebreaker
    cases ha'
    cases hb'
    exact h ⟨hscore, htiebreaker, huser⟩

/-- During the freeze, the frozen ranking is the ranking at the freeze if and only if
the stored aggregates order its ties as the aggregates at the freeze do. -/
theorem getFrozenRanking_eq_iff {atFreeze : ContestTables} (hfrozen : contest.isFrozen now = true)
    (hrecalculate : recalculateContest A contest (tables.submittedBy contest.freezeTime) =
      some atFreeze) :
    (getFrozenRanking A now tables contest).map (List.map RankingEntry.hideFormatData) =
        (getContestRanking atFreeze contest).map (List.map RankingEntry.hideFormatData) ↔
      TiesKeepOrder A tables contest := by
  obtain ⟨hsome, rfl⟩ := recalculateContest_eq_some hrecalculate
  have hsomeFrozen : ∀ row ∈ tables.participationsOf contest.id,
      (calculateFrozen A contest tables.submissions.rows row).isSome := by
    intro row hrow
    rw [calculateFrozen_eq]
    exact hsome row hrow
  rw [getFrozenRanking_eq hfrozen hsomeFrozen, tiesKeepOrder_iff hsomeFrozen, getContestRanking,
    Option.map_map, Option.map_map]
  set f := recalculated A contest (tables.submittedBy contest.freezeTime).submissions.rows with hf
  have hstored : (rankEntries ((eligible tables contest).map fun row =>
      entry tables (f row) .frozen)).map RankingEntry.hideFormatData =
      listed tables ((((candidates tables contest).sortBy ParticipationRow.ordering).sortBy
        fun row => rankKey (f row)).map f) := by
    have hlisted := map_hideFormatData_rankEntries tables ((eligible tables contest).map f)
      fun _ => .frozen
    rw [List.map_map, List.sortBy_map, eligible_eq_sortBy] at hlisted
    rw [eligible_eq_sortBy]
    exact hlisted
  have hfresh : (getRanking (recalculateAll A contest (tables.submittedBy contest.freezeTime))
      contest).map RankingEntry.hideFormatData =
      listed tables ((((candidates tables contest).sortBy fun row => (f row).ordering).sortBy
        fun row => rankKey (f row)).map f) := by
    rw [getRanking, map_hideFormatData_rankEntries, eligible_recalculateAll, List.sortBy_map]
    rfl
  cases hformat : contest.format with
  | none =>
      -- an unknown format raises for every participation, so there is none
      refine iff_of_true rfl fun first hfirst => ?_
      have hnone : calculateFrozen A contest tables.submissions.rows first = none := by
        simp only [calculateFrozen, calculateParticipation, ParticipationRow.withContest, hformat]
      have hfirstSome := hsomeFrozen first (List.mem_of_mem_filter (mem_candidates.mp hfirst))
      rw [hnone] at hfirstSome
      exact absurd hfirstSome (by simp)
  | some format =>
      simp only [Option.map_some, Option.some.injEq, Function.comp_apply]
      rw [hstored, hfresh]
      have hmem : ∀ row ∈ candidates tables contest, row ∈ tables.participations.rows :=
        fun row => mem_rows_of_mem_candidates
      rw [listed_inj (by simpa using hmem) (by simpa using hmem) (fun _ => id_recalculated _ _)]
      refine List.sortBy_sortBy_eq_iff ?_ ?_
      · exact fun first hfirst second hsecond =>
          ContestTables.eq_of_ordering_eq (hmem first hfirst) (hmem second hsecond)
      · exact fun first hfirst second hsecond =>
          eq_of_ordering_recalculated_eq (hmem first hfirst) (hmem second hsecond)

/-! ## A later submission on the frozen scoreboard -/

/-- An hour with a freeze after one minute. -/
def frozenContest : ContestRow where
  format := some .default
  startTime := 0
  problems := [{ problem := 1, label := "P", points := 100 }]
  id := 1
  endTime := 3600 * second
  timeLimit := some (3600 * second)
  scoreboardFrozenAfter := some (60 * second)

/-- The only submission is accepted and was made 90 seconds into the contest. -/
def laterSubmission : Submission where
  id := 1
  user := 1
  problem := 1
  language := "python"
  points := 100
  result := some .AC
  status := .completed
  contestParticipation := some 2
  createdAt := 90 * second

/-- One user takes part live and virtually, and submits in the virtual participation. -/
def frozenTables : ContestTables where
  users := (∅ : Table User User.id).save { id := 1, username := "ada" }
  contests := (∅ : Table ContestRow ContestRow.id).save frozenContest
  participations := ((∅ : Table ParticipationRow ParticipationRow.id).save
      { id := 1, contest := 1, user := 1 }).save
    { id := 2
      contest := 1
      user := 1
      status := .virtual
      virtualStart := some (10 * second)
      score := 100
      tiebreaker := 80
      cumulativeTime := 80 * second }
  submissions := (∅ : Table Submission Submission.id).save laterSubmission

/-- At the freeze neither participation has scored; on the frozen scoreboard the
second one comes first. -/
theorem frozenRanking_shows_later_submission :
    frozenContest.isFrozen (120 * second) = true ∧
      ∃ atFreeze, recalculateContest (.exact FloatArith.decimalRound) frozenContest
          (frozenTables.submittedBy frozenContest.freezeTime) = some atFreeze ∧
        (getFrozenRanking (.exact FloatArith.decimalRound) (120 * second) frozenTables
            frozenContest).map (List.map RankingEntry.hideFormatData) ≠
          (getContestRanking atFreeze frozenContest).map (List.map RankingEntry.hideFormatData) := by
  have hfrozenIds : ((getFrozenRanking (.exact FloatArith.decimalRound) (120 * second) frozenTables
      frozenContest).map (List.map RankingEntry.hideFormatData)).map
        (List.map RankingEntry.participationId) = some [2, 1] := by decide +kernel
  have hfreshIds : (recalculateContest (.exact FloatArith.decimalRound) frozenContest
      (frozenTables.submittedBy frozenContest.freezeTime)).map (fun atFreeze =>
        ((getContestRanking atFreeze frozenContest).map (List.map RankingEntry.hideFormatData)).map
          (List.map RankingEntry.participationId)) = some (some [1, 2]) := by decide +kernel
  obtain ⟨atFreeze, hrecalculate, hids⟩ := Option.map_eq_some_iff.mp hfreshIds
  refine ⟨by decide, atFreeze, hrecalculate, fun heq => ?_⟩
  rw [heq, hids] at hfrozenIds
  exact absurd hfrozenIds (by decide)

theorem getFrozenRanking_eq_iff_sample :
    ∃ atFreeze, recalculateContest (.exact FloatArith.decimalRound) frozenContest
        (frozenTables.submittedBy frozenContest.freezeTime) = some atFreeze ∧
      ((getFrozenRanking (.exact FloatArith.decimalRound) (120 * second) frozenTables
          frozenContest).map (List.map RankingEntry.hideFormatData) =
        (getContestRanking atFreeze frozenContest).map (List.map RankingEntry.hideFormatData) ↔
      TiesKeepOrder (.exact FloatArith.decimalRound) frozenTables frozenContest) := by
  have hsome : (recalculateContest (.exact FloatArith.decimalRound) frozenContest
      (frozenTables.submittedBy frozenContest.freezeTime)).isSome := by decide +kernel
  obtain ⟨atFreeze, hrecalculate⟩ := Option.isSome_iff_exists.mp hsome
  exact ⟨atFreeze, hrecalculate, getFrozenRanking_eq_iff (by decide) hrecalculate⟩

end JudgeLoom
