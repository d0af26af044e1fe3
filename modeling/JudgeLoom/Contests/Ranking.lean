import JudgeLoom.Contests.Models

/-!
# Rankings

`get_ranking` of a format and `RankingService`: the ranking of a contest from its
stored aggregates, the frozen ranking from aggregates recalculated up to the
freeze, and `recalculate_contest`.
-/

namespace JudgeLoom

/-- The `format_data` of a ranking entry. -/
inductive EntryFormatData
  | stored (data : FormatData)
  /-- `{"frozen": True}`. -/
  | frozen

structure RankingEntry where
  participationId : ℕ
  userId : ℕ
  username : String
  score : ℚ
  tiebreaker : ℚ
  cumulativeTime : Time
  formatData : EntryFormatData
  rank : ℕ := 0

namespace RankingEntry

/-- `(-score, tiebreaker, user_id)`. -/
def sortKey (entry : RankingEntry) : ℚ ×ₗ ℚ ×ₗ ℕ :=
  toLex (-entry.score, toLex (entry.tiebreaker, entry.userId))

/-- The entry without its `format_data`. -/
def hideFormatData (entry : RankingEntry) : RankingEntry := { entry with formatData := .frozen }

end RankingEntry

namespace AbstractContestFormat

/-- The entry of a participation. -/
def entry (tables : ContestTables) (row : ParticipationRow) (formatData : EntryFormatData) :
    RankingEntry where
  participationId := row.id
  userId := row.user
  username := (tables.users.get? row.user).elim (toString row.user) User.username
  score := row.score
  tiebreaker := row.tiebreaker
  cumulativeTime := row.cumulativeTime
  formatData

/-- Sort the entries and number them from 1. -/
def rankEntries (entries : List RankingEntry) : List RankingEntry :=
  ((entries.sortBy RankingEntry.sortKey).zipIdx 1).map fun ranked => { ranked.1 with rank := ranked.2 }

/-- `contest.participations.filter(is_disqualified=False)`. -/
def eligible (tables : ContestTables) (contest : ContestRow) : List ParticipationRow :=
  (tables.participationsOf contest.id).filter fun row => !row.isDisqualified

/-- `get_ranking`. -/
def getRanking (tables : ContestTables) (contest : ContestRow) : List RankingEntry :=
  rankEntries ((eligible tables contest).map fun row => entry tables row (.stored row.formatData))

end AbstractContestFormat

namespace RankingService

open AbstractContestFormat

/-- `get_contest_ranking`; `none` is the `KeyError` of an unknown format. -/
def getContestRanking (tables : ContestTables) (contest : ContestRow) : Option (List RankingEntry) :=
  contest.format.map fun _ => getRanking tables contest

/-- `calculate_participation(participation)` of a stored participation. -/
def calculate (A : FloatArith) (contest : ContestRow) (submissions : List Submission)
    (row : ParticipationRow) : Option ParticipationScores :=
  let participation := row.withContest contest.toContest
  calculateParticipation A participation (submissionView submissions participation)

/-- `calculate_participation(participation, freeze_time=freeze_time)`. -/
def calculateFrozen (A : FloatArith) (contest : ContestRow) (submissions : List Submission)
    (row : ParticipationRow) : Option ParticipationScores :=
  let participation := row.withContest contest.toContest
  calculateParticipation A participation fun contestProblem =>
    ContestFormat.submissionQueryset submissions participation contestProblem
      (some contest.freezeTime)

/-- `recalculate_participation`: the new aggregates are saved. -/
def updateParticipation (A : FloatArith) (contest : ContestRow) (tables : ContestTables)
    (row : ParticipationRow) : Option ContestTables := do
  let scores ← calculate A contest tables.submissions.rows row
  return tables.saveScores row.id scores

/-- `recalculate_contest`; an exception rolls the transaction back. -/
def recalculateContest (A : FloatArith) (contest : ContestRow) (tables : ContestTables) :
    Option ContestTables :=
  (tables.participationsOf contest.id).foldlM (updateParticipation A contest) tables

/-- `get_frozen_ranking`. -/
def getFrozenRanking (A : FloatArith) (now : Time) (tables : ContestTables) (contest : ContestRow) :
    Option (List RankingEntry) :=
  if ¬ contest.isFrozen now then getContestRanking tables contest
  else do
    let _format ← contest.format
    let entries ← (eligible tables contest).mapM fun row => do
      let frozen ← calculateFrozen A contest tables.submissions.rows row
      return entry tables (row.withScores frozen) .frozen
    return rankEntries entries

end RankingService

/-! ## Ranked lists -/

namespace AbstractContestFormat

/-- The sort key of the entry of a participation. -/
def rankKey (row : ParticipationRow) : ℚ ×ₗ ℚ ×ₗ ℕ :=
  toLex (-row.score, toLex (row.tiebreaker, row.user))

theorem mem_eligible {tables : ContestTables} {contest : ContestRow} {row : ParticipationRow} :
    row ∈ eligible tables contest ↔
      row ∈ tables.participations.rows ∧ row.contest = contest.id ∧ row.isDisqualified = false := by
  rw [eligible, List.mem_filter, ContestTables.mem_participationsOf, Bool.not_eq_true', and_assoc]

theorem mem_rankEntries {entries : List RankingEntry} {ranked : RankingEntry}
    (h : ranked ∈ rankEntries entries) : ∃ entry ∈ entries, ∃ rank, ranked = { entry with rank } := by
  obtain ⟨⟨entry, rank⟩, hmem, rfl⟩ := List.mem_map.mp h
  have hentry : entry ∈ ((entries.sortBy RankingEntry.sortKey).zipIdx 1).map Prod.fst :=
    List.mem_map_of_mem hmem
  rw [List.zipIdx_map_fst, List.mem_sortBy] at hentry
  exact ⟨entry, hentry, rank, rfl⟩

theorem exists_mem_rankEntries {entries : List RankingEntry} {entry : RankingEntry}
    (h : entry ∈ entries) : ∃ rank, { entry with rank } ∈ rankEntries entries := by
  have hentry : entry ∈ ((entries.sortBy RankingEntry.sortKey).zipIdx 1).map Prod.fst := by
    rwa [List.zipIdx_map_fst, List.mem_sortBy]
  obtain ⟨ranked, hmem, rfl⟩ := List.mem_map.mp hentry
  exact ⟨ranked.2, List.mem_map_of_mem hmem⟩

/-- The ranking that lists these participations in this order, without `format_data`. -/
def listed (tables : ContestTables) (rows : List ParticipationRow) : List RankingEntry :=
  (rows.zipIdx 1).map fun ranked => { entry tables ranked.1 .frozen with rank := ranked.2 }

/-- Without the `format_data`, a ranking lists the sorted participations. -/
theorem map_hideFormatData_rankEntries (tables : ContestTables) (rows : List ParticipationRow)
    (data : ParticipationRow → EntryFormatData) :
    (rankEntries (rows.map fun row => entry tables row (data row))).map RankingEntry.hideFormatData =
      listed tables (rows.sortBy rankKey) := by
  rw [rankEntries, List.sortBy_map, List.zipIdx_map, List.map_map, List.map_map]
  rfl

theorem map_participationId_listed (tables : ContestTables) (rows : List ParticipationRow) :
    (listed tables rows).map RankingEntry.participationId = rows.map ParticipationRow.id := by
  have hids : (listed tables rows).map RankingEntry.participationId =
      ((rows.zipIdx 1).map Prod.fst).map ParticipationRow.id := by
    rw [listed, List.map_map, List.map_map]
    rfl
  rw [hids, List.zipIdx_map_fst]

end AbstractContestFormat

/-! ## Recalculating a contest -/

namespace RankingService

open AbstractContestFormat

variable {A : FloatArith} {contest : ContestRow} {tables : ContestTables}

/-- A participation with the aggregates of a recalculation that does not raise. -/
def recalculated (A : FloatArith) (contest : ContestRow) (submissions : List Submission)
    (row : ParticipationRow) : ParticipationRow :=
  (calculate A contest submissions row).elim row row.withScores

theorem recalculated_of_some {submissions : List Submission} {row : ParticipationRow}
    {scores : ParticipationScores} (h : calculate A contest submissions row = some scores) :
    recalculated A contest submissions row = row.withScores scores := by
  rw [recalculated, h, Option.elim_some]

/-- A recalculation changes the aggregates only. -/
theorem recalculated_eq_withScores (submissions : List Submission) (row : ParticipationRow) :
    ∃ scores, recalculated A contest submissions row = row.withScores scores := by
  cases h : calculate A contest submissions row with
  | none => exact ⟨row.toParticipationScores, by rw [recalculated, h]; rfl⟩
  | some scores => exact ⟨scores, recalculated_of_some h⟩

section

variable (submissions : List Submission) (row : ParticipationRow)

theorem apply_recalculated {β : Type*} (f : ParticipationRow → β)
    (hf : ∀ scores, f (row.withScores scores) = f row) :
    f (recalculated A contest submissions row) = f row := by
  obtain ⟨scores, h⟩ : ∃ scores, recalculated A contest submissions row = row.withScores scores :=
    recalculated_eq_withScores submissions row
  rw [h, hf]

@[simp] theorem id_recalculated : (recalculated A contest submissions row).id = row.id :=
  apply_recalculated submissions row _ fun scores => row.id_withScores scores

@[simp] theorem contest_recalculated :
    (recalculated A contest submissions row).contest = row.contest :=
  apply_recalculated submissions row _ fun scores => row.contest_withScores scores

@[simp] theorem user_recalculated : (recalculated A contest submissions row).user = row.user :=
  apply_recalculated submissions row _ fun scores => row.user_withScores scores

@[simp] theorem isDisqualified_recalculated :
    (recalculated A contest submissions row).isDisqualified = row.isDisqualified :=
  apply_recalculated submissions row _ fun scores => row.isDisqualified_withScores scores

end

/-- The tables with every participation of the contest recalculated. -/
def recalculateAll (A : FloatArith) (contest : ContestRow) (tables : ContestTables) :
    ContestTables :=
  { tables with
    participations := tables.participations.updateWhere (fun row => row.contest = contest.id)
      (recalculated A contest tables.submissions.rows) (id_recalculated _) }

/-- The loop of `recalculate_contest`: the participations that it has reached are
recalculated, the others are as they were. -/
theorem foldlM_updateParticipation {rows : List ParticipationRow} {final : ContestTables}
    (hrows : ∀ row ∈ rows, tables.participations.get? row.id = some row)
    (hnodup : (rows.map ParticipationRow.id).Nodup)
    (h : rows.foldlM (updateParticipation A contest) tables = some final) :
    (∀ row ∈ rows, (calculate A contest tables.submissions.rows row).isSome) ∧
      final = { tables with participations := final.participations } ∧
      ∀ key, final.participations.get? key = (tables.participations.get? key).map fun row =>
        if row.id ∈ rows.map ParticipationRow.id then
          recalculated A contest tables.submissions.rows row
        else row := by
  induction rows generalizing tables with
  | nil =>
      rw [List.foldlM_nil] at h
      cases h
      exact ⟨by simp, rfl, by simp⟩
  | cons row rest ih =>
      rw [List.foldlM_cons] at h
      obtain ⟨middle, hmiddle, hfinal⟩ := Option.bind_eq_some_iff.mp h
      obtain ⟨scores, hscores, hupdated⟩ := Option.bind_eq_some_iff.mp hmiddle
      cases hupdated
      rw [List.map_cons, List.nodup_cons] at hnodup
      obtain ⟨hnotin, hnodup⟩ := hnodup
      have hne : ∀ other ∈ rest, other.id ≠ row.id := fun other hother heq =>
        hnotin (heq ▸ List.mem_map_of_mem hother)
      obtain ⟨hsome, hsame, hget⟩ := ih (fun other hother => by
        rw [ContestTables.get?_saveScores, if_neg (hne other hother)]
        exact hrows other (List.mem_cons_of_mem _ hother)) hnodup hfinal
      refine ⟨?_, hsame, fun key => ?_⟩
      · intro other hother
        rcases List.mem_cons.mp hother with rfl | hrest
        · rw [hscores, Option.isSome_some]
        · exact hsome other hrest
      · rw [hget, ContestTables.get?_saveScores]
        by_cases hkey : key = row.id
        · have hdone : (row.withScores scores).id ∉ rest.map ParticipationRow.id := hnotin
          have hhere : row.id ∈ (row :: rest).map ParticipationRow.id :=
            List.mem_map_of_mem List.mem_cons_self
          rw [if_pos hkey, hkey, hrows row List.mem_cons_self, Option.map_some, Option.map_some,
            Option.map_some, if_neg hdone, if_pos hhere, recalculated_of_some hscores]
        · rw [if_neg hkey]
          refine Option.map_congr fun other hother => ?_
          have hid : other.id ≠ row.id := fun heq =>
            hkey ((Table.key_of_get? hother).symm.trans heq)
          simp only [List.map_cons, List.mem_cons, hid, false_or]
          rfl

/-- A `recalculate_contest` that does not raise recalculates every participation. -/
theorem recalculateContest_eq_some {final : ContestTables}
    (h : recalculateContest A contest tables = some final) :
    (∀ row ∈ tables.participationsOf contest.id,
      (calculate A contest tables.submissions.rows row).isSome) ∧
      final = recalculateAll A contest tables := by
  obtain ⟨hsome, hsame, hget⟩ := foldlM_updateParticipation
    (fun row hrow => Table.get?_key_of_mem (ContestTables.mem_participationsOf.mp hrow).1)
    ContestTables.nodup_participationsOf h
  refine ⟨hsome, hsame.trans ?_⟩
  rw [recalculateAll]
  congr 1
  refine Table.ext_get? fun key => ?_
  rw [hget, Table.get?_updateWhere]
  refine Option.map_congr fun row hrow => ?_
  have hmem : row.id ∈ (tables.participationsOf contest.id).map ParticipationRow.id ↔
      row.contest = contest.id := by
    constructor
    · intro hin
      obtain ⟨other, hother, hid⟩ := List.mem_map.mp hin
      obtain ⟨hrows, hcontest⟩ := ContestTables.mem_participationsOf.mp hother
      rw [← tables.participations.key_injOn hrows (Table.mem_of_get? hrow) hid, hcontest]
    · intro hcontest
      exact List.mem_map_of_mem
        (ContestTables.mem_participationsOf.mpr ⟨Table.mem_of_get? hrow, hcontest⟩)
  simp only [hmem, decide_eq_true_eq]

/-- A participation after a recalculation is one from before with other aggregates. -/
theorem exists_of_mem_recalculateAll {row : ParticipationRow}
    (h : row ∈ (recalculateAll A contest tables).participations.rows) :
    ∃ old ∈ tables.participations.rows, ∃ scores, row = old.withScores scores := by
  have hget := Table.get?_key_of_mem h
  rw [recalculateAll, Table.get?_updateWhere] at hget
  obtain ⟨old, hold, hrow⟩ := Option.map_eq_some_iff.mp hget
  refine ⟨old, Table.mem_of_get? hold, ?_⟩
  split at hrow
  · rw [← hrow]
    exact recalculated_eq_withScores _ old
  · exact ⟨old.toParticipationScores, hrow.symm⟩

end RankingService

end JudgeLoom
