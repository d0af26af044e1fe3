import JudgeLoom.Contests.Formats
import JudgeLoom.Library.SortBy

/-!
# Contests, participations and users

The rows of `apps/contests` and of the user table that rankings, ratings and the
contest lifecycle read.  `ParticipationRow` is the stored participation with its
foreign key; `ParticipationRow.withContest` is the `ContestParticipation` that a
format sees, with the contest it belongs to.

Columns that no modelled function reads (names, descriptions, visibility and
organizers of a contest, the profile of a user) are left out.
-/

namespace JudgeLoom

/-- Participation mode/status for a contestant. -/
inductive ParticipationStatus
  | live
  | spectating
  | virtual
  deriving DecidableEq, Repr

structure User where
  id : ℕ
  username : String
  rating : ℤ := 0
  maxRating : ℤ := 0

/-- A contest with its schedule and its rating configuration. -/
structure ContestRow extends Contest where
  id : ℕ
  endTime : Time
  timeLimit : Option Time := none
  isRated : Bool := false
  rateAll : Bool := false
  rateExclude : List ℕ := []
  ratingFloor : Option ℤ := none
  ratingCeiling : Option ℤ := none
  scoreboardFrozenAfter : Option Time := none
  startedAt : Option Time := none
  endedAt : Option Time := none

namespace ContestRow

variable (contest : ContestRow) (now : Time)

/-- `start_time + scoreboard_frozen_after`. -/
def freezeTime : Time := contest.startTime + contest.scoreboardFrozenAfter.getD 0

/-- `is_frozen`; a freeze of no length is no freeze. -/
def isFrozen : Bool :=
  decide (contest.scoreboardFrozenAfter.getD 0 ≠ 0) &&
    decide (contest.freezeTime ≤ now ∧ now < contest.endTime)

end ContestRow

/-- A user's participation entry in a contest. -/
structure ParticipationRow extends ParticipationScores where
  id : ℕ
  contest : ℕ
  user : ℕ
  status : ParticipationStatus := .live
  virtualStart : Option Time := none
  isDisqualified : Bool := false

namespace ParticipationRow

/-- The participation as a format sees it. -/
def withContest (row : ParticipationRow) (contest : Contest) : ContestParticipation :=
  { row with contest }

/-- `row` with new aggregates. -/
def withScores (row : ParticipationRow) (scores : ParticipationScores) : ParticipationRow :=
  { row with toParticipationScores := scores }

/-- `Meta.ordering`: `-score`, `cumulative_time`, `id`. -/
def ordering (row : ParticipationRow) : ℚ ×ₗ Time ×ₗ ℕ :=
  toLex (-row.score, toLex (row.cumulativeTime, row.id))

section

variable (row : ParticipationRow) (scores : ParticipationScores)

@[simp] theorem id_withScores : (row.withScores scores).id = row.id := rfl

@[simp] theorem contest_withScores : (row.withScores scores).contest = row.contest := rfl

@[simp] theorem user_withScores : (row.withScores scores).user = row.user := rfl

@[simp] theorem status_withScores : (row.withScores scores).status = row.status := rfl

@[simp] theorem isDisqualified_withScores :
    (row.withScores scores).isDisqualified = row.isDisqualified :=
  rfl

@[simp] theorem scores_withScores : (row.withScores scores).toParticipationScores = scores := rfl

@[simp] theorem withScores_self : row.withScores row.toParticipationScores = row := rfl

end

theorem id_eq_of_ordering_eq {first second : ParticipationRow}
    (h : first.ordering = second.ordering) : first.id = second.id := by
  have hsecond := congrArg Prod.snd (toLex_inj.mp h)
  exact congrArg Prod.snd (toLex_inj.mp hsecond)

end ParticipationRow

/-- The tables behind rankings. -/
structure ContestTables where
  users : Table User User.id := ∅
  contests : Table ContestRow ContestRow.id := ∅
  participations : Table ParticipationRow ParticipationRow.id := ∅
  submissions : Table Submission Submission.id := ∅

namespace ContestTables

/-- `contest.participations.all()`, in the default ordering of the model. -/
def participationsOf (tables : ContestTables) (contest : ℕ) : List ParticipationRow :=
  (tables.participations.rows.filter fun row => row.contest = contest).sortBy
    ParticipationRow.ordering

/-- The tables without the submissions created after `limit`. -/
def submittedBy (tables : ContestTables) (limit : Time) : ContestTables :=
  { tables with submissions := tables.submissions.filter fun submission =>
      submission.createdAt ≤ limit }

/-- `participation.save(update_fields=[...])` with new aggregates. -/
def saveScores (tables : ContestTables) (participation : ℕ) (scores : ParticipationScores) :
    ContestTables :=
  { tables with
    participations := tables.participations.modify participation (fun row => row.withScores scores)
      fun row => row.id_withScores scores }

variable {tables : ContestTables} {contest : ℕ} {row : ParticipationRow}

theorem get?_saveScores (participation : ℕ) (scores : ParticipationScores) (key : ℕ) :
    (tables.saveScores participation scores).participations.get? key =
      if key = participation then
        (tables.participations.get? key).map fun row => row.withScores scores
      else tables.participations.get? key :=
  Table.get?_modify _ _ _ (fun row => row.id_withScores scores) _

theorem mem_participationsOf :
    row ∈ tables.participationsOf contest ↔
      row ∈ tables.participations.rows ∧ row.contest = contest := by
  simp [participationsOf]

/-- No two participations have one place in the default ordering. -/
theorem eq_of_ordering_eq {first second : ParticipationRow}
    (hfirst : first ∈ tables.participations.rows) (hsecond : second ∈ tables.participations.rows)
    (h : first.ordering = second.ordering) : first = second :=
  tables.participations.key_injOn hfirst hsecond (ParticipationRow.id_eq_of_ordering_eq h)

theorem nodup_participationsOf : ((tables.participationsOf contest).map ParticipationRow.id).Nodup := by
  have hperm := (List.perm_sortBy ParticipationRow.ordering
    (tables.participations.rows.filter fun row => row.contest = contest)).map ParticipationRow.id
  refine hperm.nodup_iff.mpr ?_
  exact tables.participations.nodup_keys.sublist (List.filter_sublist.map _)

end ContestTables

/-- The order in which the database reads rows; a sort keeps it among ties. -/
structure RowOrder where
  contests : List ContestRow → List ContestRow
  participations : List ParticipationRow → List ParticipationRow
  contests_perm : ∀ rows, (contests rows).Perm rows
  participations_perm : ∀ rows, (participations rows).Perm rows

/-- Rows are read in the order of their ids. -/
def RowOrder.byId : RowOrder where
  contests rows := rows
  participations rows := rows
  contests_perm _ := .refl _
  participations_perm _ := .refl _

end JudgeLoom
