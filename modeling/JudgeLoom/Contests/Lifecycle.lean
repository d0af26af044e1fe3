import JudgeLoom.Judge.World
import JudgeLoom.Ratings.Service

/-!
# Contest updates and the clock

`update_contest` of `ContestService`, and `start_contest` and `tick_contests` of
`ContestLifecycleService`.  `Site` has all tables: those of contests and ratings and
those of judging.  A judging operation works on its `database`, where a participation
carries the contest that its foreign key names.
-/

namespace JudgeLoom

/-! ## Updating a contest -/

/-- The keyword arguments of `update_contest`; `none` is a field that is not given. -/
structure ContestUpdate where
  startTime : Option Time := none
  endTime : Option Time := none
  isRated : Option Bool := none
  format : Option (Option ContestFormat) := none
  timeLimit : Option (Option Time) := none
  rateAll : Option Bool := none
  ratingFloor : Option (Option ℤ) := none
  ratingCeiling : Option (Option ℤ) := none
  scoreboardFrozenAfter : Option (Option Time) := none

/-- The contest with the new values. -/
def ContestUpdate.apply (update : ContestUpdate) (contest : ContestRow) : ContestRow :=
  { contest with
    startTime := update.startTime.getD contest.startTime
    endTime := update.endTime.getD contest.endTime
    isRated := update.isRated.getD contest.isRated
    format := update.format.getD contest.format
    timeLimit := update.timeLimit.getD contest.timeLimit
    rateAll := update.rateAll.getD contest.rateAll
    ratingFloor := update.ratingFloor.getD contest.ratingFloor
    ratingCeiling := update.ratingCeiling.getD contest.ratingCeiling
    scoreboardFrozenAfter := update.scoreboardFrozenAfter.getD contest.scoreboardFrozenAfter }

theorem ContestUpdate.id_apply (update : ContestUpdate) (contest : ContestRow) :
    (update.apply contest).id = contest.id :=
  rfl

namespace ContestService

/-- `update_contest`; `none` is a `ContestError`, or a contest that does not exist. -/
def updateContest (id : ℕ) (update : ContestUpdate) (tables : RatingTables) :
    Option RatingTables := do
  let contest ← tables.contests.get? id
  let updated := update.apply contest
  if updated.endTime ≤ updated.startTime then none
  else return { tables with contests := tables.contests.modify id update.apply update.id_apply }

end ContestService

/-! ## Starting and ending contests -/

namespace ContestLifecycleService

variable (M : MathLibrary) (order : RowOrder) (now : Time)

/-- `start_contest`. -/
def startContest (tables : RatingTables) (id : ℕ) : RatingTables :=
  { tables with
    contests := tables.contests.modify id
      (fun row => { row with startedAt := some (row.startedAt.getD now) }) fun _ => rfl }

/-- `filter(...).values_list("id", flat=True)`, in the default ordering of the model. -/
def contestIds (due : ContestRow → Bool) (tables : RatingTables) : List ℕ :=
  ((order.contests (tables.contests.rows.filter due)).sortBy fun contest =>
    -contest.startTime).map ContestRow.id

/-- The body of the loop that ends contests: an exception is logged. -/
def tryEndContest (tables : RatingTables) (id : ℕ) : RatingTables :=
  (endContest M now id tables).getD tables

/-- `tick_contests`. -/
def tickContests (tables : RatingTables) : RatingTables :=
  let started := (contestIds order
    (fun contest => contest.startedAt.isNone && decide (contest.startTime ≤ now)) tables).foldl
      (startContest now) tables
  (contestIds order
    (fun contest => contest.endedAt.isNone && decide (contest.endTime ≤ now)) started).foldl
      (tryEndContest M now) started

end ContestLifecycleService

/-! ## The whole site -/

/-- All tables, and the server's clock. -/
structure Site extends RatingTables where
  jobs : Table JudgeJob JudgeJob.id := ∅
  testCases : ℕ → TestCases := fun _ => ∅
  now : Time := 0

namespace Site

variable (site : Site)

/-- The participation with the contest of its foreign key. -/
def joined (row : ParticipationRow) : Option ContestParticipation :=
  (site.contests.get? row.contest).map fun contest => row.withContest contest.toContest

theorem id_of_joined {site : Site} {row : ParticipationRow} {participation : ContestParticipation}
    (h : site.joined row = some participation) : participation.id = row.id := by
  obtain ⟨contest, -, rfl⟩ := Option.map_eq_some_iff.mp h
  rfl

/-- The tables that judging works on. -/
def database : Database where
  submissions := site.submissions
  jobs := site.jobs
  testCases := site.testCases
  participations := site.participations.filterMap site.joined fun _ _ => id_of_joined

/-- A participation after judging. -/
def scored (db : Database) (row : ParticipationRow) : ParticipationRow :=
  (db.participations.get? row.id).elim row fun participation =>
    row.withScores participation.toParticipationScores

theorem id_scored (db : Database) (row : ParticipationRow) : (scored db row).id = row.id := by
  unfold scored
  cases db.participations.get? row.id <;> rfl

/-- The site with what judging wrote. -/
def withDatabase (db : Database) : Site :=
  { site with
    submissions := db.submissions
    participations := site.participations.updateWhere (fun _ => true) (scored db) (id_scored db)
    jobs := db.jobs
    testCases := db.testCases }

end Site

/-- A call that changes a contest, a submission or a job, or an advance of the clock. -/
inductive SiteOp
  | judging (op : Op)
  | updateContest (contest : ℕ) (update : ContestUpdate)
  | tickContests (order : RowOrder)

/-- The site after one call; a call that raises changes nothing. -/
def Site.step (P : Python) (M : MathLibrary) (site : Site) : SiteOp → Site
  | .judging op =>
      match op.perform P site.now site.database with
      | .ok db => { site.withDatabase db with now := site.now + op.elapsed }
      | .error _ => site
  | .updateContest contest update =>
      { site with
        toRatingTables :=
          (ContestService.updateContest contest update site.toRatingTables).getD
            site.toRatingTables }
  | .tickContests order =>
      { site with
        toRatingTables :=
          ContestLifecycleService.tickContests M order site.now site.toRatingTables }

end JudgeLoom
