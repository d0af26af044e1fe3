import JudgeLoom.Contests.Ranking
import JudgeLoom.Ratings.EloMMR

/-!
# Ratings

The rows of `apps/ratings` and `RatingService`: `calculate_ratings` for one contest,
with the `post_save` signal that copies a saved row to its user, and
`recalculate_all_ratings`; `ContestLifecycleService.end_contest` is the caller that
rates a contest when it ends.

`none` is an exception; every service function is atomic, so its caller then keeps
the tables it had.  Timestamps and the events that are published are left out.
-/

namespace JudgeLoom

/-- What `calculate_ratings` stores about a user's contest. -/
structure RatingDefaults where
  participation : ℕ
  rank : ℕ
  ratingBefore : ℤ
  ratingAfter : ℤ
  mean : ℚ := 1500
  volatilityBefore : ℤ := 0
  volatilityAfter : ℤ := 0
  performance : ℚ := 0

/-- Per-contest rating transition of a participant. -/
structure Rating extends RatingDefaults where
  id : ℕ
  user : ℕ
  contest : ℕ

/-- `participation.submissions.exists()`. -/
def ContestTables.hasSubmissions (tables : ContestTables) (participation : ℕ) : Bool :=
  tables.submissions.rows.any fun submission => submission.contestParticipation = some participation

/-- The tables behind ratings. -/
structure RatingTables extends ContestTables where
  ratings : Table Rating Rating.id := ∅

namespace RatingTables

variable (tables : RatingTables)

/-- `Rating.objects.filter(contest=contest)`. -/
def ratingsOf (contest : ℕ) : List Rating :=
  tables.ratings.rows.filter fun rating => rating.contest = contest

/-- `Rating.objects.filter(contest=contest).delete()`. -/
def deleteRatings (contest : ℕ) : RatingTables :=
  { tables with ratings := tables.ratings.filter fun rating => rating.contest ≠ contest }

/-- `contest__end_time`, through the foreign key. -/
def endTime (contest : ℕ) : Time := (tables.contests.get? contest).elim 0 ContestRow.endTime

/-- A user's rows of other contests, the latest contest first. -/
def history (contest user : ℕ) : List Rating :=
  (tables.ratings.rows.filter fun rating => rating.user = user ∧ rating.contest ≠ contest).sortBy
    fun rating => toLex (-tables.endTime rating.contest, -(rating.id : ℤ))

/-- The receiver `sync_user_rating_on_save`. -/
def syncUserRating (user : ℕ) (rating : ℤ) : RatingTables :=
  { tables with
    users := tables.users.modify user (fun row =>
      { row with rating, maxRating := if row.maxRating < rating then rating else row.maxRating })
      fun _ => rfl }

/-- `user.save(update_fields=["rating", "max_rating"])`. -/
def saveUserRating (user : ℕ) (rating maxRating : ℤ) : RatingTables :=
  { tables with
    users := tables.users.modify user (fun row => { row with rating, maxRating }) fun _ => rfl }

end RatingTables

namespace RatingService

/-- The row that `Rating.objects.update_or_create(user=user, contest=contest,
defaults=...)` saves. -/
def upsertedRow (ratings : Table Rating Rating.id) (user contest : ℕ)
    (defaults : RatingDefaults) : Rating :=
  match ratings.rows.find? fun rating => rating.user = user ∧ rating.contest = contest with
  | some rating => { rating with toRatingDefaults := defaults }
  | none => { defaults with id := ratings.nextKey, user, contest }

/-- `update_or_create` on the rows; a `participation` that another row has is an
`IntegrityError`. -/
def updateOrCreate (ratings : Table Rating Rating.id) (user contest : ℕ)
    (defaults : RatingDefaults) : Option (Rating × Table Rating Rating.id) :=
  let row := upsertedRow ratings user contest defaults
  if ratings.rows.any fun rating =>
      rating.participation = row.participation ∧ rating.id ≠ row.id then none
  else some (row, ratings.save row)

/-- `settings.JUDGELOOM["RATING_FLOOR"]`. -/
def ratingFloor : ℤ := 0

/-- `settings.JUDGELOOM["RATING_CEILING"]`. -/
def ratingCeiling : ℤ := 4000

/-- What `calculate_ratings` collects about a participant that it rates. -/
structure Selected where
  user : User
  participation : ℕ
  rankKey : ℚ × ℚ
  ratingBefore : ℤ
  meanBefore : ℚ
  historical : List ℚ
  timesRanked : ℕ

/-- The live participation behind a ranking entry. -/
def participant? (tables : ContestTables) (contest : ContestRow) (entry : RankingEntry) :
    Option ParticipationRow :=
  (tables.participations.get? entry.participationId).filter fun row =>
    row.contest = contest.id ∧ row.isDisqualified = false ∧ row.status = .live

/-- A ranking entry that counts for the ratings. -/
structure Standing where
  participation : ℕ
  user : ℕ
  score : ℚ
  tiebreaker : ℚ

/-- The selection loop up to the look at the user; `none` is a `continue`. -/
def standing? (tables : ContestTables) (contest : ContestRow) (entry : RankingEntry) :
    Option Standing := do
  let participation ← participant? tables contest entry
  if participation.user ∈ contest.rateExclude then none
  else if contest.rateAll = false ∧ tables.hasSubmissions participation.id = false then none
  else
    return {
      participation := participation.id
      user := participation.user
      score := entry.score
      tiebreaker := entry.tiebreaker }

/-- The item that the selection loop appends. -/
def collect (tables : RatingTables) (contest : ℕ) (user : User) (standing : Standing) : Selected :=
  let history := tables.history contest user.id
  let last := history.head?
  { user
    participation := standing.participation
    rankKey := (standing.score, standing.tiebreaker)
    ratingBefore := last.elim EloMMR.ratingInit fun last => last.ratingAfter
    meanBefore := last.elim EloMMR.meanInit fun last => last.mean
    historical := history.map fun row => row.performance
    timesRanked := history.length }

/-- The rest of the selection loop. -/
def select (tables : RatingTables) (contest : ContestRow) (standing : Standing) :
    Option Selected := do
  let user ← tables.users.get? standing.user
  let item := collect tables contest.id user standing
  if ∃ floor ∈ contest.ratingFloor, item.ratingBefore < floor then none
  else if ∃ ceiling ∈ contest.ratingCeiling, ceiling < item.ratingBefore then none
  else return item

/-- `_tie_ranks`, group by group; `index` is the number of participants before. -/
def groupRanks : ℕ → List (List Selected) → List ℚ
  | _, [] => []
  | index, group :: rest =>
      List.replicate group.length (index + ((group.length : ℚ) - 1) / 2) ++
        groupRanks (index + group.length) rest

/-- `_tie_ranks`: half-step ranks for groups of equal score and tiebreaker. -/
def tieRanks (selected : List Selected) : List ℚ :=
  groupRanks 0 (selected.splitBy fun first second => first.rankKey == second.rankKey)

/-- What the rating engine is told about the participants. -/
def contestants (selected : List Selected) : List EloMMR.Contestant :=
  (selected.zip (tieRanks selected)).map fun entry =>
    { rank := entry.2
      oldMean := entry.1.meanBefore
      timesRanked := entry.1.timesRanked
      historical := entry.1.historical }

/-- `round(variance_for(times_ranked) ** 0.5)`. -/
def volatility (M : MathLibrary) (timesRanked : ℕ) : ℤ :=
  FloatArith.roundHalfEven (M.pow (EloMMR.varianceFor M timesRanked) (1 / 2))

/-- The row of a participant. -/
def defaults (M : MathLibrary) (item : Selected) (rank : ℚ) (outcome : EloMMR.Outcome) :
    RatingDefaults where
  participation := item.participation
  rank := (max 1 (FloatArith.roundHalfEven (rank + 1))).toNat
  ratingBefore := item.ratingBefore
  ratingAfter := min ratingCeiling (max ratingFloor outcome.displayed)
  mean := outcome.mean
  volatilityBefore := volatility M item.timesRanked
  volatilityAfter := volatility M (item.timesRanked + 1)
  performance := outcome.performance

/-- A participant with their rank and what the rating engine returned about them. -/
structure Result where
  item : Selected
  rank : ℚ
  outcome : EloMMR.Outcome

/-- What the saving loop runs over. -/
def results (selected : List Selected) (outcomes : List EloMMR.Outcome) : List Result :=
  ((selected.zip (tieRanks selected)).zip outcomes).map fun entry =>
    { item := entry.1.1, rank := entry.1.2, outcome := entry.2 }

/-- The body of the saving loop. -/
def saveOutcome (M : MathLibrary) (contest : ℕ) (saved : List Rating × RatingTables)
    (result : Result) : Option (List Rating × RatingTables) := do
  let item := result.item
  let defaults := defaults M item result.rank result.outcome
  let (row, ratings) ← updateOrCreate saved.2.ratings item.user.id contest defaults
  let tables := { saved.2 with ratings }.syncUserRating item.user.id defaults.ratingAfter
  return (saved.1 ++ [row], tables.saveUserRating item.user.id defaults.ratingAfter
    (max item.user.maxRating defaults.ratingAfter))

/-- The participations that count, best first. -/
def standings (tables : ContestTables) (contest : ContestRow) : List Standing :=
  (AbstractContestFormat.getRanking tables contest).filterMap (standing? tables contest)

/-- The participants that a contest rates, best first. -/
def selected (tables : RatingTables) (contest : ContestRow) : List Selected :=
  (standings tables.toContestTables contest).filterMap (select tables contest)

/-- `calculate_ratings`: the rows it returns and the tables it leaves. -/
def calculateRatings (M : MathLibrary) (contest : ContestRow) (force : Bool)
    (tables : RatingTables) : Option (List Rating × RatingTables) :=
  let existing := (tables.ratingsOf contest.id).sortBy fun rating => toLex (rating.rank, rating.user)
  if contest.isRated = false then some ([], tables)
  else if existing ≠ [] ∧ force = false then some (existing, tables)
  else do
    let _format ← contest.format
    let selected := selected tables contest
    if selected = [] then return ([], tables.deleteRatings contest.id)
    else
      let outcomes ← EloMMR.recalculate M (contestants selected)
      let start := if force then tables.deleteRatings contest.id else tables
      (results selected outcomes).foldlM (saveOutcome M contest.id) ([], start)

/-- Users with rows start from the initial rating, and all rows are deleted. -/
def resetRatings (tables : RatingTables) : RatingTables :=
  { tables with
    users := tables.users.updateWhere
      (fun user => tables.ratings.rows.any fun rating => rating.user = user.id)
      (fun user => { user with rating := EloMMR.ratingInit, maxRating := EloMMR.ratingInit })
      fun _ => rfl
    ratings := ∅ }

/-- `Contest.objects.filter(is_rated=True).order_by("end_time", "id")`. -/
def ratedContests (tables : RatingTables) : List ContestRow :=
  (tables.contests.rows.filter fun contest => contest.isRated).sortBy fun contest =>
    toLex (contest.endTime, contest.id)

/-- `calculate_ratings` for one contest after the other. -/
def recalculateContests (M : MathLibrary) (contests : List ContestRow) (tables : RatingTables) :
    Option RatingTables :=
  contests.foldlM (fun tables contest =>
    (calculateRatings M contest false tables).map Prod.snd) tables

/-- `user_model.objects.filter(rating__lt=floor).update(rating=floor)`. -/
def raiseToFloor (tables : RatingTables) : RatingTables :=
  { tables with
    users := tables.users.updateWhere (fun user => user.rating < ratingFloor)
      (fun user => { user with rating := ratingFloor }) fun _ => rfl }

/-- `recalculate_all_ratings`. -/
def recalculateAllRatings (M : MathLibrary) (tables : RatingTables) : Option RatingTables :=
  (recalculateContests M (ratedContests tables) (resetRatings tables)).map raiseToFloor

end RatingService

namespace ContestLifecycleService

/-- The final standings of a contest and, if it is rated, its ratings. -/
def finalize (M : MathLibrary) (contest : ContestRow) (tables : RatingTables) :
    Option RatingTables := do
  let ranked ← RankingService.recalculateContest M.arith contest tables.toContestTables
  if contest.isRated then
    (RatingService.calculateRatings M contest false
      { tables with toContestTables := ranked }).map Prod.snd
  else some { tables with toContestTables := ranked }

/-- `contest.ended_at = now`. -/
def markEnded (now : Time) (contest : ℕ) (tables : RatingTables) : RatingTables :=
  { tables with
    contests := tables.contests.modify contest (fun row => { row with endedAt := some now })
      fun _ => rfl }

/-- `end_contest`. -/
def endContest (M : MathLibrary) (now : Time) (contest : ℕ) (tables : RatingTables) :
    Option RatingTables :=
  match tables.contests.get? contest with
  | none => some tables
  | some row =>
      if row.endedAt.isSome then some tables
      else (finalize M row tables).map (markEnded now contest)

end ContestLifecycleService

end JudgeLoom
