import JudgeLoom.Ratings.Calculation

/-!
# A user's rating is that of their latest contest

`user.rating` is a copy of `rating_after` of the user's row of the contest that ends
last.  It is written whenever a row is saved, whichever contest the row is of, so the
copy is right as long as the calculations come in the order of the contests
(`userRatings_run`): no participant who is rated has a row of a later contest, and no
user who loses their row keeps its rating.

`RatingOp` has the operations that write ratings, and `edit` for what may happen to
contests, participations and submissions in between; end times stay.
-/

namespace JudgeLoom

open RatingService

/-- One call that writes ratings, or a change of the tables that they are computed from. -/
inductive RatingOp
  | calculateRatings (contest : ℕ) (force : Bool)
  | endContest (contest : ℕ) (now : Time)
  | recalculateAllRatings
  | edit (contests : Table ContestRow ContestRow.id)
      (participations : Table ParticipationRow ParticipationRow.id)
      (submissions : Table Submission Submission.id)

namespace RatingOp

/-- The end times of a table of contests. -/
def schedule (contests : Table ContestRow ContestRow.id) : List (ℕ × Time) :=
  contests.rows.map fun contest => (contest.id, contest.endTime)

/-- The tables after a call; `none` is an exception, or an edit that is not allowed. -/
def perform (M : MathLibrary) (tables : RatingTables) : RatingOp → Option RatingTables
  | calculateRatings contest force => do
      let row ← tables.contests.get? contest
      let rated ← RatingService.calculateRatings M row force tables
      return rated.2
  | endContest contest now => ContestLifecycleService.endContest M now contest tables
  | recalculateAllRatings => RatingService.recalculateAllRatings M tables
  | edit contests participations submissions =>
      if schedule contests = schedule tables.contests then
        some { tables with contests, participations, submissions }
      else none

end RatingOp

namespace RatingTables

/-- The tables after one operation. -/
def step (M : MathLibrary) (tables : RatingTables) (op : RatingOp) : RatingTables :=
  (op.perform M tables).getD tables

/-- The tables after a sequence of operations. -/
def run (M : MathLibrary) (tables : RatingTables) (ops : List RatingOp) : RatingTables :=
  ops.foldl (step M) tables

/-- Every user with a row carries the rating of their row of the contest that ends last. -/
def UserRatings (tables : RatingTables) : Prop :=
  ∀ row ∈ tables.ratings.rows,
    (∀ other ∈ tables.ratings.rows, other.user = row.user →
      tables.endTime other.contest ≤ tables.endTime row.contest) →
    (tables.users.get? row.user).map User.rating = some row.ratingAfter

end RatingTables

namespace RatingService

/-- The history that a calculation uses has rows of earlier contests only. -/
def HistoryEarlier (tables : RatingTables) (contest : ContestRow) : Prop :=
  ∀ item ∈ selected tables contest, ∀ row ∈ tables.history contest.id item.user.id,
    tables.endTime row.contest < contest.endTime

/-- No user whom the contest rates has a row of a contest that does not end earlier. -/
def NoLaterRows (tables : RatingTables) (contest : ContestRow) : Prop :=
  ∀ user, Rates tables contest user → ∀ row ∈ tables.ratings.rows, row.user = user →
    row.contest ≠ contest.id → tables.endTime row.contest < contest.endTime

/-- A user who loses their row of the contest has the rating of the latest row that
remains, if one does. -/
def NoStaleUsers (tables : RatingTables) (contest : ContestRow) : Prop :=
  ∀ lost ∈ tables.ratings.rows, lost.contest = contest.id → ¬ Rates tables contest lost.user →
    ∀ row ∈ tables.ratings.rows, row.user = lost.user → row.contest ≠ contest.id →
      (∀ other ∈ tables.ratings.rows, other.user = lost.user → other.contest ≠ contest.id →
        tables.endTime other.contest ≤ tables.endTime row.contest) →
      (tables.users.get? lost.user).map User.rating = some row.ratingAfter

/-- While `op` runs, `calculate_ratings` computes the rows of `contest` from `during`. -/
inductive Calculates (M : MathLibrary) (tables : RatingTables) :
    RatingOp → RatingTables → ContestRow → Prop
  | calculateRatings {id : ℕ} {force : Bool} {contest : ContestRow}
      (hcontest : tables.contests.get? id = some contest)
      (hcomputes : Computes tables contest force) :
      Calculates M tables (.calculateRatings id force) tables contest
  | endContest {id : ℕ} {now : Time} {contest : ContestRow} {ranked : ContestTables}
      (hcontest : tables.contests.get? id = some contest) (hopen : contest.endedAt = none)
      (hranked : RankingService.recalculateContest M.arith contest tables.toContestTables =
        some ranked)
      (hcomputes : Computes { tables with toContestTables := ranked } contest false) :
      Calculates M tables (.endContest id now) { tables with toContestTables := ranked } contest
  | recalculateAllRatings {before after : List ContestRow} {contest : ContestRow}
      {during : RatingTables} (hcontests : ratedContests tables = before ++ contest :: after)
      (hbefore : recalculateContests M before (resetRatings tables) = some during)
      (hcomputes : Computes during contest false) :
      Calculates M tables .recalculateAllRatings during contest

end RatingService

/-- The calculation of the operation, if it makes one for a single contest, comes in
the order of the contests. -/
def RatingOp.InOrder (tables : RatingTables) : RatingOp → Prop
  | calculateRatings id force => ∀ contest, tables.contests.get? id = some contest →
      Computes tables contest force → NoLaterRows tables contest ∧ NoStaleUsers tables contest
  | endContest id _ => ∀ contest, tables.contests.get? id = some contest →
      contest.endedAt = none → Computes tables contest false → NoLaterRows tables contest
  | recalculateAllRatings => True
  | edit _ _ _ => True

/-! ## One calculation -/

namespace RatingService

variable {M : MathLibrary} {tables final : RatingTables} {contest : ContestRow}

theorem historyEarlier_of_noLaterRows (h : NoLaterRows tables contest) :
    HistoryEarlier tables contest := by
  intro item hitem row hrow
  rw [RatingTables.history, List.mem_sortBy, List.mem_filter, decide_eq_true_eq] at hrow
  exact h item.user.id (rates_iff_selected.mpr ⟨item, hitem, rfl⟩) row hrow.1 hrow.2.1 hrow.2.2

theorem noStaleUsers_of_not_force (h : Computes tables contest false) :
    NoStaleUsers tables contest := by
  intro lost hlost hcontest
  have hnone := h.2.resolve_right (by decide)
  exact absurd hcontest (ratingsOf_eq_nil.mp hnone lost hlost)

theorem contests_calculateRatings {force : Bool} {rows : List Rating}
    (h : calculateRatings M contest force tables = some (rows, final)) :
    final.contests = tables.contests := by
  rcases calculateRatings_cases h with ⟨-, rfl⟩ | ⟨-, hdone⟩
  · rfl
  · rw [hdone.same]

theorem contests_recalculateContests {contests : List ContestRow}
    (h : recalculateContests M contests tables = some final) :
    final.contests = tables.contests := by
  induction contests generalizing tables with
  | nil =>
      cases h
      rfl
  | cons contest rest ih =>
      rw [recalculateContests, List.foldlM_cons] at h
      obtain ⟨next, hnext, hrest⟩ := Option.bind_eq_some_iff.mp h
      obtain ⟨⟨rows, _⟩, hcalculate, rfl⟩ := Option.map_eq_some_iff.mp hnext
      exact (ih hrest).trans (contests_calculateRatings hcalculate)

end RatingService

namespace RatingTables

variable {M : MathLibrary} {tables final : RatingTables} {contest : ContestRow}

theorem endTime_of_get? (h : tables.contests.get? contest.id = some contest) :
    tables.endTime contest.id = contest.endTime := by
  rw [endTime, h, Option.elim_some]

theorem endTime_eq_getD (id : ℕ) :
    tables.endTime id = ((tables.contests.get? id).map ContestRow.endTime).getD 0 := by
  rw [endTime]
  cases tables.contests.get? id <;> rfl

/-- The invariant of runs that calculate in the order of the contests. -/
structure Consistent (tables : RatingTables) : Prop where
  single : ∀ contest, SingleRows contest tables.ratings
  known : ∀ row ∈ tables.ratings.rows, (tables.contests.get? row.contest).isSome
  userRatings : tables.UserRatings

/-- Only the users, the rows and the schedule matter. -/
theorem Consistent.congr (h : tables.Consistent) (husers : final.users = tables.users)
    (hratings : final.ratings = tables.ratings)
    (hknown : ∀ id, (final.contests.get? id).isSome = (tables.contests.get? id).isSome)
    (hends : ∀ id, final.endTime id = tables.endTime id) : final.Consistent := by
  refine ⟨?_, ?_, ?_⟩
  · rw [hratings]
    exact h.single
  · rw [hratings]
    intro row hrow
    rw [hknown]
    exact h.known row hrow
  · unfold UserRatings
    simp only [hratings, husers, hends]
    exact h.userRatings

/-- A calculation in the order of the contests keeps every copy right. -/
theorem Consistent.recomputed (h : tables.Consistent)
    (hcontest : tables.contests.get? contest.id = some contest)
    (hlater : NoLaterRows tables contest) (hstale : NoStaleUsers tables contest)
    (hdone : Recomputed M tables contest final) : final.Consistent := by
  have hcontests : final.contests = tables.contests := by rw [hdone.same]
  have hends : ∀ id, final.endTime id = tables.endTime id := by
    intro id
    rw [endTime, endTime, hcontests]
  refine ⟨fun other => ?_, fun row hrow => ?_, fun row hrow hlatest => ?_⟩
  · by_cases hother : other = contest.id
    · exact hother ▸ hdone.single
    · intro first hfirst second hsecond hc hc' huser
      have hne : ∀ row : Rating, row.contest = other → row.contest ≠ contest.id :=
        fun row heq hid => hother (heq.symm.trans hid)
      exact h.single other first ((hdone.others first (hne first hc)).mp hfirst) second
        ((hdone.others second (hne second hc')).mp hsecond) hc hc' huser
  · rw [hcontests]
    by_cases hc : row.contest = contest.id
    · rw [hc, hcontest]
      rfl
    · exact h.known row ((hdone.others row hc).mp hrow)
  · by_cases hc : row.contest = contest.id
    · exact hdone.synced row hrow hc
    have hold : row ∈ tables.ratings.rows := (hdone.others row hc).mp hrow
    by_cases hrates : Rates tables contest row.user
    · -- the user has a new row, and it is of a later contest
      obtain ⟨item, hitem, huser⟩ := rates_iff_selected.mp hrates
      obtain ⟨newest, hnewest, hid, hsame⟩ := hdone.every item hitem
      have hle := hlatest newest hnewest (hsame.trans huser)
      rw [hends, hends, hid, endTime_of_get? hcontest] at hle
      exact absurd (hlater row.user hrates row hold rfl hc) (not_lt.mpr hle)
    have huntouched : final.users.get? row.user = tables.users.get? row.user :=
      hdone.untouched row.user fun item hitem heq => hrates (rates_iff_selected.mpr ⟨item, hitem, heq⟩)
    have hothers : ∀ other ∈ tables.ratings.rows, other.user = row.user →
        other.contest ≠ contest.id → tables.endTime other.contest ≤ tables.endTime row.contest := by
      intro other hother huser hne
      rw [← hends, ← hends]
      exact hlatest other ((hdone.others other hne).mpr hother) huser
    rw [huntouched]
    by_cases hlost : ∃ lost ∈ tables.ratings.rows, lost.contest = contest.id ∧ lost.user = row.user
    · obtain ⟨lost, hin, hid, huser⟩ := hlost
      rw [← huser]
      exact hstale lost hin hid (huser ▸ hrates) row hold huser.symm hc (huser ▸ hothers)
    · refine h.userRatings row hold fun other hother huser => ?_
      exact hothers other hother huser fun hid => hlost ⟨other, hother, hid, huser⟩

end RatingTables

/-! ## The operations -/

namespace RatingService

variable {M : MathLibrary} {tables final during : RatingTables} {contest : ContestRow}

/-- A recalculation of the standings does not change whom the contest rates. -/
theorem rates_of_recalculated {ranked : ContestTables} {user : ℕ}
    (hranked : RankingService.recalculateContest M.arith contest tables.toContestTables = some ranked)
    (h : Rates { tables with toContestTables := ranked } contest user) :
    Rates tables contest user := by
  obtain ⟨-, rfl⟩ := RankingService.recalculateContest_eq_some hranked
  obtain ⟨⟨row, hcounts, huser⟩, hadmits, hsome⟩ := h
  obtain ⟨old, hold, scores, rfl⟩ := RankingService.exists_of_mem_recalculateAll hcounts.stored
  exact ⟨⟨old, ⟨hold, hcounts.contest_eq, hcounts.qualified, hcounts.live, hcounts.included,
    hcounts.submitted⟩, huser⟩, hadmits, hsome⟩

theorem noLaterRows_of_recalculated {ranked : ContestTables}
    (hranked : RankingService.recalculateContest M.arith contest tables.toContestTables = some ranked)
    (h : NoLaterRows tables contest) :
    NoLaterRows { tables with toContestTables := ranked } contest := by
  intro user hrates row hrow huser hne
  have hlater := h user (rates_of_recalculated hranked hrates) row hrow huser hne
  obtain ⟨-, rfl⟩ := RankingService.recalculateContest_eq_some hranked
  exact hlater

end RatingService

namespace RatingTables

variable {M : MathLibrary} {tables final : RatingTables} {contest : ContestRow}

/-- No two contests end at one time. -/
def DistinctEnds (tables : RatingTables) : Prop :=
  ∀ first ∈ tables.contests.rows, ∀ second ∈ tables.contests.rows,
    first.endTime = second.endTime → first.id = second.id

theorem mem_ratedContests : contest ∈ ratedContests tables ↔
    contest ∈ tables.contests.rows ∧ contest.isRated = true := by
  simp [ratedContests]

/-- After some of the rated contests: their rows only, and every copy is right. -/
structure Rebuilt (tables : RatingTables) (contests : List ContestRow) (during : RatingTables) :
    Prop where
  consistent : during.Consistent
  schedule : during.contests = tables.contests
  rows : ∀ row ∈ during.ratings.rows, ∃ contest ∈ contests, row.contest = contest.id
  bounded : ∀ row ∈ during.ratings.rows, ratingFloor ≤ row.ratingAfter

/-- The loop of `recalculate_all_ratings` takes the contests in order. -/
theorem noLaterRows_of_rebuilt {before after : List ContestRow} {during : RatingTables}
    (hdistinct : tables.DistinctEnds) (hcontests : ratedContests tables = before ++ contest :: after)
    (hduring : Rebuilt tables before during) : NoLaterRows during contest := by
  intro user _ row hrow _ hne
  obtain ⟨earlier, hearlier, hid⟩ := hduring.rows row hrow
  have hmem : ∀ other ∈ before ++ contest :: after, other ∈ tables.contests.rows := fun other h =>
    (mem_ratedContests.mp (hcontests ▸ h)).1
  have hin := hmem earlier (List.mem_append_left _ hearlier)
  have hcontest := hmem contest (List.mem_append_right _ List.mem_cons_self)
  have hsorted : (before ++ contest :: after).Pairwise fun first second =>
      toLex (first.endTime, first.id) ≤ toLex (second.endTime, second.id) :=
    hcontests ▸ List.pairwise_sortBy _ _
  have hle : earlier.endTime ≤ contest.endTime :=
    Prod.Lex.monotone_fst _ _
      ((List.pairwise_append.mp hsorted).2.2 earlier hearlier contest List.mem_cons_self)
  have hend : during.endTime row.contest = earlier.endTime := by
    rw [endTime, hduring.schedule, hid, Table.get?_key_of_mem hin, Option.elim_some]
  rw [hend]
  refine lt_of_le_of_ne hle fun heq => hne ?_
  rw [hid, hdistinct earlier hin contest hcontest heq]

/-- One round of that loop. -/
theorem Rebuilt.calculate {before after : List ContestRow} {during next : RatingTables}
    {rows : List Rating} (hdistinct : tables.DistinctEnds)
    (hcontests : ratedContests tables = before ++ contest :: after)
    (hduring : Rebuilt tables before during)
    (hnext : calculateRatings M contest false during = some (rows, next)) :
    Rebuilt tables (before ++ [contest]) next := by
  have hcontest : contest ∈ tables.contests.rows :=
    (mem_ratedContests.mp (hcontests ▸ List.mem_append_right _ List.mem_cons_self)).1
  rcases calculateRatings_cases hnext with ⟨-, rfl⟩ | ⟨hcomputes, hdone⟩
  · refine ⟨hduring.consistent, hduring.schedule, fun row hrow => ?_, hduring.bounded⟩
    obtain ⟨earlier, hearlier, hid⟩ := hduring.rows row hrow
    exact ⟨earlier, List.mem_append_left _ hearlier, hid⟩
  have hget : during.contests.get? contest.id = some contest := by
    rw [hduring.schedule]
    exact Table.get?_key_of_mem hcontest
  refine ⟨hduring.consistent.recomputed hget (noLaterRows_of_rebuilt hdistinct hcontests hduring)
    (noStaleUsers_of_not_force hcomputes) hdone, ?_, fun row hrow => ?_, fun row hrow => ?_⟩
  · rw [hdone.same]
    exact hduring.schedule
  · by_cases hc : row.contest = contest.id
    · exact ⟨contest, List.mem_append_right _ List.mem_cons_self, hc⟩
    · obtain ⟨earlier, hearlier, hid⟩ := hduring.rows row ((hdone.others row hc).mp hrow)
      exact ⟨earlier, List.mem_append_left _ hearlier, hid⟩
  · by_cases hc : row.contest = contest.id
    · exact hdone.bounded hrow hc
    · exact hduring.bounded row ((hdone.others row hc).mp hrow)

theorem rebuilt_resetRatings (tables : RatingTables) : Rebuilt tables [] (resetRatings tables) := by
  have hnone : ∀ row : Rating, row ∉ (resetRatings tables).ratings.rows := fun row h => by
    simp [resetRatings] at h
  exact ⟨⟨fun _ row hrow => absurd hrow (hnone row), fun row hrow => absurd hrow (hnone row),
    fun row hrow => absurd hrow (hnone row)⟩, rfl, fun row hrow => absurd hrow (hnone row),
    fun row hrow => absurd hrow (hnone row)⟩

/-- The loop of `recalculate_all_ratings`, up to any contest. -/
theorem rebuilt_recalculateContests {before after : List ContestRow} {during : RatingTables}
    (hdistinct : tables.DistinctEnds) (hcontests : ratedContests tables = before ++ after)
    (h : recalculateContests M before (resetRatings tables) = some during) :
    Rebuilt tables before during := by
  induction before using List.reverseRecOn generalizing after during with
  | nil =>
      cases h
      exact rebuilt_resetRatings tables
  | append_singleton before contest ih =>
      rw [recalculateContests_append_singleton] at h
      obtain ⟨middle, hmiddle, hlast⟩ := Option.bind_eq_some_iff.mp h
      obtain ⟨⟨rows, next⟩, hnext, rfl⟩ := Option.map_eq_some_iff.mp hlast
      have hsplit : ratedContests tables = before ++ contest :: after := by
        rw [hcontests, List.append_assoc, List.singleton_append]
      exact (ih hsplit hmiddle).calculate hdistinct hsplit hnext

/-- No copy of a rating is below the floor. -/
theorem Rebuilt.raiseToFloor {contests : List ContestRow} {during : RatingTables}
    (h : Rebuilt tables contests during) : (raiseToFloor during).Consistent := by
  refine ⟨h.consistent.single, h.consistent.known, fun row hrow hlatest => ?_⟩
  have hsynced := h.consistent.userRatings row hrow hlatest
  obtain ⟨user, huser, hrating⟩ := Option.map_eq_some_iff.mp hsynced
  have hfloor : ¬ user.rating < ratingFloor := by
    rw [hrating]
    exact not_lt.mpr (h.bounded row hrow)
  rw [RatingService.raiseToFloor, Table.get?_updateWhere, huser, Option.map_some, Option.map_some]
  rw [if_neg (by simpa using hfloor), hrating]

theorem consistent_recalculateAllRatings (hdistinct : tables.DistinctEnds)
    (h : RatingService.recalculateAllRatings M tables = some final) : final.Consistent := by
  obtain ⟨rated, hrated, rfl⟩ := Option.map_eq_some_iff.mp h
  exact (rebuilt_recalculateContests hdistinct (List.append_nil _).symm hrated).raiseToFloor

/-- The standings of a contest play no part in the invariant. -/
theorem Consistent.recalculated {A : FloatArith} {ranked : ContestTables} (h : tables.Consistent)
    (hranked : RankingService.recalculateContest A contest tables.toContestTables = some ranked) :
    RatingTables.Consistent { tables with toContestTables := ranked } := by
  obtain ⟨-, rfl⟩ := RankingService.recalculateContest_eq_some hranked
  exact h.congr rfl rfl (fun _ => rfl) fun _ => rfl

/-- The rounds of `end_contest` before it stamps the contest. -/
theorem Consistent.finalize (h : tables.Consistent)
    (hcontest : tables.contests.get? contest.id = some contest)
    (horder : Computes tables contest false → NoLaterRows tables contest)
    (hdone : ContestLifecycleService.finalize M contest tables = some final) :
    final.Consistent := by
  obtain ⟨ranked, hranked, hrest⟩ := Option.bind_eq_some_iff.mp hdone
  have hsame : ranked.contests = tables.contests := by
    obtain ⟨-, rfl⟩ := RankingService.recalculateContest_eq_some hranked
    rfl
  split at hrest
  · obtain ⟨⟨rows, next⟩, hnext, rfl⟩ := Option.map_eq_some_iff.mp hrest
    rcases calculateRatings_cases hnext with ⟨-, rfl⟩ | ⟨hcomputes, hrecomputed⟩
    · exact h.recalculated hranked
    · exact (h.recalculated hranked).recomputed (hsame ▸ hcontest)
        (noLaterRows_of_recalculated hranked (horder hcomputes))
        (noStaleUsers_of_not_force hcomputes) hrecomputed
  · cases hrest
    exact h.recalculated hranked

theorem Consistent.markEnded (h : tables.Consistent) (now : Time) (id : ℕ) :
    (ContestLifecycleService.markEnded now id tables).Consistent := by
  refine h.congr rfl rfl (fun other => ?_) fun other => ?_
  · rw [ContestLifecycleService.markEnded, Table.get?_modify]
    split <;> simp
  · rw [endTime, endTime, ContestLifecycleService.markEnded, Table.get?_modify]
    split
    · cases tables.contests.get? other <;> rfl
    · rfl

theorem Consistent.endContest {id : ℕ} {now : Time} (h : tables.Consistent)
    (horder : RatingOp.InOrder tables (.endContest id now))
    (hend : ContestLifecycleService.endContest M now id tables = some final) : final.Consistent := by
  unfold ContestLifecycleService.endContest at hend
  cases hcontest : tables.contests.get? id with
  | none =>
      rw [hcontest] at hend
      cases hend
      exact h
  | some contest =>
      rw [hcontest] at hend
      dsimp only at hend
      have hid : contest.id = id := Table.key_of_get? hcontest
      split at hend
      · cases hend
        exact h
      · next hopen =>
          obtain ⟨done, hdone, rfl⟩ := Option.map_eq_some_iff.mp hend
          refine (h.finalize (hid ▸ hcontest) (fun hcomputes => ?_) hdone).markEnded now id
          exact horder contest hcontest (by simpa using hopen) hcomputes

/-- An edit keeps which contests there are and when they end. -/
theorem get?_eq_of_schedule_eq {contests contests' : Table ContestRow ContestRow.id}
    (h : RatingOp.schedule contests = RatingOp.schedule contests') (id : ℕ) :
    (contests.get? id).map ContestRow.endTime = (contests'.get? id).map ContestRow.endTime := by
  have hfind : ∀ table : Table ContestRow ContestRow.id, (table.get? id).map ContestRow.endTime =
      ((RatingOp.schedule table).find? fun entry => entry.1 = id).map Prod.snd := by
    intro table
    rw [RatingOp.schedule, List.find?_map, Option.map_map]
    rfl
  rw [hfind, hfind, h]

theorem Consistent.edit {contests : Table ContestRow ContestRow.id}
    {participations : Table ParticipationRow ParticipationRow.id}
    {submissions : Table Submission Submission.id} (h : tables.Consistent)
    (hschedule : RatingOp.schedule contests = RatingOp.schedule tables.contests) :
    RatingTables.Consistent { tables with contests, participations, submissions } := by
  refine h.congr rfl rfl (fun id => ?_) fun id => ?_
  · have hmap := congrArg Option.isSome (get?_eq_of_schedule_eq hschedule id)
    simpa using hmap
  · rw [endTime_eq_getD, endTime_eq_getD]
    exact congrArg (fun found => found.getD 0) (get?_eq_of_schedule_eq hschedule id)

/-! ## Runs -/

theorem contests_finalize (h : ContestLifecycleService.finalize M contest tables = some final) :
    final.contests = tables.contests := by
  obtain ⟨ranked, hranked, hrest⟩ := Option.bind_eq_some_iff.mp h
  obtain ⟨-, rfl⟩ := RankingService.recalculateContest_eq_some hranked
  split at hrest
  · obtain ⟨⟨rows, next⟩, hnext, rfl⟩ := Option.map_eq_some_iff.mp hrest
    have hcontests := contests_calculateRatings hnext
    exact hcontests
  · cases hrest
    rfl

/-- No operation changes which contests there are and when they end. -/
theorem schedule_perform {op : RatingOp} (h : op.perform M tables = some final) :
    RatingOp.schedule final.contests = RatingOp.schedule tables.contests := by
  cases op with
  | calculateRatings id force =>
      obtain ⟨contest, -, hcalculate⟩ := Option.bind_eq_some_iff.mp h
      obtain ⟨⟨rows, next⟩, hnext, hfinal⟩ := Option.bind_eq_some_iff.mp hcalculate
      cases hfinal
      rw [contests_calculateRatings hnext]
  | endContest id now =>
      change ContestLifecycleService.endContest M now id tables = some final at h
      unfold ContestLifecycleService.endContest at h
      split at h
      · cases h
        rfl
      · split at h
        · cases h
          rfl
        · obtain ⟨done, hdone, rfl⟩ := Option.map_eq_some_iff.mp h
          rw [← contests_finalize hdone]
          exact Table.map_rows_updateWhere done.contests _
            (fun row => { row with endedAt := some now }) (fun _ => rfl) fun _ => rfl
  | recalculateAllRatings =>
      obtain ⟨rated, hrated, rfl⟩ := Option.map_eq_some_iff.mp h
      have hcontests := contests_recalculateContests hrated
      exact congrArg RatingOp.schedule hcontests
  | edit contests participations submissions =>
      change (if RatingOp.schedule contests = RatingOp.schedule tables.contests then
        some { tables with contests, participations, submissions } else none) = some final at h
      split at h
      · next hschedule =>
          cases h
          exact hschedule
      · exact nomatch h

/-- An operation that comes in the order of the contests keeps every copy right. -/
theorem Consistent.perform {op : RatingOp} (h : tables.Consistent) (hdistinct : tables.DistinctEnds)
    (horder : op.InOrder tables) (hperform : op.perform M tables = some final) :
    final.Consistent := by
  cases op with
  | calculateRatings id force =>
      obtain ⟨contest, hcontest, hcalculate⟩ := Option.bind_eq_some_iff.mp hperform
      obtain ⟨⟨rows, next⟩, hnext, hfinal⟩ := Option.bind_eq_some_iff.mp hcalculate
      cases hfinal
      have hid : contest.id = id := Table.key_of_get? hcontest
      rcases calculateRatings_cases hnext with ⟨-, rfl⟩ | ⟨hcomputes, hdone⟩
      · exact h
      · obtain ⟨hlater, hstale⟩ := horder contest hcontest hcomputes
        exact h.recomputed (hid ▸ hcontest) hlater hstale hdone
  | endContest id now => exact h.endContest horder hperform
  | recalculateAllRatings => exact consistent_recalculateAllRatings hdistinct hperform
  | edit contests participations submissions =>
      change (if RatingOp.schedule contests = RatingOp.schedule tables.contests then
        some { tables with contests, participations, submissions } else none) = some final at hperform
      split at hperform
      · next hschedule =>
          cases hperform
          exact h.edit hschedule
      · exact nomatch hperform

/-- The calculations of such an operation use earlier rows only. -/
theorem historyEarlier_of_calculates {op : RatingOp} {during : RatingTables}
    (hdistinct : tables.DistinctEnds) (horder : op.InOrder tables)
    (h : Calculates M tables op during contest) : HistoryEarlier during contest := by
  cases h with
  | calculateRatings hcontest hcomputes =>
      exact historyEarlier_of_noLaterRows (horder contest hcontest hcomputes).1
  | endContest hcontest hopen hranked hcomputes =>
      refine historyEarlier_of_noLaterRows (noLaterRows_of_recalculated hranked ?_)
      exact horder contest hcontest hopen hcomputes
  | recalculateAllRatings hcontests hbefore hcomputes =>
      exact historyEarlier_of_noLaterRows (noLaterRows_of_rebuilt hdistinct hcontests
        (rebuilt_recalculateContests hdistinct hcontests hbefore))

theorem distinctEnds_of_schedule
    (h : RatingOp.schedule final.contests = RatingOp.schedule tables.contests)
    (hdistinct : tables.DistinctEnds) : final.DistinctEnds := by
  have hmem : ∀ contest ∈ final.contests.rows, ∃ other ∈ tables.contests.rows,
      other.id = contest.id ∧ other.endTime = contest.endTime := by
    intro contest hcontest
    have hin : (contest.id, contest.endTime) ∈ RatingOp.schedule tables.contests :=
      h ▸ List.mem_map_of_mem hcontest
    obtain ⟨other, hother, heq⟩ := List.mem_map.mp hin
    exact ⟨other, hother, congrArg Prod.fst heq, congrArg Prod.snd heq⟩
  intro first hfirst second hsecond hends
  obtain ⟨first', hfirst', hid, hend⟩ := hmem first hfirst
  obtain ⟨second', hsecond', hid', hend'⟩ := hmem second hsecond
  rw [← hid, ← hid']
  exact hdistinct first' hfirst' second' hsecond' (by rw [hend, hend', hends])

/-- Every operation of the run comes in the order of the contests. -/
def RunInOrder (M : MathLibrary) (initial : RatingTables) (ops : List RatingOp) : Prop :=
  ∀ before op after, ops = before ++ op :: after → op.InOrder (run M initial before)

theorem run_append_singleton (initial : RatingTables) (ops : List RatingOp) (op : RatingOp) :
    run M initial (ops ++ [op]) = step M (run M initial ops) op := by
  rw [run, List.foldl_append, List.foldl_cons, List.foldl_nil, run]

/-- The invariant along a run, by induction on its end. -/
theorem consistent_run {initial : RatingTables} {ops : List RatingOp}
    (hempty : initial.ratings = ∅) (hdistinct : initial.DistinctEnds)
    (horder : RunInOrder M initial ops) :
    (run M initial ops).Consistent ∧ (run M initial ops).DistinctEnds := by
  induction ops using List.reverseRecOn with
  | nil =>
      have hnone : ∀ row : Rating, row ∉ initial.ratings.rows := fun row h => by
        simp [hempty] at h
      exact ⟨⟨fun _ row hrow => absurd hrow (hnone row), fun row hrow => absurd hrow (hnone row),
        fun row hrow => absurd hrow (hnone row)⟩, hdistinct⟩
  | append_singleton ops op ih =>
      obtain ⟨hconsistent, hends⟩ := ih fun before op' after heq =>
        horder before op' (after ++ [op]) (by rw [heq, List.append_assoc, List.cons_append])
      rw [run_append_singleton, step]
      cases hperform : op.perform M (run M initial ops) with
      | none => exact ⟨hconsistent, hends⟩
      | some final =>
          exact ⟨hconsistent.perform hends (horder ops op [] rfl) hperform,
            distinctEnds_of_schedule (schedule_perform hperform) hends⟩

/-- As long as the calculations of a run come in the order of the contests, every user
with a row carries the rating of their latest contest, and every calculation uses
only rows of earlier contests as a participant's history. -/
theorem userRatings_run {initial : RatingTables} {ops : List RatingOp}
    (hempty : initial.ratings = ∅) (hdistinct : initial.DistinctEnds)
    (horder : RunInOrder M initial ops) :
    (run M initial ops).UserRatings ∧
      ∀ before op after, ops = before ++ op :: after → ∀ during contest,
        Calculates M (run M initial before) op during contest → HistoryEarlier during contest := by
  refine ⟨(consistent_run hempty hdistinct horder).1.userRatings, ?_⟩
  intro before op after heq during contest hcalculates
  have hprefix : RunInOrder M initial before := fun start next rest hbefore =>
    horder start next (rest ++ op :: after)
      (by rw [heq, hbefore, List.append_assoc, List.cons_append])
  exact historyEarlier_of_calculates (consistent_run hempty hdistinct hprefix).2
    (horder before op after heq) hcalculates

/-! ## A forced calculation of an older contest -/

/-- A rated contest that ends at `endTime`. -/
def sampleContest (id : ℕ) (endTime : Time) : ContestRow where
  format := some .default
  startTime := 0
  problems := []
  problems_nodup := List.nodup_nil
  id
  endTime
  isRated := true
  rateAll := true

/-- One user takes part in two contests, alone. -/
def sampleTables : RatingTables where
  users := (∅ : Table User User.id).save { id := 1, username := "ada" }
  contests := ((∅ : Table ContestRow ContestRow.id).save (sampleContest 1 (3600 * second))).save
    (sampleContest 2 (7200 * second))
  participations := ((∅ : Table ParticipationRow ParticipationRow.id).save
    { id := 1, contest := 1, user := 1 }).save { id := 2, contest := 2, user := 1 }

theorem distinctEnds_sampleTables : sampleTables.DistinctEnds := by
  unfold DistinctEnds
  decide +kernel

/-- The later contest is rated first: then the row of the earlier one decides the
user's rating. -/
theorem stale_rating : sampleTables.ratings = ∅ ∧ sampleTables.DistinctEnds ∧
    ¬ (run .sample sampleTables
      [.calculateRatings 2 false, .calculateRatings 1 false]).UserRatings := by
  refine ⟨rfl, distinctEnds_sampleTables, fun h => ?_⟩
  set final := run .sample sampleTables [.calculateRatings 2 false, .calculateRatings 1 false]
    with hfinal
  have hrow : (final.ratings.get? 1).map (fun row => (row.user, row.contest, row.ratingAfter)) =
      some (1, 2, 1347) := by decide +kernel
  have hlatest : (final.ratings.rows.all fun other =>
      decide (final.endTime other.contest ≤ final.endTime 2)) = true := by decide +kernel
  have huser : (final.users.get? 1).map User.rating = some 1412 := by decide +kernel
  obtain ⟨row, hget, hvalues⟩ := Option.map_eq_some_iff.mp hrow
  simp only [Prod.mk.injEq] at hvalues
  obtain ⟨hid, hcontest, hafter⟩ := hvalues
  have hsynced := h row (Table.mem_of_get? hget) fun other hother _ => by
    rw [hcontest]
    exact of_decide_eq_true (List.all_eq_true.mp hlatest other hother)
  rw [hid, huser, hafter] at hsynced
  exact absurd hsynced (by decide)

/-- The earlier contest is rated first, then the later one. -/
theorem userRatings_run_sample : (run .sample sampleTables
    [.calculateRatings 1 false, .calculateRatings 2 false]).UserRatings := by
  refine (userRatings_run rfl distinctEnds_sampleTables ?_).1
  intro before op after heq
  rcases before with _ | ⟨first, _ | ⟨second, rest⟩⟩
  · cases heq
    intro contest _ hcomputes
    exact ⟨fun _ _ row hrow => absurd hrow List.not_mem_nil, noStaleUsers_of_not_force hcomputes⟩
  · cases heq
    intro contest hcontest hcomputes
    refine ⟨fun _ _ row hrow _ _ => ?_, noStaleUsers_of_not_force hcomputes⟩
    have hall : ((run .sample sampleTables [.calculateRatings 1 false]).ratings.rows.all
        fun row => decide ((run .sample sampleTables [.calculateRatings 1 false]).endTime
          row.contest < 7200 * second)) = true := by decide +kernel
    have hend : ((run .sample sampleTables [.calculateRatings 1 false]).contests.get? 2).map
        ContestRow.endTime = some (7200 * second) := by decide +kernel
    have hcontestEnd : contest.endTime = 7200 * second := by
      rw [hcontest] at hend
      exact Option.some.inj hend
    rw [hcontestEnd]
    exact of_decide_eq_true (List.all_eq_true.mp hall row hrow)
  · simp at heq

end RatingTables

end JudgeLoom
