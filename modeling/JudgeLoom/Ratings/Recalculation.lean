import JudgeLoom.Library.SplitBy
import JudgeLoom.Ratings.Consistency

/-!
# Full recalculation against the ratings of `end_contest`

`recalculate_all_ratings` deletes all rows and calculates every rated contest again,
whether it has ended or not, from users reset to the initial rating.  The rows come
out as `end_contest` wrote them as long as no contest that has not ended gets any:
the rows of a calculation depend on the standings and on the rows before them, and
not on what the users carry (`savedRatings_congr`).

`EndedOnce` is the history that the comparison is about, and
`recalculateAllRatings_agrees_iff` says when the two agree.  Besides the contests
that have not ended, the users matter: those below the floor are raised to it, and
`max_rating` restarts from the initial rating, which a new user does not have.
-/

namespace JudgeLoom

open RatingService

/-! ## What the rows of a calculation depend on -/

namespace RatingService

variable {M : MathLibrary} {tables other final : RatingTables} {contest twin : ContestRow}

/-- The item with nothing of the user but the id. -/
def Selected.bare (item : Selected) : Selected :=
  { item with user := { id := item.user.id, username := "" } }

def Result.bare (result : Result) : Result := { result with item := result.item.bare }

theorem groupRanks_map_bare (index : ℕ) (groups : List (List Selected)) :
    groupRanks index (groups.map (List.map Selected.bare)) = groupRanks index groups := by
  induction groups generalizing index with
  | nil => rfl
  | cons group rest ih =>
      rw [List.map_cons, groupRanks, groupRanks, List.length_map, ih]

theorem tieRanks_map_bare (items : List Selected) :
    tieRanks (items.map Selected.bare) = tieRanks items := by
  rw [tieRanks, List.splitBy_map, groupRanks_map_bare]
  rfl

theorem contestants_map_bare (items : List Selected) :
    contestants (items.map Selected.bare) = contestants items := by
  rw [contestants, tieRanks_map_bare, List.zip_map_left, List.map_map]
  rfl

theorem results_map_bare (items : List Selected) (outcomes : List EloMMR.Outcome) :
    results (items.map Selected.bare) outcomes = (results items outcomes).map Result.bare := by
  rw [results, results, tieRanks_map_bare, List.zip_map_left, List.zip_map_left, List.map_map,
    List.map_map]
  rfl

/-- The rows that a first calculation of the contest leaves. -/
def savedRatings (M : MathLibrary) (contest : ContestRow) (items : List Selected)
    (ratings : Table Rating Rating.id) : Option (Table Rating Rating.id) :=
  contest.format.bind fun _ => (EloMMR.recalculate M (contestants items)).bind fun outcomes =>
    ((results items outcomes).foldlM (saveRow M contest.id) ([], ratings)).map Prod.snd

/-- They depend on the users through their ids only. -/
theorem savedRatings_congr {items items' : List Selected} {ratings : Table Rating Rating.id}
    (hid : contest.id = twin.id) (hformat : contest.format = twin.format)
    (hitems : items.map Selected.bare = items'.map Selected.bare) :
    savedRatings M contest items ratings = savedRatings M twin items' ratings := by
  have hbare : ∀ (row : ContestRow) (list : List Selected),
      savedRatings M row (list.map Selected.bare) ratings = savedRatings M row list ratings := by
    intro row list
    unfold savedRatings
    simp only [contestants_map_bare, results_map_bare, List.foldlM_map]
    rfl
  rw [← hbare contest items, ← hbare twin items', hitems]
  unfold savedRatings
  rw [hid, hformat]

theorem map_ratings_calculateRatings (hrated : contest.isRated = true)
    (hnone : tables.ratingsOf contest.id = []) :
    (calculateRatings M contest false tables).map (fun done => done.2.ratings) =
      savedRatings M contest (selected tables contest) tables.ratings := by
  rw [calculateRatings_of_nil hrated hnone, savedRatings]
  cases contest.format with
  | none => rfl
  | some format =>
      rw [Option.bind_some, Option.bind_some]
      cases EloMMR.recalculate M (contestants (selected tables contest)) with
      | none => rfl
      | some outcomes =>
          rw [Option.bind_some, Option.bind_some, foldlM_saveOutcome, Option.map_map]
          rfl

/-- The same rows, with the same end times of their contests. -/
structure SameHistory (tables other : RatingTables) : Prop where
  ratings : tables.ratings = other.ratings
  ends : ∀ row ∈ tables.ratings.rows, tables.endTime row.contest = other.endTime row.contest

theorem SameHistory.history (h : SameHistory tables other) (contest user : ℕ) :
    tables.history contest user = other.history contest user := by
  rw [RatingTables.history, RatingTables.history, ← h.ratings]
  refine List.sortBy_congr fun first hfirst second hsecond => ?_
  rw [h.ends first (List.mem_of_mem_filter hfirst), h.ends second (List.mem_of_mem_filter hsecond)]

theorem SameHistory.lastRating (h : SameHistory tables other) (contest user : ℕ) :
    lastRating tables contest user = lastRating other contest user := by
  rw [RatingService.lastRating, h.history, RatingService.lastRating]

/-- The same participants are selected, with the same history. -/
theorem map_bare_selected (h : SameHistory tables other) (hid : contest.id = twin.id)
    (hfloor : contest.ratingFloor = twin.ratingFloor)
    (hceiling : contest.ratingCeiling = twin.ratingCeiling)
    (hstandings : standings tables.toContestTables contest = standings other.toContestTables twin)
    (hknown : ∀ standing ∈ standings other.toContestTables twin,
      (tables.users.get? standing.user).isSome ∧ (other.users.get? standing.user).isSome) :
    (selected tables contest).map Selected.bare = (selected other twin).map Selected.bare := by
  rw [selected, selected, List.map_filterMap, List.map_filterMap, hstandings]
  refine List.filterMap_congr fun standing hstanding => ?_
  obtain ⟨husers, husers'⟩ := hknown standing hstanding
  obtain ⟨user, huser⟩ := Option.isSome_iff_exists.mp husers
  obtain ⟨user', huser'⟩ := Option.isSome_iff_exists.mp husers'
  have hcollect : (collect tables contest.id user standing).bare =
      (collect other twin.id user' standing).bare := by
    have hkey : user.id = standing.user := Table.key_of_get? huser
    have hkey' : user'.id = standing.user := Table.key_of_get? huser'
    simp only [collect, Selected.bare, hkey, hkey', h.history, hid]
  have hbefore : (collect tables contest.id user standing).ratingBefore =
      (collect other twin.id user' standing).ratingBefore := by
    have hbare := congrArg Selected.ratingBefore hcollect
    exact hbare
  rw [select, select, huser, huser']
  simp only [Option.bind_eq_bind, Option.bind_some, hfloor, hceiling, hbefore]
  split
  · rfl
  split
  · rfl
  exact congrArg some hcollect

end RatingService

/-! ## The history -/

/-- What the ratings of a contest were computed from when it ended is what the tables
say now. -/
structure Unchanged (ended now : RatingTables) (old new : ContestRow) : Prop where
  format : new.format = old.format
  ratingFloor : new.ratingFloor = old.ratingFloor
  ratingCeiling : new.ratingCeiling = old.ratingCeiling
  standings : RatingService.standings now.toContestTables new =
    RatingService.standings ended.toContestTables old
  known : ∀ standing ∈ RatingService.standings ended.toContestTables old,
    (ended.users.get? standing.user).isSome ∧ (now.users.get? standing.user).isSome
  ends : ∀ row ∈ ended.ratings.rows, now.endTime row.contest = ended.endTime row.contest

/-- Changes that neither touch a rating row nor what a user has from the ratings. -/
structure Edited (before after : RatingTables) : Prop where
  ratings : after.ratings = before.ratings
  users : ∀ id user, before.users.get? id = some user →
    (after.users.get? id).map (fun user => (user.rating, user.maxRating)) =
      some (user.rating, user.maxRating)

/-- The contests were rated by `end_contest`, one after the other, the latest first in
the list; what they were rated by is still in `final`. -/
inductive EndedOnce (M : MathLibrary) (final : RatingTables) : List ℕ → RatingTables → Prop
  | start {tables : RatingTables} (hempty : tables.ratings = ∅) : EndedOnce M final [] tables
  | endContest {ids : List ℕ} {tables ended edited : RatingTables} {id : ℕ} {now : Time}
      {contest : ContestRow} (hbefore : EndedOnce M final ids tables)
      (hcontest : tables.contests.get? id = some contest) (hopen : contest.endedAt = none)
      (hrated : contest.isRated = true)
      (hend : ContestLifecycleService.endContest M now id tables = some ended)
      (hkept : ∀ old new, ended.contests.get? id = some old → final.contests.get? id = some new →
        Unchanged ended final old new)
      (hedited : Edited ended edited) : EndedOnce M final (id :: ids) edited

/-- The contests of the list that have ended, the last one first. -/
def endedIds (contests : List ContestRow) : List ℕ :=
  ((contests.filter fun contest => contest.endedAt.isSome).map ContestRow.id).reverse

namespace RatingTables

variable {M : MathLibrary} {tables final : RatingTables} {contest : ContestRow}

/-- The ratings that a user's rows ended with. -/
def ratingsAfter (tables : RatingTables) (user : ℕ) : Set ℤ :=
  { rating | ∃ row ∈ tables.ratings.rows, row.user = user ∧ row.ratingAfter = rating }

/-- The user has a Rating row. -/
def HasRating (tables : RatingTables) (user : ℕ) : Prop :=
  ∃ row ∈ tables.ratings.rows, row.user = user

/-- The tables with the rows of the contests that come before `contest` only. -/
def upTo (tables : RatingTables) (contest : ContestRow) : RatingTables :=
  { tables with
    ratings := tables.ratings.filter fun row =>
      toLex (tables.endTime row.contest, row.contest) < toLex (contest.endTime, contest.id) }

/-- A row as far as a user sees it. -/
def summary (row : Rating) : ℕ × ℕ × ℕ × ℤ × ℤ × ℚ × ℚ :=
  (row.user, row.contest, row.rank, row.ratingBefore, row.ratingAfter, row.mean, row.performance)

/-- `recalculate_all_ratings` changes no rating, and rates no contest that has not ended. -/
def AgreesWithHistory (M : MathLibrary) (tables : RatingTables) : Prop :=
  ∃ final, recalculateAllRatings M tables = some final ∧
    (final.ratings.rows.map summary).Perm (tables.ratings.rows.map summary) ∧
    (∀ id, (final.users.get? id).map (fun user => (user.rating, user.maxRating)) =
      (tables.users.get? id).map fun user => (user.rating, user.maxRating)) ∧
    ∀ contest ∈ tables.contests.rows, contest.endedAt = none → final.ratingsOf contest.id = []

/-- No contest that has not ended has participants that it would rate, no rating is
below the floor, and `max_rating` counts from the initial rating. -/
structure Recalculable (tables : RatingTables) : Prop where
  quiet : ∀ contest ∈ tables.contests.rows, contest.isRated = true → contest.endedAt = none →
    contest.format.isSome ∧ ∀ user, ¬ Rates (tables.upTo contest) contest user
  aboveFloor : ∀ user ∈ tables.users.rows, ratingFloor ≤ user.rating
  peaks : ∀ user ∈ tables.users.rows, tables.HasRating user.id →
    IsGreatest (insert EloMMR.ratingInit (tables.ratingsAfter user.id)) user.maxRating

/-! ## One end of a contest -/

/-- `end_contest` on a rated contest that is open. -/
theorem endContest_eq_some {id : ℕ} {now : Time} {ended : RatingTables}
    (hcontest : tables.contests.get? id = some contest) (hopen : contest.endedAt = none)
    (hrated : contest.isRated = true)
    (h : ContestLifecycleService.endContest M now id tables = some ended) :
    ∃ participations rows done,
      calculateRatings M contest false { tables with participations } = some (rows, done) ∧
        ended = ContestLifecycleService.markEnded now id done := by
  unfold ContestLifecycleService.endContest at h
  rw [hcontest] at h
  dsimp only at h
  rw [if_neg (by simp [hopen])] at h
  obtain ⟨done, hdone, rfl⟩ := Option.map_eq_some_iff.mp h
  obtain ⟨ranked, hranked, hrest⟩ := Option.bind_eq_some_iff.mp hdone
  rw [if_pos hrated] at hrest
  obtain ⟨⟨rows, done⟩, hcalculate, rfl⟩ := Option.map_eq_some_iff.mp hrest
  obtain ⟨-, rfl⟩ := RankingService.recalculateContest_eq_some hranked
  exact ⟨_, rows, done, hcalculate, rfl⟩

theorem endTime_markEnded (now : Time) (id other : ℕ) :
    (ContestLifecycleService.markEnded now id tables).endTime other = tables.endTime other := by
  rw [endTime, endTime, ContestLifecycleService.markEnded, Table.get?_modify]
  split
  · cases tables.contests.get? other <;> rfl
  · rfl

/-- The rows are those of the contests that have been ended. -/
theorem contest_mem_of_endedOnce {ids : List ℕ} (h : EndedOnce M final ids tables) :
    ∀ row ∈ tables.ratings.rows, row.contest ∈ ids := by
  induction h with
  | start hempty =>
      intro row hrow
      rw [hempty] at hrow
      exact absurd hrow List.not_mem_nil
  | @endContest ids tables ended edited id now contest hbefore hcontest hopen hrated hend _ hedited
      ih =>
      obtain ⟨participations, rows, done, hcalculate, rfl⟩ :=
        endContest_eq_some hcontest hopen hrated hend
      intro row hrow
      rw [hedited.ratings] at hrow
      rcases calculateRatings_cases hcalculate with ⟨-, rfl⟩ | ⟨-, hdone⟩
      · exact List.mem_cons_of_mem _ (ih row hrow)
      · by_cases hc : row.contest = contest.id
        · rw [hc, Table.key_of_get? hcontest]
          exact List.mem_cons_self
        · exact List.mem_cons_of_mem _ (ih row ((hdone.others row hc).mp hrow))

/-- When a contest ends it has no rows. -/
theorem computes_of_endedOnce {ids : List ℕ} {id : ℕ} {participations}
    (h : EndedOnce M final ids tables) (hcontest : tables.contests.get? id = some contest)
    (hrated : contest.isRated = true) (hid : id ∉ ids) :
    Computes { tables with participations } contest false := by
  refine ⟨hrated, Or.inl (ratingsOf_eq_nil.mpr fun row hrow heq => hid ?_)⟩
  rw [← Table.key_of_get? hcontest, ← heq]
  exact contest_mem_of_endedOnce h row hrow

/-- The tables at an earlier end of a contest. -/
theorem exists_endedOnce_of_append {ids later : List ℕ} (h : EndedOnce M final (later ++ ids) tables)
    (hnodup : (later ++ ids).Nodup) :
    ∃ earlier, EndedOnce M final ids earlier ∧
      ∀ row, row ∈ earlier.ratings.rows ↔ row ∈ tables.ratings.rows ∧ row.contest ∈ ids := by
  induction later generalizing tables with
  | nil =>
      refine ⟨tables, h, fun row => ⟨fun hrow => ⟨hrow, ?_⟩, fun hrow => hrow.1⟩⟩
      exact contest_mem_of_endedOnce h row hrow
  | cons id later ih =>
      rw [List.cons_append, List.nodup_cons] at hnodup
      cases h with
      | endContest hbefore hcontest hopen hrated hend hkept hedited =>
          obtain ⟨earlier, hearlier, hrows⟩ := ih hbefore hnodup.2
          obtain ⟨participations, rows, done, hcalculate, rfl⟩ :=
            endContest_eq_some hcontest hopen hrated hend
          refine ⟨earlier, hearlier, fun row => (hrows row).trans (and_congr_left fun hmem => ?_)⟩
          have hother : row.contest ≠ id := fun heq =>
            hnodup.1 (List.mem_append_right _ (heq ▸ hmem))
          rw [hedited.ratings]
          rcases calculateRatings_cases hcalculate with ⟨-, rfl⟩ | ⟨-, hdone⟩
          · exact Iff.rfl
          · exact (hdone.others row (Table.key_of_get? hcontest ▸ hother)).symm

/-! ## The recalculation, contest by contest -/

/-- What the recalculation has done after the contests that `tables` has rows of. -/
structure Rebuilds (final rebuilt tables : RatingTables) : Prop where
  same : rebuilt = { final with users := rebuilt.users, ratings := rebuilt.ratings }
  ratings : rebuilt.ratings = tables.ratings
  known : ∀ id, (rebuilt.users.get? id).isSome = (final.users.get? id).isSome
  synced : ∀ id, tables.HasRating id → ∃ rating,
    (rebuilt.users.get? id).map User.rating = some rating ∧
      (tables.users.get? id).map User.rating = some rating
  peaks : ∀ id user, rebuilt.users.get? id = some user → final.HasRating id →
    IsGreatest (insert EloMMR.ratingInit (rebuilt.ratingsAfter id)) user.maxRating
  untouched : ∀ id, ¬ rebuilt.HasRating id →
    rebuilt.users.get? id = (resetRatings final).users.get? id

theorem hasRating_iff_any {id : ℕ} :
    (tables.ratings.rows.any fun rating => rating.user = id) = true ↔ tables.HasRating id := by
  rw [List.any_eq_true, HasRating]
  simp only [decide_eq_true_eq]

theorem get?_users_resetRatings (id : ℕ) :
    (resetRatings tables).users.get? id = (tables.users.get? id).map fun user =>
      if tables.ratings.rows.any (fun rating => rating.user = user.id) then
        { user with rating := EloMMR.ratingInit, maxRating := EloMMR.ratingInit }
      else user := by
  rw [resetRatings, Table.get?_updateWhere]

theorem rebuilds_resetRatings (hempty : tables.ratings = ∅) :
    Rebuilds final (resetRatings final) tables := by
  have hnone : ∀ id, (resetRatings final).ratingsAfter id = ∅ := by
    intro id
    refine Set.eq_empty_of_forall_notMem fun rating hrating => ?_
    obtain ⟨row, hrow, -⟩ := hrating
    exact List.not_mem_nil hrow
  refine ⟨rfl, hempty.symm, fun id => ?_, fun id hrated => ?_, fun id user huser hrated => ?_,
    fun _ _ => rfl⟩
  · rw [get?_users_resetRatings, Option.isSome_map]
  · obtain ⟨row, hrow, -⟩ := hrated
    rw [hempty] at hrow
    exact absurd hrow List.not_mem_nil
  · rw [get?_users_resetRatings] at huser
    obtain ⟨old, hold, rfl⟩ := Option.map_eq_some_iff.mp huser
    have hid : old.id = id := Table.key_of_get? hold
    rw [hnone, if_pos (hasRating_iff_any.mpr (hid.symm ▸ hrated)), insert_empty_eq]
    exact isGreatest_singleton

/-- A contest that rates nobody leaves the rebuilt tables alone. -/
theorem calculateRatings_of_quiet (hrated : contest.isRated = true)
    (hformat : contest.format.isSome) (hnone : tables.ratingsOf contest.id = [])
    (hempty : selected tables contest = []) :
    calculateRatings M contest false tables = some ([], tables) := by
  rw [calculateRatings_of_selected_nil hrated hnone hempty]
  obtain ⟨format, hformat⟩ := Option.isSome_iff_exists.mp hformat
  rw [hformat, Option.map_some]

/-- The rows after a calculation tell whom it has rated. -/
theorem hasRating_recomputed {user : ℕ} (h : Recomputed M tables contest final)
    (hnone : tables.ratingsOf contest.id = []) :
    final.HasRating user ↔ tables.HasRating user ∨ ∃ item ∈ selected tables contest,
      item.user.id = user := by
  constructor
  · rintro ⟨row, hrow, rfl⟩
    by_cases hc : row.contest = contest.id
    · exact Or.inr (h.rated row hrow hc)
    · exact Or.inl ⟨row, (h.others row hc).mp hrow, rfl⟩
  · rintro (⟨row, hrow, rfl⟩ | ⟨item, hitem, rfl⟩)
    · exact ⟨row, (h.others row (ratingsOf_eq_nil.mp hnone row hrow)).mpr hrow, rfl⟩
    · obtain ⟨row, hrow, -, huser⟩ := h.every item hitem
      exact ⟨row, hrow, huser⟩

theorem ratingsAfter_recomputed {row : Rating} (h : Recomputed M tables contest final)
    (hnone : tables.ratingsOf contest.id = []) (hrow : row ∈ final.ratings.rows)
    (hc : row.contest = contest.id) :
    final.ratingsAfter row.user = insert row.ratingAfter (tables.ratingsAfter row.user) := by
  ext rating
  constructor
  · rintro ⟨other, hother, huser, rfl⟩
    by_cases hc' : other.contest = contest.id
    · rw [h.single other hother row hrow hc' hc huser]
      exact Or.inl rfl
    · exact Or.inr ⟨other, (h.others other hc').mp hother, huser, rfl⟩
  · rintro (rfl | ⟨other, hother, huser, rfl⟩)
    · exact ⟨row, hrow, rfl, rfl⟩
    · exact ⟨other, (h.others other (ratingsOf_eq_nil.mp hnone other hother)).mpr hother, huser, rfl⟩

theorem ratingsAfter_of_not_selected {user : ℕ} (h : Recomputed M tables contest final)
    (hnone : tables.ratingsOf contest.id = [])
    (huser : ∀ item ∈ selected tables contest, item.user.id ≠ user) :
    final.ratingsAfter user = tables.ratingsAfter user := by
  ext rating
  refine exists_congr fun row => ?_
  constructor
  · rintro ⟨hrow, rfl, rfl⟩
    by_cases hc : row.contest = contest.id
    · obtain ⟨item, hitem, heq⟩ := h.rated row hrow hc
      exact absurd heq (huser item hitem)
    · exact ⟨(h.others row hc).mp hrow, rfl, rfl⟩
  · rintro ⟨hrow, heq⟩
    exact ⟨(h.others row (ratingsOf_eq_nil.mp hnone row hrow)).mpr hrow, heq⟩

/-- Users are not deleted. -/
theorem isSome_users_recomputed (h : Recomputed M tables contest final) (user : ℕ) :
    (final.users.get? user).isSome = (tables.users.get? user).isSome := by
  by_cases hselected : ∃ item ∈ selected tables contest, item.user.id = user
  · obtain ⟨item, hitem, rfl⟩ := hselected
    obtain ⟨row, hrow, hc, huser⟩ := h.every item hitem
    have hsynced := congrArg Option.isSome (h.synced row hrow hc)
    rw [Option.isSome_map, huser] at hsynced
    rw [hsynced, user_of_mem_selected hitem]
    rfl
  · rw [h.untouched user fun item hitem heq => hselected ⟨item, hitem, heq⟩]

/-- The invariant of a calculation on both sides that leaves the same rows. -/
theorem Rebuilds.recomputed {rebuilt rebuilt' during done : RatingTables} {twin : ContestRow}
    (h : Rebuilds final rebuilt during) (hid : twin.id = contest.id)
    (hnone : during.ratingsOf contest.id = [])
    (hdone : Recomputed M during contest done) (hdone' : Recomputed M rebuilt twin rebuilt')
    (hratings : rebuilt'.ratings = done.ratings) : Rebuilds final rebuilt' done := by
  have hnone' : rebuilt.ratingsOf twin.id = [] := by
    rw [ratingsOf, h.ratings, hid]
    exact hnone
  have hselected : ∀ user, (∃ item ∈ selected during contest, item.user.id = user) ↔
      ∃ row ∈ done.ratings.rows, row.contest = contest.id ∧ row.user = user := by
    intro user
    constructor
    · rintro ⟨item, hitem, rfl⟩
      exact hdone.every item hitem
    · rintro ⟨row, hrow, hc, rfl⟩
      exact hdone.rated row hrow hc
  have hselected' : ∀ user, (∃ item ∈ selected rebuilt twin, item.user.id = user) ↔
      ∃ row ∈ done.ratings.rows, row.contest = contest.id ∧ row.user = user := by
    intro user
    rw [← hratings, ← hid]
    constructor
    · rintro ⟨item, hitem, rfl⟩
      exact hdone'.every item hitem
    · rintro ⟨row, hrow, hc, rfl⟩
      exact hdone'.rated row hrow hc
  refine ⟨?_, hratings, fun id => ?_, fun id hrated => ?_, fun id user huser hrated => ?_,
    fun id hnot => ?_⟩
  · rw [hdone'.same, h.same]
  · rw [isSome_users_recomputed hdone', h.known]
  · by_cases hnew : ∃ row ∈ done.ratings.rows, row.contest = contest.id ∧ row.user = id
    · obtain ⟨row, hrow, hc, rfl⟩ := hnew
      exact ⟨row.ratingAfter, hdone'.synced row (hratings ▸ hrow) (hc.trans hid.symm),
        hdone.synced row hrow hc⟩
    · have hnot := fun item hitem heq => hnew ((hselected id).mp ⟨item, hitem, heq⟩)
      have hnot' := fun item hitem heq => hnew ((hselected' id).mp ⟨item, hitem, heq⟩)
      rw [hdone.untouched id hnot, hdone'.untouched id hnot']
      refine h.synced id (((hasRating_recomputed hdone hnone).mp hrated).resolve_right ?_)
      rintro ⟨item, hitem, heq⟩
      exact hnot item hitem heq
  · by_cases hnew : ∃ row ∈ done.ratings.rows, row.contest = contest.id ∧ row.user = id
    · obtain ⟨row, hrow, hc, rfl⟩ := hnew
      have hrow' : row ∈ rebuilt'.ratings.rows := hratings ▸ hrow
      have hraised := hdone'.raised row hrow' (hc.trans hid.symm)
      rw [huser, Option.map_some] at hraised
      obtain ⟨old, hold, hmax⟩ := Option.map_eq_some_iff.mp hraised.symm
      rw [ratingsAfter_recomputed hdone' hnone' hrow' (hc.trans hid.symm), Set.insert_comm, ← hmax,
        max_comm]
      exact (h.peaks row.user old hold hrated).insert row.ratingAfter
    · have hnot' := fun item hitem heq => hnew ((hselected' id).mp ⟨item, hitem, heq⟩)
      rw [hdone'.untouched id hnot'] at huser
      rw [ratingsAfter_of_not_selected hdone' hnone' hnot']
      exact h.peaks id user huser hrated
  · rw [hasRating_recomputed hdone' hnone', not_or] at hnot
    rw [hdone'.untouched id fun item hitem heq => hnot.2 ⟨item, hitem, heq⟩]
    exact h.untouched id hnot.1

/-- Only the rows and the ratings of the users matter. -/
theorem Rebuilds.congr {rebuilt other : RatingTables} (h : Rebuilds final rebuilt tables)
    (hratings : other.ratings = tables.ratings)
    (husers : ∀ id user, tables.users.get? id = some user →
      (other.users.get? id).map User.rating = some user.rating) : Rebuilds final rebuilt other := by
  refine ⟨h.same, h.ratings.trans hratings.symm, h.known, fun id hrated => ?_, h.peaks, h.untouched⟩
  obtain ⟨rating, hrebuilt, htables⟩ := h.synced id (by rwa [HasRating, ← hratings])
  obtain ⟨user, huser, rfl⟩ := Option.map_eq_some_iff.mp htables
  exact ⟨user.rating, hrebuilt, husers id user huser⟩

theorem Rebuilds.edited {rebuilt edited : RatingTables} (h : Rebuilds final rebuilt tables)
    (hedited : Edited tables edited) : Rebuilds final rebuilt edited := by
  refine h.congr hedited.ratings fun id user huser => ?_
  have hkept := congrArg (Option.map Prod.fst) (hedited.users id user huser)
  rwa [Option.map_map, Option.map_some] at hkept

theorem Rebuilds.endTime_eq {rebuilt : RatingTables} (h : Rebuilds final rebuilt tables) (id : ℕ) :
    rebuilt.endTime id = final.endTime id := by
  rw [h.same]
  rfl

theorem Rebuilds.standings_eq {rebuilt : RatingTables} (h : Rebuilds final rebuilt tables)
    (contest : ContestRow) :
    standings rebuilt.toContestTables contest = standings final.toContestTables contest := by
  have hsame : rebuilt.toContestTables = { final.toContestTables with users := rebuilt.users } := by
    rw [h.same]
  rw [hsame, standings_users]

/-- The end of a contest does not change its standings. -/
theorem standings_markEnded {during done : RatingTables} (h : Recomputed M during contest done)
    (now : Time) (id : ℕ) :
    standings (ContestLifecycleService.markEnded now id done).toContestTables
      { contest with endedAt := some now } = standings during.toContestTables contest := by
  have hsame : done.toContestTables = { during.toContestTables with users := done.users } := by
    rw [h.same]
  rw [← standings_users during.toContestTables contest done.users, ← hsame,
    RatingService.standings_eq, RatingService.standings_eq]
  rfl

/-- A calculation leaves the rows that the end of the contest left. -/
theorem Rebuilds.endContest {ids : List ℕ} {rebuilt ended : RatingTables} {id : ℕ} {now : Time}
    {twin : ContestRow} (h : Rebuilds final rebuilt tables)
    (hhistory : EndedOnce M final ids tables) (hfresh : id ∉ ids)
    (hcontest : tables.contests.get? id = some contest) (hopen : contest.endedAt = none)
    (hrated : contest.isRated = true)
    (hend : ContestLifecycleService.endContest M now id tables = some ended)
    (htwin : final.contests.get? id = some twin) (hrated' : twin.isRated = true)
    (hkept : ∀ old, ended.contests.get? id = some old → Unchanged ended final old twin) :
    ∃ rows rebuilt', calculateRatings M twin false rebuilt = some (rows, rebuilt') ∧
      Rebuilds final rebuilt' ended := by
  obtain ⟨participations, rows, done, hcalculate, rfl⟩ :=
    endContest_eq_some hcontest hopen hrated hend
  set during : RatingTables := { tables with participations } with hduringDef
  have hid : contest.id = id := Table.key_of_get? hcontest
  have hid' : twin.id = contest.id := (Table.key_of_get? htwin).trans hid.symm
  have hcomputes : Computes during contest false :=
    computes_of_endedOnce hhistory hcontest hrated hfresh
  have hnone : during.ratingsOf contest.id = [] := hcomputes.2.resolve_right (by decide)
  have hdone : Recomputed M during contest done :=
    ((calculateRatings_cases hcalculate).resolve_left fun hnot => hnot.1 hcomputes).2
  have hduring : Rebuilds final rebuilt during :=
    h.congr rfl fun _ user huser => congrArg (Option.map User.rating) huser
  have hnone' : rebuilt.ratingsOf twin.id = [] := by
    rw [ratingsOf, hduring.ratings, hid']
    exact hnone
  -- the row of the contest after its end, and what has been kept since
  have hold : (ContestLifecycleService.markEnded now id done).contests.get? id =
      some { contest with endedAt := some now } := by
    have hcontests : done.contests = tables.contests := by rw [hdone.same]
    rw [ContestLifecycleService.markEnded, Table.get?_modify, if_pos rfl, hcontests, hcontest,
      Option.map_some]
  have hunchanged := hkept _ hold
  have hstandings := standings_markEnded hdone now id
  have hhistory' : SameHistory rebuilt during := by
    refine ⟨hduring.ratings, fun row hrow => ?_⟩
    rw [hduring.ratings] at hrow
    have hrow' : row ∈ done.ratings.rows :=
      (hdone.others row (ratingsOf_eq_nil.mp hnone row hrow)).mpr hrow
    rw [hduring.endTime_eq, hunchanged.ends row hrow', endTime_markEnded, hdone.same]
    rfl
  have hselected : (selected rebuilt twin).map Selected.bare =
      (selected during contest).map Selected.bare := by
    refine map_bare_selected hhistory' hid' hunchanged.ratingFloor hunchanged.ratingCeiling ?_ ?_
    · rw [hduring.standings_eq, hunchanged.standings, hstandings]
    · intro standing hstanding
      rw [← hstandings] at hstanding
      obtain ⟨hended, hfinal⟩ := hunchanged.known standing hstanding
      exact ⟨(hduring.known _).trans hfinal, (isSome_users_recomputed hdone _).symm.trans hended⟩
  have hsaved : (calculateRatings M twin false rebuilt).map (fun done => done.2.ratings) =
      some done.ratings := by
    rw [map_ratings_calculateRatings hrated' hnone', hduring.ratings,
      savedRatings_congr hid' hunchanged.format hselected,
      ← map_ratings_calculateRatings hrated hnone, hcalculate, Option.map_some]
  obtain ⟨⟨rows', rebuilt'⟩, hcalculate', hratings⟩ := Option.map_eq_some_iff.mp hsaved
  have hcomputes' : Computes rebuilt twin false := ⟨hrated', Or.inl hnone'⟩
  have hdone' : Recomputed M rebuilt twin rebuilt' :=
    ((calculateRatings_cases hcalculate').resolve_left fun hnot => hnot.1 hcomputes').2
  refine ⟨rows', rebuilt', hcalculate', ?_⟩
  have hrebuilds := hduring.recomputed hid' hnone hdone hdone' hratings
  exact hrebuilds.congr rfl fun _ user huser => congrArg (Option.map User.rating) huser

/-! ## The whole loop -/

/-- The contests of the list that have not ended get no rows. -/
def Quiet (M : MathLibrary) (final : RatingTables) (contests : List ContestRow) : Prop :=
  ∀ before contest after, contests = before ++ contest :: after → contest.endedAt = none →
    ∀ rebuilt, recalculateContests M before (resetRatings final) = some rebuilt →
      contest.format.isSome ∧ selected rebuilt contest = []

theorem Quiet.of_append {before after : List ContestRow} (h : Quiet M final (before ++ after)) :
    Quiet M final before := by
  intro start contest rest hbefore
  exact h start contest (rest ++ after) (by rw [hbefore, List.append_assoc, List.cons_append])

theorem Quiet.append_singleton {before : List ContestRow} (h : Quiet M final before)
    (hcontest : contest.endedAt = none →
      ∀ rebuilt, recalculateContests M before (resetRatings final) = some rebuilt →
        contest.format.isSome ∧ selected rebuilt contest = []) :
    Quiet M final (before ++ [contest]) := by
  intro start other rest hsplit
  rcases List.eq_nil_or_concat rest with rfl | ⟨rest, last, rfl⟩
  · obtain ⟨rfl, heq⟩ := List.append_inj' hsplit rfl
    cases heq
    exact hcontest
  · rw [List.concat_eq_append, ← List.cons_append, ← List.append_assoc] at hsplit
    exact h start other rest (List.append_inj' hsplit rfl).1

theorem endedIds_append (before after : List ContestRow) :
    endedIds (before ++ after) = endedIds after ++ endedIds before := by
  rw [endedIds, List.filter_append, List.map_append, List.reverse_append]
  rfl

theorem mem_endedIds {contests : List ContestRow} {id : ℕ} :
    id ∈ endedIds contests ↔
      ∃ contest ∈ contests, contest.endedAt.isSome = true ∧ contest.id = id := by
  rw [endedIds, List.mem_reverse, List.mem_map]
  simp only [List.mem_filter, and_assoc]

theorem nodup_ratedContests : ((ratedContests tables).map ContestRow.id).Nodup := by
  have hperm := (List.perm_sortBy (fun contest : ContestRow => toLex (contest.endTime, contest.id))
    (tables.contests.rows.filter fun contest => contest.isRated)).map ContestRow.id
  exact hperm.nodup_iff.mpr (tables.contests.nodup_keys.sublist (List.filter_sublist.map _))

theorem nodup_endedIds : (endedIds (ratedContests tables)).Nodup :=
  List.nodup_reverse.mpr (nodup_ratedContests.sublist (List.filter_sublist.map _))

/-- A contest comes once. -/
theorem id_not_mem_endedIds {before after : List ContestRow}
    (hcontests : ratedContests tables = before ++ contest :: after) :
    contest.id ∉ endedIds before := by
  intro hmem
  obtain ⟨other, hother, -, hid⟩ := mem_endedIds.mp hmem
  have hnodup : ((ratedContests tables).map ContestRow.id).Nodup := nodup_ratedContests
  rw [hcontests, List.map_append, List.map_cons] at hnodup
  refine (List.nodup_append.mp hnodup).2.2 other.id (List.mem_map_of_mem hother) contest.id
    List.mem_cons_self hid

/-- Every round of the loop leaves what the history left at that contest. -/
theorem exists_rebuilds {before after : List ContestRow}
    (hcontests : ratedContests final = before ++ after) (hquiet : Quiet M final before)
    (h : EndedOnce M final (endedIds before) tables) :
    ∃ rebuilt, recalculateContests M before (resetRatings final) = some rebuilt ∧
      Rebuilds final rebuilt tables := by
  induction before using List.reverseRecOn generalizing after tables with
  | nil =>
      cases h with
      | start hempty => exact ⟨_, rfl, rebuilds_resetRatings hempty⟩
  | append_singleton before contest ih =>
      have hsplit : ratedContests final = before ++ contest :: after := by
        rw [hcontests, List.append_assoc, List.singleton_append]
      obtain ⟨hstored, hrated⟩ := mem_ratedContests.mp
        (hsplit ▸ List.mem_append_right before List.mem_cons_self)
      have htwin : final.contests.get? contest.id = some contest := Table.get?_key_of_mem hstored
      have hfresh := id_not_mem_endedIds hsplit
      rw [recalculateContests_append_singleton]
      rw [endedIds_append] at h
      cases hended : contest.endedAt with
      | none =>
          have hids : endedIds [contest] = [] := by simp [endedIds, hended]
          rw [hids, List.nil_append] at h
          obtain ⟨rebuilt, hrebuilt, hrebuilds⟩ := ih hsplit hquiet.of_append h
          obtain ⟨hformat, hselected⟩ := hquiet before contest [] rfl hended rebuilt hrebuilt
          refine ⟨rebuilt, ?_, hrebuilds⟩
          have hnone : rebuilt.ratingsOf contest.id = [] := by
            refine ratingsOf_eq_nil.mpr fun row hrow heq => hfresh (heq ▸ ?_)
            exact contest_mem_of_endedOnce h row (hrebuilds.ratings ▸ hrow)
          rw [hrebuilt, Option.bind_some, calculateRatings_of_quiet hrated hformat hnone hselected,
            Option.map_some]
      | some endedAt =>
          have hids : endedIds [contest] = [contest.id] := by simp [endedIds, hended]
          rw [hids, List.singleton_append] at h
          cases h with
          | endContest hbefore hcontest hopen hrated' hend hkept hedited =>
              obtain ⟨rebuilt, hrebuilt, hrebuilds⟩ := ih hsplit hquiet.of_append hbefore
              obtain ⟨rows, next, hnext, hdone⟩ := hrebuilds.endContest hbefore hfresh hcontest
                hopen hrated' hend htwin hrated fun old hold => hkept old contest hold htwin
              refine ⟨next, ?_, hdone.edited hedited⟩
              rw [hrebuilt, Option.bind_some, hnext, Option.map_some]

/-- Among the rows, those of the contests before an open contest in the loop are those
that come before it in time. -/
theorem mem_endedIds_iff_lt {before after : List ContestRow} {row : Rating}
    (hcontests : ratedContests tables = before ++ contest :: after)
    (hopen : contest.endedAt = none) (hrow : row.contest ∈ endedIds (ratedContests tables)) :
    row.contest ∈ endedIds before ↔
      toLex (tables.endTime row.contest, row.contest) < toLex (contest.endTime, contest.id) := by
  have hsorted : (before ++ contest :: after).Pairwise fun first second =>
      toLex (first.endTime, first.id) ≤ toLex (second.endTime, second.id) :=
    hcontests ▸ List.pairwise_sortBy _ _
  obtain ⟨-, hafter, hbefore⟩ := List.pairwise_append.mp hsorted
  have hkey : ∀ other ∈ before ++ contest :: after, other.id = row.contest →
      toLex (tables.endTime row.contest, row.contest) = toLex (other.endTime, other.id) := by
    intro other hother hid
    have hstored : other ∈ tables.contests.rows := (mem_ratedContests.mp (hcontests ▸ hother)).1
    rw [← hid, endTime_of_get? (Table.get?_key_of_mem hstored)]
  constructor
  · intro hmem
    obtain ⟨other, hother, -, hid⟩ := mem_endedIds.mp hmem
    rw [hkey other (List.mem_append_left _ hother) hid]
    refine lt_of_le_of_ne (hbefore other hother contest List.mem_cons_self) fun heq => ?_
    have hsame : other.id = contest.id := congrArg Prod.snd (toLex_inj.mp heq)
    exact id_not_mem_endedIds hcontests (hsame ▸ hid ▸ hmem)
  · intro hlt
    rw [hcontests, endedIds_append, List.mem_append] at hrow
    refine hrow.resolve_left fun hmem => ?_
    obtain ⟨other, hother, hended, hid⟩ := mem_endedIds.mp hmem
    rw [hkey other (List.mem_append_right _ hother) hid] at hlt
    rcases List.mem_cons.mp hother with rfl | hother
    · exact absurd hlt (lt_irrefl _)
    · exact absurd hlt (not_lt.mpr ((List.pairwise_cons.mp hafter).1 other hother))

/-- What an open contest would rate when the loop comes to it. -/
theorem selected_eq_nil_iff {before after : List ContestRow} {rebuilt earlier : RatingTables}
    (hcontests : ratedContests tables = before ++ contest :: after)
    (hopen : contest.endedAt = none) (h : EndedOnce M tables (endedIds (ratedContests tables)) tables)
    (hrows : ∀ row, row ∈ earlier.ratings.rows ↔
      row ∈ tables.ratings.rows ∧ row.contest ∈ endedIds before)
    (hrebuilds : Rebuilds tables rebuilt earlier) :
    selected rebuilt contest = [] ↔ ∀ user, ¬ Rates (tables.upTo contest) contest user := by
  have hratings : rebuilt.ratings = (tables.upTo contest).ratings := by
    refine Table.ext_mem fun row => ?_
    rw [hrebuilds.ratings, hrows, upTo, Table.filter, List.mem_filter, decide_eq_true_eq]
    exact and_congr_right fun hrow =>
      mem_endedIds_iff_lt hcontests hopen (contest_mem_of_endedOnce h row hrow)
  have hhistory : SameHistory rebuilt (tables.upTo contest) :=
    ⟨hratings, fun row _ => hrebuilds.endTime_eq row.contest⟩
  have hrates : ∀ user, Rates rebuilt contest user ↔ Rates (tables.upTo contest) contest user := by
    intro user
    rw [Rates, Rates, hhistory.lastRating, hrebuilds.known]
    refine and_congr_left fun _ => exists_congr fun row => and_congr_left fun _ => ?_
    rw [hrebuilds.same]
    exact ⟨fun hcounts => ⟨hcounts.1, hcounts.2, hcounts.3, hcounts.4, hcounts.5, hcounts.6⟩,
      fun hcounts => ⟨hcounts.1, hcounts.2, hcounts.3, hcounts.4, hcounts.5, hcounts.6⟩⟩
  constructor
  · intro hempty user huser
    obtain ⟨item, hitem, -⟩ := rates_iff_selected.mp ((hrates user).mpr huser)
    rw [hempty] at hitem
    exact List.not_mem_nil hitem
  · intro hnone
    refine List.eq_nil_iff_forall_not_mem.mpr fun item hitem => ?_
    exact hnone item.user.id ((hrates item.user.id).mp (rates_iff_selected.mpr ⟨item, hitem, rfl⟩))

theorem exists_earlier {before after : List ContestRow}
    (h : EndedOnce M tables (endedIds (ratedContests tables)) tables)
    (hcontests : ratedContests tables = before ++ after) :
    ∃ earlier, EndedOnce M tables (endedIds before) earlier ∧
      ∀ row, row ∈ earlier.ratings.rows ↔
        row ∈ tables.ratings.rows ∧ row.contest ∈ endedIds before := by
  have hnodup : (endedIds (ratedContests tables)).Nodup := nodup_endedIds
  rw [hcontests, endedIds_append] at h hnodup
  exact exists_endedOnce_of_append h hnodup

theorem quiet_iff (h : EndedOnce M tables (endedIds (ratedContests tables)) tables) :
    Quiet M tables (ratedContests tables) ↔
      ∀ contest ∈ tables.contests.rows, contest.isRated = true → contest.endedAt = none →
        contest.format.isSome ∧ ∀ user, ¬ Rates (tables.upTo contest) contest user := by
  constructor
  · intro hquiet contest hstored hrated hopen
    obtain ⟨before, after, hsplit⟩ := List.append_of_mem (mem_ratedContests.mpr ⟨hstored, hrated⟩)
    obtain ⟨earlier, hearlier, hrows⟩ := exists_earlier h hsplit
    rw [hsplit] at hquiet
    obtain ⟨rebuilt, hrebuilt, hrebuilds⟩ := exists_rebuilds hsplit hquiet.of_append hearlier
    obtain ⟨hformat, hselected⟩ := hquiet before contest after rfl hopen rebuilt hrebuilt
    exact ⟨hformat, (selected_eq_nil_iff hsplit hopen h hrows hrebuilds).mp hselected⟩
  · intro hnone
    have hprefix : ∀ before after, ratedContests tables = before ++ after →
        Quiet M tables before := by
      intro before
      induction before using List.reverseRecOn with
      | nil =>
          intro after _ start contest rest heq
          exact absurd heq.symm (by simp)
      | append_singleton before contest ih =>
          intro after hcontests
          have hsplit : ratedContests tables = before ++ contest :: after := by
            rw [hcontests, List.append_assoc, List.singleton_append]
          have hquiet := ih (contest :: after) hsplit
          refine hquiet.append_singleton fun hopen rebuilt hrebuilt => ?_
          obtain ⟨hstored, hrated⟩ := mem_ratedContests.mp
            (hsplit ▸ List.mem_append_right before List.mem_cons_self)
          obtain ⟨hformat, hrates⟩ := hnone contest hstored hrated hopen
          obtain ⟨earlier, hearlier, hrows⟩ := exists_earlier h hsplit
          obtain ⟨other, hother, hrebuilds⟩ := exists_rebuilds hsplit hquiet hearlier
          cases hrebuilt.symm.trans hother
          exact ⟨hformat, (selected_eq_nil_iff hsplit hopen h hrows hrebuilds).mpr hrates⟩
    exact hprefix _ [] (List.append_nil _).symm

/-- Later calculations keep the rows of the contests before. -/
theorem mem_recalculateContests {contests : List ContestRow} {row : Rating}
    (h : recalculateContests M contests tables = some final) (hrow : row ∈ tables.ratings.rows)
    (hother : ∀ contest ∈ contests, row.contest ≠ contest.id) : row ∈ final.ratings.rows := by
  induction contests generalizing tables with
  | nil =>
      cases h
      exact hrow
  | cons contest rest ih =>
      rw [recalculateContests, List.foldlM_cons] at h
      obtain ⟨next, hnext, hrest⟩ := Option.bind_eq_some_iff.mp h
      obtain ⟨⟨rows, _⟩, hcalculate, rfl⟩ := Option.map_eq_some_iff.mp hnext
      refine ih hrest ?_ fun other hmem => hother other (List.mem_cons_of_mem _ hmem)
      rcases calculateRatings_cases hcalculate with ⟨-, rfl⟩ | ⟨-, hdone⟩
      · exact hrow
      · exact (hdone.others row (hother contest List.mem_cons_self)).mpr hrow

/-- A calculation that leaves the contest without rows has rated nobody. -/
theorem selected_eq_nil_of_no_rows {rows : List Rating} (hrated : contest.isRated = true)
    (h : calculateRatings M contest false tables = some (rows, final))
    (hnone : final.ratingsOf contest.id = []) :
    contest.format.isSome ∧ selected tables contest = [] := by
  have hdone : Computes tables contest false ∧ Recomputed M tables contest final := by
    refine (calculateRatings_cases h).resolve_left ?_
    rintro ⟨hnot, rfl⟩
    exact hnot ⟨hrated, Or.inl hnone⟩
  have hempty : selected tables contest = [] := by
    refine List.eq_nil_iff_forall_not_mem.mpr fun item hitem => ?_
    obtain ⟨row, hrow, hc, -⟩ := hdone.2.every item hitem
    exact ratingsOf_eq_nil.mp hnone row hrow hc
  have hbefore := hdone.1.2.resolve_right (by decide)
  rw [calculateRatings_of_selected_nil hrated hbefore hempty] at h
  obtain ⟨format, hformat, -⟩ := Option.map_eq_some_iff.mp h
  exact ⟨Option.isSome_iff_exists.mpr ⟨format, hformat⟩, hempty⟩

theorem quiet_of_no_rows (h : recalculateContests M (ratedContests tables) (resetRatings tables) =
      some final)
    (hnone : ∀ contest ∈ tables.contests.rows, contest.endedAt = none →
      final.ratingsOf contest.id = []) : Quiet M tables (ratedContests tables) := by
  intro before contest after hsplit hopen rebuilt hrebuilt
  obtain ⟨hstored, hrated⟩ := mem_ratedContests.mp
    (hsplit ▸ List.mem_append_right before List.mem_cons_self)
  rw [hsplit, recalculateContests, List.foldlM_append] at h
  obtain ⟨middle, hmiddle, hrest⟩ := Option.bind_eq_some_iff.mp h
  cases hrebuilt.symm.trans hmiddle
  rw [List.foldlM_cons] at hrest
  obtain ⟨next, hnext, hafter⟩ := Option.bind_eq_some_iff.mp hrest
  obtain ⟨⟨rows, _⟩, hcalculate, rfl⟩ := Option.map_eq_some_iff.mp hnext
  refine selected_eq_nil_of_no_rows hrated hcalculate (ratingsOf_eq_nil.mpr fun row hrow hc => ?_)
  have hnodup : ((ratedContests tables).map ContestRow.id).Nodup := nodup_ratedContests
  rw [hsplit, List.map_append, List.map_cons] at hnodup
  have hkept := mem_recalculateContests hafter hrow fun other hother heq =>
    (List.nodup_cons.mp (List.nodup_append.mp hnodup).2.1).1
      (List.mem_map.mpr ⟨other, hother, heq.symm.trans hc⟩)
  exact ratingsOf_eq_nil.mp (hnone contest hstored hopen) row hkept hc

/-! ## The users at the end -/

theorem get?_users_raiseToFloor (id : ℕ) :
    (raiseToFloor tables).users.get? id = (tables.users.get? id).map fun user =>
      if user.rating < ratingFloor then { user with rating := ratingFloor } else user := by
  rw [raiseToFloor, Table.get?_updateWhere]
  simp only [decide_eq_true_eq]

/-- What the ratings leave at a user. -/
def standing (user : User) : ℤ × ℤ := (user.rating, user.maxRating)

/-- The users come out as they were exactly when they are above the floor and their
`max_rating` counts from the initial rating. -/
theorem same_users_iff {rebuilt : RatingTables} (h : Rebuilds tables rebuilt tables) :
    (∀ id, ((raiseToFloor rebuilt).users.get? id).map standing =
        (tables.users.get? id).map standing) ↔
      (∀ user ∈ tables.users.rows, ratingFloor ≤ user.rating) ∧
        ∀ user ∈ tables.users.rows, tables.HasRating user.id →
          IsGreatest (insert EloMMR.ratingInit (tables.ratingsAfter user.id)) user.maxRating := by
  have hafter : ∀ id, rebuilt.ratingsAfter id = tables.ratingsAfter id := by
    intro id
    rw [ratingsAfter, h.ratings, ratingsAfter]
  constructor
  · intro hsame
    have huser : ∀ user ∈ tables.users.rows, ∃ old, rebuilt.users.get? user.id = some old ∧
        standing (if old.rating < ratingFloor then { old with rating := ratingFloor } else old) =
          standing user := by
      intro user huser
      have heq := hsame user.id
      have hget : tables.users.get? user.id = some user := Table.get?_key_of_mem huser
      rw [get?_users_raiseToFloor, Option.map_map, hget, Option.map_some] at heq
      exact Option.map_eq_some_iff.mp heq
    refine ⟨fun user hmem => ?_, fun user hmem hrated => ?_⟩
    · obtain ⟨old, -, heq⟩ := huser user hmem
      have hrating := congrArg Prod.fst heq
      change _ = user.rating at hrating
      rw [← hrating]
      split
      · exact le_refl ratingFloor
      · next hlow => exact not_lt.mp hlow
    · obtain ⟨old, hold, heq⟩ := huser user hmem
      have hmax : old.maxRating = user.maxRating := by
        have hsecond := congrArg Prod.snd heq
        rw [← show _ = user.maxRating from hsecond]
        split <;> rfl
      rw [← hafter, ← hmax]
      exact h.peaks user.id old hold hrated
  · rintro ⟨hfloor, hpeaks⟩ id
    rw [get?_users_raiseToFloor, Option.map_map]
    cases hget : tables.users.get? id with
    | none =>
        have hnone := h.known id
        rw [hget, Option.isSome_none, Option.isSome_eq_false_iff, Option.isNone_iff_eq_none] at hnone
        rw [hnone]
        rfl
    | some user =>
        have hmem := Table.mem_of_get? hget
        have hid : user.id = id := Table.key_of_get? hget
        have hold : ∃ old, rebuilt.users.get? id = some old ∧ standing old = standing user := by
          by_cases hrated : tables.HasRating id
          · obtain ⟨rating, hrebuilt, htables⟩ := h.synced id hrated
            obtain ⟨old, hold, rfl⟩ := Option.map_eq_some_iff.mp hrebuilt
            rw [hget] at htables
            have hrating : user.rating = old.rating := Option.some.inj htables
            have hpeak := h.peaks id old hold hrated
            rw [hafter] at hpeak
            have hmax := hpeak.unique (hid ▸ hpeaks user hmem (hid.symm ▸ hrated))
            exact ⟨old, hold, Prod.ext hrating.symm hmax⟩
          · have hnot : ¬ rebuilt.HasRating id := by rwa [HasRating, h.ratings]
            refine ⟨user, ?_, rfl⟩
            rw [h.untouched id hnot, get?_users_resetRatings, hget, Option.map_some]
            rw [if_neg fun hany => hrated (hid ▸ hasRating_iff_any.mp hany)]
        obtain ⟨old, hold, heq⟩ := hold
        have hrating : old.rating = user.rating := congrArg Prod.fst heq
        rw [hold, Option.map_some, Option.map_some, Function.comp_apply,
          if_neg (not_lt.mpr (hrating ▸ hfloor user hmem)), heq]

/-- After a history in which every ended rated contest was rated once, in order, and
what it was rated by has not changed, the full recalculation agrees exactly when no
open contest would be rated and the users come out as they were. -/
theorem recalculateAllRatings_agrees_iff
    (h : EndedOnce M tables (endedIds (ratedContests tables)) tables) :
    AgreesWithHistory M tables ↔ Recalculable tables := by
  have hrebuilt : Quiet M tables (ratedContests tables) → ∃ rebuilt,
      recalculateContests M (ratedContests tables) (resetRatings tables) = some rebuilt ∧
        Rebuilds tables rebuilt tables :=
    fun hquiet => exists_rebuilds (List.append_nil _).symm hquiet h
  constructor
  · rintro ⟨final, hfinal, -, husers, hopen⟩
    obtain ⟨rated, hrated, rfl⟩ := Option.map_eq_some_iff.mp hfinal
    have hquiet := quiet_of_no_rows hrated hopen
    obtain ⟨rebuilt, hrec, hrebuilds⟩ := hrebuilt hquiet
    cases hrated.symm.trans hrec
    obtain ⟨hfloor, hpeaks⟩ := (same_users_iff hrebuilds).mp husers
    exact ⟨(quiet_iff h).mp hquiet, hfloor, hpeaks⟩
  · rintro ⟨hquiet, hfloor, hpeaks⟩
    obtain ⟨rebuilt, hrec, hrebuilds⟩ := hrebuilt ((quiet_iff h).mpr hquiet)
    refine ⟨raiseToFloor rebuilt, ?_, ?_, (same_users_iff hrebuilds).mpr ⟨hfloor, hpeaks⟩, ?_⟩
    · rw [recalculateAllRatings, hrec, Option.map_some]
    · have hratings : (raiseToFloor rebuilt).ratings = tables.ratings := hrebuilds.ratings
      rw [hratings]
    · intro contest hstored hopen
      refine ratingsOf_eq_nil.mpr fun row hrow hc => ?_
      have hrow' : row ∈ tables.ratings.rows := hrebuilds.ratings ▸ hrow
      obtain ⟨other, hother, hended, hid⟩ := mem_endedIds.mp (contest_mem_of_endedOnce h row hrow')
      have hstored' := (mem_ratedContests.mp hother).1
      rw [tables.contests.key_injOn hstored' hstored (hid.trans hc), hopen] at hended
      exact Bool.false_ne_true hended

/-! ## One contest has ended, one is open -/

/-- The first contest of `tables` ends. -/
def endFirst (tables : RatingTables) : RatingTables :=
  (ContestLifecycleService.endContest .sample (3600 * second) 1 tables).getD tables

theorem endedOnce_endFirst {tables : RatingTables} (hempty : tables.ratings = ∅)
    (hcontest : tables.contests.get? 1 = some (sampleContest 1 (3600 * second)))
    (hend : (ContestLifecycleService.endContest .sample (3600 * second) 1 tables).isSome)
    (hknown : ((endFirst tables).participations.rows.all fun row =>
      ((endFirst tables).users.get? row.user).isSome) = true) :
    EndedOnce .sample (endFirst tables) [1] (endFirst tables) := by
  have hsome : ContestLifecycleService.endContest .sample (3600 * second) 1 tables =
      some (endFirst tables) := by
    obtain ⟨ended, hended⟩ := Option.isSome_iff_exists.mp hend
    rw [endFirst, hended, Option.getD_some]
  refine .endContest (.start hempty) hcontest rfl rfl hsome ?_ ⟨rfl, fun id user huser => ?_⟩
  · intro old new hold hnew
    cases hold.symm.trans hnew
    refine ⟨rfl, rfl, rfl, rfl, fun standing hstanding => ?_, fun _ _ => rfl⟩
    obtain ⟨row, hcounts, rfl⟩ := mem_standings.mp hstanding
    exact ⟨List.all_eq_true.mp hknown row hcounts.stored,
      List.all_eq_true.mp hknown row hcounts.stored⟩
  · rw [huser, Option.map_some]

/-- The user of the sample takes part in the first contest only. -/
def quietTables : RatingTables :=
  { sampleTables with
    participations := (∅ : Table ParticipationRow ParticipationRow.id).save
      { id := 1, contest := 1, user := 1 } }

theorem recalculateAllRatings_agrees_iff_sample :
    AgreesWithHistory .sample (endFirst quietTables) := by
  have hids : endedIds (ratedContests (endFirst quietTables)) = [1] := by decide +kernel
  have hhistory : EndedOnce .sample (endFirst quietTables) [1] (endFirst quietTables) :=
    endedOnce_endFirst rfl rfl (by decide +kernel) (by decide +kernel)
  refine (recalculateAllRatings_agrees_iff (hids.symm ▸ hhistory)).mpr ⟨?_, by decide +kernel, ?_⟩
  · have hopen : ((endFirst quietTables).contests.rows.all fun contest =>
        contest.endedAt.isSome || (contest.id ≠ 1 && contest.format.isSome)) = true := by
      decide +kernel
    have hplaces : ((endFirst quietTables).participations.rows.all fun row => row.contest = 1) =
        true := by decide +kernel
    intro contest hcontest _ hnone
    have hvalues := List.all_eq_true.mp hopen contest hcontest
    rw [hnone, Option.isSome_none, Bool.false_or, Bool.and_eq_true, decide_eq_true_eq] at hvalues
    refine ⟨hvalues.2, ?_⟩
    rintro user ⟨⟨row, hcounts, -⟩, -⟩
    have hplace := of_decide_eq_true (List.all_eq_true.mp hplaces row hcounts.stored)
    exact hvalues.1 (hcounts.contest_eq.symm.trans hplace)
  · have hrows : (endFirst quietTables).ratings.rows.map
        (fun row => (row.user, row.ratingAfter)) = [(1, 1347)] := by decide +kernel
    have husers : (endFirst quietTables).users.rows.map
        (fun user => (user.id, user.maxRating)) = [(1, 1347)] := by decide +kernel
    intro user huser _
    have huser' := husers ▸ List.mem_map_of_mem huser
    obtain ⟨hid, hmax⟩ := Prod.mk.inj (List.mem_singleton.mp huser')
    have hafter : ∀ rating ∈ (endFirst quietTables).ratingsAfter user.id, rating = 1347 := by
      rintro rating ⟨row, hrow, -, rfl⟩
      have hrow' := hrows ▸ List.mem_map_of_mem hrow
      exact (Prod.mk.inj (List.mem_singleton.mp hrow')).2
    rw [hid, hmax] at *
    constructor
    · have hmem : ((1 : ℕ), (1347 : ℤ)) ∈ (endFirst quietTables).ratings.rows.map
          fun row => (row.user, row.ratingAfter) := hrows ▸ List.mem_singleton_self _
      obtain ⟨row, hrow, heq⟩ := List.mem_map.mp hmem
      obtain ⟨hrowUser, hrating⟩ := Prod.mk.inj heq
      exact Or.inr ⟨row, hrow, hrowUser, hrating⟩
    · rintro rating (rfl | hrating)
      · decide
      · exact (hafter rating hrating).le

/-- A contest that has not ended gets rows from the full recalculation. -/
theorem open_contest_rated :
    EndedOnce .sample (endFirst sampleTables) (endedIds (ratedContests (endFirst sampleTables)))
      (endFirst sampleTables) ∧ ¬ AgreesWithHistory .sample (endFirst sampleTables) := by
  have hids : endedIds (ratedContests (endFirst sampleTables)) = [1] := by decide +kernel
  have hhistory : EndedOnce .sample (endFirst sampleTables) [1] (endFirst sampleTables) :=
    endedOnce_endFirst rfl rfl (by decide +kernel) (by decide +kernel)
  refine ⟨hids.symm ▸ hhistory, ?_⟩
  rintro ⟨final, hfinal, -, -, hopen⟩
  have hopen2 : ((endFirst sampleTables).contests.get? 2).map ContestRow.endedAt = some none := by
    decide +kernel
  have hrows : ((recalculateAllRatings .sample (endFirst sampleTables)).map fun final =>
      (final.ratingsOf 2).length) = some 1 := by decide +kernel
  obtain ⟨contest, hcontest, hnone⟩ := Option.map_eq_some_iff.mp hopen2
  have hid : contest.id = 2 := Table.key_of_get? hcontest
  have hempty := hopen contest (Table.mem_of_get? hcontest) hnone
  rw [hid] at hempty
  rw [hfinal, Option.map_some, hempty] at hrows
  exact absurd hrows (by decide)

end RatingTables

end JudgeLoom
