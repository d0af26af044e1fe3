import JudgeLoom.Ratings.Consistency

/-!
# The management command

`recalculate_ratings`, without options, is a second implementation of the rating of
all contests: its own ranking, its own update rule, and rows that leave the mean and
the volatilities at their defaults.  The rows of `RatingService` have a volatility of
at least 1, so the two can only agree when neither writes a row
(`handle_agrees_iff`).

Each contest is one transaction.  The command stops at the first one that fails and
keeps what it has committed, so `handle` returns the tables together with whether it
came to the end.  Queries that leave ties open answer in the order of `RowOrder`.
The lines that the command prints are left out.
-/

namespace JudgeLoom

namespace RecalculateRatings

variable (M : MathLibrary) (order : RowOrder)

/-- `int(x)` of a float. -/
def truncate (x : ℚ) : ℤ := if 0 ≤ x then ⌊x⌋ else ⌈x⌉

/-- The eligible participations, `order_by("-score", "cumulative_time")`. -/
def participations (tables : RatingTables) (contest : ContestRow) : List ParticipationRow :=
  (order.participations (tables.participations.rows.filter fun row =>
    row.contest = contest.id ∧ row.status = .live ∧ row.isDisqualified = false)).sortBy
      fun row => toLex (-row.score, row.cumulativeTime)

/-- `Rating(...)` for a participation of rank `rank`; `none` is an `OverflowError`. -/
def newRating (user : User) (row : ParticipationRow) (rank : ℕ) : Option RatingDefaults :=
  if M.arith.overflows (row.score * 10) then none
  else
    let performance := truncate (M.arith.mul row.score 10)
    let weight := M.arith.div 1 rank
    let delta := truncate (M.arith.mul
      (M.arith.mul (M.arith.fl (performance - user.rating : ℤ)) weight) (M.arith.fl (4 / 10)))
    some {
      participation := row.id
      rank
      ratingBefore := user.rating
      ratingAfter := max (user.rating + delta) 0
      performance := M.arith.fl performance }

/-- A value of an `integer` column. -/
def fitsInteger (value : ℤ) : Bool := decide (-maxInteger - 1 ≤ value ∧ value ≤ maxInteger)

/-- One row of `bulk_create`; `none` is a violated constraint. -/
def insertRating (contest : ℕ) (ratings : Table Rating Rating.id) (entry : User × RatingDefaults) :
    Option (Table Rating Rating.id) :=
  if ratings.rows.any fun rating => (rating.user = entry.1.id ∧ rating.contest = contest) ∨
      rating.participation = entry.2.participation then none
  else if fitsInteger entry.2.ratingBefore && fitsInteger entry.2.ratingAfter then
    some (ratings.save { entry.2 with id := ratings.nextKey, user := entry.1.id, contest })
  else none

/-- The update of a user after `bulk_create`. -/
def updateUser (users : Table User User.id) (entry : User × RatingDefaults) : Table User User.id :=
  users.modify entry.1.id (fun row => { row with
    rating := entry.2.ratingAfter
    maxRating := max entry.2.ratingAfter entry.1.maxRating }) fun _ => rfl

/-- `ratings_to_create`. -/
def ratingsToCreate (tables : RatingTables) (rows : List ParticipationRow) :
    Option (List (User × RatingDefaults)) :=
  (rows.zipIdx 1).mapM fun ranked => do
    let user ← tables.users.get? ranked.1.user
    let rating ← newRating M user ranked.1 ranked.2
    return (user, rating)

/-- The body of the loop over the contests. -/
def recalculateContest (contest : ContestRow) (tables : RatingTables) : Option RatingTables :=
  let rows := participations order tables contest
  if rows = [] then some tables
  else do
    let entries ← ratingsToCreate M tables rows
    let ratings ← entries.foldlM (insertRating contest.id) (tables.deleteRatings contest.id).ratings
    return { tables with ratings, users := entries.foldl updateUser tables.users }

/-- The loop over the contests, with whether it came to the end. -/
def recalculateContests : List ContestRow → RatingTables → RatingTables × Bool
  | [], tables => (tables, true)
  | contest :: rest, tables =>
      match recalculateContest M order contest tables with
      | none => (tables, false)
      | some next => recalculateContests rest next

/-- `Contest.objects.filter(is_rated=True).order_by("end_time")`. -/
def contests (tables : RatingTables) : List ContestRow :=
  (order.contests (tables.contests.rows.filter fun contest => contest.isRated)).sortBy
    ContestRow.endTime

/-- `handle`, without options. -/
def handle (tables : RatingTables) : RatingTables × Bool :=
  recalculateContests M order (contests order tables) tables

end RecalculateRatings

/-! ## Agreement with the service -/

namespace RecalculateRatings

variable {M : MathLibrary} {order : RowOrder} {tables final : RatingTables} {contest : ContestRow}

/-- The same Rating rows, up to their ids. -/
def SameRatings (first second : RatingTables) : Prop :=
  ∀ user contest defaults,
    (∃ row ∈ first.ratings.rows,
      row.user = user ∧ row.contest = contest ∧ row.toRatingDefaults = defaults) ↔
    ∃ row ∈ second.ratings.rows,
      row.user = user ∧ row.contest = contest ∧ row.toRatingDefaults = defaults

/-- The same user ratings. -/
def SameUserRatings (first second : RatingTables) : Prop :=
  ∀ user, (first.users.get? user).map User.rating = (second.users.get? user).map User.rating

/-- The command computes what the service computes, and running it again changes
nothing. -/
def Agrees (M : MathLibrary) (order again : RowOrder) (tables : RatingTables) : Prop :=
  ∃ computed recalculated,
    handle M order tables = (computed, true) ∧
      RatingService.recalculateAllRatings M tables = some recalculated ∧
      SameRatings computed recalculated ∧ SameUserRatings computed recalculated ∧
      handle M again computed = (computed, true)

/-- No contest that is rated has a participant that counts. -/
def NoParticipants (tables : RatingTables) : Prop :=
  ∀ contest ∈ tables.contests.rows, contest.isRated = true →
    ∀ row ∈ tables.participations.rows, row.contest = contest.id → row.status = .live →
      row.isDisqualified = true

/-- There is nothing to rate and nothing to clean up. -/
structure NothingToRate (tables : RatingTables) : Prop where
  noRatings : tables.ratings.rows = []
  noParticipants : NoParticipants tables
  knownFormats : ∀ contest ∈ tables.contests.rows, contest.isRated = true → contest.format.isSome
  aboveFloor : ∀ user ∈ tables.users.rows, RatingService.ratingFloor ≤ user.rating

theorem mem_contests : contest ∈ contests order tables ↔
    contest ∈ tables.contests.rows ∧ contest.isRated = true := by
  rw [contests, List.mem_sortBy, (order.contests_perm _).mem_iff, List.mem_filter]

theorem mem_participations {row : ParticipationRow} :
    row ∈ participations order tables contest ↔
      row ∈ tables.participations.rows ∧ row.contest = contest.id ∧ row.status = .live ∧
        row.isDisqualified = false := by
  rw [participations, List.mem_sortBy, (order.participations_perm _).mem_iff, List.mem_filter,
    decide_eq_true_eq]

/-! ## The rows of the command -/

theorem volatilityBefore_newRating {user : User} {row : ParticipationRow} {rank : ℕ}
    {defaults : RatingDefaults} (h : newRating M user row rank = some defaults) :
    defaults.volatilityBefore = 0 := by
  unfold newRating at h
  split at h
  · exact nomatch h
  · cases h
    rfl

theorem volatilityBefore_ratingsToCreate {rows : List ParticipationRow}
    {entries : List (User × RatingDefaults)} (h : ratingsToCreate M tables rows = some entries) :
    ∀ entry ∈ entries, entry.2.volatilityBefore = 0 := by
  intro entry hentry
  obtain ⟨ranked, -, hranked⟩ := List.exists_of_mem_mapM h hentry
  obtain ⟨user, -, hrest⟩ := Option.bind_eq_some_iff.mp hranked
  obtain ⟨defaults, hdefaults, heq⟩ := Option.bind_eq_some_iff.mp hrest
  cases heq
  exact volatilityBefore_newRating hdefaults

/-- `bulk_create` adds its rows and keeps the ones that are there. -/
theorem mem_insertRating {id : ℕ} {ratings next : Table Rating Rating.id}
    {entry : User × RatingDefaults} (h : insertRating id ratings entry = some next) :
    (∀ row ∈ ratings.rows, row ∈ next.rows) ∧
      ∃ row ∈ next.rows, row.contest = id ∧ row.toRatingDefaults = entry.2 := by
  unfold insertRating at h
  split at h
  · exact nomatch h
  split at h
  · cases h
    refine ⟨fun row hrow => ?_, _, Table.mem_save_iff.mpr (Or.inl rfl), rfl, rfl⟩
    exact Table.mem_save_iff.mpr (Or.inr ⟨hrow, (ratings.key_lt_nextKey hrow).ne⟩)
  · exact nomatch h

theorem mem_foldlM_insertRating {id : ℕ} {ratings final : Table Rating Rating.id}
    {entries : List (User × RatingDefaults)}
    (h : entries.foldlM (insertRating id) ratings = some final) :
    (∀ row ∈ ratings.rows, row ∈ final.rows) ∧
      ∀ entry ∈ entries, ∃ row ∈ final.rows, row.contest = id ∧ row.toRatingDefaults = entry.2 := by
  induction entries generalizing ratings with
  | nil =>
      cases h
      exact ⟨fun _ hrow => hrow, fun _ hentry => absurd hentry List.not_mem_nil⟩
  | cons entry rest ih =>
      rw [List.foldlM_cons] at h
      obtain ⟨next, hnext, hrest⟩ := Option.bind_eq_some_iff.mp h
      obtain ⟨hkept, row, hrow, hcontest, hdefaults⟩ := mem_insertRating hnext
      obtain ⟨hkept', hadded⟩ := ih hrest
      refine ⟨fun other hother => hkept' other (hkept other hother), fun other hother => ?_⟩
      rcases List.mem_cons.mp hother with rfl | hother
      · exact ⟨row, hkept' row hrow, hcontest, hdefaults⟩
      · exact hadded other hother

/-- A contest that the command has rated. -/
def HasPlainRow (tables : RatingTables) (contest : ℕ) : Prop :=
  ∃ row ∈ tables.ratings.rows, row.contest = contest ∧ row.volatilityBefore = 0

theorem recalculateContest_of_nil (h : participations order tables contest = []) :
    recalculateContest M order contest tables = some tables := by
  rw [recalculateContest, if_pos h]

/-- What one round of the loop does. -/
theorem recalculateContest_eq_some (h : recalculateContest M order contest tables = some final) :
    final.participations = tables.participations ∧
      (∀ other, other ≠ contest.id → HasPlainRow tables other → HasPlainRow final other) ∧
      (participations order tables contest ≠ [] → HasPlainRow final contest.id) := by
  unfold recalculateContest at h
  dsimp only at h
  split at h
  · next hnone =>
      cases h
      exact ⟨rfl, fun _ _ hrow => hrow, fun hsome => absurd hnone hsome⟩
  next hsome =>
    obtain ⟨entries, hentries, hrest⟩ := Option.bind_eq_some_iff.mp h
    obtain ⟨ratings, hratings, heq⟩ := Option.bind_eq_some_iff.mp hrest
    cases heq
    obtain ⟨hkept, hadded⟩ := mem_foldlM_insertRating hratings
    refine ⟨rfl, ?_, fun _ => ?_⟩
    · rintro other hother ⟨row, hrow, rfl, hplain⟩
      refine ⟨row, hkept row (List.mem_filter.mpr ⟨hrow, ?_⟩), rfl, hplain⟩
      exact decide_eq_true hother
    · have hlength := List.length_of_mapM_eq_some hentries
      rw [List.length_zipIdx] at hlength
      obtain ⟨entry, hentry⟩ := List.exists_mem_of_length_pos
        (hlength ▸ List.length_pos_iff.mpr hsome)
      obtain ⟨row, hrow, hcontest, hdefaults⟩ := hadded entry hentry
      refine ⟨row, hrow, hcontest, ?_⟩
      rw [hdefaults]
      exact volatilityBefore_ratingsToCreate hentries entry hentry

theorem participations_congr (h : final.participations = tables.participations) :
    participations order final contest = participations order tables contest := by
  rw [participations, h, participations]

/-- The loop leaves a row of every contest that has participants. -/
theorem recalculateContests_eq_true {contests : List ContestRow}
    (hnodup : (contests.map ContestRow.id).Nodup)
    (h : recalculateContests M order contests tables = (final, true)) :
    (∀ other ∉ contests.map ContestRow.id, HasPlainRow tables other → HasPlainRow final other) ∧
      ∀ contest ∈ contests, participations order tables contest ≠ [] →
        HasPlainRow final contest.id := by
  induction contests generalizing tables with
  | nil =>
      cases h
      exact ⟨fun _ _ hrow => hrow, fun _ hcontest => absurd hcontest List.not_mem_nil⟩
  | cons contest rest ih =>
      rw [List.map_cons, List.nodup_cons] at hnodup
      unfold recalculateContests at h
      cases hnext : recalculateContest M order contest tables with
      | none =>
          rw [hnext] at h
          exact absurd (congrArg Prod.snd h) Bool.false_ne_true
      | some next =>
          rw [hnext] at h
          obtain ⟨hsame, hkept, hadded⟩ := recalculateContest_eq_some hnext
          obtain ⟨hkept', hadded'⟩ := ih hnodup.2 h
          refine ⟨fun other hother hrow => ?_, fun other hother hsome => ?_⟩
          · rw [List.map_cons, List.mem_cons, not_or] at hother
            exact hkept' other hother.2 (hkept other hother.1 hrow)
          · rcases List.mem_cons.mp hother with rfl | hother
            · exact hkept' other.id hnodup.1 (hadded hsome)
            · exact hadded' other hother (by rwa [participations_congr hsame])

theorem nodup_contests : ((contests order tables).map ContestRow.id).Nodup := by
  have hperm := ((List.perm_sortBy ContestRow.endTime _).trans (order.contests_perm
    (tables.contests.rows.filter fun contest => contest.isRated))).map ContestRow.id
  exact hperm.nodup_iff.mpr (tables.contests.nodup_keys.sublist (List.filter_sublist.map _))

theorem recalculateContests_of_nil {contests : List ContestRow}
    (h : ∀ contest ∈ contests, participations order tables contest = []) :
    recalculateContests M order contests tables = (tables, true) := by
  induction contests with
  | nil => rfl
  | cons contest rest ih =>
      rw [recalculateContests, recalculateContest_of_nil (h contest List.mem_cons_self)]
      exact ih fun other hother => h other (List.mem_cons_of_mem _ hother)

/-! ## The rows of the service -/

/-- Every row has the volatilities of the service. -/
def Volatile (tables : RatingTables) : Prop :=
  ∀ row ∈ tables.ratings.rows, 1 ≤ row.volatilityBefore

theorem volatile_calculateRatings {rows : List Rating} (hM : M.Accurate) (h : Volatile tables)
    (hdone : RatingService.calculateRatings M contest false tables = some (rows, final)) :
    Volatile final := by
  rcases RatingService.calculateRatings_cases hdone with ⟨-, rfl⟩ | ⟨-, hrecomputed⟩
  · exact h
  · intro row hrow
    by_cases hcontest : row.contest = contest.id
    · obtain ⟨result, hresult, -⟩ := hrecomputed.computed row hrow hcontest
      rw [hresult]
      exact RatingService.one_le_volatility hM _
    · exact h row ((hrecomputed.others row hcontest).mp hrow)

theorem volatile_recalculateContests {contests : List ContestRow} (hM : M.Accurate)
    (h : Volatile tables)
    (hdone : RatingService.recalculateContests M contests tables = some final) :
    Volatile final := by
  induction contests generalizing tables with
  | nil =>
      cases hdone
      exact h
  | cons contest rest ih =>
      rw [RatingService.recalculateContests, List.foldlM_cons] at hdone
      obtain ⟨next, hnext, hrest⟩ := Option.bind_eq_some_iff.mp hdone
      obtain ⟨⟨rows, _⟩, hcalculate, rfl⟩ := Option.map_eq_some_iff.mp hnext
      exact ih (volatile_calculateRatings hM h hcalculate) hrest

theorem volatile_recalculateAllRatings (hM : M.Accurate)
    (h : RatingService.recalculateAllRatings M tables = some final) : Volatile final := by
  obtain ⟨rated, hrated, rfl⟩ := Option.map_eq_some_iff.mp h
  have hnone : Volatile (RatingService.resetRatings tables) :=
    fun row hrow => absurd hrow List.not_mem_nil
  have hvolatile := volatile_recalculateContests hM hnone hrated
  exact hvolatile

/-! ## Without participants -/

theorem participations_eq_nil : participations order tables contest = [] ↔
    ∀ row ∈ tables.participations.rows, row.contest = contest.id → row.status = .live →
      row.isDisqualified = true := by
  rw [List.eq_nil_iff_forall_not_mem]
  refine forall_congr' fun row => ?_
  rw [mem_participations, not_and]
  refine forall_congr' fun _ => ?_
  rw [not_and, not_and, Bool.not_eq_false]

theorem noParticipants_iff (order : RowOrder) : NoParticipants tables ↔
    ∀ contest ∈ contests order tables, participations order tables contest = [] := by
  simp only [NoParticipants, mem_contests, participations_eq_nil, and_imp]

theorem handle_of_noParticipants (h : NoParticipants tables) :
    handle M order tables = (tables, true) :=
  recalculateContests_of_nil ((noParticipants_iff order).mp h)

/-- A participant that counts for the service is one of the command's. -/
theorem selected_eq_nil (h : NoParticipants tables) (hcontest : contest ∈ tables.contests.rows)
    (hrated : contest.isRated = true) : RatingService.selected tables contest = [] := by
  refine List.eq_nil_iff_forall_not_mem.mpr fun item hitem => ?_
  obtain ⟨⟨row, hcounts, -⟩, -⟩ := RatingService.rates_iff_selected.mpr ⟨item, hitem, rfl⟩
  have hdisqualified := h contest hcontest hrated row hcounts.stored hcounts.contest_eq hcounts.live
  exact Bool.false_ne_true (hcounts.qualified.symm.trans hdisqualified)

/-- Without participants the service only looks up the formats. -/
theorem recalculateContests_eq_some_iff {contests : List ContestRow} (hempty : tables.ratings = ∅)
    (hnone : ∀ contest ∈ contests,
      contest.isRated = true ∧ RatingService.selected tables contest = []) :
    RatingService.recalculateContests M contests tables = some final ↔
      final = tables ∧ ∀ contest ∈ contests, contest.format.isSome := by
  induction contests with
  | nil =>
      refine ⟨fun h => ?_, fun h => h.1 ▸ rfl⟩
      cases h
      exact ⟨rfl, fun _ h => absurd h List.not_mem_nil⟩
  | cons contest rest ih =>
      have hrest := ih fun other hother => hnone other (List.mem_cons_of_mem _ hother)
      obtain ⟨hrated, hselected⟩ := hnone contest List.mem_cons_self
      have hrows : tables.ratingsOf contest.id = [] :=
        RatingService.ratingsOf_eq_nil.mpr fun row hrow => absurd hrow (by simp [hempty])
      rw [RatingService.recalculateContests, List.foldlM_cons,
        RatingService.calculateRatings_of_selected_nil hrated hrows hselected,
        List.forall_mem_cons]
      cases contest.format with
      | none =>
          refine ⟨fun h => ?_, fun h => absurd h.2.1 Bool.false_ne_true⟩
          cases h
      | some format =>
          refine hrest.trans (and_congr_right fun _ => ?_)
          exact ⟨fun h => ⟨rfl, h⟩, fun h => h.2⟩

theorem recalculateAllRatings_eq_some_iff (h : NoParticipants tables) :
    RatingService.recalculateAllRatings M tables = some final ↔
      final = RatingService.raiseToFloor (RatingService.resetRatings tables) ∧
        ∀ contest ∈ tables.contests.rows, contest.isRated = true → contest.format.isSome := by
  have hformats : (∀ contest ∈ RatingService.ratedContests tables, contest.format.isSome) ↔
      ∀ contest ∈ tables.contests.rows, contest.isRated = true → contest.format.isSome := by
    simp only [RatingService.ratedContests, List.mem_sortBy, List.mem_filter, and_imp]
  have hnone : ∀ contest ∈ RatingService.ratedContests tables, contest.isRated = true ∧
      RatingService.selected (RatingService.resetRatings tables) contest = [] := by
    intro contest hcontest
    rw [RatingService.ratedContests, List.mem_sortBy, List.mem_filter] at hcontest
    have hnone : NoParticipants (RatingService.resetRatings tables) := h
    exact ⟨hcontest.2, selected_eq_nil hnone hcontest.1 hcontest.2⟩
  rw [RatingService.recalculateAllRatings, Option.map_eq_some_iff, ← hformats]
  constructor
  · rintro ⟨rated, hrated, rfl⟩
    obtain ⟨rfl, hknown⟩ := (recalculateContests_eq_some_iff rfl hnone).mp hrated
    exact ⟨rfl, hknown⟩
  · rintro ⟨rfl, hknown⟩
    exact ⟨_, (recalculateContests_eq_some_iff rfl hnone).mpr ⟨rfl, hknown⟩, rfl⟩

/-! ## When they agree -/

/-- A row of the command is never one of the service. -/
theorem noParticipants_of_sameRatings {computed recalculated : RatingTables} (hM : M.Accurate)
    (hhandle : handle M order tables = (computed, true))
    (hservice : RatingService.recalculateAllRatings M tables = some recalculated)
    (hsame : SameRatings computed recalculated) : NoParticipants tables := by
  refine (noParticipants_iff order).mpr fun contest hcontest => ?_
  by_contra hsome
  obtain ⟨-, hadded⟩ := recalculateContests_eq_true nodup_contests hhandle
  obtain ⟨row, hrow, -, hplain⟩ := hadded contest hcontest hsome
  obtain ⟨other, hother, -, -, hdefaults⟩ :=
    (hsame row.user row.contest row.toRatingDefaults).mp ⟨row, hrow, rfl, rfl, rfl⟩
  have hvolatile := volatile_recalculateAllRatings hM hservice other hother
  rw [hdefaults, hplain] at hvolatile
  exact absurd hvolatile (by decide)

theorem users_resetRatings (h : tables.ratings.rows = []) :
    (RatingService.resetRatings tables).users = tables.users := by
  refine Table.ext_get? fun user => ?_
  rw [RatingService.resetRatings, Table.get?_updateWhere]
  simp [h]

/-- Only ratings below the floor are raised. -/
theorem sameUserRatings_raiseToFloor :
    SameUserRatings tables (RatingService.raiseToFloor tables) ↔
      ∀ user ∈ tables.users.rows, RatingService.ratingFloor ≤ user.rating := by
  constructor
  · intro h user huser
    have hsame := h user.id
    have hget : tables.users.get? user.id = some user := Table.get?_key_of_mem huser
    rw [RatingService.raiseToFloor, Table.get?_updateWhere, hget, Option.map_some,
      Option.map_some, Option.map_some, Option.some_inj] at hsame
    by_contra hlow
    rw [if_pos (decide_eq_true (not_le.mp hlow))] at hsame
    exact hlow hsame.ge
  · intro h user
    rw [RatingService.raiseToFloor, Table.get?_updateWhere, Option.map_map]
    refine Option.map_congr fun row hrow => ?_
    have hrow' := h row (Table.mem_of_get? hrow)
    rw [Function.comp_apply, if_neg (by simpa using hrow')]

/-- The command and the service agree, and the command is idempotent, exactly when
there is nothing to rate and nothing to clean up. -/
theorem handle_agrees_iff {again : RowOrder} (hM : M.Accurate) :
    Agrees M order again tables ↔ NothingToRate tables := by
  constructor
  · rintro ⟨computed, recalculated, hhandle, hservice, hratings, husers, -⟩
    have hnone := noParticipants_of_sameRatings hM hhandle hservice hratings
    rw [handle_of_noParticipants hnone] at hhandle
    cases hhandle
    obtain ⟨rfl, hknown⟩ := (recalculateAllRatings_eq_some_iff hnone).mp hservice
    have hempty : tables.ratings.rows = [] := by
      refine List.eq_nil_iff_forall_not_mem.mpr fun row hrow => ?_
      obtain ⟨other, hother, -⟩ :=
        (hratings row.user row.contest row.toRatingDefaults).mp ⟨row, hrow, rfl, rfl, rfl⟩
      exact List.not_mem_nil hother
    refine ⟨hempty, hnone, hknown, ?_⟩
    rw [← users_resetRatings hempty]
    refine sameUserRatings_raiseToFloor.mp fun user => ?_
    rw [← husers user, users_resetRatings hempty]
  · rintro ⟨hempty, hnone, hknown, hfloor⟩
    refine ⟨tables, _, handle_of_noParticipants hnone,
      (recalculateAllRatings_eq_some_iff hnone).mpr ⟨rfl, hknown⟩, ?_, fun user => ?_,
      handle_of_noParticipants hnone⟩
    · intro user contest defaults
      constructor
      · rintro ⟨row, hrow, -⟩
        exact absurd (hempty ▸ hrow) List.not_mem_nil
      · rintro ⟨row, hrow, -⟩
        exact absurd hrow List.not_mem_nil
    · rw [← users_resetRatings hempty] at hfloor ⊢
      exact sameUserRatings_raiseToFloor.mpr hfloor user

/-- A contest without participants is skipped by both. -/
theorem handle_agrees_iff_sample :
    Agrees .sample .byId .byId { RatingTables.sampleTables with participations := ∅ } := by
  refine (handle_agrees_iff MathLibrary.accurate_sample).mpr ⟨rfl, ?_, ?_, ?_⟩
  · exact fun _ _ _ row hrow => absurd hrow List.not_mem_nil
  · decide +kernel
  · decide +kernel

/-- One user takes part in two contests with a score of zero: the command leaves the
rating at 0, the service at 1412. -/
theorem handle_differs : ¬ Agrees .sample .byId .byId RatingTables.sampleTables := by
  rintro ⟨computed, recalculated, hhandle, hservice, -, husers, -⟩
  have hcommand : ((handle .sample .byId RatingTables.sampleTables).1.users.get? 1).map
      User.rating = some 0 := by decide +kernel
  have hrating : ((RatingService.recalculateAllRatings .sample RatingTables.sampleTables).bind
      fun tables => tables.users.get? 1).map User.rating = some 1412 := by decide +kernel
  rw [hhandle] at hcommand
  rw [hservice, Option.bind_some] at hrating
  have hsame := husers 1
  rw [hcommand, hrating] at hsame
  exact absurd hsame (by decide)

end RecalculateRatings

end JudgeLoom
