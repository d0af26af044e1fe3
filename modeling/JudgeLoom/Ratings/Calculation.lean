import JudgeLoom.Library.Except
import JudgeLoom.Ratings.Service
import Mathlib.Data.List.SplitBy

/-!
# What one calculation does

`calculate_ratings` either leaves the tables alone or computes the rows of one
contest afresh (`calculateRatings_cases`).  In the second case the rows of the other
contests stay, every participant it selects has exactly one row of the contest, and
their user carries the rating of that row (`Recomputed`).

The saving loop runs on the rows and on the users independently of each other
(`foldlM_saveOutcome`).
-/

namespace JudgeLoom

namespace RatingService

open AbstractContestFormat

variable {M : MathLibrary} {tables : RatingTables} {contest : ContestRow}

/-! ## Who is selected -/

/-- The user's rating according to the rows of other contests. -/
def lastRating (tables : RatingTables) (contest user : ℕ) : ℤ :=
  (tables.history contest user).head?.elim EloMMR.ratingInit fun last => last.ratingAfter

/-- `rating` is within the rating floor and ceiling of the contest. -/
def Admits (contest : ContestRow) (rating : ℤ) : Prop :=
  (∀ floor ∈ contest.ratingFloor, floor ≤ rating) ∧
    ∀ ceiling ∈ contest.ratingCeiling, rating ≤ ceiling

/-- The participation counts for the ratings of the contest, whatever the ratings are. -/
structure Counts (tables : ContestTables) (contest : ContestRow) (row : ParticipationRow) :
    Prop where
  stored : row ∈ tables.participations.rows
  contest_eq : row.contest = contest.id
  qualified : row.isDisqualified = false
  live : row.status = .live
  included : row.user ∉ contest.rateExclude
  submitted : contest.rateAll = true ∨ tables.hasSubmissions row.id = true

/-- What the standings show of a participation. -/
def standingOf (row : ParticipationRow) : Standing where
  participation := row.id
  user := row.user
  score := row.score
  tiebreaker := row.tiebreaker

theorem participant?_entry {tables : ContestTables} {row : ParticipationRow}
    {data : EntryFormatData} {rank : ℕ} (hrow : row ∈ tables.participations.rows) :
    participant? tables contest { entry tables row data with rank } =
      if row.contest = contest.id ∧ row.isDisqualified = false ∧ row.status = .live then some row
      else none := by
  have hget : tables.participations.get? row.id = some row := Table.get?_key_of_mem hrow
  rw [participant?]
  change Option.filter _ (tables.participations.get? row.id) = _
  rw [hget, Option.filter_some]
  simp only [decide_eq_true_eq]

/-- The entry of a participation counts when the participation does. -/
theorem standing?_entry_eq_some {tables : ContestTables} {row : ParticipationRow}
    {data : EntryFormatData} {rank : ℕ} {standing : Standing}
    (hrow : row ∈ tables.participations.rows) :
    standing? tables contest { entry tables row data with rank } = some standing ↔
      Counts tables contest row ∧ standing = standingOf row := by
  rw [standing?, participant?_entry hrow]
  by_cases hplace : row.contest = contest.id ∧ row.isDisqualified = false ∧ row.status = .live
  · rw [if_pos hplace, Option.bind_eq_bind, Option.bind_some]
    by_cases hexcluded : row.user ∈ contest.rateExclude
    · rw [if_pos hexcluded]
      exact ⟨fun h => (nomatch h), fun h => absurd hexcluded h.1.included⟩
    rw [if_neg hexcluded]
    by_cases hsilent : contest.rateAll = false ∧ tables.hasSubmissions row.id = false
    · rw [if_pos hsilent]
      refine ⟨fun h => (nomatch h), fun h => ?_⟩
      rcases h.1.submitted with hsubmitted | hsubmitted
      · exact absurd (hsilent.1.symm.trans hsubmitted) (by decide)
      · exact absurd (hsilent.2.symm.trans hsubmitted) (by decide)
    rw [if_neg hsilent]
    have hsubmitted : contest.rateAll = true ∨ tables.hasSubmissions row.id = true := by
      simpa only [not_and_or, Bool.not_eq_false] using hsilent
    have hcounts : Counts tables contest row :=
      ⟨hrow, hplace.1, hplace.2.1, hplace.2.2, hexcluded, hsubmitted⟩
    constructor
    · intro h
      cases h
      exact ⟨hcounts, rfl⟩
    · rintro ⟨-, rfl⟩
      rfl
  · rw [if_neg hplace]
    exact ⟨fun h => (nomatch h),
      fun h => absurd ⟨h.1.contest_eq, h.1.qualified, h.1.live⟩ hplace⟩

theorem mem_standings {tables : ContestTables} {standing : Standing} :
    standing ∈ standings tables contest ↔
      ∃ row, Counts tables contest row ∧ standing = standingOf row := by
  rw [standings, List.mem_filterMap]
  constructor
  · rintro ⟨ranked, hranked, hstanding⟩
    obtain ⟨entry', hentry, rank, rfl⟩ := mem_rankEntries hranked
    obtain ⟨row, hrow, rfl⟩ := List.mem_map.mp hentry
    exact ⟨row, (standing?_entry_eq_some (mem_eligible.mp hrow).1).mp hstanding⟩
  · rintro ⟨row, hcounts, rfl⟩
    have heligible : row ∈ eligible tables contest :=
      mem_eligible.mpr ⟨hcounts.stored, hcounts.contest_eq, hcounts.qualified⟩
    obtain ⟨rank, hrank⟩ := exists_mem_rankEntries (List.mem_map_of_mem
      (f := fun row => entry tables row (.stored row.formatData)) heligible)
    exact ⟨_, hrank, (standing?_entry_eq_some hcounts.stored).mpr ⟨hcounts, rfl⟩⟩

/-- Whether `standing?` lets the participation through. -/
def counts (tables : ContestTables) (contest : ContestRow) (row : ParticipationRow) : Bool :=
  (standing? tables contest (entry tables row (.stored row.formatData))).isSome

theorem standing?_entry {tables : ContestTables} {row : ParticipationRow} {data : EntryFormatData}
    {rank : ℕ} (hrow : row ∈ tables.participations.rows) :
    standing? tables contest { entry tables row data with rank } =
      if counts tables contest row then some (standingOf row) else none := by
  refine Option.ext fun standing => ?_
  rw [standing?_entry_eq_some hrow, Option.ite_none_right_eq_some, counts,
    Option.isSome_iff_exists]
  constructor
  · rintro ⟨hcounts, rfl⟩
    exact ⟨⟨_, (standing?_entry_eq_some hrow).mpr ⟨hcounts, rfl⟩⟩, rfl⟩
  · rintro ⟨⟨other, hother⟩, heq⟩
    exact ⟨((standing?_entry_eq_some hrow).mp hother).1, (Option.some.inj heq).symm⟩

/-- The standings are the participations that count, in the order of the ranking. -/
theorem standings_eq (tables : ContestTables) (contest : ContestRow) :
    standings tables contest =
      (((eligible tables contest).sortBy rankKey).filter (counts tables contest)).map
        standingOf := by
  have hranking : getRanking tables contest =
      (((eligible tables contest).sortBy rankKey).zipIdx 1).map fun ranked =>
        { entry tables ranked.1 (.stored ranked.1.formatData) with rank := ranked.2 } := by
    rw [getRanking, rankEntries, List.sortBy_map, List.zipIdx_map, List.map_map]
    rfl
  have hstanding : ∀ ranked ∈ ((eligible tables contest).sortBy rankKey).zipIdx 1,
      standing? tables contest
          { entry tables ranked.1 (.stored ranked.1.formatData) with rank := ranked.2 } =
        if counts tables contest ranked.1 then some (standingOf ranked.1) else none := by
    intro ranked hranked
    have hmem : ranked.1 ∈ (((eligible tables contest).sortBy rankKey).zipIdx 1).map Prod.fst :=
      List.mem_map_of_mem hranked
    rw [List.zipIdx_map_fst, List.mem_sortBy] at hmem
    exact standing?_entry (mem_eligible.mp hmem).1
  rw [standings, hranking, List.filterMap_map]
  refine (List.filterMap_congr hstanding).trans ?_
  rw [← List.filterMap_ite, ← List.zipIdx_map_fst 1 ((eligible tables contest).sortBy rankKey),
    List.filterMap_map, List.zipIdx_map_fst]
  rfl

/-- The standings do not depend on the users. -/
theorem standings_users (tables : ContestTables) (contest : ContestRow)
    (users : Table User User.id) :
    standings { tables with users } contest = standings tables contest := by
  rw [standings_eq, standings_eq]
  rfl

/-- What is selected of the standings. -/
theorem select_eq_some {standing : Standing} {item : Selected} :
    select tables contest standing = some item ↔
      Admits contest (lastRating tables contest.id standing.user) ∧
        ∃ user, tables.users.get? standing.user = some user ∧
          item = collect tables contest.id user standing := by
  rw [select]
  cases huser : tables.users.get? standing.user with
  | none =>
      refine ⟨fun h => (nomatch h), fun h => ?_⟩
      obtain ⟨-, user, hsome, -⟩ := h
      exact nomatch hsome
  | some user =>
      have hid : user.id = standing.user := Table.key_of_get? huser
      have hbefore : (collect tables contest.id user standing).ratingBefore =
          lastRating tables contest.id standing.user := by
        rw [← hid]
        rfl
      simp only [Option.bind_eq_bind, Option.bind_some, hbefore]
      by_cases hfloor : ∃ floor ∈ contest.ratingFloor,
          lastRating tables contest.id standing.user < floor
      · rw [if_pos hfloor]
        refine ⟨fun h => (nomatch h), fun h => ?_⟩
        obtain ⟨floor, hmem, hlt⟩ := hfloor
        exact absurd (h.1.1 floor hmem) (not_le.mpr hlt)
      rw [if_neg hfloor]
      by_cases hceiling : ∃ ceiling ∈ contest.ratingCeiling,
          ceiling < lastRating tables contest.id standing.user
      · rw [if_pos hceiling]
        refine ⟨fun h => (nomatch h), fun h => ?_⟩
        obtain ⟨ceiling, hmem, hlt⟩ := hceiling
        exact absurd (h.1.2 ceiling hmem) (not_le.mpr hlt)
      rw [if_neg hceiling]
      have hadmits : Admits contest (lastRating tables contest.id standing.user) :=
        ⟨fun floor hmem => not_lt.mp fun hlt => hfloor ⟨floor, hmem, hlt⟩,
          fun ceiling hmem => not_lt.mp fun hlt => hceiling ⟨ceiling, hmem, hlt⟩⟩
      constructor
      · intro h
        cases h
        exact ⟨hadmits, user, rfl, rfl⟩
      · rintro ⟨-, other, hother, rfl⟩
        cases hother
        rfl

/-- The contest rates the user. -/
def Rates (tables : RatingTables) (contest : ContestRow) (user : ℕ) : Prop :=
  (∃ row, Counts tables.toContestTables contest row ∧ row.user = user) ∧
    Admits contest (lastRating tables contest.id user) ∧ (tables.users.get? user).isSome

theorem rates_iff_selected {user : ℕ} :
    Rates tables contest user ↔ ∃ item ∈ selected tables contest, item.user.id = user := by
  constructor
  · rintro ⟨⟨row, hcounts, rfl⟩, hadmits, hsome⟩
    obtain ⟨user, huser⟩ := Option.isSome_iff_exists.mp hsome
    refine ⟨collect tables contest.id user (standingOf row), ?_, Table.key_of_get? huser⟩
    refine List.mem_filterMap.mpr ⟨standingOf row, mem_standings.mpr ⟨row, hcounts, rfl⟩, ?_⟩
    exact select_eq_some.mpr ⟨hadmits, user, huser, rfl⟩
  · rintro ⟨item, hitem, rfl⟩
    obtain ⟨standing, hstanding, hselect⟩ := List.mem_filterMap.mp hitem
    obtain ⟨row, hcounts, rfl⟩ := mem_standings.mp hstanding
    obtain ⟨hadmits, user, huser, rfl⟩ := select_eq_some.mp hselect
    have hid : user.id = row.user := Table.key_of_get? huser
    refine ⟨⟨row, hcounts, hid.symm⟩, hid ▸ hadmits, ?_⟩
    exact Option.isSome_iff_exists.mpr ⟨user, hid ▸ huser⟩

/-! ## The saving loop -/

theorem length_groupRanks (index : ℕ) (groups : List (List Selected)) :
    (groupRanks index groups).length = groups.flatten.length := by
  induction groups generalizing index with
  | nil => rfl
  | cons group rest ih =>
      rw [groupRanks, List.length_append, List.length_replicate, ih, List.flatten_cons,
        List.length_append]

theorem length_tieRanks (selected : List Selected) :
    (tieRanks selected).length = selected.length := by
  rw [tieRanks, length_groupRanks, List.flatten_splitBy]

/-- The loop runs over the selected participants. -/
theorem map_item_results {selected : List Selected} {outcomes : List EloMMR.Outcome}
    (h : EloMMR.recalculate M (contestants selected) = some outcomes) :
    (results selected outcomes).map Result.item = selected := by
  have hlength := EloMMR.length_of_recalculate_eq_some h
  rw [contestants, List.length_map, List.length_zip, length_tieRanks, min_self] at hlength
  have hitems : (results selected outcomes).map Result.item =
      ((((selected.zip (tieRanks selected)).zip outcomes).map Prod.fst).map Prod.fst) := by
    rw [results, List.map_map, List.map_map]
    rfl
  rw [hitems, List.map_fst_zip (by rw [List.length_zip, length_tieRanks, min_self, hlength]),
    List.map_fst_zip (length_tieRanks selected).ge]

theorem mem_zip_of_mem_results {selected : List Selected} {outcomes : List EloMMR.Outcome}
    {result : Result} (h : result ∈ results selected outcomes) :
    (result.item, result.rank) ∈ selected.zip (tieRanks selected) := by
  obtain ⟨⟨entry, outcome⟩, hentry, rfl⟩ := List.mem_map.mp h
  exact (List.of_mem_zip hentry).1

/-- The rating row that a result asks for. -/
def Result.defaults (M : MathLibrary) (result : Result) : RatingDefaults :=
  RatingService.defaults M result.item result.rank result.outcome

/-- What the loop does to the rows. -/
def saveRow (M : MathLibrary) (contest : ℕ) (saved : List Rating × Table Rating Rating.id)
    (result : Result) : Option (List Rating × Table Rating Rating.id) := do
  let (row, ratings) ← updateOrCreate saved.2 result.item.user.id contest (result.defaults M)
  return (saved.1 ++ [row], ratings)

/-- What the loop does to the users. -/
def saveUser (M : MathLibrary) (users : Table User User.id) (result : Result) :
    Table User User.id :=
  users.modify result.item.user.id (fun row =>
    { row with
      rating := (result.defaults M).ratingAfter
      maxRating := max result.item.user.maxRating (result.defaults M).ratingAfter }) fun _ => rfl

/-- The save of the user overwrites what the signal has written. -/
theorem saveOutcome_eq (contest : ℕ) (rows : List Rating) (result : Result) :
    saveOutcome M contest (rows, tables) result =
      (saveRow M contest (rows, tables.ratings) result).map fun saved =>
        (saved.1, { tables with ratings := saved.2, users := saveUser M tables.users result }) := by
  unfold saveOutcome saveRow
  dsimp only
  change Option.bind (updateOrCreate tables.ratings result.item.user.id contest
      (result.defaults M)) _ = Option.map _ (Option.bind (updateOrCreate tables.ratings
        result.item.user.id contest (result.defaults M)) _)
  cases updateOrCreate tables.ratings result.item.user.id contest (result.defaults M) with
  | none => rfl
  | some saved =>
      have husers := tables.users.modify_modify result.item.user.id
        (f := fun row => { row with
          rating := (result.defaults M).ratingAfter
          maxRating := if row.maxRating < (result.defaults M).ratingAfter then
            (result.defaults M).ratingAfter else row.maxRating })
        (g := fun row => { row with
          rating := (result.defaults M).ratingAfter
          maxRating := max result.item.user.maxRating (result.defaults M).ratingAfter })
        (h := fun row => { row with
          rating := (result.defaults M).ratingAfter
          maxRating := max result.item.user.maxRating (result.defaults M).ratingAfter })
        (fun _ => rfl) (fun _ => rfl) (fun _ => rfl) fun _ => rfl
      exact congrArg (fun users => some (rows ++ [saved.1],
        { tables with ratings := saved.2, users := users })) husers

theorem foldlM_saveOutcome (contest : ℕ) (rows : List Rating) (results : List Result) :
    results.foldlM (saveOutcome M contest) (rows, tables) =
      (results.foldlM (saveRow M contest) (rows, tables.ratings)).map fun saved =>
        (saved.1, { tables with
          ratings := saved.2
          users := results.foldl (saveUser M) tables.users }) := by
  induction results generalizing rows tables with
  | nil => rfl
  | cons result rest ih =>
      rw [List.foldlM_cons, List.foldlM_cons, saveOutcome_eq]
      cases saveRow M contest (rows, tables.ratings) result with
      | none => rfl
      | some saved => exact ih saved.1

/-- No user has two rows of the contest. -/
def SingleRows (contest : ℕ) (ratings : Table Rating Rating.id) : Prop :=
  ∀ row ∈ ratings.rows, ∀ other ∈ ratings.rows,
    row.contest = contest → other.contest = contest → row.user = other.user → row = other

/-- The row is the user's only row of the contest; the other rows stay. -/
theorem updateOrCreate_eq_some {ratings final : Table Rating Rating.id} {user contest : ℕ}
    {defaults : RatingDefaults} {row : Rating} (hsingle : SingleRows contest ratings)
    (h : updateOrCreate ratings user contest defaults = some (row, final)) :
    row.user = user ∧ row.contest = contest ∧ row.toRatingDefaults = defaults ∧
      ∀ other, other ∈ final.rows ↔
        other = row ∨ other ∈ ratings.rows ∧ ¬ (other.user = user ∧ other.contest = contest) := by
  unfold updateOrCreate at h
  dsimp only at h
  split at h
  · exact nomatch h
  obtain ⟨rfl, rfl⟩ := Prod.mk.inj (Option.some.inj h)
  unfold upsertedRow
  cases hfind : ratings.rows.find? fun rating => rating.user = user ∧ rating.contest = contest with
  | some old =>
      have hold : old.user = user ∧ old.contest = contest := by simpa using List.find?_some hfind
      have hmem := List.mem_of_find?_eq_some hfind
      refine ⟨hold.1, hold.2, rfl, fun other => ?_⟩
      rw [Table.mem_save_iff]
      refine or_congr_right (and_congr_right fun hother => not_congr ?_)
      constructor
      · intro hid
        rw [ratings.key_injOn hother hmem hid]
        exact hold
      · intro hother'
        rw [hsingle other hother old hmem hother'.2 hold.2 (hother'.1.trans hold.1.symm)]
  | none =>
      refine ⟨rfl, rfl, rfl, fun other => ?_⟩
      rw [Table.mem_save_iff]
      refine or_congr_right (and_congr_right fun hother => ?_)
      refine iff_of_true (ratings.key_lt_nextKey hother).ne ?_
      simpa using List.find?_eq_none.mp hfind other hother

/-- The last result about a user. -/
def resultOf (results : List Result) (user : ℕ) : Option Result :=
  results.reverse.find? fun result => result.item.user.id = user

theorem resultOf_append_singleton (results : List Result) (result : Result) (user : ℕ) :
    resultOf (results ++ [result]) user =
      if result.item.user.id = user then some result else resultOf results user := by
  rw [resultOf, List.reverse_append, List.reverse_singleton, List.singleton_append, List.find?_cons]
  by_cases h : result.item.user.id = user <;> simp [h, resultOf]

theorem resultOf_eq_none {results : List Result} {user : ℕ} :
    resultOf results user = none ↔ ∀ result ∈ results, result.item.user.id ≠ user := by
  simp [resultOf]

/-- The rows of a contest after the saving loop. -/
structure RowsSaved (M : MathLibrary) (contest : ℕ) (results : List Result)
    (start final : Table Rating Rating.id) : Prop where
  others : ∀ row, row.contest ≠ contest → (row ∈ final.rows ↔ row ∈ start.rows)
  saved : ∀ row ∈ final.rows, row.contest = contest → ∃ result,
    resultOf results row.user = some result ∧ row.toRatingDefaults = result.defaults M
  every : ∀ user result, resultOf results user = some result →
    ∃ row ∈ final.rows, row.contest = contest ∧ row.user = user
  single : SingleRows contest final

theorem rowsSaved_foldlM {contest : ℕ} {results : List Result} {rows rows' : List Rating}
    {start final : Table Rating Rating.id} (hstart : ∀ row ∈ start.rows, row.contest ≠ contest)
    (h : results.foldlM (saveRow M contest) (rows, start) = some (rows', final)) :
    RowsSaved M contest results start final := by
  induction results using List.reverseRecOn generalizing rows' final with
  | nil =>
      cases h
      refine ⟨fun _ _ => Iff.rfl, fun row hrow heq => absurd heq (hstart row hrow), ?_, ?_⟩
      · exact fun _ _ h => (nomatch h)
      · exact fun row hrow _ _ heq => absurd heq (hstart row hrow)
  | append_singleton results result ih =>
      rw [List.foldlM_append] at h
      obtain ⟨⟨middleRows, middle⟩, hmiddle, hlast⟩ := Option.bind_eq_some_iff.mp h
      rw [List.foldlM_cons] at hlast
      obtain ⟨last, hrow, hnil⟩ := Option.bind_eq_some_iff.mp hlast
      cases hnil
      obtain ⟨⟨row, ratings⟩, hupdate, hsaved⟩ := Option.bind_eq_some_iff.mp hrow
      cases hsaved
      have hloop := ih hmiddle
      obtain ⟨huser, hcontest, hdefaults, hmem⟩ := updateOrCreate_eq_some hloop.single hupdate
      refine ⟨fun other hother => ?_, fun other hother hcontest' => ?_,
        fun user result' hresult => ?_, fun first hfirst second hsecond hc hc' huser' => ?_⟩
      · rw [hmem, ← hloop.others other hother]
        constructor
        · rintro (rfl | ⟨hin, -⟩)
          · exact absurd hcontest hother
          · exact hin
        · exact fun hin => Or.inr ⟨hin, fun h => hother h.2⟩
      · rw [resultOf_append_singleton]
        rcases (hmem other).mp hother with rfl | ⟨hin, hnot⟩
        · exact ⟨result, if_pos huser.symm, hdefaults⟩
        · rw [if_neg fun heq => hnot ⟨heq.symm, hcontest'⟩]
          exact hloop.saved other hin hcontest'
      · rw [resultOf_append_singleton] at hresult
        by_cases heq : result.item.user.id = user
        · exact ⟨row, (hmem row).mpr (Or.inl rfl), hcontest, huser.trans heq⟩
        · rw [if_neg heq] at hresult
          obtain ⟨other, hother, hc, hu⟩ := hloop.every user result' hresult
          exact ⟨other, (hmem other).mpr (Or.inr ⟨hother, fun h => heq (h.1.symm.trans hu)⟩), hc, hu⟩
      · rcases (hmem first).mp hfirst with rfl | ⟨hin, hnot⟩
        · rcases (hmem second).mp hsecond with rfl | ⟨hin', hnot'⟩
          · rfl
          · exact absurd ⟨huser'.symm.trans huser, hc'⟩ hnot'
        · rcases (hmem second).mp hsecond with rfl | ⟨hin', hnot'⟩
          · exact absurd ⟨huser'.trans huser, hc⟩ hnot
          · exact hloop.single first hin second hin' hc hc' huser'

/-- The users after the saving loop: each one that has a result carries the last. -/
theorem get?_foldl_saveUser (users : Table User User.id) (results : List Result) (user : ℕ) :
    (results.foldl (saveUser M) users).get? user = (users.get? user).map fun row =>
      (resultOf results user).elim row fun result =>
        { row with
          rating := (result.defaults M).ratingAfter
          maxRating := max result.item.user.maxRating (result.defaults M).ratingAfter } := by
  induction results using List.reverseRecOn with
  | nil => simp [resultOf]
  | append_singleton results result ih =>
      rw [List.foldl_append, List.foldl_cons, List.foldl_nil, saveUser, Table.get?_modify, ih,
        resultOf_append_singleton]
      by_cases heq : user = result.item.user.id
      · rw [if_pos heq, if_pos heq.symm, Option.map_map]
        refine Option.map_congr fun row _ => ?_
        cases resultOf results user <;> rfl
      · rw [if_neg heq, if_neg (Ne.symm heq)]

/-- The service never stores a volatility below 1. -/
theorem one_le_volatility (hM : M.Accurate) (timesRanked : ℕ) : 1 ≤ volatility M timesRanked := by
  refine FloatArith.le_roundHalfEven ?_
  rw [Int.cast_one]
  exact hM.one_le_pow_half _ (EloMMR.varianceFor_mem hM timesRanked).1

/-! ## The calculation -/

/-- The calculation does not return early. -/
def Computes (tables : RatingTables) (contest : ContestRow) (force : Bool) : Prop :=
  contest.isRated = true ∧ (tables.ratingsOf contest.id = [] ∨ force = true)

/-- The tables after a calculation that computes the rows of the contest. -/
structure Recomputed (M : MathLibrary) (tables : RatingTables) (contest : ContestRow) (final : RatingTables) :
    Prop where
  same : final = { tables with users := final.users, ratings := final.ratings }
  others : ∀ row, row.contest ≠ contest.id →
    (row ∈ final.ratings.rows ↔ row ∈ tables.ratings.rows)
  rated : ∀ row ∈ final.ratings.rows, row.contest = contest.id →
    ∃ item ∈ selected tables contest, item.user.id = row.user
  every : ∀ item ∈ selected tables contest,
    ∃ row ∈ final.ratings.rows, row.contest = contest.id ∧ row.user = item.user.id
  single : SingleRows contest.id final.ratings
  synced : ∀ row ∈ final.ratings.rows, row.contest = contest.id →
    (final.users.get? row.user).map User.rating = some row.ratingAfter
  raised : ∀ row ∈ final.ratings.rows, row.contest = contest.id →
    (final.users.get? row.user).map User.maxRating =
      (tables.users.get? row.user).map fun user => max user.maxRating row.ratingAfter
  computed : ∀ row ∈ final.ratings.rows, row.contest = contest.id →
    ∃ result : Result, row.toRatingDefaults = result.defaults M ∧
      (result.item, result.rank) ∈
        (selected tables contest).zip (tieRanks (selected tables contest))
  untouched : ∀ user, (∀ item ∈ selected tables contest, item.user.id ≠ user) →
    final.users.get? user = tables.users.get? user

theorem ratingFloor_le_ratingAfter (result : Result) :
    ratingFloor ≤ (result.defaults M).ratingAfter :=
  le_min (by decide) (le_max_left _ _)

theorem Recomputed.bounded {final : RatingTables} (h : Recomputed M tables contest final)
    {row : Rating} (hrow : row ∈ final.ratings.rows) (hcontest : row.contest = contest.id) :
    ratingFloor ≤ row.ratingAfter := by
  obtain ⟨result, hresult, -⟩ := h.computed row hrow hcontest
  rw [hresult]
  exact ratingFloor_le_ratingAfter result

theorem ratingsOf_eq_nil : tables.ratingsOf contest.id = [] ↔
    ∀ row ∈ tables.ratings.rows, row.contest ≠ contest.id := by
  simp [RatingTables.ratingsOf]

theorem user_of_mem_selected {item : Selected} (h : item ∈ selected tables contest) :
    tables.users.get? item.user.id = some item.user := by
  obtain ⟨standing, -, hselect⟩ := List.mem_filterMap.mp h
  obtain ⟨-, user, huser, rfl⟩ := select_eq_some.mp hselect
  have hid : user.id = standing.user := Table.key_of_get? huser
  exact hid ▸ huser

/-- The tables on which the saving loop starts. -/
def cleared (tables : RatingTables) (contest : ℕ) (force : Bool) : RatingTables :=
  if force then tables.deleteRatings contest else tables

theorem mem_cleared {force : Bool} (hcomputes : Computes tables contest force) (row : Rating) :
    row ∈ (cleared tables contest.id force).ratings.rows ↔
      row ∈ tables.ratings.rows ∧ row.contest ≠ contest.id := by
  unfold cleared
  by_cases hforce : force = true
  · rw [if_pos hforce, RatingTables.deleteRatings, Table.filter, List.mem_filter, decide_eq_true_eq]
  · rw [if_neg hforce]
    have hnone := ratingsOf_eq_nil.mp (hcomputes.2.resolve_right hforce)
    exact ⟨fun h => ⟨h, hnone row h⟩, fun h => h.1⟩

theorem cleared_eq (contest : ℕ) (force : Bool) :
    cleared tables contest force =
      { tables with ratings := (cleared tables contest force).ratings } := by
  unfold cleared
  split <;> rfl

/-- What the saving loop leaves is what `Recomputed` says. -/
theorem recomputed_of_saved {force : Bool} {outcomes : List EloMMR.Outcome} {rows : List Rating}
    {ratings : Table Rating Rating.id} (hcomputes : Computes tables contest force)
    (houtcomes : EloMMR.recalculate M (contestants (selected tables contest)) = some outcomes)
    (hsaved : (results (selected tables contest) outcomes).foldlM (saveRow M contest.id)
      ([], (cleared tables contest.id force).ratings) = some (rows, ratings)) :
    Recomputed M tables contest { tables with
      ratings := ratings
      users := (results (selected tables contest) outcomes).foldl (saveUser M) tables.users } := by
  have hitems := map_item_results houtcomes
  have hloop := rowsSaved_foldlM (fun row hrow => ((mem_cleared hcomputes row).mp hrow).2) hsaved
  have hitem : ∀ user result,
      resultOf (results (selected tables contest) outcomes) user = some result →
        result.item ∈ selected tables contest ∧ result.item.user.id = user := by
    intro user result hresult
    have hmem := List.mem_reverse.mp (List.mem_of_find?_eq_some hresult)
    refine ⟨hitems ▸ List.mem_map_of_mem hmem, ?_⟩
    simpa using List.find?_some hresult
  refine ⟨rfl, fun row hrow => ?_, fun row hrow hcontest => ?_, fun item hmem => ?_, hloop.single,
    fun row hrow hcontest => ?_, fun row hrow hcontest => ?_, fun row hrow hcontest => ?_,
    fun user huser => ?_⟩
  · rw [hloop.others row hrow, mem_cleared hcomputes]
    exact and_iff_left hrow
  · obtain ⟨result, hresult, -⟩ := hloop.saved row hrow hcontest
    exact ⟨result.item, hitem _ _ hresult⟩
  · rw [← hitems] at hmem
    obtain ⟨result, hresult, rfl⟩ := List.mem_map.mp hmem
    cases hlast : resultOf (results (selected tables contest) outcomes) result.item.user.id with
    | none => exact absurd rfl (resultOf_eq_none.mp hlast result hresult)
    | some last => exact hloop.every _ last hlast
  · obtain ⟨result, hresult, hdefaults⟩ := hloop.saved row hrow hcontest
    obtain ⟨hmem, huser⟩ := hitem _ _ hresult
    rw [get?_foldl_saveUser, hresult, ← huser, user_of_mem_selected hmem, Option.map_some,
      Option.map_some, Option.elim_some, hdefaults]
  · obtain ⟨result, hresult, hdefaults⟩ := hloop.saved row hrow hcontest
    obtain ⟨hmem, huser⟩ := hitem _ _ hresult
    rw [get?_foldl_saveUser, hresult, ← huser, user_of_mem_selected hmem, Option.map_some,
      Option.map_some, Option.map_some, Option.elim_some, hdefaults]
  · obtain ⟨result, hresult, hdefaults⟩ := hloop.saved row hrow hcontest
    have hmem := List.mem_reverse.mp (List.mem_of_find?_eq_some hresult)
    exact ⟨result, hdefaults, mem_zip_of_mem_results hmem⟩
  · have hnone : resultOf (results (selected tables contest) outcomes) user = none := by
      cases hlast : resultOf (results (selected tables contest) outcomes) user with
      | none => rfl
      | some last =>
          obtain ⟨hmem, heq⟩ := hitem _ _ hlast
          exact absurd heq (huser _ hmem)
    rw [get?_foldl_saveUser, hnone]
    simp

/-- Without participants to rate, the rows of the contest are deleted. -/
theorem recomputed_of_nil (hempty : selected tables contest = []) :
    Recomputed M tables contest (tables.deleteRatings contest.id) := by
  have hmem : ∀ row, row ∈ (tables.deleteRatings contest.id).ratings.rows ↔
      row ∈ tables.ratings.rows ∧ row.contest ≠ contest.id := by
    intro row
    rw [RatingTables.deleteRatings, Table.filter, List.mem_filter, decide_eq_true_eq]
  refine ⟨rfl, fun row hrow => ?_, fun row hrow hcontest => ?_, fun item hitem => ?_,
    fun row hrow _ _ hcontest => ?_, fun row hrow hcontest => ?_, fun row hrow hcontest => ?_,
    fun row hrow hcontest => ?_, fun _ _ => rfl⟩
  · rw [hmem]
    exact and_iff_left hrow
  · exact absurd hcontest ((hmem row).mp hrow).2
  · rw [hempty] at hitem
    exact absurd hitem List.not_mem_nil
  · exact absurd hcontest ((hmem row).mp hrow).2
  · exact absurd hcontest ((hmem row).mp hrow).2
  · exact absurd hcontest ((hmem row).mp hrow).2
  · exact absurd hcontest ((hmem row).mp hrow).2

theorem deleteRatings_of_nil (h : tables.ratingsOf contest.id = []) :
    tables.deleteRatings contest.id = tables := by
  have hkeep : (tables.ratings.filter fun rating => rating.contest ≠ contest.id) = tables.ratings :=
    Table.filter_eq_self fun row hrow => decide_eq_true (ratingsOf_eq_nil.mp h row hrow)
  rw [RatingTables.deleteRatings, hkeep]

/-- The first calculation of a contest, without the early returns. -/
theorem calculateRatings_of_nil (hrated : contest.isRated = true)
    (hnone : tables.ratingsOf contest.id = []) :
    calculateRatings M contest false tables =
      contest.format.bind fun _ => (EloMMR.recalculate M (contestants (selected tables contest))).bind
        fun outcomes => (results (selected tables contest) outcomes).foldlM
          (saveOutcome M contest.id) ([], tables) := by
  have hexisting : ¬ ((tables.ratingsOf contest.id).sortBy
      (fun rating => toLex (rating.rank, rating.user)) ≠ [] ∧ false = false) := by
    rw [hnone]
    exact fun h => h.1 rfl
  unfold calculateRatings
  dsimp only
  rw [if_neg (by simp [hrated]), if_neg hexisting]
  cases contest.format with
  | none => rfl
  | some format =>
      by_cases hempty : selected tables contest = []
      · rw [if_pos hempty, hempty, deleteRatings_of_nil hnone]
        rfl
      · rw [if_neg hempty]
        rfl

theorem calculateRatings_of_selected_nil (hrated : contest.isRated = true)
    (hnone : tables.ratingsOf contest.id = []) (hempty : selected tables contest = []) :
    calculateRatings M contest false tables = contest.format.map fun _ => ([], tables) := by
  rw [calculateRatings_of_nil hrated hnone, hempty]
  cases contest.format <;> rfl

/-- A calculation that returns changes nothing or computes the rows of the contest. -/
theorem calculateRatings_cases {force : Bool} {rows : List Rating} {final : RatingTables}
    (h : calculateRatings M contest force tables = some (rows, final)) :
    ¬ Computes tables contest force ∧ final = tables ∨
      Computes tables contest force ∧ Recomputed M tables contest final := by
  unfold calculateRatings at h
  dsimp only at h
  by_cases hrated : contest.isRated = false
  · rw [if_pos hrated] at h
    cases h
    exact Or.inl ⟨fun hcomputes => absurd (hrated.symm.trans hcomputes.1) (by decide), rfl⟩
  rw [if_neg hrated] at h
  set existing := (tables.ratingsOf contest.id).sortBy fun rating => toLex (rating.rank, rating.user)
    with hexistingDef
  have hnil : existing = [] ↔ tables.ratingsOf contest.id = [] := by
    rw [← List.length_eq_zero_iff, List.length_sortBy, List.length_eq_zero_iff]
  by_cases hexisting : existing ≠ [] ∧ force = false
  · rw [if_pos hexisting] at h
    refine Or.inl ⟨fun hcomputes => ?_, (congrArg Prod.snd (Option.some.inj h)).symm⟩
    rcases hcomputes.2 with hnone | hforce
    · exact hexisting.1 (hnil.mpr hnone)
    · exact absurd (hexisting.2.symm.trans hforce) (by decide)
  rw [if_neg hexisting] at h
  have hcomputes : Computes tables contest force := by
    refine ⟨by simpa using hrated, ?_⟩
    by_contra hnot
    simp only [not_or, Bool.not_eq_true] at hnot
    exact hexisting ⟨fun hnone => hnot.1 (hnil.mp hnone), hnot.2⟩
  refine Or.inr ⟨hcomputes, ?_⟩
  obtain ⟨format, -, hselect⟩ := Option.bind_eq_some_iff.mp h
  by_cases hempty : selected tables contest = []
  · rw [if_pos hempty] at hselect
    cases hselect
    exact recomputed_of_nil hempty
  · rw [if_neg hempty] at hselect
    obtain ⟨outcomes, houtcomes, hloop⟩ := Option.bind_eq_some_iff.mp hselect
    change (results (selected tables contest) outcomes).foldlM (saveOutcome M contest.id)
      ([], cleared tables contest.id force) = some (rows, final) at hloop
    rw [foldlM_saveOutcome] at hloop
    obtain ⟨⟨savedRows, ratings⟩, hsaved, heq⟩ := Option.map_eq_some_iff.mp hloop
    have hrecomputed := recomputed_of_saved hcomputes houtcomes hsaved
    have hfinal : _ = final := congrArg Prod.snd heq
    rw [cleared_eq] at hfinal
    exact hfinal ▸ hrecomputed

theorem recalculateContests_append_singleton (before : List ContestRow) (contest : ContestRow)
    (tables : RatingTables) :
    recalculateContests M (before ++ [contest]) tables =
      (recalculateContests M before tables).bind fun next =>
        (calculateRatings M contest false next).map Prod.snd := by
  rw [recalculateContests, List.foldlM_append, recalculateContests]
  exact congrArg (Option.bind _) (funext fun next => by rw [List.foldlM_cons]; exact bind_pure _)

end RatingService

end JudgeLoom
