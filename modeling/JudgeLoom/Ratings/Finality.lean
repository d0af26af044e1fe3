import JudgeLoom.Contests.Lifecycle
import JudgeLoom.Judge.Transitions
import JudgeLoom.Ratings.Ranks

/-!
# Ratings are final when a contest has ended

`tick_contests` ends a contest when its end time has come, whether or not its
submissions have been judged, and rates it on the standings of that moment.  The
ranks then agree with the standings (`ranksAgree_recomputed`), and they keep agreeing as
long as the standings of the rated participants stay: no operation changes them but
a verdict that comes afterwards (`Site.final_run`).

An ended contest is not rated again.  A verdict that comes late, after a rejudge for
instance, moves the standings away from the ratings (`Site.late_verdict`), and an
update can give an ended contest an end time in the future.
-/

namespace JudgeLoom

open RatingService

/-- `(-score, tiebreaker)`, best first. -/
def ParticipationRow.key (row : ParticipationRow) : ℚ ×ₗ ℚ := toLex (-row.score, row.tiebreaker)

/-- The ranks of the contest's rows are in the order of the stored standings. -/
def RanksAgree (tables : RatingTables) (contest : ℕ) : Prop :=
  ∀ first ∈ tables.ratings.rows, ∀ second ∈ tables.ratings.rows,
    first.contest = contest → second.contest = contest →
      ∃ p q, tables.participations.get? first.participation = some p ∧
        tables.participations.get? second.participation = some q ∧
          (first.rank < second.rank ↔ p.key < q.key)

namespace Site

/-- A submission of the contest has a job that is queued, claimed or running. -/
def Judges (site : Site) (contest : ℕ) : Prop :=
  ∃ job s id row, site.database.judging? job = some s ∧
    (s.job.status = .queued ∨ s.job.status.leased = true) ∧
      s.submission.contestParticipation = some id ∧
        site.participations.get? id = some row ∧ row.contest = contest

/-- A rated contest that has ended, with nothing left to judge, is over, and its ratings
follow its standings. -/
def Final (site : Site) : Prop :=
  ∀ contest ∈ site.contests.rows, contest.isRated = true → contest.endedAt.isSome →
    ¬ site.Judges contest.id →
      contest.endTime ≤ site.now ∧ RanksAgree site.toRatingTables contest.id

/-- No contest has ended, and no ratings have been computed. -/
structure Initial (site : Site) : Prop where
  ratings : site.ratings = ∅
  contests : ∀ contest ∈ site.contests.rows, contest.endedAt = none

end Site

/-- The job whose verdict the operation reports. -/
def Op.verdictOn : Op → Option ℕ
  | .finish _ job _ => some job
  | .fail _ job _ _ => some job
  | _ => none

namespace Site

/-- The operation ends a job whose submission is that of a participant with a rating. -/
def LateVerdict (site : Site) (op : Op) : Prop :=
  ∃ job s id, op.verdictOn = some job ∧ site.database.judging? job = some s ∧
    s.job.status.leased = true ∧ s.submission.contestParticipation = some id ∧
      ∃ row ∈ site.ratings.rows, row.participation = id

/-- The update leaves a contest that has ended rated, with an end in the future. -/
def Reopens (site : Site) (id : ℕ) (update : ContestUpdate) : Prop :=
  ∃ contest, site.contests.get? id = some contest ∧ contest.endedAt.isSome ∧
    (update.apply contest).isRated = true ∧ site.now < (update.apply contest).endTime

/-- The operation touches what the ratings of an ended contest were computed from. -/
def Revisits (site : Site) : SiteOp → Prop
  | .judging op => site.LateVerdict op
  | .updateContest id update => site.Reopens id update
  | .tickContests _ => False

end Site

/-! ## The invariant -/

/-- What holds of contests and their ratings at time `now`. -/
structure RatedOnce (tables : RatingTables) (now : Time) : Prop where
  ended : ∀ row ∈ tables.ratings.rows, ∃ contest,
    tables.contests.get? row.contest = some contest ∧ contest.endedAt.isSome
  stored : ∀ row ∈ tables.ratings.rows, ∃ p,
    tables.participations.get? row.participation = some p ∧ p.contest = row.contest
  ranks : ∀ contest, RanksAgree tables contest
  past : ∀ contest ∈ tables.contests.rows, contest.isRated = true → contest.endedAt.isSome →
    contest.endTime ≤ now

namespace RatedOnce

variable {M : MathLibrary} {tables final : RatingTables} {contest : ContestRow} {now later : Time}

/-- Only the rows, the standings of the rated participants and the ends of the contests
matter. -/
theorem congr (h : RatedOnce tables now) (hratings : final.ratings = tables.ratings)
    (hparticipations : ∀ row ∈ tables.ratings.rows, ∀ p,
      tables.participations.get? row.participation = some p →
        ∃ q, final.participations.get? row.participation = some q ∧ q.contest = p.contest ∧
          q.key = p.key)
    (hended : ∀ id contest, tables.contests.get? id = some contest → contest.endedAt.isSome →
      ∃ contest', final.contests.get? id = some contest' ∧ contest'.endedAt.isSome)
    (hpast : ∀ contest ∈ final.contests.rows, contest.isRated = true → contest.endedAt.isSome →
      contest.endTime ≤ later) : RatedOnce final later := by
  refine ⟨?_, ?_, fun id => ?_, hpast⟩
  · rw [hratings]
    intro row hrow
    obtain ⟨contest, hcontest, hdone⟩ := h.ended row hrow
    exact hended row.contest contest hcontest hdone
  · rw [hratings]
    intro row hrow
    obtain ⟨p, hp, hcontest⟩ := h.stored row hrow
    obtain ⟨q, hq, hsame, -⟩ := hparticipations row hrow p hp
    exact ⟨q, hq, hsame.trans hcontest⟩
  · unfold RanksAgree
    rw [hratings]
    intro first hfirst second hsecond hcontest hcontest'
    obtain ⟨p, q, hp, hq, hranks⟩ := h.ranks id first hfirst second hsecond hcontest hcontest'
    obtain ⟨p', hp', -, hkey⟩ := hparticipations first hfirst p hp
    obtain ⟨q', hq', -, hkey'⟩ := hparticipations second hsecond q hq
    exact ⟨p', q', hp', hq', by rw [hranks, hkey, hkey']⟩

/-- A contest that has not ended has no rows. -/
theorem ratingsOf_eq_nil (h : RatedOnce tables now) {id : ℕ}
    (hcontest : tables.contests.get? id = some contest) (hopen : contest.endedAt = none) :
    ∀ row ∈ tables.ratings.rows, row.contest ≠ id := by
  rintro row hrow rfl
  obtain ⟨other, hother, hended⟩ := h.ended row hrow
  rw [hcontest] at hother
  cases hother
  rw [hopen] at hended
  exact Bool.false_ne_true hended

end RatedOnce

/-! ## The end of a contest -/

section EndContest

variable {M : MathLibrary} {tables final : RatingTables} {contest : ContestRow} {now : Time} {id : ℕ}

/-- A participant that is selected is stored with the standing that they are ranked by. -/
theorem participation_of_mem_selected {item : Selected} (h : item ∈ selected tables contest) :
    ∃ row, tables.participations.get? item.participation = some row ∧
      row.contest = contest.id ∧ row.key = item.key := by
  obtain ⟨standing, hstanding, hselect⟩ := List.mem_filterMap.mp h
  obtain ⟨row, hcounts, rfl⟩ := mem_standings.mp hstanding
  obtain ⟨-, user, -, rfl⟩ := select_eq_some.mp hselect
  exact ⟨row, Table.get?_key_of_mem hcounts.stored, hcounts.contest_eq, rfl⟩

/-- A row of the contest names the participation and the place it was computed from. -/
theorem RatingService.Recomputed.ranked {row : Rating} (h : Recomputed M tables contest final)
    (hrow : row ∈ final.ratings.rows) (hcontest : row.contest = contest.id) :
    ∃ entry ∈ (selected tables contest).zip (tieRanks (selected tables contest)),
      row.rank = place entry.2 ∧ ∃ p, tables.participations.get? row.participation = some p ∧
        p.contest = contest.id ∧ p.key = entry.1.key := by
  obtain ⟨result, hresult, hmem⟩ := h.computed row hrow hcontest
  have hrank : row.rank = place result.rank := congrArg RatingDefaults.rank hresult
  have hparticipation : row.participation = result.item.participation :=
    congrArg RatingDefaults.participation hresult
  refine ⟨_, hmem, hrank, ?_⟩
  rw [hparticipation]
  exact participation_of_mem_selected (List.of_mem_zip hmem).1

/-- A calculation ranks its participants in the order of the standings. -/
theorem ranksAgree_recomputed (h : Recomputed M tables contest final) :
    RanksAgree final contest.id := by
  intro first hfirst second hsecond hcontest hcontest'
  obtain ⟨entry, hentry, hrank, p, hp, -, hkey⟩ := h.ranked hfirst hcontest
  obtain ⟨entry', hentry', hrank', q, hq, -, hkey'⟩ := h.ranked hsecond hcontest'
  have hparticipations : final.participations = tables.participations := by rw [h.same]
  refine ⟨p, q, by rw [hparticipations, hp], by rw [hparticipations, hq], ?_⟩
  rw [hrank, hrank', hkey, hkey']
  exact place_lt_place_iff hentry hentry'

/-- The tables on which the ratings of a contest that ends are calculated. -/
def ranked (A : FloatArith) (contest : ContestRow) (tables : RatingTables) : RatingTables :=
  { tables with
    toContestTables := RankingService.recalculateAll A contest tables.toContestTables }

/-- Nothing, or the standings, the ratings and the stamp. -/
theorem endContest_cases (h : ContestLifecycleService.endContest M now id tables = some final) :
    final = tables ∨ ∃ contest done, tables.contests.get? id = some contest ∧
      contest.endedAt = none ∧ final = ContestLifecycleService.markEnded now id done ∧
        (done = ranked M.arith contest tables ∨
          ∃ rows, calculateRatings M contest false (ranked M.arith contest tables) =
            some (rows, done)) := by
  unfold ContestLifecycleService.endContest at h
  split at h
  · cases h
    exact Or.inl rfl
  next contest hcontest =>
    split at h
    · cases h
      exact Or.inl rfl
    next hopen =>
      obtain ⟨done, hdone, rfl⟩ := Option.map_eq_some_iff.mp h
      obtain ⟨standings, hstandings, hrest⟩ := Option.bind_eq_some_iff.mp hdone
      obtain ⟨-, rfl⟩ := RankingService.recalculateContest_eq_some hstandings
      refine Or.inr ⟨contest, done, hcontest, by simpa using hopen, rfl, ?_⟩
      split at hrest
      · obtain ⟨⟨rows, next⟩, hnext, rfl⟩ := Option.map_eq_some_iff.mp hrest
        exact Or.inr ⟨rows, hnext⟩
      · cases hrest
        exact Or.inl rfl

theorem get?_participations_ranked {A : FloatArith} {key : ℕ} {row : ParticipationRow}
    (h : tables.participations.get? key = some row) (hother : row.contest ≠ contest.id) :
    (ranked A contest tables).participations.get? key = some row := by
  change (RankingService.recalculateAll A contest tables.toContestTables).participations.get? key = _
  rw [RankingService.recalculateAll, Table.get?_updateWhere, h, Option.map_some,
    if_neg (by simpa using hother)]

namespace RatedOnce

/-- The standings of a contest without rows do not matter. -/
theorem ranked {A : FloatArith} (h : RatedOnce tables now)
    (hnone : ∀ row ∈ tables.ratings.rows, row.contest ≠ contest.id) :
    RatedOnce (ranked A contest tables) now := by
  refine h.congr rfl (fun row hrow p hp => ?_) (fun _ contest hcontest hended =>
    ⟨contest, hcontest, hended⟩) h.past
  obtain ⟨q, hq, hcontest⟩ := h.stored row hrow
  cases hp.symm.trans hq
  refine ⟨p, get?_participations_ranked hp ?_, rfl, rfl⟩
  rw [hcontest]
  exact hnone row hrow

/-- The contests after the stamp. -/
theorem get?_contests_markEnded (other : ℕ) :
    (ContestLifecycleService.markEnded now id tables).contests.get? other =
      if other = id then (tables.contests.get? other).map fun row => { row with endedAt := some now }
      else tables.contests.get? other := by
  rw [ContestLifecycleService.markEnded, Table.get?_modify]

theorem past_markEnded (h : RatedOnce tables now)
    (hdue : ∀ contest, tables.contests.get? id = some contest → contest.endTime ≤ now)
    (hcontests : final.contests = tables.contests) :
    ∀ contest ∈ (ContestLifecycleService.markEnded now id final).contests.rows,
      contest.isRated = true → contest.endedAt.isSome → contest.endTime ≤ now := by
  intro contest hcontest hrated hended
  have hget := Table.get?_key_of_mem hcontest
  rw [get?_contests_markEnded, hcontests] at hget
  split at hget
  · next hid =>
      obtain ⟨old, hold, rfl⟩ := Option.map_eq_some_iff.mp hget
      exact hdue old (hid ▸ hold)
  · exact h.past contest (Table.mem_of_get? hget) hrated hended

/-- The end of a contest that rates nobody. -/
theorem markEnded (h : RatedOnce tables now)
    (hdue : ∀ contest, tables.contests.get? id = some contest → contest.endTime ≤ now) :
    RatedOnce (ContestLifecycleService.markEnded now id tables) now := by
  refine h.congr rfl (fun _ _ p hp => ⟨p, hp, rfl, rfl⟩) (fun other contest hcontest hended => ?_)
    (h.past_markEnded hdue rfl)
  rw [get?_contests_markEnded, hcontest]
  split
  · exact ⟨_, rfl, rfl⟩
  · exact ⟨contest, rfl, hended⟩

/-- The end of a contest that is rated. -/
theorem recomputed (h : RatedOnce tables now) (hcontest : tables.contests.get? contest.id = some contest)
    (hdue : contest.endTime ≤ now) (hdone : Recomputed M tables contest final) :
    RatedOnce (ContestLifecycleService.markEnded now contest.id final) now := by
  have hcontests : final.contests = tables.contests := by rw [hdone.same]
  have hparticipations : final.participations = tables.participations := by rw [hdone.same]
  refine ⟨fun row hrow => ?_, fun row hrow => ?_, fun id => ?_, ?_⟩
  · rw [get?_contests_markEnded, hcontests]
    by_cases hc : row.contest = contest.id
    · rw [if_pos hc, hc, hcontest]
      exact ⟨_, rfl, rfl⟩
    · rw [if_neg hc]
      exact h.ended row ((hdone.others row hc).mp hrow)
  · change ∃ p, final.participations.get? row.participation = some p ∧ _
    by_cases hc : row.contest = contest.id
    · obtain ⟨entry, -, -, p, hp, hsame, -⟩ := hdone.ranked hrow hc
      exact ⟨p, by rw [hparticipations, hp], hsame.trans hc.symm⟩
    · rw [hparticipations]
      exact h.stored row ((hdone.others row hc).mp hrow)
  · by_cases hid : id = contest.id
    · have hagree : RanksAgree final contest.id := ranksAgree_recomputed hdone
      rw [hid]
      exact hagree
    · intro first hfirst second hsecond hc hc'
      change ∃ p q, final.participations.get? first.participation = some p ∧
        final.participations.get? second.participation = some q ∧ _
      rw [hparticipations]
      exact h.ranks id first ((hdone.others first (hc ▸ hid)).mp hfirst) second
        ((hdone.others second (hc' ▸ hid)).mp hsecond) hc hc'
  · refine h.past_markEnded (fun other hother => ?_) hcontests
    cases hcontest.symm.trans hother
    exact hdue

theorem endContest (h : RatedOnce tables now)
    (hdue : ∀ contest, tables.contests.get? id = some contest → contest.endTime ≤ now)
    (hend : ContestLifecycleService.endContest M now id tables = some final) :
    RatedOnce final now := by
  rcases endContest_cases hend with rfl | ⟨contest, done, hcontest, hopen, rfl, hdone⟩
  · exact h
  have hid : contest.id = id := Table.key_of_get? hcontest
  have hranked : RatedOnce (JudgeLoom.ranked M.arith contest tables) now :=
    h.ranked (hid.symm ▸ h.ratingsOf_eq_nil hcontest hopen)
  rcases hdone with rfl | ⟨rows, hcalculate⟩
  · exact hranked.markEnded hdue
  rcases calculateRatings_cases hcalculate with ⟨-, rfl⟩ | ⟨-, hrecomputed⟩
  · exact hranked.markEnded hdue
  · rw [← hid] at hcontest ⊢
    exact hranked.recomputed hcontest (hdue contest (hid ▸ hcontest)) hrecomputed

end RatedOnce

/-- The end of a contest moves no end time. -/
theorem endTime_endContest (hend : ContestLifecycleService.endContest M now id tables = some final)
    {other : ℕ} {contest : ContestRow} (h : final.contests.get? other = some contest) :
    ∃ old, tables.contests.get? other = some old ∧ contest.endTime = old.endTime := by
  rcases endContest_cases hend with rfl | ⟨ended, done, -, -, rfl, hdone⟩
  · exact ⟨contest, h, rfl⟩
  have hcontests : done.contests = tables.contests := by
    rcases hdone with rfl | ⟨rows, hcalculate⟩
    · rfl
    · rcases calculateRatings_cases hcalculate with ⟨-, rfl⟩ | ⟨-, hrecomputed⟩
      · rfl
      · rw [hrecomputed.same]
        rfl
  rw [RatedOnce.get?_contests_markEnded, hcontests] at h
  split at h
  · obtain ⟨old, hold, rfl⟩ := Option.map_eq_some_iff.mp h
    exact ⟨old, hold, rfl⟩
  · exact ⟨contest, h, rfl⟩

/-! ## The operations -/

/-- The contests with the ids of a list have come to their end. -/
def Due (now : Time) (tables : RatingTables) (ids : List ℕ) : Prop :=
  ∀ id ∈ ids, ∀ contest, tables.contests.get? id = some contest → contest.endTime ≤ now

namespace RatedOnce

theorem startContest (h : RatedOnce tables now) :
    RatedOnce (ContestLifecycleService.startContest now tables id) now := by
  have hget : ∀ other, (ContestLifecycleService.startContest now tables id).contests.get? other =
      if other = id then (tables.contests.get? other).map fun row =>
        { row with startedAt := some (row.startedAt.getD now) }
      else tables.contests.get? other := by
    intro other
    rw [ContestLifecycleService.startContest, Table.get?_modify]
  refine h.congr rfl (fun _ _ p hp => ⟨p, hp, rfl, rfl⟩) (fun other contest hcontest hended => ?_)
    fun contest hcontest hrated hended => ?_
  · rw [hget, hcontest]
    split
    · exact ⟨_, rfl, hended⟩
    · exact ⟨contest, rfl, hended⟩
  · have hcontest' := Table.get?_key_of_mem hcontest
    rw [hget] at hcontest'
    split at hcontest'
    · obtain ⟨old, hold, rfl⟩ := Option.map_eq_some_iff.mp hcontest'
      exact h.past old (Table.mem_of_get? hold) hrated hended
    · exact h.past contest (Table.mem_of_get? hcontest') hrated hended

theorem foldl_startContest (h : RatedOnce tables now) (ids : List ℕ) :
    RatedOnce (ids.foldl (ContestLifecycleService.startContest now) tables) now := by
  induction ids generalizing tables with
  | nil => exact h
  | cons id rest ih => exact ih h.startContest

theorem foldl_tryEndContest {ids : List ℕ} (h : RatedOnce tables now) (hdue : Due now tables ids) :
    RatedOnce (ids.foldl (ContestLifecycleService.tryEndContest M now) tables) now := by
  induction ids generalizing tables with
  | nil => exact h
  | cons id rest ih =>
      rw [List.foldl_cons, ContestLifecycleService.tryEndContest]
      have hrest : Due now tables rest := fun other hother => hdue other (List.mem_cons_of_mem _ hother)
      cases hend : ContestLifecycleService.endContest M now id tables with
      | none => exact ih h hrest
      | some next =>
          refine ih (h.endContest (hdue id List.mem_cons_self) hend) fun other hother contest hget => ?_
          obtain ⟨old, hold, htime⟩ := endTime_endContest hend hget
          rw [htime]
          exact hrest other hother old hold

theorem mem_contestIds {order : RowOrder} {due : ContestRow → Bool} :
    id ∈ ContestLifecycleService.contestIds order due tables ↔
      ∃ contest ∈ tables.contests.rows, due contest = true ∧ contest.id = id := by
  rw [ContestLifecycleService.contestIds, List.mem_map]
  refine exists_congr fun contest => ?_
  rw [List.mem_sortBy, (order.contests_perm _).mem_iff, List.mem_filter, and_assoc]

/-- A tick ends contests whose time has come. -/
theorem tickContests (h : RatedOnce tables now) (order : RowOrder) :
    RatedOnce (ContestLifecycleService.tickContests M order now tables) now := by
  refine foldl_tryEndContest (h.foldl_startContest _) fun id hid contest hcontest => ?_
  obtain ⟨due, hdue, htime, hkey⟩ := mem_contestIds.mp hid
  have hsame := Table.get?_key_of_mem hdue
  rw [hkey, hcontest] at hsame
  cases hsame
  rw [Bool.and_eq_true, decide_eq_true_eq] at htime
  exact htime.2

theorem updateContest {update : ContestUpdate} (h : RatedOnce tables now)
    (hend : ∀ contest, tables.contests.get? id = some contest → contest.endedAt.isSome →
      (update.apply contest).isRated = true → (update.apply contest).endTime ≤ now)
    (hdone : ContestService.updateContest id update tables = some final) : RatedOnce final now := by
  obtain ⟨row, -, hrest⟩ := Option.bind_eq_some_iff.mp hdone
  dsimp only at hrest
  split at hrest
  · exact nomatch hrest
  cases hrest
  have hget : ∀ other, (tables.contests.modify id update.apply update.id_apply).get? other =
      if other = id then (tables.contests.get? other).map update.apply
      else tables.contests.get? other :=
    fun other => Table.get?_modify _ _ _ update.id_apply other
  refine h.congr rfl (fun _ _ p hp => ⟨p, hp, rfl, rfl⟩) (fun other contest hcontest hended => ?_)
    fun contest hcontest hrated hended => ?_
  · rw [hget, hcontest]
    split
    · exact ⟨_, rfl, hended⟩
    · exact ⟨contest, rfl, hended⟩
  · have hcontest' := Table.get?_key_of_mem hcontest
    rw [hget] at hcontest'
    split at hcontest'
    · next hid =>
        obtain ⟨old, hold, rfl⟩ := Option.map_eq_some_iff.mp hcontest'
        exact hend old (hid ▸ hold) hended hrated
    · exact h.past contest (Table.mem_of_get? hcontest') hrated hended

end RatedOnce

end EndContest

section Judging

variable {P : Python} {db next : Database} {now : Time} {id : ℕ}

theorem participations_expireStaleJobs (now : Time) (db : Database) :
    (JudgeGatewayService.expireStaleJobs now db).2.participations = db.participations := by
  have hfold : ∀ ids : List ℕ, (ids.foldl (JudgeGatewayService.expireJob now) db).participations =
      db.participations := by
    intro ids
    induction ids using List.reverseRecOn with
    | nil => rfl
    | append_singleton ids job ih =>
        rw [List.foldl_append, List.foldl_cons, List.foldl_nil, JudgeGatewayService.expireJob]
        split
        · exact ih
        · exact ih
  exact hfold _

/-- The end of a job changes the participation of its submission only. -/
theorem get?_participations_close {s : Judging}
    (h : s.submission.contestParticipation ≠ some id) :
    (JudgeResultService.close P db s).2.participations.get? id = db.participations.get? id := by
  unfold JudgeResultService.close Database.refreshContestScore
  dsimp only
  split
  · rfl
  · next bound hbound =>
      rw [Table.get?_modify, if_neg fun heq => h (hbound.trans (congrArg some heq.symm))]
      rfl

/-- No operation but a verdict changes a participation. -/
theorem get?_participations_perform {op : Op} (hok : op.perform P now db = .ok next)
    (hverdict : ∀ job s, op.verdictOn = some job → db.judging? job = some s →
      s.job.status.leased = true → s.submission.contestParticipation ≠ some id) :
    next.participations.get? id = db.participations.get? id := by
  cases op with
  | advance elapsed =>
      cases hok
      rfl
  | createSubmission request =>
      rw [SubmissionService.createSubmission_eq_ok hok]
      rfl
  | claimJob judge languages tie =>
      cases hok
      rw [← participations_expireStaleJobs now db, JudgeGatewayService.claimJob]
      dsimp only
      split <;> rfl
  | start judge job =>
      obtain ⟨s, -, ⟨-, -, rfl⟩ | ⟨-, -, rfl⟩⟩ := JudgeResultService.start_eq_ok hok
      all_goals rfl
  | recordCases judge job cases =>
      obtain ⟨s, -, -, testCases, maxCase, -, rfl⟩ := JudgeResultService.recordCases_eq_ok hok
      rfl
  | finish judge job errorMessage =>
      obtain ⟨result, hresult, rfl⟩ := Except.map_eq_ok.mp hok
      obtain ⟨s, hs, ⟨_, _, rfl⟩ | ⟨howned, submission, houtcome, rfl⟩⟩ :=
        JudgeResultService.finish_eq_ok hresult
      · rfl
      · obtain rfl := Database.id_of_judging? hs
        have hstep : Judging.Step P now s (.finish judge errorMessage) _ :=
          .finish judge errorMessage howned houtcome
        refine get?_participations_close ?_
        rw [hstep.sameWork.contestParticipation]
        exact hverdict s.job.id s rfl hs howned.leased
  | fail judge job result errorMessage =>
      obtain ⟨answer, hanswer, rfl⟩ := Except.map_eq_ok.mp hok
      obtain ⟨s, hs, ⟨_, _, rfl⟩ | ⟨howned, rfl⟩⟩ := JudgeResultService.fail_eq_ok hanswer
      · rfl
      · exact get?_participations_close (hverdict job s rfl hs howned.leased)
  | heartbeat judge =>
      cases hok
      rfl
  | expireStaleJobs =>
      cases hok
      rw [participations_expireStaleJobs]
  | rejudgeSubmission submission context =>
      change SubmissionService.rejudgeSubmission now submission context db = .ok next at hok
      unfold SubmissionService.rejudgeSubmission at hok
      split at hok
      · cases hok
      · dsimp only at hok
        split_ifs at hok
        cases hok
        rfl

end Judging

namespace Site

variable {P : Python} {M : MathLibrary} {site start : Site}

/-- What judging leaves alone comes back as it was. -/
theorem get?_participations_withDatabase {db : Database} {id : ℕ}
    (h : db.participations.get? id = site.database.participations.get? id) :
    (site.withDatabase db).participations.get? id = site.participations.get? id := by
  rw [withDatabase, Table.get?_updateWhere]
  cases hrow : site.participations.get? id with
  | none => rfl
  | some row =>
      have hkey : row.id = id := Table.key_of_get? hrow
      have hjoined : db.participations.get? id = site.joined row := by
        rw [h, database, Table.get?_filterMap, hrow, Option.bind_some]
      rw [Option.map_some, if_pos rfl, scored, hkey, hjoined, joined]
      cases site.contests.get? row.contest <;> rfl

theorem ratedOnce_step {op : SiteOp} (h : RatedOnce site.toRatingTables site.now)
    (hnot : ¬ site.Revisits op) :
    RatedOnce (site.step P M op).toRatingTables (site.step P M op).now := by
  cases op with
  | judging op =>
      rw [step]
      split
      · next db hok =>
          refine h.congr rfl (fun row hrow p hp => ⟨p, ?_, rfl, rfl⟩)
            (fun _ contest hcontest hended => ⟨contest, hcontest, hended⟩)
            fun contest hcontest hrated hended => ?_
          · refine (get?_participations_withDatabase (get?_participations_perform hok ?_)).trans hp
            intro job s hverdict hs hleased hbound
            exact hnot ⟨job, s, row.participation, hverdict, hs, hleased, hbound, row, hrow, rfl⟩
          · exact (h.past contest hcontest hrated hended).trans (by simp)
      · exact h
  | updateContest id update =>
      rw [step]
      cases hdone : ContestService.updateContest id update site.toRatingTables with
      | none => exact h
      | some tables =>
          refine h.updateContest (fun contest hcontest hended hrated => ?_) hdone
          by_contra hfuture
          exact hnot ⟨contest, hcontest, hended, hrated, not_le.mp hfuture⟩
  | tickContests order => exact h.tickContests order

theorem Initial.ratedOnce (h : start.Initial) : RatedOnce start.toRatingTables start.now := by
  have hnone : ∀ row : Rating, row ∉ start.ratings.rows := fun row hrow => by
    simp [h.ratings] at hrow
  refine ⟨fun row hrow => absurd hrow (hnone row), fun row hrow => absurd hrow (hnone row),
    fun _ row hrow => absurd hrow (hnone row), fun contest hcontest _ hended => ?_⟩
  rw [h.contests contest hcontest] at hended
  exact absurd hended Bool.false_ne_true

/-- In every run without a late verdict on a participant with a rating, and without an
update that gives an ended rated contest an end in the future, ratings are final. -/
theorem final_run {ops : List SiteOp} (hstart : start.Initial)
    (run : Run (fun site op next => ¬ site.Revisits op ∧ next = site.step P M op) start ops site) :
    site.Final := by
  have hinv : RatedOnce site.toRatingTables site.now := by
    refine run.invariant (P := fun site => RatedOnce site.toRatingTables site.now)
      hstart.ratedOnce ?_
    rintro site op next hsite ⟨hnot, rfl⟩
    exact ratedOnce_step hsite hnot
  exact fun contest hcontest hrated hended _ =>
    ⟨hinv.past contest hcontest hrated hended, hinv.ranks contest.id⟩

/-! ## A verdict that comes after the end -/

/-- Two users take part in a rated contest with one problem. -/
def sample : Site where
  users := ((∅ : Table User User.id).save { id := 1, username := "ada" }).save
    { id := 2, username := "bob" }
  contests := (∅ : Table ContestRow ContestRow.id).save
    { format := some .default
      startTime := 0
      problems := [{ problem := 1, label := "A", points := 100 }]
      problems_nodup := List.nodup_singleton _
      id := 1
      endTime := 3600 * second
      isRated := true
      rateAll := true }
  participations := ((∅ : Table ParticipationRow ParticipationRow.id).save
    { id := 1, contest := 1, user := 1 }).save { id := 2, contest := 1, user := 2 }

/-- The first user submits. -/
def sampleSubmit : SiteOp :=
  .judging (.createSubmission { sampleRequest with contestParticipation := some 1 })

/-- The contest ends before the submission is accepted. -/
def sampleLate : List SiteOp :=
  [sampleSubmit, .judging (.advance 3600000000), .tickContests .byId, .judging sampleClaim,
    .judging (.recordCases 7 1 [sampleAccepted]), .judging (.finish 7 1 "")]

/-- The submission is accepted before the contest ends. -/
def sampleTimely : List SiteOp :=
  [sampleSubmit, .judging sampleClaim, .judging (.recordCases 7 1 [sampleAccepted]),
    .judging (.finish 7 1 ""), .judging (.advance 3600000000), .tickContests .byId]

/-- The site after a sequence of calls. -/
def sampleRun (ops : List SiteOp) : Site := ops.foldl (step samplePython .sample) sample

theorem initial_sample : sample.Initial where
  ratings := rfl
  contests := by decide +kernel

/-- The first user has won, and the ratings say that the two have tied. -/
theorem late_verdict : sample.Initial ∧ ¬ (sampleRun (sampleLate)).Final := by
  refine ⟨initial_sample, fun hfinal => ?_⟩
  set site := sampleRun (sampleLate) with hsite
  have hcontest : (site.contests.get? 1).map (fun contest =>
      (contest.isRated, contest.endedAt.isSome)) = some (true, true) := by decide +kernel
  have hjobs : (site.jobs.rows.all fun job => job.status = .succeeded) = true := by decide +kernel
  have hrows : site.ratings.rows.map (fun row => (row.contest, row.participation, row.rank)) =
      [(1, 1, 2), (1, 2, 2)] := by decide +kernel
  have hkeys : (do
      let p ← site.participations.get? 1
      let q ← site.participations.get? 2
      return decide (p.key < q.key)) = some true := by decide +kernel
  obtain ⟨contest, hget, hvalues⟩ := Option.map_eq_some_iff.mp hcontest
  obtain ⟨hrated, hended⟩ := Prod.mk.inj hvalues
  have hid : contest.id = 1 := Table.key_of_get? hget
  have hquiet : ¬ site.Judges contest.id := by
    rintro ⟨job, s, -, -, hs, hactive, -⟩
    have hdone := of_decide_eq_true
      (List.all_eq_true.mp hjobs s.job (Database.job_mem_of_judging? hs))
    rw [hdone] at hactive
    exact absurd hactive (by decide)
  obtain ⟨-, hagree⟩ := hfinal contest (Table.mem_of_get? hget) hrated hended hquiet
  have hmem : ∀ values ∈ [(1, 1, 2), (1, 2, 2)], ∃ row ∈ site.ratings.rows,
      (row.contest, row.participation, row.rank) = values := fun values hvalues =>
    List.mem_map.mp (hrows ▸ hvalues)
  obtain ⟨first, hfirst, heq⟩ := hmem (1, 1, 2) (by decide)
  obtain ⟨second, hsecond, heq'⟩ := hmem (1, 2, 2) (by decide)
  simp only [Prod.mk.injEq] at heq heq'
  obtain ⟨p, q, hp, hq, hranks⟩ := hagree first hfirst second hsecond
    (heq.1.trans hid.symm) (heq'.1.trans hid.symm)
  rw [heq.2.1] at hp
  rw [heq'.2.1] at hq
  rw [hp, hq] at hkeys
  rw [heq.2.2, heq'.2.2] at hranks
  exact absurd (hranks.mpr (of_decide_eq_true (Option.some.inj hkeys))) (lt_irrefl 2)

theorem sampleTimely_run :
    Run (fun site op next => ¬ site.Revisits op ∧ next = site.step samplePython .sample op)
      sample sampleTimely (sampleRun sampleTimely) := by
  refine Run.snoc (Run.snoc (Run.snoc (Run.snoc (Run.snoc (Run.single ⟨?_, rfl⟩) ⟨?_, rfl⟩)
    ⟨?_, rfl⟩) ⟨?_, rfl⟩) ⟨?_, rfl⟩) ⟨?_, rfl⟩
  case refine_1 => exact id
  case refine_5 =>
    -- nobody has been rated when the verdict comes
    have hnone : (sampleRun (sampleTimely.take 3)).ratings.rows = [] := by decide +kernel
    rintro ⟨job, s, id, -, -, -, -, row, hrow, -⟩
    exact List.not_mem_nil (hnone ▸ hrow)
  all_goals
    rintro ⟨job, s, id, hverdict, -⟩
    cases hverdict

/-- The submission is judged before the contest ends. -/
theorem final_run_sample : (sampleRun sampleTimely).Final :=
  final_run initial_sample sampleTimely_run

end Site

end JudgeLoom
