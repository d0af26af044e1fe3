import JudgeLoom.Contests.Submission
import JudgeLoom.Library.Alone

/-!
# Submitting with an open participation

`submit_to_contest` chooses a participation by standing and then asks whether it is
open, and `create_submission` asks for access to the problem once more, by a rule that
knows live participations only.  `submits_iff` says exactly when a request that meets
every other condition is accepted and bound to an open participation;
`ended_live_first` is a user whose virtual participation is open and who is turned away
for the live one.
-/

namespace JudgeLoom

open Transaction KeyedStore

/-- The unique constraints on problems and on the problems of a contest. -/
structure SubmitTables.Consistent (db : SubmitTables) : Prop where
  codes : ∀ first ∈ db.problems.rows, ∀ second ∈ db.problems.rows,
    first.code = second.code → first = second
  contestProblems : ∀ first ∈ db.contestProblems.rows, ∀ second ∈ db.contestProblems.rows,
    first.contest = second.contest → first.problem = second.problem → first = second

/-- The user has an open participation, and every other condition for a submission is met. -/
structure SubmitRequest.Eligible (settings : SubmitSettings) (db : SubmitTables)
    (request : SubmitRequest) (contestProblem : ContestProblemRow) (problem : SubmitProblem) :
    Prop where
  participates : ∃ row ∈ db.participations.rows,
    row.canSubmit request.contest request.user.id = true ∧
      row.isOpen request.contest request.now = true
  listed : contestProblem ∈ db.contestProblems.rows ∧ contestProblem.contest = request.contest.id
  problem_stored : db.problems.get? contestProblem.problem = some problem
  code_eq : problem.code = request.problemCode
  package : (db.activePackage problem.id).isSome = true
  language : request.language.isEnabled = true ∧ db.allowsLanguage problem.id request.language = true
  size_le : request.sourceCode.utf8ByteSize ≤ settings.maxSubmissionSize
  used_lt : ∀ row ∈ db.participations.rows, row.canSubmit request.contest request.user.id = true →
    row.isOpen request.contest request.now = true →
      ∀ limit ∈ contestProblem.maxSubmissions, db.used row.id problem.id < limit
  rate : db.withinRateLimit request.user request.now settings = true
  fresh : db.submissions.get? request.submission = none ∧ db.sources request.submission = none ∧
    db.jobs.get? request.job = none

namespace SubmitTransaction

variable {db : SubmitTables} {settings : SubmitSettings} {request : SubmitRequest}
  {problem : SubmitProblem} {participation : ParticipationRow}

/-! ## The statements, alone -/

/-- The first row of the query is the one that is chosen. -/
theorem alone_lockParticipation {contest : ContestInfo} {user : Account}
    {rows : List ParticipationRow} (hrows : ∀ row ∈ rows,
      row ∈ db.participations.rows ∧ row.canSubmit contest user.id = true) :
    (lockParticipation contest user rows).alone db = some (rows.head?, db) := by
  cases rows with
  | nil => rfl
  | cons row rest =>
      obtain ⟨hmem, hcan⟩ := hrows row List.mem_cons_self
      have hrow : get? db (SubmitKey.participation row.id) = some ⟨row, rfl⟩ :=
        Table.row?_eq_some.mpr (Table.get?_key_of_mem hmem)
      rw [lockParticipation, alone_bind, alone_forUpdate, Option.bind_some, hrow]
      dsimp only
      rw [if_pos hcan]
      rfl

theorem alone_lockContestProblem {contest : ContestInfo} {code : String}
    {contestProblem : ContestProblemRow} (hmem : contestProblem ∈ db.contestProblems.rows)
    (hcontest : contestProblem.contest = contest.id)
    (hproblem : db.problems.get? contestProblem.problem = some problem) (hcode : problem.code = code) :
    (lockContestProblem contest code [contestProblem]).alone db =
      some (some (contestProblem, problem), db) := by
  have hrow : get? db (SubmitKey.contestProblem contestProblem.id) = some ⟨contestProblem, rfl⟩ :=
    Table.row?_eq_some.mpr (Table.get?_key_of_mem hmem)
  have hid : problem.id = contestProblem.problem :=
    Table.key_of_get? (t := db.problems) hproblem
  have hstored : get? db (SubmitKey.problem contestProblem.problem) = some ⟨problem, hid⟩ :=
    Table.row?_eq_some.mpr hproblem
  rw [lockContestProblem, alone_bind, alone_forUpdate, Option.bind_some, alone_bind,
    alone_forUpdate, Option.bind_some, hrow, hstored]
  dsimp only
  rw [if_pos ⟨hcontest, hid.symm, hcode⟩]
  rfl

@[simp] theorem alone_require {query : SubmitQuery} {test : SubmitTables → Bool} :
    (require query test).alone db = if test db then some (⟨⟩, db) else none := by
  rw [require, alone_bind, alone_select, Option.bind_some]
  dsimp only
  split_ifs <;> rfl

theorem alone_checkUsage {contestProblem : ContestProblemRow}
    (h : ∀ limit ∈ contestProblem.maxSubmissions, db.used participation.id problem.id < limit) :
    (checkUsage participation contestProblem problem).alone db = some (⟨⟩, db) := by
  unfold checkUsage
  cases hlimit : contestProblem.maxSubmissions with
  | none => rfl
  | some limit =>
      rw [alone_require, if_pos]
      exact decide_eq_true (h limit (by rw [hlimit]; rfl))

theorem alone_validateProblemAccess :
    (validateProblemAccess request problem).alone db =
      if db.hasProblemAccess request.user request.now problem then some (⟨⟩, db) else none := by
  rw [validateProblemAccess, alone_bind, alone_select, Option.bind_some,
    SubmitTables.hasProblemAccess]
  dsimp only
  cases problem.isAccessibleBy db.members (.account request.user) with
  | true => rfl
  | false =>
      rw [if_neg Bool.false_ne_true, alone_require, Bool.false_or]

theorem alone_validateLanguage (hlanguage : request.language.isEnabled = true)
    (hallowed : db.allowsLanguage problem.id request.language = true) :
    (validateLanguage request problem).alone db = some (⟨⟩, db) := by
  unfold validateLanguage
  rw [hlanguage, if_neg (by decide), alone_require, if_pos hallowed]

/-- What a submission that is accepted leaves: a stored row that is bound to the
participation. -/
structure Created (participation : ParticipationRow) (submission : Submission)
    (db : SubmitTables) : Prop where
  bound : submission.contestParticipation = some participation.id
  stored : db.submissions.get? submission.id = some submission

theorem alone_insertSubmission {package : ProblemPackage} {languageLimit : Option LanguageLimit}
    (hsubmission : db.submissions.get? request.submission = none)
    (hsource : db.sources request.submission = none) (hjob : db.jobs.get? request.job = none) :
    ∃ submission db', Created participation submission db' ∧
      (insertSubmission request problem participation package languageLimit).alone db =
        if storableText request.sourceCode then some (submission, db') else none := by
  refine ⟨SubmissionService.newSubmission request.now request.submission
    (creation request problem participation package languageLimit), ?_⟩
  rw [insertSubmission, alone_bind, alone_create (Table.row?_eq_none.mpr hsubmission),
    Option.bind_some]
  dsimp only
  cases storableText request.sourceCode with
  | false =>
      exact ⟨db.setRow (.submission request.submission) ⟨_, rfl⟩,
        ⟨rfl, (Table.get?_save _ _ _).trans (if_pos rfl)⟩, rfl⟩
  | true =>
      rw [if_neg (by decide), alone_bind, alone_create hsource, Option.bind_some, alone_bind,
        alone_create (Table.row?_eq_none.mpr hjob), Option.bind_some, alone_pure]
      exact ⟨_, ⟨rfl, (Table.get?_save _ _ _).trans (if_pos rfl)⟩, rfl⟩

theorem alone_createSubmission {contestProblem : ContestProblemRow}
    (h : request.Eligible settings db contestProblem problem) :
    ∃ submission db', Created participation submission db' ∧
      (createSubmission settings request problem participation).alone db =
        if db.hasProblemAccess request.user request.now problem ∧
            storableText request.sourceCode then some (submission, db')
        else none := by
  obtain ⟨package, hpackage⟩ := Option.isSome_iff_exists.mp h.package
  have hinserted : ∃ submission db', Created participation submission db' ∧
      (insertSubmission request problem participation package
        (db.languageLimit problem.id request.language)).alone db =
          if storableText request.sourceCode then some (submission, db') else none :=
    alone_insertSubmission h.fresh.1 h.fresh.2.1 h.fresh.2.2
  obtain ⟨submission, db', hcreated, hinsert⟩ := hinserted
  have hsize : ¬ settings.maxSubmissionSize < request.sourceCode.utf8ByteSize := by
    have hle := h.size_le
    omega
  refine ⟨submission, db', hcreated, ?_⟩
  rw [createSubmission, if_neg hsize, alone_bind, alone_validateProblemAccess, ite_and]
  by_cases haccess : db.hasProblemAccess request.user request.now problem = true
  · rw [if_pos haccess, if_pos haccess, ← hinsert, Option.bind_some, alone_bind,
      alone_validateLanguage h.language.1 h.language.2, Option.bind_some, alone_bind,
      checkRateLimit, alone_require, if_pos h.rate, Option.bind_some, alone_bind, alone_select,
      Option.bind_some, alone_bind, alone_select, Option.bind_some, hpackage]
  · rw [if_neg haccess, if_neg haccess]
    rfl

end SubmitTransaction

/-! ## The queries -/

namespace SubmitTables

variable {db : SubmitTables} {contest : ContestInfo} {user : Account} {row : ParticipationRow}

theorem mem_candidates :
    row ∈ db.candidates contest user ↔
      row ∈ db.participations.rows ∧ row.canSubmit contest user.id = true := by
  rw [candidates, List.mem_sortBy, List.mem_filter]

/-- The unique constraints leave one row for a contest and a code. -/
theorem Consistent.contestProblemsWithCode_eq (hdb : db.Consistent) {code : String}
    {contestProblem : ContestProblemRow} {problem : SubmitProblem}
    (hmem : contestProblem ∈ db.contestProblems.rows)
    (hcontest : contestProblem.contest = contest.id)
    (hproblem : db.problems.get? contestProblem.problem = some problem)
    (hcode : problem.code = code) :
    db.contestProblemsWithCode contest code = [contestProblem] := by
  have hone : ∀ row, row ∈ db.contestProblems.rows.filter (db.isContestProblem contest code) ↔
      row ∈ [contestProblem] := by
    intro row
    rw [List.mem_singleton, List.mem_filter]
    constructor
    · rintro ⟨hrow, htest⟩
      simp only [isContestProblem, Bool.and_eq_true, decide_eq_true_eq, Option.any_eq_true] at htest
      obtain ⟨hsame, other, hother, hothercode⟩ := htest
      have hproblems : other = problem := hdb.codes other (Table.mem_of_get? hother) problem
        (Table.mem_of_get? hproblem) (hothercode.trans hcode.symm)
      refine hdb.contestProblems row hrow contestProblem hmem (hsame.trans hcontest.symm) ?_
      rw [← Table.key_of_get? hother, ← Table.key_of_get? hproblem, hproblems]
    · rintro rfl
      refine ⟨hmem, ?_⟩
      simp [isContestProblem, hcontest, hproblem, hcode]
  have hperm := (List.perm_ext_iff_of_nodup (db.contestProblems.nodup_rows.filter _)
    (List.nodup_singleton contestProblem)).mpr hone
  exact List.perm_singleton.mp ((List.perm_sortBy _ _).trans hperm)

end SubmitTables

/-! ## Requests with an open participation -/

/-- The request is accepted, and its submission is bound to an open participation of the
user. -/
def SubmitRequest.SubmitsToOpen (settings : SubmitSettings) (db : SubmitTables)
    (request : SubmitRequest) : Prop :=
  ∃ result db', (SubmitTransaction.submitToContest settings request).alone db = some (result, db') ∧
    db'.submissions.get? result.submission.id = some result.submission ∧
      ∃ row ∈ db.participations.rows, row.canSubmit request.contest request.user.id = true ∧
        row.isOpen request.contest request.now = true ∧
          result.submission.contestParticipation = some row.id

namespace SubmitRequest

variable {db : SubmitTables} {settings : SubmitSettings} {request : SubmitRequest}
  {contestProblem : ContestProblemRow} {problem : SubmitProblem} {row : ParticipationRow}
  {rest : List ParticipationRow}

/-- Only the first candidate counts; if it is open, `create_submission` decides. -/
theorem alone_submitToContest (hdb : db.Consistent)
    (h : request.Eligible settings db contestProblem problem)
    (hcandidates : db.candidates request.contest request.user = row :: rest) :
    (SubmitTransaction.submitToContest settings request).alone db =
      if row.isOpen request.contest request.now then
        ((SubmitTransaction.createSubmission settings request problem row).alone db).map
          fun created =>
            ({ submission := created.1
               participation := row
               limit := contestProblem.maxSubmissions }, created.2)
      else none := by
  have hrows : ∀ other ∈ row :: rest, other ∈ db.participations.rows ∧
      other.canSubmit request.contest request.user.id = true := fun other hother =>
    SubmitTables.mem_candidates.mp (hcandidates ▸ hother)
  rw [SubmitTransaction.submitToContest, alone_bind, alone_select, Option.bind_some, alone_bind,
    hcandidates, SubmitTransaction.alone_lockParticipation hrows, Option.bind_some]
  dsimp only [List.head?_cons]
  cases hopen : row.isOpen request.contest request.now with
  | false => rfl
  | true =>
      have hused := h.used_lt row (hrows row List.mem_cons_self).1 (hrows row List.mem_cons_self).2
        hopen
      rw [if_neg (by decide), alone_bind, alone_select, Option.bind_some, alone_bind,
        hdb.contestProblemsWithCode_eq h.listed.1 h.listed.2 h.problem_stored h.code_eq,
        SubmitTransaction.alone_lockContestProblem h.listed.1 h.listed.2 h.problem_stored h.code_eq,
        Option.bind_some]
      dsimp only
      rw [alone_bind, SubmitTransaction.alone_checkUsage hused, Option.bind_some, alone_bind]
      rw [if_pos rfl, Option.map_eq_bind]
      rfl

/-- A request that meets every other condition is accepted and bound to an open participation
exactly if the user's first participation by standing is open, the problem is accessible on
its own or through a live participation, and the source code can be stored. -/
theorem submits_iff (hdb : db.Consistent)
    (h : request.Eligible settings db contestProblem problem) :
    request.SubmitsToOpen settings db ↔
      (db.candidates request.contest request.user).head?.any
          (fun row => row.isOpen request.contest request.now) = true ∧
        db.hasProblemAccess request.user request.now problem = true ∧
          storableText request.sourceCode = true := by
  obtain ⟨opened, hopened, hcan, -⟩ := h.participates
  have hmem := SubmitTables.mem_candidates.mpr ⟨hopened, hcan⟩
  cases hcandidates : db.candidates request.contest request.user with
  | nil => simp [hcandidates] at hmem
  | cons row rest =>
      have hrow := SubmitTables.mem_candidates.mp (hcandidates ▸ List.mem_cons_self (a := row))
      have hcreation : ∃ submission db', SubmitTransaction.Created row submission db' ∧ _ :=
        SubmitTransaction.alone_createSubmission h
      obtain ⟨submission, db', hcreated, hcreate⟩ := hcreation
      rw [SubmitsToOpen, alone_submitToContest hdb h hcandidates, hcreate, List.head?_cons,
        Option.any_some]
      constructor
      · rintro ⟨result, final, hresult, -⟩
        split_ifs at hresult with hopen haccepted
        · exact ⟨hopen, haccepted⟩
        · cases hresult
      · rintro ⟨hopen, haccepted⟩
        rw [if_pos hopen, if_pos haccepted]
        exact ⟨_, _, rfl, hcreated.stored, row, hrow.1, hrow.2, hopen, hcreated.bound⟩

end SubmitRequest

/-! ## A live and a virtual participation -/

theorem SubmitTables.consistent_sampleTables
    (participations : Table ParticipationRow ParticipationRow.id) :
    (sampleTables participations).Consistent where
  codes := by
    intro first hfirst second hsecond _
    exact (List.mem_singleton.mp hfirst).trans (List.mem_singleton.mp hsecond).symm
  contestProblems := by
    intro first hfirst second hsecond _ _
    exact (List.mem_singleton.mp hfirst).trans (List.mem_singleton.mp hsecond).symm

/-- A live participation of the sample user. -/
def liveParticipation : ParticipationRow where
  id := 1
  contest := 1
  user := 7
  score := 100

/-- A virtual participation of the sample user, started after the contest. -/
def virtualParticipation : ParticipationRow where
  id := 2
  contest := 1
  user := 7
  status := .virtual
  virtualStart := some (7000 * second)

/-- The sample request is eligible with any participations, one of which is open. -/
theorem SubmitRequest.eligible_sampleSubmit {participations : Table ParticipationRow ParticipationRow.id}
    {now : Time} (hopen : ∃ row ∈ participations.rows, row.canSubmit sampleContest 7 = true ∧
      row.isOpen sampleContest now = true) :
    (sampleSubmit now 1).Eligible {} (sampleTables participations)
      { id := 1
        contest := 1
        problem := 1
        maxSubmissions := some 1 } sampleSubmitProblem where
  participates := hopen
  listed := ⟨List.mem_singleton.mpr rfl, rfl⟩
  problem_stored := rfl
  code_eq := rfl
  package := rfl
  language := ⟨rfl, rfl⟩
  size_le := by
    change "print(1)".utf8ByteSize ≤ 65536
    decide +kernel
  used_lt := by
    intro row _ _ _ limit hlimit
    obtain rfl := Option.mem_some_iff.mp hlimit
    exact Nat.zero_lt_one
  rate := by
    change (false || decide (((0 : ℕ) : ℤ) < 30)) = true
    decide
  fresh := ⟨rfl, rfl, rfl⟩

namespace SubmitRequest

/-- During the contest the live participation is open. -/
theorem submits_iff_live :
    (sampleSubmit (60 * second) 1).SubmitsToOpen {}
      (sampleTables ((∅ : Table _ _).save liveParticipation)) := by
  refine (submits_iff (SubmitTables.consistent_sampleTables _)
    (eligible_sampleSubmit ⟨liveParticipation, ?_⟩)).mpr ?_
  · exact ⟨List.mem_singleton.mpr rfl, by decide +kernel⟩
  · decide +kernel

/-- After the contest a user whose virtual participation is open cannot submit: the live one
has the higher score. -/
theorem ended_live_first :
    ∃ db : SubmitTables, db.Consistent ∧
      (sampleSubmit (7200 * second) 1).Eligible {} db
        { id := 1
          contest := 1
          problem := 1
          maxSubmissions := some 1 } sampleSubmitProblem ∧
      ¬ (sampleSubmit (7200 * second) 1).SubmitsToOpen {} db := by
  let participations : Table ParticipationRow ParticipationRow.id :=
    ((∅ : Table _ _).save liveParticipation).save virtualParticipation
  refine ⟨sampleTables participations, SubmitTables.consistent_sampleTables _,
    eligible_sampleSubmit ⟨virtualParticipation, ?_⟩, ?_⟩
  · exact ⟨List.mem_cons_of_mem _ (List.mem_singleton.mpr rfl), by decide +kernel⟩
  · have hrejected : ((SubmitTransaction.submitToContest {} (sampleSubmit (7200 * second) 1)).alone
        (sampleTables participations)).isNone = true := by
      decide +kernel
    rintro ⟨result, db', hresult, -⟩
    rw [hresult] at hrejected
    cases hrejected

end SubmitRequest

end JudgeLoom
