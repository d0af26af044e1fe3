import JudgeLoom.Contests.Access
import JudgeLoom.Library.ReadCommitted
import JudgeLoom.Problems.Visibility
import JudgeLoom.Submissions.Service

/-!
# Submitting to a contest

`submit_to_contest` as a transaction, statement by statement, with the checks of
`create_submission` that it runs through.  The participation and the contest problem
are read with `FOR UPDATE`: the rows of the query are locked in its order, each is read
again once its lock is held, and the first one that still passes the filter is the
result.  The usage is counted after both locks are held.

One request reads the clock once here, where the source reads it at every check.
-/

namespace JudgeLoom

open Transaction KeyedStore

/-! ## The tables as a store -/

/-- A language that can be chosen for a submission. -/
structure Language where
  key : String
  isEnabled : Bool := true

/-- A problem with the languages that it allows and their limits. -/
structure SubmitProblem extends ProblemRow where
  languagesAllowed : List String := []
  languageLimits : List (String × LanguageLimit) := []

/-- Mapping between a contest and a problem; its label and its points are those of the
`ContestProblem` in the contest. -/
structure ContestProblemRow where
  id : ℕ
  contest : ℕ
  problem : ℕ
  order : ℕ := 0
  maxSubmissions : Option ℕ := none

/-- The tables that a contest submission reads and writes. -/
structure SubmitTables where
  contests : Table ContestInfo fun contest => contest.id
  contestProblems : Table ContestProblemRow ContestProblemRow.id
  problems : Table SubmitProblem fun problem => problem.id
  packages : Table ProblemPackage ProblemPackage.id
  members : Memberships := []
  participations : Table ParticipationRow ParticipationRow.id
  submissions : Table Submission Submission.id := ∅
  /-- The source code of a submission. -/
  sources : ℕ → Option String := fun _ => none
  jobs : Table JudgeJob JudgeJob.id := ∅

/-- The primary keys of the rows that a submission locks or creates. -/
inductive SubmitKey
  | participation (id : ℕ)
  | contestProblem (id : ℕ)
  | problem (id : ℕ)
  | submission (id : ℕ)
  | source (submission : ℕ)
  | job (id : ℕ)
  deriving DecidableEq

/-- The rows of a key. -/
abbrev SubmitKey.Row : SubmitKey → Type
  | participation id => {row : ParticipationRow // row.id = id}
  | contestProblem id => {row : ContestProblemRow // row.id = id}
  | problem id => {row : SubmitProblem // row.id = id}
  | submission id => {row : Submission // row.id = id}
  | source _ => String
  | job id => {row : JudgeJob // row.id = id}

namespace SubmitTables

/-- The row of a key. -/
def row? (db : SubmitTables) : (key : SubmitKey) → Option key.Row
  | .participation id => db.participations.row? id
  | .contestProblem id => db.contestProblems.row? id
  | .problem id => db.problems.row? id
  | .submission id => db.submissions.row? id
  | .source submission => db.sources submission
  | .job id => db.jobs.row? id

/-- Insert or replace the row of a key. -/
def setRow (db : SubmitTables) : (key : SubmitKey) → key.Row → SubmitTables
  | .participation _, row => { db with participations := db.participations.save row.1 }
  | .contestProblem _, row => { db with contestProblems := db.contestProblems.save row.1 }
  | .problem _, row => { db with problems := db.problems.save row.1 }
  | .submission _, row => { db with submissions := db.submissions.save row.1 }
  | .source submission, text =>
      { db with sources := Function.update db.sources submission (some text) }
  | .job _, row => { db with jobs := db.jobs.save row.1 }

theorem row?_setRow_self (db : SubmitTables) (key : SubmitKey) (row : key.Row) :
    (db.setRow key row).row? key = some row := by
  cases key with
  | source submission => exact Function.update_self ..
  | _ => exact Table.row?_save_self _ row

theorem row?_setRow_of_ne (db : SubmitTables) (key : SubmitKey) (row : key.Row) (other : SubmitKey)
    (hne : other ≠ key) : (db.setRow key row).row? other = db.row? other := by
  cases key <;> cases other
  case source.source => exact Function.update_of_ne (fun heq => hne (by rw [heq])) ..
  case participation.participation | contestProblem.contestProblem | problem.problem |
      submission.submission | job.job =>
    exact Table.row?_save_of_ne _ fun heq => hne (by rw [heq, row.2])
  all_goals rfl

instance : KeyedStore SubmitTables SubmitKey SubmitKey.Row where
  get? := row?
  set := setRow
  get?_set_self := row?_setRow_self
  get?_set_of_ne := row?_setRow_of_ne

end SubmitTables

/-! ## The checks -/

/-- `time_remaining` of a contest. -/
def ContestInfo.timeRemaining (contest : ContestInfo) (now : Time) : Time :=
  if !contest.isActive now then 0 else max (contest.endTime - now) 0

namespace ParticipationRow

variable (row : ParticipationRow) (contest : ContestInfo) (now : Time)

/-- `time_remaining` of a participation. -/
def timeRemaining : Time :=
  match row.virtualStart with
  | none => 0
  | some virtualStart =>
      if row.status ≠ .virtual then 0
      else if contest.timeLimit.getD 0 = 0 then contest.timeRemaining now
      else max (virtualStart + contest.timeLimit.getD 0 - now) 0

/-- The filter of `submit_to_contest`. -/
def canSubmit (user : ℕ) : Bool :=
  decide (row.contest = contest.id) && decide (row.user = user) && !row.isDisqualified &&
    (row.status = .live || row.status = .virtual)

/-- Live while the contest is active, or virtual with time left. -/
def isOpen : Bool :=
  !(row.status = .live && !contest.isActive now) &&
    !(row.status = .virtual && decide (row.timeRemaining contest now ≤ 0))

end ParticipationRow

/-- `settings.JUDGELOOM["MAX_SUBMISSION_SIZE"]` and `SUBMISSION_RATE_LIMIT_PER_MINUTE`. -/
structure SubmitSettings where
  maxSubmissionSize : ℕ := 65536
  rateLimit : ℤ := 30

namespace SubmitTables

variable (db : SubmitTables) (contest : ContestInfo) (user : Account) (now : Time)

/-- The participations that `submit_to_contest` chooses among, in their default ordering. -/
def candidates : List ParticipationRow :=
  (db.participations.rows.filter fun row => row.canSubmit contest user.id).sortBy
    ParticipationRow.ordering

/-- `filter(contest=contest, problem__code=problem_code)`, on one row. -/
def isContestProblem (code : String) (row : ContestProblemRow) : Bool :=
  decide (row.contest = contest.id) &&
    (db.problems.get? row.problem).any fun problem => problem.code = code

/-- The problems of a contest with a code, in their display order. -/
def contestProblemsWithCode (code : String) : List ContestProblemRow :=
  (db.contestProblems.rows.filter (db.isContestProblem contest code)).sortBy
    ContestProblemRow.order

/-- `participation.submissions.filter(problem=problem).count()`. -/
def used (participation problem : ℕ) : ℕ :=
  (db.submissions.rows.filter fun submission =>
    decide (submission.contestParticipation = some participation) &&
      decide (submission.problem = problem)).length

/-- `has_active_contest`: a live participation in a visible contest that is running and
has the problem. -/
def hasActiveContest (problem : ℕ) : Bool :=
  db.participations.rows.any fun row =>
    decide (row.user = user.id) && decide (row.status = .live) &&
      (db.contests.get? row.contest).any fun contest =>
        contest.isVisible && decide (contest.startTime ≤ now) && decide (now < contest.endTime) &&
          db.contestProblems.rows.any fun contestProblem =>
            decide (contestProblem.contest = contest.id) &&
              decide (contestProblem.problem = problem)

/-- `_validate_problem_access`. -/
def hasProblemAccess (problem : SubmitProblem) : Bool :=
  problem.isAccessibleBy db.members (.account user) || db.hasActiveContest user now problem.id

/-- The query of `_validate_language`. -/
def allowsLanguage (problem : ℕ) (language : Language) : Bool :=
  (db.problems.get? problem).all fun problem =>
    problem.languagesAllowed.isEmpty || problem.languagesAllowed.contains language.key

/-- The query of `_check_rate_limit`: the scored submissions of the last minute. -/
def recentCount : ℕ :=
  (db.submissions.rows.filter fun submission =>
    decide (submission.user = user.id) && decide (submission.mode = .submit) &&
      decide (now - 60 * second ≤ submission.createdAt)).length

/-- `_check_rate_limit`. -/
def withinRateLimit (settings : SubmitSettings) : Bool :=
  user.isStaff || decide ((db.recentCount user now : ℤ) < settings.rateLimit)

/-- `problem.packages.filter(is_active=True).first()`; the newest version is first. -/
def activePackage (problem : ℕ) : Option ProblemPackage :=
  ((db.packages.rows.filter fun package =>
    decide (package.problem = problem) && package.isActive).sortBy
      fun package => -(package.version : ℤ)).head?

/-- `LanguageLimit.objects.filter(problem=problem, language=language).first()`. -/
def languageLimit (problem : ℕ) (language : Language) : Option LanguageLimit :=
  (db.problems.get? problem).bind fun problem =>
    (problem.languageLimits.find? fun limit => limit.1 = language.key).map Prod.snd

end SubmitTables

/-! ## The transaction -/

/-- A call of `submit_to_contest`, with the next values of the two primary keys. -/
structure SubmitRequest where
  user : Account
  contest : ContestInfo
  problemCode : String
  language : Language
  sourceCode : String
  now : Time
  submission : ℕ
  job : ℕ

/-- The queries of a submission. -/
inductive SubmitQuery
  | participations
  | contestProblems
  | used
  | problem
  | activeContest
  | language
  | rateLimit
  | package
  | languageLimit

/-- A transaction on the tables. -/
abbrev SubmitTransaction := Transaction SubmitQuery SubmitTables SubmitKey.Row

/-- A submission that was created, and the `max_submissions` that was read for it. -/
structure ContestSubmission where
  submission : Submission
  participation : ParticipationRow
  limit : Option ℕ

namespace SubmitTransaction

/-- `select_for_update().filter(...).first()`, on the participations that the query found. -/
def lockParticipation (contest : ContestInfo) (user : Account) :
    List ParticipationRow → SubmitTransaction (Option ParticipationRow)
  | [] => pure none
  | row :: rest => do
      let locked ← forUpdate (SubmitKey.participation row.id)
      match locked with
      | some current =>
          if current.1.canSubmit contest user.id then return some current.1
          else lockParticipation contest user rest
      | none => lockParticipation contest user rest

/-- The same with the row of the problem, which the join locks too. -/
def lockContestProblem (contest : ContestInfo) (code : String) :
    List ContestProblemRow → SubmitTransaction (Option (ContestProblemRow × SubmitProblem))
  | [] => pure none
  | row :: rest => do
      let locked ← forUpdate (SubmitKey.contestProblem row.id)
      let lockedProblem ← forUpdate (SubmitKey.problem row.problem)
      match locked, lockedProblem with
      | some current, some problem =>
          if current.1.contest = contest.id ∧ current.1.problem = problem.1.id ∧
              problem.1.code = code then
            return some (current.1, problem.1)
          else lockContestProblem contest code rest
      | _, _ => lockContestProblem contest code rest

/-- A query whose negative answer raises. -/
def require (query : SubmitQuery) (test : SubmitTables → Bool) : SubmitTransaction PUnit := do
  let answer ← select query test
  if answer then pure ⟨⟩ else .abort

/-- The check of `max_submissions`. -/
def checkUsage (participation : ParticipationRow) (contestProblem : ContestProblemRow)
    (problem : SubmitProblem) : SubmitTransaction PUnit :=
  match contestProblem.maxSubmissions with
  | none => pure ⟨⟩
  | some limit => require .used fun db => decide (db.used participation.id problem.id < limit)

/-- `_validate_problem_access`. -/
def validateProblemAccess (request : SubmitRequest) (problem : SubmitProblem) :
    SubmitTransaction PUnit := do
  let accessible ← select .problem fun db =>
    problem.isAccessibleBy db.members (.account request.user)
  if accessible then pure ⟨⟩
  else require .activeContest fun db => db.hasActiveContest request.user request.now problem.id

/-- `_validate_language`. -/
def validateLanguage (request : SubmitRequest) (problem : SubmitProblem) :
    SubmitTransaction PUnit :=
  if !request.language.isEnabled then .abort
  else require .language fun db => db.allowsLanguage problem.id request.language

/-- `_check_rate_limit`. -/
def checkRateLimit (settings : SubmitSettings) (request : SubmitRequest) :
    SubmitTransaction PUnit :=
  require .rateLimit fun db => db.withinRateLimit request.user request.now settings

/-- The arguments of `Submission.objects.create` and `JudgeJob.objects.create`. -/
def creation (request : SubmitRequest) (problem : SubmitProblem)
    (participation : ParticipationRow) (package : ProblemPackage)
    (languageLimit : Option LanguageLimit) : SubmissionRequest where
  user := request.user.id
  context :=
    { problem := problem.toProblem
      activePackage := some package
      languageLimit }
  language := request.language.key
  contestParticipation := some participation.id

/-- The rows that a submission creates. -/
def insertSubmission (request : SubmitRequest) (problem : SubmitProblem)
    (participation : ParticipationRow) (package : ProblemPackage)
    (languageLimit : Option LanguageLimit) : SubmitTransaction Submission := do
  let created := creation request problem participation package languageLimit
  let submission := SubmissionService.newSubmission request.now request.submission created
  create (.submission request.submission) ⟨submission, rfl⟩
  -- PostgreSQL rejects a text with a NUL character
  if !storableText request.sourceCode then .abort
  else do
    create (.source request.submission) request.sourceCode
    create (.job request.job)
      ⟨SubmissionService.newJob request.now request.job request.submission created
        (some (participation.withContest request.contest.toContest)), rfl⟩
    return submission

/-- `create_submission`, of a submission to a contest. -/
def createSubmission (settings : SubmitSettings) (request : SubmitRequest)
    (problem : SubmitProblem) (participation : ParticipationRow) :
    SubmitTransaction Submission := do
  if settings.maxSubmissionSize < request.sourceCode.utf8ByteSize then .abort
  else do
    validateProblemAccess request problem
    validateLanguage request problem
    checkRateLimit settings request
    let package ← select .package fun db => db.activePackage problem.id
    let languageLimit ← select .languageLimit fun db =>
      db.languageLimit problem.id request.language
    match package with
    | none => .abort
    | some package => insertSubmission request problem participation package languageLimit

/-- Create a submission bound to the caller's contest participation. -/
def submitToContest (settings : SubmitSettings) (request : SubmitRequest) :
    SubmitTransaction ContestSubmission := do
  let found ← select .participations fun db => db.candidates request.contest request.user
  let locked ← lockParticipation request.contest request.user found
  match locked with
  | none => .abort
  | some participation =>
      if !participation.isOpen request.contest request.now then .abort
      else do
        let rows ← select .contestProblems fun db =>
          db.contestProblemsWithCode request.contest request.problemCode
        let lockedProblem ← lockContestProblem request.contest request.problemCode rows
        match lockedProblem with
        | none => .abort
        | some (contestProblem, problem) => do
            checkUsage participation contestProblem problem
            let submission ← createSubmission settings request problem participation
            return { submission, participation, limit := contestProblem.maxSubmissions }

end SubmitTransaction

/-! ## A small site -/

/-- A public contest of an hour, with virtual participations of an hour. -/
def sampleContest : ContestInfo where
  id := 1
  format := some .default
  startTime := 0
  endTime := 3600 * second
  timeLimit := some (3600 * second)
  problems := []
  problems_nodup := List.nodup_nil
  key := "sample"
  name := "Sample"
  visibility := .public

/-- A public problem. -/
def sampleSubmitProblem : SubmitProblem where
  id := 1
  code := "A"
  points := 100
  timeLimit := 2
  memoryLimit := 262144
  partialScore := false
  shortCircuit := false
  visibility := .public

/-- The problem has an active package and is in the contest, for one submission each. -/
def sampleTables (participations : Table ParticipationRow ParticipationRow.id) : SubmitTables where
  contests := (∅ : Table ContestInfo fun contest => contest.id).save sampleContest
  contestProblems := (∅ : Table ContestProblemRow ContestProblemRow.id).save
    { id := 1
      contest := 1
      problem := 1
      maxSubmissions := some 1 }
  problems := (∅ : Table SubmitProblem fun problem => problem.id).save sampleSubmitProblem
  packages := (∅ : Table ProblemPackage ProblemPackage.id).save
    { id := 1
      problem := 1
      version := 1
      sha256 := ""
      manifest := .null
      isActive := true }
  participations

/-- A request of a user for the problem. -/
def sampleSubmit (now : Time) (id : ℕ) : SubmitRequest where
  user := { id := 7, username := "user" }
  contest := sampleContest
  problemCode := "A"
  language := { key := "py" }
  sourceCode := "print(1)"
  now
  submission := id
  job := id

end JudgeLoom
