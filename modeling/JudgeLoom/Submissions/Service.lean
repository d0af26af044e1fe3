import JudgeLoom.Judge.Models

/-!
# Creating and rejudging submissions

`SubmissionService`, as far as it touches judge jobs.  What it reads of the
problem, of its packages and of its language limits comes in a `ProblemContext`.
The checks on the user, the language, the source code and the rate limits read
tables that nothing else here reads; a request carries their verdict.
-/

namespace JudgeLoom

/-- What the service reads of a problem when it queues a job. -/
structure ProblemContext where
  problem : Problem
  /-- `problem.packages.filter(is_active=True).first()`. -/
  activePackage : Option ProblemPackage
  /-- The `LanguageLimit` of the problem for the language of the submission. -/
  languageLimit : Option LanguageLimit := none

/-- A call of `create_submission`. -/
structure SubmissionRequest where
  user : ℕ
  context : ProblemContext
  language : String
  contestParticipation : Option ℕ := none
  mode : SubmissionMode := .submit
  customInput : String := ""
  expectedOutput : String := ""
  /-- The checks of the source code, the access, the language and the rate limit. -/
  admitted : Except ServiceError Unit := .ok ()
  /-- `max_attempts` of the new job: 3, unless an administrator changes it. -/
  maxAttempts : ℕ+ := defaultMaxAttempts

namespace SubmissionService

/-- `MAX_RUN_INPUT_BYTES`. -/
def maxRunInputBytes : ℕ := 64 * 1024

/-- `bool(manifest.get(key, default))`. -/
def manifestFlag (package : Option ProblemPackage) (key : String) (default : Bool) : Bool :=
  ((package.bind fun package => package.manifest.get? key).map Json.truthy).getD default

/-- Snapshot limits and scoring mode for one judge job. -/
def buildJobConfig (context : ProblemContext) (package : Option ProblemPackage)
    (participation : Option ContestParticipation) (mode : SubmissionMode)
    (customInput expectedOutput : String) : JobConfig :=
  let problem := context.problem
  { timeLimit := (context.languageLimit.map LanguageLimit.timeLimit).getD problem.timeLimit
    memoryLimit := (context.languageLimit.map LanguageLimit.memoryLimit).getD problem.memoryLimit
    shortCircuit := manifestFlag package "short_circuit" problem.shortCircuit
    partialScore := manifestFlag package "partial_score" problem.partialScore
    mode
    customInput
    expectedOutput
    contestPoints := participation.bind fun participation =>
      (participation.contest.problems.find? fun contestProblem =>
        contestProblem.problem = problem.id).map ContestProblem.points }

/-- The checks of `create_submission` before it writes. -/
def validateRequest (request : SubmissionRequest) : Except ServiceError Unit :=
  if request.mode = .run then
    if maxRunInputBytes < request.customInput.utf8ByteSize then
      .error (.submission "Custom input exceeds the maximum allowed size.")
    else if maxRunInputBytes < request.expectedOutput.utf8ByteSize then
      .error (.submission "Expected output exceeds the maximum allowed size.")
    else request.admitted
  else if request.customInput ≠ "" ∨ request.expectedOutput ≠ "" then
    .error (.submission "Custom input and expected output are only valid for runs.")
  else request.admitted

/-- The row of a new submission. -/
def newSubmission (now : Time) (id : ℕ) (request : SubmissionRequest) : Submission where
  id
  user := request.user
  problem := request.context.problem.id
  language := request.language
  contestParticipation := request.contestParticipation
  mode := request.mode
  customInput := request.customInput
  customExpectedOutput := request.expectedOutput
  createdAt := now

/-- The row of the job of a new submission. -/
def newJob (now : Time) (id submission : ℕ) (request : SubmissionRequest)
    (participation : Option ContestParticipation) : JudgeJob where
  id
  submission
  package := request.context.activePackage
  language := request.language
  maxAttempts := request.maxAttempts
  config := buildJobConfig request.context request.context.activePackage participation
    request.mode request.customInput request.expectedOutput
  createdAt := now

/-- The rows that `create_submission` inserts. -/
def newJudging (now : Time) (request : SubmissionRequest) (db : Database) : Judging where
  job := newJob now db.jobs.nextKey db.submissions.nextKey request
    (request.contestParticipation.bind db.participations.get?)
  submission := newSubmission now db.submissions.nextKey request
  testCases := ∅

/-- Create a submission or ephemeral run and enqueue it for judging. -/
def createSubmission (now : Time) (request : SubmissionRequest) (db : Database) :
    Except ServiceError Database := do
  validateRequest request
  if request.context.activePackage.isNone ∧ request.mode ≠ .run then
    .error (.submission "No active test data package is available for this problem.")
  else if ¬ (storableText request.customInput ∧ storableText request.expectedOutput) then
    .error .database
  else if ∃ id ∈ request.contestParticipation, db.participations.get? id = none then
    .error .database
  else .ok (db.store (newJudging now request db))

/-- The job that `rejudge_submission` creates for a submission that has none. -/
def missingJob (now : Time) (id : ℕ) (package : Option ProblemPackage) (config : JobConfig)
    (submission : Submission) : JudgeJob where
  id
  submission := submission.id
  package
  language := submission.language
  config
  createdAt := now

/-- Reset a submission and queue its job for rejudging. -/
def rejudgeSubmission (now : Time) (id : ℕ) (context : ProblemContext) (db : Database) :
    Except ServiceError Database :=
  match db.submissions.get? id with
  | none => .error .doesNotExist
  | some submission =>
      let existing := db.jobOf? id
      let package := existing.elim context.activePackage JudgeJob.package
      if package.isNone ∧ submission.mode ≠ .run then
        .error (.submission "No active test data package is available for this problem.")
      else
        let config := buildJobConfig context package
          (submission.contestParticipation.bind db.participations.get?) submission.mode
          submission.customInput submission.customExpectedOutput
        let job := existing.getD (missingJob now db.jobs.nextKey package config submission)
        .ok (db.store
          { job := job.reset config
            submission := submission.unjudged
            testCases := ∅ })

end SubmissionService

end JudgeLoom
