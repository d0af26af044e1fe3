import JudgeLoom.Contests.Formats
import JudgeLoom.Problems.Models

/-!
# Judge jobs and the tables that judging works on

A job is the leased unit of work of one submission.  The functions on a single
row say what the services write to it, one for each `save` or `update` of the
source with its list of fields; the services themselves only choose among them.

`Judging` is what a worker callback works on: a locked job, its submission and
the test-case rows of that submission.
-/

namespace JudgeLoom

/-- Lifecycle states for one judge job. -/
inductive JudgeJobStatus
  | queued
  | claimed
  | running
  | succeeded
  | failed
  | expired
  | cancelled
  deriving DecidableEq, Repr

/-- A worker holds a job in this state. -/
def JudgeJobStatus.leased (status : JudgeJobStatus) : Bool := status = .claimed || status = .running

/-- `LEASE_SECONDS`, as a `timedelta`. -/
def leaseSeconds : Time := 60 * second

/-- The limits and the scoring mode that a job is created with. -/
structure JobConfig where
  timeLimit : ℚ
  memoryLimit : ℤ
  shortCircuit : Bool
  partialScore : Bool
  mode : SubmissionMode
  customInput : String
  expectedOutput : String
  contestPoints : Option ℚ := none

/-- The default of `max_attempts`. -/
def defaultMaxAttempts : ℕ+ := ⟨3, by decide⟩

/-- A leased unit of work for one submission. -/
structure JudgeJob where
  id : ℕ
  submission : ℕ
  package : Option ProblemPackage
  language : String
  status : JudgeJobStatus := .queued
  priority : ℤ := 0
  claimedBy : Option ℕ := none
  leaseExpiresAt : Option Time := none
  attempts : ℕ := 0
  maxAttempts : ℕ+ := defaultMaxAttempts
  config : JobConfig
  lastError : String := ""
  claimedAt : Option Time := none
  startedAt : Option Time := none
  finishedAt : Option Time := none
  createdAt : Time

/-! ## What the services write to a job -/

namespace JudgeJob

/-- The cases of the job's manifest; without a package there are none. -/
def manifestCases (job : JudgeJob) : List Json :=
  job.package.elim [] fun package => JudgeLoom.manifestCases package.manifest

/-- `claim_job`. -/
def claim (judge : ℕ) (now : Time) (job : JudgeJob) : JudgeJob :=
  { job with
    status := .claimed
    claimedBy := some judge
    claimedAt := some now
    attempts := job.attempts + 1
    leaseExpiresAt := some (now + leaseSeconds) }

/-- `_extend_lease`. -/
def extendLease (now : Time) (job : JudgeJob) : JudgeJob :=
  { job with leaseExpiresAt := some (now + leaseSeconds) }

@[simp] theorem id_extendLease (now : Time) (job : JudgeJob) :
    (job.extendLease now).id = job.id :=
  rfl

/-- `start`. -/
def start (now : Time) (job : JudgeJob) : JudgeJob :=
  { job with
    status := .running
    startedAt := some now
    leaseExpiresAt := some (now + leaseSeconds) }

/-- `record_cases`: a claimed job that reports a case is running. -/
def record (now : Time) (job : JudgeJob) : JudgeJob :=
  let job :=
    if job.status = .claimed then
      { job with status := .running, startedAt := some (job.startedAt.getD now) }
    else job
  job.extendLease now

@[simp] theorem claimedBy_record (now : Time) (job : JudgeJob) :
    (job.record now).claimedBy = job.claimedBy := by
  unfold record
  dsimp only
  split <;> rfl

@[simp] theorem attempts_record (now : Time) (job : JudgeJob) :
    (job.record now).attempts = job.attempts := by
  unfold record
  dsimp only
  split <;> rfl

@[simp] theorem maxAttempts_record (now : Time) (job : JudgeJob) :
    (job.record now).maxAttempts = job.maxAttempts := by
  unfold record
  dsimp only
  split <;> rfl

theorem status_record {job : JudgeJob} (hleased : job.status.leased = true) (now : Time) :
    (job.record now).status = .running := by
  unfold record
  dsimp only
  split
  · rfl
  · next hclaimed =>
      change job.status = .running
      simpa [JudgeJobStatus.leased, hclaimed] using hleased

/-- `finish`. -/
def succeed (now : Time) (job : JudgeJob) : JudgeJob :=
  { job with
    status := .succeeded
    finishedAt := some now
    leaseExpiresAt := none
    lastError := "" }

/-- `fail`. -/
def fail (now : Time) (lastError : String) (job : JudgeJob) : JudgeJob :=
  { job with
    status := .failed
    finishedAt := some now
    leaseExpiresAt := none
    lastError }

/-- `expire_stale_jobs` at the attempt limit. -/
def exhaust (now : Time) (job : JudgeJob) : JudgeJob :=
  job.fail now "Lease expired after maximum attempts."

/-- `expire_stale_jobs` below the attempt limit. -/
def requeue (job : JudgeJob) : JudgeJob :=
  { job with
    status := .queued
    claimedBy := none
    claimedAt := none
    startedAt := none
    finishedAt := none
    leaseExpiresAt := none
    lastError := "Lease expired; job requeued." }

/-- `rejudge_submission`. -/
def reset (config : JobConfig) (job : JudgeJob) : JudgeJob :=
  { job with
    status := .queued
    attempts := 0
    claimedBy := none
    leaseExpiresAt := none
    claimedAt := none
    startedAt := none
    finishedAt := none
    lastError := ""
    config }

end JudgeJob

/-! ## What the services write to a submission -/

namespace Submission

/-- The result of `submission` before it is judged. -/
def unjudged (submission : Submission) : Submission :=
  { submission with
    status := .queued
    result := none
    points := 0
    timeUsed := 0
    memoryUsed := 0
    caseTotal := 0
    casePassed := 0
    currentTestcase := 0
    subtaskScores := ∅
    errorMessage := ""
    judgedAt := none
    judgedOn := none }

/-- A submission that ended without a score. -/
def erroneous (result : SubmissionResult) (errorMessage : String) (now : Time)
    (judgedOn : Option ℕ) (submission : Submission) : Submission :=
  { submission with
    status := .error
    result := some result
    points := 0
    timeUsed := 0
    memoryUsed := 0
    caseTotal := 0
    casePassed := 0
    currentTestcase := 0
    subtaskScores := ∅
    errorMessage
    judgedAt := some now
    judgedOn }

/-- `expire_stale_jobs` at the attempt limit. -/
def exhaust (now : Time) (submission : Submission) : Submission :=
  submission.erroneous .IE "Judge lease expired after maximum attempts." now none

/-- `start`. -/
def judging (submission : Submission) : Submission := { submission with status := .judging }

end Submission

/-! ## Tables -/

/-- The tables that judging works on. -/
structure Database where
  submissions : Table Submission Submission.id := ∅
  jobs : Table JudgeJob JudgeJob.id := ∅
  testCases : ℕ → TestCases := fun _ => ∅
  participations : Table ContestParticipation ContestParticipation.id := ∅

/-- A job with its submission and the test-case rows of that submission. -/
structure Judging where
  job : JudgeJob
  submission : Submission
  testCases : TestCases

namespace Database

/-- The job of a key with its submission and test-case rows. -/
def judging? (db : Database) (id : ℕ) : Option Judging :=
  (db.jobs.get? id).bind fun job =>
    (db.submissions.get? job.submission).map fun submission =>
      { job, submission, testCases := db.testCases job.submission }

/-- Save the three parts of `judging`. -/
def store (db : Database) (judging : Judging) : Database :=
  { db with
    jobs := db.jobs.save judging.job
    submissions := db.submissions.save judging.submission
    testCases := Function.update db.testCases judging.submission.id judging.testCases }

/-- `select_for_update().get(pk=id)`. -/
def lockJob (db : Database) (id : ℕ) : Except ServiceError Judging :=
  match db.judging? id with
  | none => .error .doesNotExist
  | some judging => .ok judging

/-- The job of a submission. -/
def jobOf? (db : Database) (submission : ℕ) : Option JudgeJob :=
  db.jobs.rows.find? fun job => job.submission = submission

/-- `_refresh_contest_score`: recalculate the participation of a submission. -/
def refreshContestScore (A : FloatArith) (submission : Submission) (db : Database) : Database :=
  match submission.contestParticipation with
  | none => db
  | some id =>
      { db with
        participations := db.participations.modify id
          (fun participation => recalculateParticipation A participation
            (submissionView db.submissions.rows participation))
          (by
            intro participation
            unfold recalculateParticipation
            split <;> rfl) }

end Database

end JudgeLoom
