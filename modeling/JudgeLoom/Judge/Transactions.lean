import JudgeLoom.Judge.Gateway
import JudgeLoom.Judge.Result
import JudgeLoom.Library.ReadCommitted
import JudgeLoom.Submissions.Service

/-!
# The services as transactions

The same services as in `Judge.Gateway`, `Judge.Result` and `Submissions.Service`,
statement by statement, for runs in which transactions interleave.  Each program
below is one transaction; `claim_job` is two of them, `expireStaleJobs` and then
`claimJob`.  What a statement computes is taken from the functions on rows that
the sequential services use.

The test-case rows of a submission count as one row, which only the holder of the
job or of the submission writes.  A program commits with what happened to leases.
-/

namespace JudgeLoom

/-! ## The tables as a store -/

/-- The primary keys of the four tables. -/
inductive RowKey
  | job (id : ℕ)
  | submission (id : ℕ)
  | testCases (submission : ℕ)
  | participation (id : ℕ)
  deriving DecidableEq

/-- The rows of a key. -/
abbrev RowKey.Row : RowKey → Type
  | job id => {job : JudgeJob // job.id = id}
  | submission id => {submission : Submission // submission.id = id}
  | testCases _ => TestCases
  | participation id => {participation : ContestParticipation // participation.id = id}

namespace Database

/-- The row of a key. -/
def row? (db : Database) : (key : RowKey) → Option key.Row
  | .job id => db.jobs.row? id
  | .submission id => db.submissions.row? id
  | .testCases submission => some (db.testCases submission)
  | .participation id => db.participations.row? id

/-- Insert or replace the row of a key. -/
def setRow (db : Database) : (key : RowKey) → key.Row → Database
  | .job _, row => { db with jobs := db.jobs.save row.1 }
  | .submission _, row => { db with submissions := db.submissions.save row.1 }
  | .testCases submission, rows =>
      { db with testCases := Function.update db.testCases submission rows }
  | .participation _, row => { db with participations := db.participations.save row.1 }

instance : KeyedStore Database RowKey RowKey.Row where
  get? := row?
  set := setRow
  get?_set_self := by
    rintro db (id | id | id | id) row
    · exact Table.row?_save_self _ row
    · exact Table.row?_save_self _ row
    · exact congrArg some (Function.update_self ..)
    · exact Table.row?_save_self _ row
  get?_set_of_ne := by
    rintro db (id | id | id | id) row (other | other | other | other) hne
    case job.job => exact Table.row?_save_of_ne _ fun heq => hne (by rw [heq, row.2])
    case submission.submission => exact Table.row?_save_of_ne _ fun heq => hne (by rw [heq, row.2])
    case testCases.testCases =>
      exact congrArg some (Function.update_of_ne (fun heq => hne (by rw [heq])) ..)
    case participation.participation =>
      exact Table.row?_save_of_ne _ fun heq => hne (by rw [heq, row.2])
    all_goals rfl

end Database

/-- The queries of the services. -/
inductive Query
  | submission (id : ℕ)
  | testCases (submission : ℕ)
  | participation (id : ℕ)
  /-- The submissions of a participation to a problem. -/
  | contestProblem (participation problem : ℕ)
  | jobOf (submission : ℕ)
  | staleJobs
  | queuedJobs
  | heldJobs (judge : ℕ)
  deriving DecidableEq

/-- What a committed transaction did to the lease of a job. -/
inductive LeaseEvent
  | created
  | claimed (judge : ℕ)
  | requeued
  | rejudged
  deriving DecidableEq

/-- A transaction on the tables of the judge. -/
abbrev DbTransaction := Transaction Query Database RowKey.Row

/-- Any number of sessions that run transactions of the services. -/
abbrev JudgeSystem (ι : Type) := System ι Query Database RowKey.Row (List (ℕ × LeaseEvent))

/-- A computation that may raise, which rolls the transaction back. -/
def attempt {α : Type} : Except ServiceError α → DbTransaction α
  | .ok value => pure value
  | .error _ => .abort

/-! ## Columns that a `save` writes -/

/-- `save(update_fields=[…])` of `finish`, `fail` and `rejudge_submission`. -/
def Submission.saveResult (saved row : Submission) : Submission :=
  { row with
    status := saved.status
    result := saved.result
    points := saved.points
    timeUsed := saved.timeUsed
    memoryUsed := saved.memoryUsed
    caseTotal := saved.caseTotal
    casePassed := saved.casePassed
    currentTestcase := saved.currentTestcase
    subtaskScores := saved.subtaskScores
    errorMessage := saved.errorMessage
    judgedAt := saved.judgedAt
    judgedOn := saved.judgedOn }

/-- `save(update_fields=[…])` of `record_cases`. -/
def JudgeJob.saveProgress (saved row : JudgeJob) : JudgeJob :=
  { row with
    status := saved.status
    startedAt := saved.startedAt
    leaseExpiresAt := saved.leaseExpiresAt }

/-- `save(update_fields=[…])` of `claim_job`. -/
def JudgeJob.saveClaim (saved row : JudgeJob) : JudgeJob :=
  { row with
    status := saved.status
    claimedBy := saved.claimedBy
    claimedAt := saved.claimedAt
    attempts := saved.attempts
    leaseExpiresAt := saved.leaseExpiresAt }

/-! ## The order of claims -/

/-- The second job is not ahead of the first. -/
def inOrder (first second : JudgeJob) : Prop := second.ahead first = false

instance : DecidableRel inOrder := fun _ _ => inferInstanceAs (Decidable (_ = _))

theorem inOrder_iff {first second : JudgeJob} : inOrder first second ↔
    second.priority < first.priority ∨
      (first.priority = second.priority ∧ first.createdAt ≤ second.createdAt) := by
  simp only [inOrder, JudgeJob.ahead, Bool.or_eq_false_iff, Bool.and_eq_false_iff,
    decide_eq_false_iff_not]
  grind

instance : Std.Total inOrder where
  total first second := by
    rw [inOrder_iff, inOrder_iff]
    grind

instance : IsTrans JudgeJob inOrder where
  trans first second third := by
    rw [inOrder_iff, inOrder_iff, inOrder_iff]
    grind

/-- An order of the rows by `order_by("-priority", "created_at")`, with ties anyhow. -/
structure ClaimOrder where
  sort : List JudgeJob → List JudgeJob
  perm : ∀ jobs, (sort jobs).Perm jobs
  sorted : ∀ jobs, (sort jobs).Pairwise inOrder

/-- The order that keeps ties by primary key. -/
def ClaimOrder.byKey : ClaimOrder where
  sort jobs := jobs.insertionSort inOrder
  perm jobs := List.perm_insertionSort inOrder jobs
  sorted jobs := List.pairwise_insertionSort inOrder jobs

namespace DbTransaction

open Transaction

/-- `_lock_job`. -/
def lockJob (id : ℕ) : DbTransaction JudgeJob := do
  let some row ← forUpdate (RowKey.job id) | .abort
  return row.1

/-- `job.save(update_fields=[…])`, where `f` writes the fields. -/
def saveJob (id : ℕ) (f : JudgeJob → JudgeJob)
    (hid : ∀ job, (f job).id = job.id := by intro _; rfl) : DbTransaction PUnit :=
  modify (RowKey.job id) fun row => ⟨f row.1, (hid row.1).trans row.2⟩

/-- `UPDATE` of the row of a submission, where `f` writes the columns. -/
def saveSubmission (id : ℕ) (f : Submission → Submission)
    (hid : ∀ submission, (f submission).id = submission.id := by intro _; rfl) :
    DbTransaction PUnit :=
  modify (RowKey.submission id) fun row => ⟨f row.1, (hid row.1).trans row.2⟩

/-- `UPDATE` of the test-case rows of a submission. -/
def saveTestCases (submission : ℕ) (f : TestCases → TestCases) : DbTransaction PUnit :=
  modify (RowKey.testCases submission) f

/-! ## The judge gateway -/

/-- The rows that `select_for_update(skip_locked=True)` returns to `expire_stale_jobs`,
with the filter checked again on the version that was locked. -/
def lockStaleJobs (now : Time) : List ℕ → DbTransaction (List JudgeJob)
  | [] => return []
  | id :: rest => do
      let row ← skipLocked (RowKey.job id)
      let jobs ← lockStaleJobs now rest
      match row with
      | some row => return if row.1.stale now then row.1 :: jobs else jobs
      | none => return jobs

/-- The loop of `expire_stale_jobs`. -/
def expireJobs (now : Time) : List JudgeJob → DbTransaction (List (ℕ × LeaseEvent))
  | [] => return []
  | job :: rest => do
      saveTestCases job.submission fun _ => ∅
      if job.maxAttempts ≤ job.attempts then
        saveJob job.id (JudgeJob.exhaust now)
        saveSubmission job.submission (Submission.exhaust now)
        expireJobs now rest
      else
        saveJob job.id JudgeJob.requeue
        saveSubmission job.submission Submission.unjudged
        let events ← expireJobs now rest
        return (job.id, .requeued) :: events

def expireStaleJobs (now : Time) : DbTransaction (List (ℕ × LeaseEvent)) := do
  let stale ← select .staleJobs (JudgeGatewayService.staleJobs now)
  let jobs ← lockStaleJobs now stale
  expireJobs now jobs

/-- `select_for_update(skip_locked=True)….first()` of `claim_job`, and the claim. -/
def claimFirst (now : Time) (judge : ℕ) (languages : List String) :
    List ℕ → DbTransaction (List (ℕ × LeaseEvent))
  | [] => return []
  | id :: rest => do
      match ← skipLocked (RowKey.job id) with
      | none => claimFirst now judge languages rest
      | some row =>
          if row.1.claimable languages then
            saveJob id (JudgeJob.saveClaim (row.1.claim judge now))
            return [(id, .claimed judge)]
          else claimFirst now judge languages rest

/-- The second transaction of `claim_job`. -/
def claimJob (now : Time) (judge : ℕ) (languages : List String) (order : ClaimOrder) :
    DbTransaction (List (ℕ × LeaseEvent)) := do
  let queued ← select .queuedJobs fun db =>
    db.jobs.rows.filter (JudgeJob.claimable languages)
  claimFirst now judge languages ((order.sort queued).map JudgeJob.id)

/-- The rows of the `UPDATE` of the heartbeat, with its filter checked on each. -/
def extendLeases (now : Time) (judge : ℕ) : List ℕ → DbTransaction (List (ℕ × LeaseEvent))
  | [] => return []
  | id :: rest => do
      saveJob id
        (fun job => if job.leasedBy judge then job.extendLease now else job)
        (by intro job; split <;> rfl)
      extendLeases now judge rest

def heartbeat (now : Time) (judge : ℕ) : DbTransaction (List (ℕ × LeaseEvent)) := do
  let held ← select (.heldJobs judge) fun db =>
    (db.jobs.rows.filter (JudgeJob.leasedBy judge)).map JudgeJob.id
  extendLeases now judge held

/-! ## Worker callbacks -/

open JudgeResultService

def start (now : Time) (judge id : ℕ) : DbTransaction (List (ℕ × LeaseEvent)) := do
  let job ← lockJob id
  if job.status = .running then
    if job.claimedBy ≠ some judge then .abort
    else
      saveJob id (JudgeJob.extendLease now) (JudgeJob.id_extendLease now)
      return []
  else
    attempt (assertOwned now judge job)
    if job.status ≠ .claimed then .abort
    else
      saveJob id (JudgeJob.start now)
      saveSubmission job.submission Submission.judging
      return []

/-- The loop of `record_cases` over the reports; returns the largest case number. -/
def recordEach (P : Python) (manifestCases : List Json) (submission : ℕ) :
    List JudgeCaseIn → ℕ → DbTransaction ℕ
  | [], maxCase => return maxCase
  | report :: rest, maxCase => do
      let recorded ← attempt (recordCase P manifestCases (∅, maxCase) report)
      saveTestCases submission fun rows => upsertCase P manifestCases rows report
      recordEach P manifestCases submission rest recorded.2

def recordCases (P : Python) (now : Time) (judge id : ℕ) (cases : List JudgeCaseIn) :
    DbTransaction (List (ℕ × LeaseEvent)) := do
  let job ← lockJob id
  attempt (assertOwned now judge job)
  let some submission ← select (.submission job.submission) fun db =>
    db.submissions.get? job.submission | .abort
  let maxCase ← recordEach P job.manifestCases job.submission cases submission.currentTestcase
  let testCases ← select (.testCases job.submission) fun db => db.testCases job.submission
  saveSubmission job.submission (recordedSubmission job.manifestCases testCases maxCase)
  saveJob id (JudgeJob.saveProgress (job.record now))
  return []

/-- The queries of `calculate_participation`, one for each problem of the contest. -/
def queryProblems (participation : ContestParticipation) :
    List ContestProblem → DbTransaction (List (ℕ × List Submission))
  | [] => return []
  | contestProblem :: rest => do
      let answer ← select (.contestProblem participation.id contestProblem.problem) fun db =>
        submissionView db.submissions.rows participation contestProblem
      let answers ← queryProblems participation rest
      return (contestProblem.problem, answer) :: answers

/-- `_refresh_contest_score`. -/
def refreshContestScore (A : FloatArith) (submission : Submission) : DbTransaction PUnit := do
  match submission.contestParticipation with
  | none => return ⟨⟩
  | some id =>
      match ← select (.participation id) fun db => db.participations.get? id with
      | none => return ⟨⟩
      | some participation =>
          let answers ← queryProblems participation participation.contest.problems
          match calculateParticipation A participation fun contestProblem =>
              (answers.lookup contestProblem.problem).getD [] with
          | none => return ⟨⟩
          | some scores =>
              modify (RowKey.participation id) fun row => ⟨row.1.withScores scores, row.2⟩

/-- Save the end of a job and refresh the contest score of its submission. -/
def close (A : FloatArith) (id submission : ℕ) (saved : Submission) (f : JudgeJob → JudgeJob)
    (hid : ∀ job, (f job).id = job.id := by intro _; rfl) :
    DbTransaction (List (ℕ × LeaseEvent)) := do
  saveSubmission submission saved.saveResult
  refreshContestScore A saved
  saveJob id f hid
  return []

def finish (P : Python) (now : Time) (judge id : ℕ) (errorMessage : String) :
    DbTransaction (List (ℕ × LeaseEvent)) := do
  let job ← lockJob id
  let some submission ← select (.submission job.submission) fun db =>
    db.submissions.get? job.submission | .abort
  if job.status = .succeeded then
    if job.claimedBy ≠ some judge then .abort else return []
  else
    attempt (assertOwned now judge job)
    let testCases ← select (.testCases job.submission) fun db => db.testCases job.submission
    let submission ← attempt (outcome P { job, submission, testCases })
    if ¬ storableText errorMessage then .abort
    else
      close P.arith id job.submission
        { submission with judgedAt := some now, judgedOn := some judge, errorMessage }
        (JudgeJob.succeed now)

def fail (P : Python) (now : Time) (judge id : ℕ) (result errorMessage : String) :
    DbTransaction (List (ℕ × LeaseEvent)) := do
  let job ← lockJob id
  let some submission ← select (.submission job.submission) fun db =>
    db.submissions.get? job.submission | .abort
  if job.status = .failed then
    if job.claimedBy ≠ some judge then .abort else return []
  else
    attempt (assertOwned now judge job)
    if ¬ storableText errorMessage then .abort
    else
      close P.arith id job.submission
        (submission.erroneous (failResult result) errorMessage now (some judge))
        (JudgeJob.fail now errorMessage)

/-! ## Submissions -/

/-- The participation of a submission. -/
def participationOf (id : Option ℕ) : DbTransaction (Option ContestParticipation) :=
  match id with
  | none => return none
  | some id => select (.participation id) fun db => db.participations.get? id

/-- `create_submission`; the keys come from the sequences of the tables. -/
def createSubmission (now : Time) (request : SubmissionRequest) (submission job : ℕ) :
    DbTransaction (List (ℕ × LeaseEvent)) := do
  attempt (SubmissionService.validateRequest request)
  if request.context.activePackage.isNone ∧ request.mode ≠ .run then .abort
  else if ¬ (storableText request.customInput ∧ storableText request.expectedOutput) then .abort
  else
    let participation ← participationOf request.contestParticipation
    if request.contestParticipation.isSome ∧ participation.isNone then .abort
    else
      create (RowKey.submission submission)
        ⟨SubmissionService.newSubmission now submission request, rfl⟩
      create (RowKey.job job)
        ⟨SubmissionService.newJob now job submission request participation, rfl⟩
      return [(job, .created)]

/-- `JudgeJob.objects.select_for_update().filter(submission=submission).first()`. -/
def lockJobOf (submission : ℕ) : DbTransaction (Option JudgeJob) := do
  match ← select (.jobOf submission) fun db => db.jobOf? submission with
  | none => return none
  | some job =>
      let row ← forUpdate (RowKey.job job.id)
      return (row.map Subtype.val).filter fun job => job.submission = submission

/-- `rejudge_submission`; `fresh` is the key of a job that has to be created. -/
def rejudgeSubmission (now : Time) (id fresh : ℕ) (context : ProblemContext) :
    DbTransaction (List (ℕ × LeaseEvent)) := do
  let some locked ← forUpdate (RowKey.submission id) | .abort
  let submission := locked.1
  let existing ← lockJobOf id
  let package := existing.elim context.activePackage JudgeJob.package
  if package.isNone ∧ submission.mode ≠ .run then .abort
  else
    saveSubmission id (Submission.saveResult submission.unjudged)
    saveTestCases id fun _ => ∅
    let participation ← participationOf submission.contestParticipation
    let config := SubmissionService.buildJobConfig context package participation submission.mode
      submission.customInput submission.customExpectedOutput
    match existing with
    | some job =>
        saveJob job.id (JudgeJob.reset config)
        return [(job.id, .rejudged)]
    | none =>
        create (RowKey.job fresh)
          ⟨SubmissionService.missingJob now fresh package config submission, rfl⟩
        saveJob fresh (JudgeJob.reset config)
        return [(fresh, .created), (fresh, .rejudged)]

/-! ## What the statements do to the tables -/

section

variable {α : Type} {V : ℕ → Database} {n id : ℕ} {start final : Progress Query RowKey.Row}
  {value : α} {result : PUnit}

theorem yields_attempt {computation : Except ServiceError α} :
    (attempt computation).Yields V n start value final ↔
      computation = .ok value ∧ start = final := by
  cases computation with
  | error error => simp [attempt]
  | ok result => simp [attempt]

theorem yields_lockJob {job : JudgeJob} (h : (lockJob id).Yields V n start job final) :
    (start.view (V n)).jobs.get? id = some job ∧ start = final := by
  obtain ⟨row, middle, ⟨hrow, rfl⟩, h⟩ := yields_bind.mp h
  cases row with
  | none => exact h.elim
  | some row =>
      obtain ⟨rfl, rfl⟩ := h
      exact ⟨Table.row?_eq_some.mp hrow, rfl⟩

open KeyedStore in
theorem rewriteRow_job (db : Database) (id : ℕ) (f : JudgeJob → JudgeJob)
    (hid : ∀ job, (f job).id = job.id) :
    rewriteRow db (RowKey.job id) (fun row => ⟨f row.1, (hid row.1).trans row.2⟩) =
      { db with jobs := db.jobs.modify id f hid } := by
  unfold rewriteRow
  cases hrow : get? db (RowKey.job id) with
  | none => rw [Table.modify_of_none (Table.row?_eq_none.mp hrow)]; rfl
  | some row => rw [Table.modify_of_some (Table.row?_eq_some.mp hrow)]; rfl

open KeyedStore in
theorem rewriteRow_submission (db : Database) (id : ℕ) (f : Submission → Submission)
    (hid : ∀ submission, (f submission).id = submission.id) :
    rewriteRow db (RowKey.submission id) (fun row => ⟨f row.1, (hid row.1).trans row.2⟩) =
      { db with submissions := db.submissions.modify id f hid } := by
  unfold rewriteRow
  cases hrow : get? db (RowKey.submission id) with
  | none => rw [Table.modify_of_none (Table.row?_eq_none.mp hrow)]; rfl
  | some row => rw [Table.modify_of_some (Table.row?_eq_some.mp hrow)]; rfl

open KeyedStore in
theorem rewriteRow_participation (db : Database) (id : ℕ)
    (f : ContestParticipation → ContestParticipation)
    (hid : ∀ participation, (f participation).id = participation.id) :
    rewriteRow db (RowKey.participation id) (fun row => ⟨f row.1, (hid row.1).trans row.2⟩) =
      { db with participations := db.participations.modify id f hid } := by
  unfold rewriteRow
  cases hrow : get? db (RowKey.participation id) with
  | none => rw [Table.modify_of_none (Table.row?_eq_none.mp hrow)]; rfl
  | some row => rw [Table.modify_of_some (Table.row?_eq_some.mp hrow)]; rfl

theorem view_saveJob {f : JudgeJob → JudgeJob} {hid : ∀ job, (f job).id = job.id}
    (h : (saveJob id f hid).Yields V n start result final) :
    final.view (V n) =
        { start.view (V n) with jobs := (start.view (V n)).jobs.modify id f hid } ∧
      final.log = start.log := by
  rw [← yields_modify.mp h, Progress.view_update]
  exact ⟨rewriteRow_job _ _ _ _, rfl⟩

theorem view_saveSubmission {f : Submission → Submission}
    {hid : ∀ submission, (f submission).id = submission.id}
    (h : (saveSubmission id f hid).Yields V n start result final) :
    final.view (V n) =
        { start.view (V n) with submissions := (start.view (V n)).submissions.modify id f hid } ∧
      final.log = start.log := by
  rw [← yields_modify.mp h, Progress.view_update]
  exact ⟨rewriteRow_submission _ _ _ _, rfl⟩

end

end DbTransaction

end JudgeLoom
