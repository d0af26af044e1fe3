import JudgeLoom.Judge.Models
import JudgeLoom.Judge.Scoring
import JudgeLoom.Library.Except

/-!
# Worker callbacks

`JudgeResultService`: a callback locks its job, checks who calls, and writes the
job, its submission and the test-case rows.  An error leaves the database as it
was, since every callback is one transaction.  The clock stands still during a
callback.  The floats of a report are finite.
-/

namespace JudgeLoom

/-- One reported case, with the defaults of its schema. -/
structure JudgeCaseIn where
  caseNumber : ℤ
  status : String
  timeUsed : ℚ := 0
  memoryUsed : ℤ := 0
  points : ℚ := 0
  totalPoints : ℚ := 0
  feedback : String := ""
  output : String := ""

/-- The lease of the job is missing or over. -/
def JudgeJob.leaseOver (now : Time) (job : JudgeJob) : Bool :=
  job.leaseExpiresAt.elim true fun expiry => expiry ≤ now

namespace JudgeResultService

/-- The three checks every callback of an active job has to pass. -/
def assertOwned (now : Time) (judge : ℕ) (job : JudgeJob) : Except ServiceError Unit :=
  if job.claimedBy ≠ some judge then
    .error (.permissionDenied "This job is claimed by another judge.")
  else if job.leaseOver now then .error (.judgeJobConflict "The judge job lease has expired.")
  else if ¬ job.status.leased then .error (.judgeJobConflict "The judge job is not active.")
  else .ok ()

/-- Mark a claimed job as running. -/
def start (now : Time) (judge id : ℕ) (db : Database) : Except ServiceError Database := do
  let locked ← db.lockJob id
  if locked.job.status = .running then
    if locked.job.claimedBy ≠ some judge then
      .error (.permissionDenied "This job is claimed by another judge.")
    else .ok (db.store { locked with job := locked.job.extendLease now })
  else
    assertOwned now judge locked.job
    if locked.job.status ≠ .claimed then
      .error (.judgeJobConflict "The judge job cannot be started.")
    else
      .ok (db.store
        { locked with job := locked.job.start now, submission := locked.submission.judging })

/-! ## Recording cases -/

/-- The group of `_manifest_case(job, case_number)`. -/
def manifestGroup (P : Python) (manifestCases : List Json) (caseNumber : ℕ) : String :=
  (manifestCases[caseNumber - 1]?).elim "default" (caseGroup P)

/-- The row that a report is stored as. -/
def reportRow (P : Python) (manifestCases : List Json) (report : JudgeCaseIn) :
    SubmissionTestCase where
  caseNumber := report.caseNumber.toNat
  status := .ofReport report.status
  timeUsed := report.timeUsed
  memoryUsed := report.memoryUsed
  points := report.points
  totalPoints := report.totalPoints
  group := manifestGroup P manifestCases report.caseNumber.toNat
  feedback := report.feedback
  output := report.output

/-- The body of the loop over the reports: the rows and the largest case number. -/
def recordCase (P : Python) (manifestCases : List Json) (recorded : TestCases × ℕ)
    (report : JudgeCaseIn) : Except ServiceError (TestCases × ℕ) :=
  if manifestCases ≠ [] ∧ ¬ (1 ≤ report.caseNumber ∧ report.caseNumber ≤ manifestCases.length) then
    .error (.validation
      ("Case number " ++ toString report.caseNumber ++ " is outside the active package."))
  else if report.caseNumber ≤ 0 then .ok recorded
  else
    let row := reportRow P manifestCases report
    if row.storable then .ok (recorded.1.save row, max recorded.2 row.caseNumber)
    else .error .database

/-- What a report does to the rows when nothing rejects it. -/
def upsertCase (P : Python) (manifestCases : List Json) (testCases : TestCases)
    (report : JudgeCaseIn) : TestCases :=
  if report.caseNumber ≤ 0 then testCases else testCases.save (reportRow P manifestCases report)

theorem recordCase_eq_ok {P : Python} {manifestCases : List Json}
    {recorded recorded' : TestCases × ℕ} {report : JudgeCaseIn}
    (h : recordCase P manifestCases recorded report = .ok recorded') :
    recorded' = (upsertCase P manifestCases recorded.1 report,
      if report.caseNumber ≤ 0 then recorded.2 else max recorded.2 report.caseNumber.toNat) := by
  unfold recordCase at h
  unfold upsertCase
  split_ifs at h ⊢
  · cases h
    rfl
  · dsimp only at h
    split_ifs at h
    cases h
    rfl

/-- A recorded batch upserts its reports one after the other. -/
theorem foldlM_recordCase {P : Python} {manifestCases : List Json} {cases : List JudgeCaseIn}
    {testCases testCases' : TestCases} {maxCase maxCase' : ℕ}
    (h : cases.foldlM (recordCase P manifestCases) (testCases, maxCase) =
      .ok (testCases', maxCase')) :
    testCases' = cases.foldl (upsertCase P manifestCases) testCases := by
  have hfold := Except.foldlM_eq_ok (fun _ _ _ hrecord => recordCase_eq_ok hrecord) h
  calc testCases' = (testCases', maxCase').1 := rfl
    _ = cases.foldl (upsertCase P manifestCases) testCases := by
        rw [hfold]
        exact (List.foldl_hom Prod.fst fun _ _ => rfl).symm

/-- Every row after a batch was there before or comes from one of its reports. -/
theorem mem_foldl_upsertCase {P : Python} {manifestCases : List Json}
    {row : SubmissionTestCase} (cases : List JudgeCaseIn) :
    ∀ testCases : TestCases, row ∈ (cases.foldl (upsertCase P manifestCases) testCases).rows →
      row ∈ testCases.rows ∨ ∃ report ∈ cases, row = reportRow P manifestCases report := by
  induction cases with
  | nil =>
      intro testCases hrow
      exact Or.inl hrow
  | cons report rest ih =>
      intro testCases hrow
      rcases ih _ hrow with hrow | ⟨other, hother, rfl⟩
      · unfold upsertCase at hrow
        split at hrow
        · exact Or.inl hrow
        · rcases Table.mem_save_iff.mp hrow with rfl | ⟨hrow, _⟩
          · exact Or.inr ⟨report, List.mem_cons_self, rfl⟩
          · exact Or.inl hrow
      · exact Or.inr ⟨other, List.mem_cons_of_mem _ hother, rfl⟩

/-- `submission` after `testCases` were recorded. -/
def recordedSubmission (manifestCases : List Json) (testCases : TestCases) (maxCase : ℕ)
    (submission : Submission) : Submission :=
  let caseTotal := orElse manifestCases.length testCases.rows.length
  { submission with
    status := .judging
    caseTotal
    casePassed := (testCases.rows.filter fun row =>
      row.status = .AC ∧ row.caseNumber ≤ caseTotal).length
    currentTestcase := min maxCase caseTotal }

/-- Upsert a batch of per-case results. -/
def recordCases (P : Python) (now : Time) (judge id : ℕ) (cases : List JudgeCaseIn)
    (db : Database) : Except ServiceError Database := do
  let locked ← db.lockJob id
  assertOwned now judge locked.job
  let manifestCases := locked.job.manifestCases
  let (testCases, maxCase) ← cases.foldlM (recordCase P manifestCases)
    (locked.testCases, locked.submission.currentTestcase)
  .ok (db.store
    { job := locked.job.record now
      submission := recordedSubmission manifestCases testCases maxCase locked.submission
      testCases })

/-! ## Finishing and failing -/

/-- A stored row as a case of `ScoringService.score`. -/
def casePayload (row : SubmissionTestCase) : CasePayload where
  caseNumber := row.caseNumber
  status := some row.status.value
  timeUsed := some row.timeUsed
  memoryUsed := some row.memoryUsed
  points := some row.points
  totalPoints := some row.totalPoints

/-- The outcome of a run with custom input: that of its last case. -/
def runOutcome (testCases : TestCases) (submission : Submission) : Submission :=
  match testCases.rows.getLast? with
  | none =>
      { submission with
        status := .error
        result := some .IE
        points := 0
        timeUsed := 0
        memoryUsed := 0
        caseTotal := 0
        casePassed := 0
        currentTestcase := 0
        subtaskScores := ∅ }
  | some case =>
      { submission with
        status := .completed
        result := some case.status
        points := 0
        timeUsed := case.timeUsed
        memoryUsed := case.memoryUsed
        caseTotal := 1
        casePassed := if case.status = .AC then 1 else 0
        currentTestcase := 1
        subtaskScores := ∅ }

/-- The outcome of a scored submission. -/
def scoredOutcome (P : Python) (package : ProblemPackage) (testCases : TestCases)
    (submission : Submission) : Except ServiceError Submission :=
  match ScoringService.score P package (testCases.rows.map casePayload) with
  | .error error => .error (.python error)
  | .ok summary =>
      .ok { submission with
        status := summary.status
        result := some summary.result
        points := summary.points
        timeUsed := summary.timeUsed
        memoryUsed := summary.memoryUsed
        caseTotal := summary.caseTotal
        casePassed := summary.casePassed
        currentTestcase := (testCases.rows.map SubmissionTestCase.caseNumber).foldr max 0
        subtaskScores := summary.subtaskScores }

/-- The outcome of a job's submission, before it is stamped. -/
def outcome (P : Python) (judging : Judging) : Except ServiceError Submission :=
  match judging.submission.mode, judging.job.package with
  | .run, _ => .ok (runOutcome judging.testCases judging.submission)
  | .submit, none => .error (.python .attributeError)
  | .submit, some package => scoredOutcome P package judging.testCases judging.submission

/-- Save the end of a job and refresh the contest score of its submission. -/
def close (P : Python) (db : Database) (judging : Judging) : Submission × Database :=
  (judging.submission, (db.store judging).refreshContestScore P.arith judging.submission)

/-- Finalize a job using server-computed scores. -/
def finish (P : Python) (now : Time) (judge id : ℕ) (errorMessage : String) (db : Database) :
    Except ServiceError (Submission × Database) := do
  let locked ← db.lockJob id
  if locked.job.status = .succeeded then
    if locked.job.claimedBy ≠ some judge then
      .error (.permissionDenied "This job is claimed by another judge.")
    else .ok (locked.submission, db)
  else
    assertOwned now judge locked.job
    if ¬ locked.job.status.leased then
      .error (.judgeJobConflict "The judge job cannot be finished.")
    else
      let submission ← outcome P locked
      if ¬ storableText errorMessage then .error .database
      else
        .ok (close P db
          { locked with
            job := locked.job.succeed now
            submission :=
              { submission with judgedAt := some now, judgedOn := some judge, errorMessage } })

/-- The verdict a failed job may report. -/
def failResult (code : String) : SubmissionResult :=
  if code = SubmissionResult.CE.value then .CE else .IE

/-- Finalize a job as a compile/internal error. -/
def fail (P : Python) (now : Time) (judge id : ℕ) (result errorMessage : String)
    (db : Database) : Except ServiceError (Submission × Database) := do
  let locked ← db.lockJob id
  if locked.job.status = .failed then
    if locked.job.claimedBy ≠ some judge then
      .error (.permissionDenied "This job is claimed by another judge.")
    else .ok (locked.submission, db)
  else
    assertOwned now judge locked.job
    if ¬ locked.job.status.leased then
      .error (.judgeJobConflict "The judge job cannot be failed.")
    else if ¬ storableText errorMessage then .error .database
    else
      .ok (close P db
        { locked with
          job := locked.job.fail now errorMessage
          submission :=
            locked.submission.erroneous (failResult result) errorMessage now (some judge) })

end JudgeResultService

end JudgeLoom
