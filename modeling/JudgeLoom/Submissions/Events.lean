import JudgeLoom.Judge.World
import JudgeLoom.Library.Noninterference
import JudgeLoom.Problems.Visibility

/-!
# What the viewers of a submission get

A viewer of a submission reads its details over REST, and joins its WebSocket group, to
which the judging services publish.  Reading and joining are allowed by
`can_view_submission`; the details are masked unless `can_view_submission_private`
holds.

The columns `is_public` and `share_token` of a submission, its problem and the name of
its language come in a `SubmissionSite`: no judging operation writes them.
-/

namespace JudgeLoom

/-! ## Published events -/

/-- The payload of an event that is published to the group of a submission. -/
inductive SubmissionEvent
  | status (submission : ℕ) (status : SubmissionStatus) (currentTestcase : Option ℕ)
  | cases (submission : ℕ) (cases : List JudgeCaseIn) (caseTotal casePassed currentTestcase : ℕ)
  | finished (submission : ℕ) (status : SubmissionStatus) (result : Option SubmissionResult)
      (points timeUsed : ℚ) (memoryUsed : ℤ) (caseTotal casePassed : ℕ)
  | failed (submission : ℕ) (status : SubmissionStatus) (result : SubmissionResult)
      (errorMessage : String)
  /-- The end of a job at its attempt limit. -/
  | exhausted (submission : ℕ) (status : SubmissionStatus) (result : SubmissionResult) (points : ℚ)
      (errorMessage : String)

/-- The submission to whose group an event is published. -/
def SubmissionEvent.submission : SubmissionEvent → ℕ
  | status submission _ _ => submission
  | cases submission _ _ _ _ => submission
  | finished submission _ _ _ _ _ _ _ => submission
  | failed submission _ _ _ => submission
  | exhausted submission _ _ _ _ => submission

/-- The event of one round of the loop of `expire_stale_jobs`. -/
def Judging.expireEvent (s : Judging) : SubmissionEvent :=
  if s.job.maxAttempts ≤ s.job.attempts then
    .exhausted s.job.submission .error .IE 0 "Judge lease expired after maximum attempts."
  else .status s.job.submission .queued (some 0)

/-- The events of `expire_stale_jobs`. -/
def Database.expireEvents (now : Time) (db : Database) : List SubmissionEvent :=
  (JudgeGatewayService.staleJobs now db).filterMap fun id =>
    (db.judging? id).map Judging.expireEvent

namespace Judging

/-- The event of `start`, unless the job runs already. -/
def startEvents (s : Judging) : List SubmissionEvent :=
  if s.job.status = .running then [] else [.status s.submission.id .judging (some 0)]

/-- The event of `record_cases`. -/
def casesEvents (P : Python) (cases : List JudgeCaseIn) (s : Judging) : List SubmissionEvent :=
  match cases.foldlM (JudgeResultService.recordCase P s.job.manifestCases)
      (s.testCases, s.submission.currentTestcase) with
  | .error _ => []
  | .ok (testCases, maxCase) =>
      let submission :=
        JudgeResultService.recordedSubmission s.job.manifestCases testCases maxCase s.submission
      [.cases submission.id cases submission.caseTotal submission.casePassed maxCase]

/-- The event of `finish`, unless the job is finished already. -/
def finishEvents (P : Python) (s : Judging) : List SubmissionEvent :=
  if s.job.status = .succeeded then []
  else
    match JudgeResultService.outcome P s with
    | .error _ => []
    | .ok submission =>
        [.finished submission.id submission.status submission.result submission.points
          submission.timeUsed submission.memoryUsed submission.caseTotal submission.casePassed]

/-- The event of `fail`, unless the job has failed already. -/
def failEvents (result errorMessage : String) (s : Judging) : List SubmissionEvent :=
  if s.job.status = .failed then []
  else [.failed s.submission.id .error (JudgeResultService.failResult result) errorMessage]

end Judging

/-- The events that a successful call publishes. -/
def Op.events (P : Python) (now : Time) (db : Database) : Op → List SubmissionEvent
  | advance _ => []
  | createSubmission _ => [.status db.submissions.nextKey .queued none]
  | claimJob _ _ _ => db.expireEvents now
  | start _ job => (db.judging? job).elim [] Judging.startEvents
  | recordCases _ job cases => (db.judging? job).elim [] (Judging.casesEvents P cases)
  | finish _ job _ => (db.judging? job).elim [] (Judging.finishEvents P)
  | fail _ job result errorMessage =>
      (db.judging? job).elim [] (Judging.failEvents result errorMessage)
  | heartbeat _ => []
  | expireStaleJobs => db.expireEvents now
  | rejudgeSubmission submission _ => [.status submission .queued none]

namespace World

/-- The world after a call that does not raise. -/
def step? (P : Python) (world : World) (op : Op) : Option World :=
  match op.perform P world.now world.db with
  | .ok db => some { db, now := world.now + op.elapsed }
  | .error _ => none

theorem exec_step? (P : Python) : Noninterference.exec (step? P) = step P := by
  funext world op
  unfold Noninterference.exec step? step
  cases op.perform P world.now world.db <;> rfl

theorem run_step? (P : Python) (world : World) (ops : List Op) :
    Noninterference.run (step? P) world ops = run P world ops := by
  unfold Noninterference.run run
  rw [exec_step?]

/-- The events that a call publishes to the group of submission `id`.  They are sent when
the transaction commits, so a call that raises publishes nothing. -/
def published (P : Python) (id : ℕ) (world : World) (op : Op) : List SubmissionEvent :=
  match op.perform P world.now world.db with
  | .ok _ => (op.events P world.now world.db).filter fun event => event.submission = id
  | .error _ => []

end World

/-! ## Permissions -/

/-- What decides who sees a submission, apart from its owner. -/
structure SubmissionSite where
  isPublic : ℕ → Bool
  shareToken : ℕ → Option ℕ
  problem : ℕ → ProblemRow
  languageName : String → String

namespace SubmissionService

variable (site : SubmissionSite) (user : RequestUser) (submission : Submission)

def isProblemMaintainer : Bool :=
  match user.pk? with
  | none => false
  | some pk =>
      (site.problem submission.problem).authors.contains pk ||
        (site.problem submission.problem).curators.contains pk

/-- Evaluate whether a user can view submission metadata. -/
def canViewSubmission : Bool :=
  if site.isPublic submission.id then true
  else if !user.isAuthenticated then false
  else if user.isStaff || user.pk? = some submission.user then true
  else isProblemMaintainer site user submission

/-- Evaluate whether a user can see source, cases, and error detail. -/
def canViewSubmissionPrivate : Bool :=
  if !user.isAuthenticated then false
  else if user.isStaff || user.pk? = some submission.user then true
  else isProblemMaintainer site user submission

end SubmissionService

/-! ## Details over REST -/

/-- Detailed submission response. -/
structure SubmissionDetailOut where
  id : ℕ
  userId : ℕ
  problemCode : String
  language : String
  status : SubmissionStatus
  result : Option SubmissionResult
  points : ℚ
  timeUsed : ℚ
  memoryUsed : ℤ
  caseTotal : ℕ
  casePassed : ℕ
  currentTestcase : ℕ
  mode : SubmissionMode
  isPublic : Bool
  errorMessage : String
  judgedAt : Option Time
  createdAt : Time
  deriving DecidableEq

/-- The errors of the views of a submission. -/
inductive SubmissionViewError
  | notFound (message : String)
  | forbidden (message : String)
  deriving DecidableEq

/-- Serialize a submission, masking source-bearing error text for public readers. -/
def submissionDetailOut (site : SubmissionSite) (includePrivate : Bool) (submission : Submission) :
    SubmissionDetailOut where
  id := submission.id
  userId := submission.user
  problemCode := (site.problem submission.problem).code
  language := site.languageName submission.language
  status := submission.status
  result := submission.result
  points := submission.points
  timeUsed := submission.timeUsed
  memoryUsed := submission.memoryUsed
  caseTotal := submission.caseTotal
  casePassed := submission.casePassed
  currentTestcase := submission.currentTestcase
  mode := submission.mode
  isPublic := site.isPublic submission.id
  errorMessage := if includePrivate then submission.errorMessage else ""
  judgedAt := submission.judgedAt
  createdAt := submission.createdAt

/-- Retrieve detailed information about one submission. -/
def getSubmissionDetail (site : SubmissionSite) (user : RequestUser) (id : ℕ) (db : Database) :
    Except SubmissionViewError SubmissionDetailOut :=
  match db.submissions.get? id with
  | none => .error (.notFound ("Submission " ++ toString id ++ " was not found."))
  | some submission =>
      if ¬ SubmissionService.canViewSubmission site user submission then
        .error (.forbidden "You are not allowed to view this submission.")
      else
        .ok (submissionDetailOut site
          (SubmissionService.canViewSubmissionPrivate site user submission) submission)

/-- Return metadata for a submission share token.  A text that is no UUID gives no
`token`. -/
def getSharedSubmission (site : SubmissionSite) (token : Option ℕ) (db : Database) :
    Except SubmissionViewError SubmissionDetailOut :=
  match token.bind fun parsed =>
      db.submissions.rows.find? fun submission => site.shareToken submission.id = some parsed with
  | none => .error (.notFound "Shared submission not found.")
  | some submission => .ok (submissionDetailOut site false submission)

/-! ## The WebSocket -/

namespace SubmissionConsumer

/-- `connect`, with its close codes. -/
def connect (site : SubmissionSite) (user : RequestUser) (id : ℕ) (db : Database) :
    Except ℕ Unit :=
  if !user.isAuthenticated then .error 4401
  else if (db.submissions.get? id).any (SubmissionService.canViewSubmission site user) then .ok ()
  else .error 4403

/-- The messages of a client that connects to the feed of submission `id` and stays: the
events of the group are forwarded as they are. -/
def messages (P : Python) (site : SubmissionSite) (user : RequestUser) (id : ℕ) (world : World)
    (ops : List Op) : List SubmissionEvent :=
  match connect site user id world.db with
  | .error _ => []
  | .ok () => Noninterference.transcript (World.step? P) (World.published P id) world ops

end SubmissionConsumer

end JudgeLoom
