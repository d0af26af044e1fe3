import JudgeLoom.Judge.World

/-!
# Shadow replays

`ShadowJobService`: staff replay a submission as a shadow job, which a judge claims and
reports on like any other job.  A replay keeps its reports in one column,
`case_results`, and computes its result from that column alone; it writes nothing that
the judging services read.

`ReplayWorld` puts the replays next to the judging services, under one clock.  A
`ShadowHistory` follows the batches that a replay received since its last claim, and
`ShadowHistory.kept_run` says what becomes of them: the last batch overwrites the
others.
-/

namespace JudgeLoom

/-- A non-scoring replay of a submission, optionally pinned to one judge. -/
structure ShadowJob where
  id : ℕ
  submission : ℕ
  package : Option ProblemPackage
  language : String
  targetJudge : Option ℕ := none
  status : JudgeJobStatus := .queued
  priority : ℤ := 0
  claimedBy : Option ℕ := none
  leaseExpiresAt : Option Time := none
  attempts : ℕ := 0
  maxAttempts : ℕ := 3
  config : JobConfig
  caseResults : List JudgeCaseIn := []
  result : String := ""
  totalPoints : ℚ := 0
  caseTotal : ℕ := 0
  casePassed : ℕ := 0
  errorMessage : String := ""
  claimedAt : Option Time := none
  startedAt : Option Time := none
  finishedAt : Option Time := none
  createdAt : Time

/-- The replays. -/
abbrev ShadowJobs := Table ShadowJob ShadowJob.id

/-- What a judge sends to finish a replay. -/
structure JudgeFinishIn where
  result : Option String := none
  errorMessage : String := ""

namespace ShadowJob

/-! ## What the service writes to a replay -/

/-- The filter of the jobs that `claim_job` requeues. -/
def stale (now : Time) (job : ShadowJob) : Bool :=
  job.status.leased && job.leaseExpiresAt.elim false fun expiry => expiry < now

def requeue (job : ShadowJob) : ShadowJob :=
  { job with
    status := .queued
    claimedBy := none
    claimedAt := none
    startedAt := none
    leaseExpiresAt := none
    errorMessage := "Shadow lease expired; job requeued." }

/-- The filter of `claim_job`. -/
def claimable (judge : ℕ) (languages : List String) (job : ShadowJob) : Bool :=
  job.status = .queued && languages.contains job.language &&
    job.targetJudge.all fun target => target = judge

/-- `order_by("-priority", "created_at")`, strictly. -/
def ahead (first second : ShadowJob) : Bool :=
  second.priority < first.priority ||
    (first.priority = second.priority && first.createdAt < second.createdAt)

def claim (judge : ℕ) (now : Time) (job : ShadowJob) : ShadowJob :=
  { job with
    status := .claimed
    claimedBy := some judge
    claimedAt := some now
    attempts := job.attempts + 1
    leaseExpiresAt := some (now + leaseSeconds) }

def start (now : Time) (job : ShadowJob) : ShadowJob :=
  { job with
    status := .running
    startedAt := some (job.startedAt.getD now)
    leaseExpiresAt := some (now + leaseSeconds) }

/-- The number of reports with the code `AC`. -/
def accepted (cases : List JudgeCaseIn) : ℕ :=
  cases.countP fun case => case.status = SubmissionResult.AC.value

/-- The batch takes the place of the one before. -/
def record (now : Time) (cases : List JudgeCaseIn) (job : ShadowJob) : ShadowJob :=
  { job with
    status := .running
    startedAt := some (job.startedAt.getD now)
    caseResults := cases
    caseTotal := cases.length
    casePassed := accepted cases
    leaseExpiresAt := some (now + leaseSeconds) }

/-- The first code that is not `AC`; without reports, the result that the judge sends. -/
def verdict (cases : List JudgeCaseIn) (payload : JudgeFinishIn) : String :=
  if cases = [] then
    match payload.result with
    | none => SubmissionResult.IE.value
    | some result => if result = "" then SubmissionResult.IE.value else result
  else
    ((cases.map JudgeCaseIn.status).find? fun status => status ≠ SubmissionResult.AC.value).getD
      SubmissionResult.AC.value

def succeed (A : FloatArith) (now : Time) (payload : JudgeFinishIn) (job : ShadowJob) :
    ShadowJob :=
  { job with
    status := .succeeded
    result := verdict job.caseResults payload
    totalPoints := A.sum (job.caseResults.map JudgeCaseIn.points)
    caseTotal := job.caseResults.length
    casePassed := accepted job.caseResults
    errorMessage := payload.errorMessage
    finishedAt := some now
    leaseExpiresAt := none }

def fail (now : Time) (result : SubmissionResult) (errorMessage : String) (job : ShadowJob) :
    ShadowJob :=
  { job with
    status := .failed
    result := result.value
    errorMessage
    finishedAt := some now
    leaseExpiresAt := none }

end ShadowJob

namespace ShadowJobService

/-- The configuration of a replay: that of the submission's job, or the limits of the
problem if there is none. -/
def shadowConfig (context : ProblemContext) (submission : Submission) (job : Option JudgeJob) :
    JobConfig :=
  match job with
  | some job => job.config
  | none =>
      { timeLimit := context.problem.timeLimit
        memoryLimit := context.problem.memoryLimit
        shortCircuit := false
        partialScore := false
        mode := submission.mode
        customInput := submission.customInput
        expectedOutput := submission.customExpectedOutput }

/-- Queue a replay of a submission. -/
def createForSubmission (now : Time) (id : ℕ) (context : ProblemContext) (targetJudge : Option ℕ)
    (db : Database) (shadows : ShadowJobs) : Except ServiceError ShadowJobs :=
  match db.submissions.get? id with
  | none => .error .doesNotExist
  | some submission =>
      let job := db.jobOf? id
      let package := job.elim context.activePackage JudgeJob.package
      if package.isNone ∧ submission.mode ≠ .run then .error (.python .valueError)
      else
        .ok (shadows.save
          { id := shadows.nextKey
            submission := id
            package
            language := submission.language
            targetJudge
            config := shadowConfig context submission job
            createdAt := now })

/-- `.order_by(…).first()`.  The order leaves ties open: `tie` says which of the
tied jobs the database returns. -/
def firstJob (tie : ℕ) (eligible : List ShadowJob) : Option ShadowJob :=
  let tied := eligible.filter fun job => eligible.all fun other => !other.ahead job
  tied[tie % tied.length]?

/-- Requeue the replays whose lease is over and claim one for a judge. -/
def claimJob (now : Time) (judge : ℕ) (languages : List String) (tie : ℕ)
    (shadows : ShadowJobs) : Option ShadowJob × ShadowJobs :=
  let shadows := shadows.updateWhere (ShadowJob.stale now) ShadowJob.requeue
  match firstJob tie (shadows.rows.filter (ShadowJob.claimable judge languages)) with
  | none => (none, shadows)
  | some job =>
      let job := job.claim judge now
      (some job, shadows.save job)

/-- The lease of the replay is missing or over. -/
def leaseOver (now : Time) (job : ShadowJob) : Bool :=
  job.leaseExpiresAt.elim true fun expiry => expiry ≤ now

def assertOwned (now : Time) (judge : ℕ) (job : ShadowJob) : Except ServiceError Unit :=
  if job.claimedBy ≠ some judge then
    .error (.permissionDenied "This shadow job is claimed by another judge.")
  else if leaseOver now job then .error (.judgeJobConflict "The shadow job lease has expired.")
  else if ¬ job.status.leased then .error (.judgeJobConflict "The shadow job is not active.")
  else .ok ()

/-- A callback: lock the replay, check who calls, and save what `write` makes of it. -/
def callback (now : Time) (judge id : ℕ) (write : ShadowJob → Except ServiceError ShadowJob)
    (shadows : ShadowJobs) : Except ServiceError ShadowJobs :=
  match shadows.get? id with
  | none => .error .doesNotExist
  | some locked => do
      assertOwned now judge locked
      let written ← write locked
      .ok (shadows.save written)

def start (now : Time) (judge id : ℕ) (shadows : ShadowJobs) : Except ServiceError ShadowJobs :=
  callback now judge id (fun locked => .ok (locked.start now)) shadows

/-- The texts of a report that the JSON column holds have no NUL character. -/
def storableCase (case : JudgeCaseIn) : Bool :=
  storableText case.status && storableText case.feedback && storableText case.output

def recordCases (now : Time) (judge id : ℕ) (cases : List JudgeCaseIn) (shadows : ShadowJobs) :
    Except ServiceError ShadowJobs :=
  callback now judge id
    (fun locked =>
      if cases.all storableCase then .ok (locked.record now cases) else .error .database)
    shadows

/-- Finish a replay.  Its column for the result holds eight characters. -/
def finish (A : FloatArith) (now : Time) (judge id : ℕ) (payload : JudgeFinishIn)
    (shadows : ShadowJobs) : Except ServiceError ShadowJobs :=
  callback now judge id
    (fun locked =>
      let finished := locked.succeed A now payload
      if finished.result.length ≤ 8 ∧ storableText finished.result ∧
          storableText finished.errorMessage then .ok finished
      else .error .database)
    shadows

/-- Finish a replay as a compile or internal error. -/
def fail (now : Time) (judge id : ℕ) (result errorMessage : String) (shadows : ShadowJobs) :
    Except ServiceError ShadowJobs :=
  callback now judge id
    (fun locked =>
      if storableText errorMessage then
        .ok (locked.fail now (JudgeResultService.failResult result) errorMessage)
      else .error .database)
    shadows

end ShadowJobService

/-! ## Runs -/

/-- A call of the replay service. -/
inductive ShadowOp
  | createForSubmission (submission : ℕ) (context : ProblemContext) (targetJudge : Option ℕ)
  | claimJob (judge : ℕ) (languages : List String) (tie : ℕ)
  | start (judge job : ℕ)
  | recordCases (judge job : ℕ) (cases : List JudgeCaseIn)
  | finish (judge job : ℕ) (payload : JudgeFinishIn)
  | fail (judge job : ℕ) (result errorMessage : String)

/-- The replays after a call at time `now`, or the exception it raises. -/
def ShadowOp.perform (A : FloatArith) (now : Time) (db : Database) (shadows : ShadowJobs) :
    ShadowOp → Except ServiceError ShadowJobs
  | createForSubmission submission context targetJudge =>
      ShadowJobService.createForSubmission now submission context targetJudge db shadows
  | claimJob judge languages tie =>
      .ok (ShadowJobService.claimJob now judge languages tie shadows).2
  | start judge job => ShadowJobService.start now judge job shadows
  | recordCases judge job cases => ShadowJobService.recordCases now judge job cases shadows
  | finish judge job payload => ShadowJobService.finish A now judge job payload shadows
  | fail judge job result errorMessage =>
      ShadowJobService.fail now judge job result errorMessage shadows

/-- The judging services with the replays. -/
structure ReplayWorld extends World where
  shadows : ShadowJobs := ∅

/-- A call of a judging service, an advance of the clock, or a call of the replay service. -/
inductive ReplayOp
  | judging (op : Op)
  | shadow (op : ShadowOp)

namespace ReplayWorld

/-- The world after one operation. -/
def step (P : Python) (world : ReplayWorld) : ReplayOp → ReplayWorld
  | .judging op => { world with toWorld := world.toWorld.step P op }
  | .shadow op =>
      match op.perform P.arith world.now world.db world.shadows with
      | .ok shadows => { world with shadows }
      | .error _ => world

/-- The world after a sequence of operations. -/
def run (P : Python) (world : ReplayWorld) (ops : List ReplayOp) : ReplayWorld :=
  ops.foldl (step P) world

end ReplayWorld

/-- The call of a judging service, if the operation is one. -/
def ReplayOp.judging? : ReplayOp → Option Op
  | judging op => some op
  | shadow _ => none

namespace ReplayWorld

variable {P : Python}

@[simp] theorem toWorld_step (world : ReplayWorld) (op : ReplayOp) :
    (world.step P op).toWorld = op.judging?.elim world.toWorld (world.toWorld.step P) := by
  cases op with
  | judging op => rfl
  | shadow op =>
      unfold step
      dsimp only
      split <;> rfl

theorem run_append_singleton (world : ReplayWorld) (ops : List ReplayOp) (op : ReplayOp) :
    world.run P (ops ++ [op]) = (world.run P ops).step P op :=
  List.foldl_append

/-- The replays write nothing that the judging services read. -/
theorem toWorld_run (world : ReplayWorld) (ops : List ReplayOp) :
    (world.run P ops).toWorld = world.toWorld.run P (ops.filterMap ReplayOp.judging?) := by
  induction ops generalizing world with
  | nil => rfl
  | cons op ops ih =>
      change ((world.step P op).run P ops).toWorld = _
      rw [ih, toWorld_step, List.filterMap_cons]
      cases op.judging? <;> rfl

end ReplayWorld

/-! ## The batches since the last claim -/

namespace ShadowJobService

variable {now : Time} {judge id : ℕ} {shadows shadows' : ShadowJobs}

theorem callback_eq_ok {write : ShadowJob → Except ServiceError ShadowJob}
    (h : callback now judge id write shadows = .ok shadows') :
    ∃ locked written, shadows.get? id = some locked ∧ assertOwned now judge locked = .ok () ∧
      write locked = .ok written ∧ shadows' = shadows.save written := by
  unfold callback at h
  cases hlocked : shadows.get? id with
  | none =>
      rw [hlocked] at h
      cases h
  | some locked =>
      rw [hlocked] at h
      obtain ⟨_, howned, h⟩ := Except.bind_eq_ok.mp h
      obtain ⟨written, hwritten, h⟩ := Except.bind_eq_ok.mp h
      cases h
      exact ⟨locked, written, rfl, howned, hwritten, rfl⟩

theorem recordCases_eq_ok {cases : List JudgeCaseIn}
    (h : recordCases now judge id cases shadows = .ok shadows') :
    ∃ locked, shadows.get? id = some locked ∧ shadows' = shadows.save (locked.record now cases) := by
  obtain ⟨locked, written, hlocked, -, hwritten, rfl⟩ := callback_eq_ok h
  split_ifs at hwritten
  cases hwritten
  exact ⟨locked, hlocked, rfl⟩

theorem finish_eq_ok {A : FloatArith} {payload : JudgeFinishIn}
    (h : finish A now judge id payload shadows = .ok shadows') :
    ∃ locked, shadows.get? id = some locked ∧ shadows' = shadows.save (locked.succeed A now payload) := by
  obtain ⟨locked, written, hlocked, -, hwritten, rfl⟩ := callback_eq_ok h
  dsimp only at hwritten
  split_ifs at hwritten
  cases hwritten
  exact ⟨locked, hlocked, rfl⟩

theorem mem_of_firstJob {tie : ℕ} {eligible : List ShadowJob} {job : ShadowJob}
    (h : firstJob tie eligible = some job) : job ∈ eligible :=
  List.mem_of_mem_filter (List.mem_of_getElem? h)

/-- A claim keeps the reports of every replay. -/
theorem caseResults_claimJob (now : Time) (judge : ℕ) (languages : List String) (tie id : ℕ)
    (shadows : ShadowJobs) :
    ((claimJob now judge languages tie shadows).2.get? id).map ShadowJob.caseResults =
      (shadows.get? id).map ShadowJob.caseResults := by
  have hrequeued := Table.map_get?_updateWhere shadows (ShadowJob.stale now) ShadowJob.requeue
    (fun _ => rfl) (g := ShadowJob.caseResults) (fun _ => rfl) id
  unfold claimJob
  dsimp only
  split
  · exact hrequeued
  · next job hjob =>
      have hmem := List.mem_of_mem_filter (mem_of_firstJob hjob)
      have hold : (shadows.updateWhere (ShadowJob.stale now) ShadowJob.requeue).get?
          (job.claim judge now).id = some job := Table.get?_key_of_mem hmem
      exact (Table.map_get?_save hold rfl id).trans hrequeued

/-- A callback keeps what it does not write. -/
theorem caseResults_callback {write : ShadowJob → Except ServiceError ShadowJob}
    (h : callback now judge id write shadows = .ok shadows')
    (hkeep : ∀ locked written, write locked = .ok written →
      written.id = locked.id ∧ written.caseResults = locked.caseResults) (other : ℕ) :
    (shadows'.get? other).map ShadowJob.caseResults =
      (shadows.get? other).map ShadowJob.caseResults := by
  obtain ⟨locked, written, hlocked, -, hwritten, rfl⟩ := callback_eq_ok h
  obtain ⟨hid, hsame⟩ := hkeep locked written hwritten
  refine Table.map_get?_save ?_ hsame other
  rw [hid, Table.key_of_get? hlocked]
  exact hlocked

theorem caseResults_createForSubmission {context : ProblemContext} {target : Option ℕ}
    {db : Database} {cases : List JudgeCaseIn} {other : ℕ}
    (h : createForSubmission now id context target db shadows = .ok shadows')
    (hcases : (shadows.get? other).map ShadowJob.caseResults = some cases) :
    (shadows'.get? other).map ShadowJob.caseResults = some cases := by
  unfold createForSubmission at h
  split at h
  · cases h
  · dsimp only at h
    split_ifs at h
    cases h
    rw [Table.get?_save, if_neg]
    · exact hcases
    · -- a stored row does not have the key of a new one
      rintro rfl
      simp at hcases

end ShadowJobService

/-- The reports of a replay change only when it records a batch. -/
theorem ShadowOp.caseResults_perform {A : FloatArith} {now : Time} {db : Database}
    {shadows shadows' : ShadowJobs} {op : ShadowOp} {id : ℕ} {cases : List JudgeCaseIn}
    (h : op.perform A now db shadows = .ok shadows')
    (hop : ∀ judge batch, op ≠ .recordCases judge id batch)
    (hcases : (shadows.get? id).map ShadowJob.caseResults = some cases) :
    (shadows'.get? id).map ShadowJob.caseResults = some cases := by
  cases op with
  | createForSubmission submission context target =>
      exact ShadowJobService.caseResults_createForSubmission h hcases
  | claimJob judge languages tie =>
      cases h
      exact (ShadowJobService.caseResults_claimJob ..).trans hcases
  | start judge job =>
      refine (ShadowJobService.caseResults_callback h ?_ id).trans hcases
      rintro locked written ⟨⟩
      exact ⟨rfl, rfl⟩
  | recordCases judge job batch =>
      obtain ⟨locked, hlocked, rfl⟩ := ShadowJobService.recordCases_eq_ok h
      have hjob : locked.id = job := Table.key_of_get? hlocked
      rw [Table.get?_save, if_neg]
      · exact hcases
      · rintro rfl
        exact hop judge batch (congrArg (ShadowOp.recordCases judge · batch) hjob.symm)
  | finish judge job payload =>
      refine (ShadowJobService.caseResults_callback h ?_ id).trans hcases
      intro locked written hwritten
      dsimp only at hwritten
      split_ifs at hwritten
      cases hwritten
      exact ⟨rfl, rfl⟩
  | fail judge job result errorMessage =>
      refine (ShadowJobService.caseResults_callback h ?_ id).trans hcases
      intro locked written hwritten
      split_ifs at hwritten
      cases hwritten
      exact ⟨rfl, rfl⟩

/-- A world with the batches that a replay received since its last claim. -/
structure ShadowHistory where
  world : ReplayWorld
  batches : List (List JudgeCaseIn) := []

namespace ShadowHistory

/-- The batches after an operation: a claim of the replay forgets them, and a successful
`record_cases` adds its own. -/
def batchesAfter (id : ℕ) (history : ShadowHistory) (op : ReplayOp) : List (List JudgeCaseIn) :=
  match op with
  | .shadow (.claimJob judge languages tie) =>
      if (ShadowJobService.claimJob history.world.now judge languages tie
          history.world.shadows).1.map ShadowJob.id = some id then []
      else history.batches
  | .shadow (.recordCases judge job cases) =>
      if job = id ∧ (ShadowJobService.recordCases history.world.now judge job cases
          history.world.shadows).isOk then history.batches ++ [cases]
      else history.batches
  | _ => history.batches

def step (P : Python) (id : ℕ) (history : ShadowHistory) (op : ReplayOp) : ShadowHistory where
  world := history.world.step P op
  batches := history.batchesAfter id op

/-- The history of replay `id` along a run. -/
def run (P : Python) (id : ℕ) (start : ReplayWorld) (ops : List ReplayOp) : ShadowHistory :=
  ops.foldl (step P id) { world := start }

/-- The replay keeps the reports of the last batch. -/
def Kept (id : ℕ) (history : ShadowHistory) : Prop :=
  ∀ cases ∈ history.batches.getLast?,
    (history.world.shadows.get? id).map ShadowJob.caseResults = some cases

variable {P : Python} {id : ℕ} {history : ShadowHistory}

theorem world_run (P : Python) (id : ℕ) (start : ReplayWorld) (ops : List ReplayOp) :
    (run P id start ops).world = start.run P ops :=
  (List.foldl_hom ShadowHistory.world fun _ _ => rfl).symm

/-- The last batch is the one that the operation recorded or the one before. -/
theorem mem_getLast?_batchesAfter {op : ShadowOp} {cases : List JudgeCaseIn}
    (h : cases ∈ (history.batchesAfter id (.shadow op)).getLast?) :
    (∃ judge shadows, op = .recordCases judge id cases ∧
        ShadowJobService.recordCases history.world.now judge id cases history.world.shadows =
          .ok shadows) ∨
      cases ∈ history.batches.getLast? ∧ ∀ judge batch, op = .recordCases judge id batch →
        ∃ error, ShadowJobService.recordCases history.world.now judge id batch
          history.world.shadows = .error error := by
  cases op with
  | claimJob judge languages tie =>
      refine Or.inr ⟨?_, fun _ _ hop => by cases hop⟩
      unfold batchesAfter at h
      dsimp only at h
      split_ifs at h
      · cases h
      · exact h
  | recordCases judge job batch =>
      unfold batchesAfter at h
      dsimp only at h
      cases hcall : ShadowJobService.recordCases history.world.now judge job batch
          history.world.shadows with
      | error error =>
          rw [hcall, if_neg (by simp [Except.isOk, Except.toBool])] at h
          refine Or.inr ⟨h, ?_⟩
          rintro _ _ ⟨⟩
          exact ⟨error, hcall⟩
      | ok shadows =>
          rw [hcall] at h
          by_cases hjob : job = id
          · subst hjob
            rw [if_pos ⟨rfl, rfl⟩, List.getLast?_append, List.getLast?_singleton] at h
            obtain rfl : batch = cases := Option.some.inj h
            exact Or.inl ⟨judge, shadows, rfl, hcall⟩
          · rw [if_neg fun hboth => hjob hboth.1] at h
            refine Or.inr ⟨h, ?_⟩
            rintro _ _ ⟨⟩
            exact absurd rfl hjob
  | _ => exact Or.inr ⟨h, fun _ _ hop => by cases hop⟩

theorem Kept.step (h : history.Kept id) (op : ReplayOp) : (history.step P id op).Kept id := by
  intro cases hcases
  change cases ∈ (history.batchesAfter id op).getLast? at hcases
  change ((history.world.step P op).shadows.get? id).map _ = _
  cases op with
  | judging op => exact h cases hcases
  | shadow op =>
      unfold ReplayWorld.step
      dsimp only
      rcases mem_getLast?_batchesAfter hcases with ⟨judge, shadows, rfl, hcall⟩ | ⟨hlast, hfailed⟩
      · have hperform : (ShadowOp.recordCases judge id cases).perform P.arith history.world.now
            history.world.db history.world.shadows = .ok shadows := hcall
        obtain ⟨locked, hlocked, rfl⟩ := ShadowJobService.recordCases_eq_ok hcall
        have hid : id = (locked.record history.world.now cases).id :=
          (Table.key_of_get? hlocked).symm
        rw [hperform]
        dsimp only
        rw [Table.get?_save, if_pos hid]
        rfl
      · split
        · next shadows hperform =>
            refine ShadowOp.caseResults_perform hperform ?_ (h cases hlast)
            rintro judge batch rfl
            obtain ⟨error, herror⟩ := hfailed judge batch rfl
            change ShadowJobService.recordCases _ judge id batch _ = .ok shadows at hperform
            rw [herror] at hperform
            cases hperform
        · exact h cases hlast

theorem kept_run (P : Python) (id : ℕ) (start : ReplayWorld) (ops : List ReplayOp) :
    (run P id start ops).Kept id :=
  (Run.foldl (step P id) { world := start } ops).invariant (P := Kept id) (by rintro _ ⟨⟩)
    fun _ op _ h hnext => hnext ▸ h.step op

end ShadowHistory

end JudgeLoom
