import JudgeLoom.Judge.Transitions
import JudgeLoom.Submissions.Events

/-!
# Judging without the private texts

The private texts are the feedback and the output of a case and the error message of a
submission, which its job keeps a copy of.  `Database.publicPart` and `Op.publicPart`
blank them.  The scores of the participations are left out as well, since no judging
operation reads them.

The texts do not decide anything but whether a row can be stored: what a call accepts
with them it accepts without them, with the same effect on the public part
(`perform_publicPart`).
-/

namespace JudgeLoom

/-! ## Public parts -/

def Submission.publicPart (submission : Submission) : Submission :=
  { submission with errorMessage := "" }

@[simp] theorem Submission.id_publicPart (submission : Submission) :
    submission.publicPart.id = submission.id :=
  rfl

def JudgeJob.publicPart (job : JudgeJob) : JudgeJob := { job with lastError := "" }

@[simp] theorem JudgeJob.id_publicPart (job : JudgeJob) : job.publicPart.id = job.id := rfl

theorem JudgeJob.record_publicPart (now : Time) (job : JudgeJob) :
    job.publicPart.record now = (job.record now).publicPart := by
  unfold record publicPart
  dsimp only
  split <;> rfl

def SubmissionTestCase.publicPart (row : SubmissionTestCase) : SubmissionTestCase :=
  { row with
    feedback := ""
    output := "" }

@[simp] theorem SubmissionTestCase.caseNumber_publicPart (row : SubmissionTestCase) :
    row.publicPart.caseNumber = row.caseNumber :=
  rfl

def JudgeCaseIn.publicPart (report : JudgeCaseIn) : JudgeCaseIn :=
  { report with
    feedback := ""
    output := "" }

def TestCases.publicPart (testCases : TestCases) : TestCases :=
  testCases.map SubmissionTestCase.publicPart SubmissionTestCase.caseNumber_publicPart

@[simp] theorem TestCases.publicPart_publicPart (testCases : TestCases) :
    TestCases.publicPart (TestCases.publicPart testCases) = TestCases.publicPart testCases :=
  Table.map_map_of_idempotent _ _ fun _ => rfl

def Judging.publicPart (s : Judging) : Judging where
  job := s.job.publicPart
  submission := s.submission.publicPart
  testCases := TestCases.publicPart s.testCases

def Database.publicPart (db : Database) : Database where
  submissions := db.submissions.map Submission.publicPart Submission.id_publicPart
  jobs := db.jobs.map JudgeJob.publicPart JudgeJob.id_publicPart
  testCases id := TestCases.publicPart (db.testCases id)
  participations := db.participations.map (fun participation => participation.withScores {})
    fun participation => participation.id_withScores {}

def World.publicPart (world : World) : World where
  db := world.db.publicPart
  now := world.now

/-- A call without the texts that it carries. -/
def Op.publicPart : Op → Op
  | recordCases judge job cases => recordCases judge job (cases.map JudgeCaseIn.publicPart)
  | finish judge job _ => finish judge job ""
  | fail judge job result _ => fail judge job result ""
  | op => op

/-! ## Tables -/

namespace Database

variable {db : Database} {id : ℕ}

@[simp] theorem publicPart_publicPart (db : Database) : db.publicPart.publicPart = db.publicPart := by
  unfold publicPart
  dsimp only
  congr 1
  · exact Table.map_map_of_idempotent _ _ fun _ => rfl
  · exact Table.map_map_of_idempotent _ _ fun _ => rfl
  · funext submission
    exact TestCases.publicPart_publicPart _
  · exact Table.map_map_of_idempotent _ _ fun _ => rfl

theorem publicPart_store (db : Database) (s : Judging) :
    (db.store s).publicPart = db.publicPart.store s.publicPart := by
  unfold publicPart store
  dsimp only
  congr 1
  · exact Table.map_save _ _ _ _
  · exact Table.map_save _ _ _ _
  · funext submission
    by_cases hsubmission : submission = s.submission.id
    · subst hsubmission
      rw [Function.update_self]
      exact (Function.update_self (f := fun id => TestCases.publicPart (db.testCases id)) _ _).symm
    · rw [Function.update_of_ne hsubmission]
      exact (Function.update_of_ne (f := fun id => TestCases.publicPart (db.testCases id))
        hsubmission _).symm

theorem judging?_publicPart (db : Database) (id : ℕ) :
    db.publicPart.judging? id = (db.judging? id).map Judging.publicPart := by
  unfold judging? publicPart
  dsimp only
  rw [Table.get?_map]
  cases db.jobs.get? id with
  | none => rfl
  | some job =>
      rw [Option.map_some, Option.bind_some, Option.bind_some, Table.get?_map, Option.map_map,
        Option.map_map]
      rfl

/-- The contest scores are no public part. -/
theorem publicPart_refreshContestScore (A : FloatArith) (submission : Submission) (db : Database) :
    (db.refreshContestScore A submission).publicPart = db.publicPart := by
  unfold refreshContestScore
  split
  · rfl
  · unfold publicPart
    dsimp only
    congr 1
    refine Table.ext_get? fun k => ?_
    rw [Table.get?_map, Table.get?_map, Table.get?_modify]
    split_ifs
    · rw [Option.map_map]
      congr 1
      funext participation
      obtain ⟨scores, hscores⟩ : ∃ scores, recalculateParticipation A participation
          (submissionView db.submissions.rows participation) = participation.withScores scores :=
        recalculateParticipation_eq_withScores
      rw [Function.comp_apply, hscores]
      rfl
    · rfl

end Database

/-! ## Callbacks -/

namespace JudgeResultService

variable {P : Python} {now : Time} {judge id : ℕ} {db db' : Database}

theorem owned_publicPart {s : Judging} (h : s.job.Owned now judge) :
    s.publicPart.job.Owned now judge :=
  ⟨h.claimedBy, h.lease, h.leased⟩

theorem lockJob_publicPart {s : Judging} (h : db.judging? id = some s) :
    db.publicPart.lockJob id = .ok s.publicPart := by
  rw [Database.lockJob, Database.judging?_publicPart, h]
  rfl

theorem start_publicPart (h : start now judge id db = .ok db') :
    start now judge id db.publicPart = .ok db'.publicPart := by
  obtain ⟨s, hs, ⟨hrunning, hclaimedBy, rfl⟩ | ⟨howned, hclaimed, rfl⟩⟩ := start_eq_ok h
  all_goals rw [start, lockJob_publicPart hs, Database.publicPart_store]
  · have hrunning' : s.publicPart.job.status = .running := hrunning
    have hclaimedBy' : s.publicPart.job.claimedBy = some judge := hclaimedBy
    rw [Except.ok_bind, if_pos hrunning', if_neg (not_not.mpr hclaimedBy')]
    rfl
  · have hclaimed' : s.publicPart.job.status = .claimed := hclaimed
    rw [Except.ok_bind, if_neg (by rw [hclaimed']; decide),
      assertOwned_eq_ok.mpr (owned_publicPart howned), Except.ok_bind,
      if_neg (not_not.mpr hclaimed')]
    rfl

theorem storable_publicPart {row : SubmissionTestCase} (h : row.storable = true) :
    row.publicPart.storable = true := by
  unfold SubmissionTestCase.storable at h ⊢
  simp only [Bool.and_eq_true] at h ⊢
  exact ⟨⟨h.1.1, rfl⟩, rfl⟩

/-- A report that is stored with its texts is stored without them. -/
theorem recordCase_publicPart {manifestCases : List Json} {recorded recorded' : TestCases × ℕ}
    {report : JudgeCaseIn} (h : recordCase P manifestCases recorded report = .ok recorded') :
    recordCase P manifestCases (TestCases.publicPart recorded.1, recorded.2) report.publicPart =
      .ok (TestCases.publicPart recorded'.1, recorded'.2) := by
  unfold recordCase at h ⊢
  change (if manifestCases ≠ [] ∧
      ¬ (1 ≤ report.caseNumber ∧ report.caseNumber ≤ manifestCases.length) then _
    else if report.caseNumber ≤ 0 then _ else _) = _
  split_ifs at h ⊢
  · cases h
    rfl
  · dsimp only at h ⊢
    split_ifs at h with hstorable
    cases h
    have hrow : reportRow P manifestCases report.publicPart =
      (reportRow P manifestCases report).publicPart := rfl
    rw [hrow, if_pos (storable_publicPart hstorable)]
    exact congrArg (fun testCases => Except.ok (testCases, _)) (Table.map_save ..).symm

theorem foldlM_recordCase_publicPart {manifestCases : List Json} {cases : List JudgeCaseIn} :
    ∀ {recorded recorded' : TestCases × ℕ},
      cases.foldlM (recordCase P manifestCases) recorded = .ok recorded' →
        (cases.map JudgeCaseIn.publicPart).foldlM (recordCase P manifestCases)
            (TestCases.publicPart recorded.1, recorded.2) =
          .ok (TestCases.publicPart recorded'.1, recorded'.2) := by
  induction cases with
  | nil =>
      intro recorded recorded' h
      cases h
      rfl
  | cons report rest ih =>
      intro recorded recorded' h
      rw [List.foldlM_cons] at h
      obtain ⟨middle, hfirst, hrest⟩ := Except.bind_eq_ok.mp h
      rw [List.map_cons, List.foldlM_cons, recordCase_publicPart hfirst]
      exact ih hrest

theorem recordedSubmission_publicPart (manifestCases : List Json) (testCases : TestCases)
    (maxCase : ℕ) (submission : Submission) :
    recordedSubmission manifestCases (TestCases.publicPart testCases) maxCase
        submission.publicPart =
      (recordedSubmission manifestCases testCases maxCase submission).publicPart := by
  have hrows : (TestCases.publicPart testCases).rows =
    testCases.rows.map SubmissionTestCase.publicPart := rfl
  unfold recordedSubmission
  dsimp only
  rw [hrows, List.length_map, List.filter_map, List.length_map]
  rfl

/-- The verdict does not depend on the texts. -/
theorem outcome_publicPart (P : Python) (s : Judging) :
    outcome P s.publicPart = (outcome P s).map Submission.publicPart := by
  have hrows : (TestCases.publicPart s.testCases).rows =
    s.testCases.rows.map SubmissionTestCase.publicPart := rfl
  have hpayloads : (TestCases.publicPart s.testCases).rows.map casePayload =
      s.testCases.rows.map casePayload := by
    rw [hrows, List.map_map]
    rfl
  have hnumbers : (TestCases.publicPart s.testCases).rows.map SubmissionTestCase.caseNumber =
      s.testCases.rows.map SubmissionTestCase.caseNumber := by
    rw [hrows, List.map_map]
    rfl
  have hmode : s.publicPart.submission.mode = s.submission.mode := rfl
  have hpackage : s.publicPart.job.package = s.job.package := rfl
  rw [outcome, outcome, hmode, hpackage]
  cases s.submission.mode with
  | run =>
      change Except.ok (runOutcome (TestCases.publicPart s.testCases) s.submission.publicPart) =
        .ok (runOutcome s.testCases s.submission).publicPart
      unfold runOutcome
      rw [hrows, List.getLast?_map]
      cases s.testCases.rows.getLast? <;> rfl
  | submit =>
      cases s.job.package with
      | none => rfl
      | some package =>
          change scoredOutcome P package (TestCases.publicPart s.testCases) s.submission.publicPart =
            (scoredOutcome P package s.testCases s.submission).map Submission.publicPart
          unfold scoredOutcome
          rw [hpayloads, hnumbers]
          cases ScoringService.score P package (s.testCases.rows.map casePayload) <;> rfl

theorem recordCases_publicPart {cases : List JudgeCaseIn}
    (h : recordCases P now judge id cases db = .ok db') :
    recordCases P now judge id (cases.map JudgeCaseIn.publicPart) db.publicPart =
      .ok db'.publicPart := by
  obtain ⟨s, hs, howned, testCases, maxCase, hrecorded, rfl⟩ := recordCases_eq_ok h
  have hmanifest : s.publicPart.job.manifestCases = s.job.manifestCases := rfl
  rw [recordCases, lockJob_publicPart hs, Database.publicPart_store, Except.ok_bind,
    assertOwned_eq_ok.mpr (owned_publicPart howned), Except.ok_bind, hmanifest]
  have hrows : (cases.map JudgeCaseIn.publicPart).foldlM (recordCase P s.job.manifestCases)
      (s.publicPart.testCases, s.publicPart.submission.currentTestcase) =
        .ok (TestCases.publicPart testCases, maxCase) := foldlM_recordCase_publicPart hrecorded
  dsimp only
  rw [hrows, Except.ok_bind]
  dsimp only
  rw [Judging.publicPart, recordedSubmission_publicPart]
  dsimp only
  rw [JudgeJob.record_publicPart]
  rfl

theorem finish_publicPart {errorMessage : String} {result : Submission × Database}
    (h : finish P now judge id errorMessage db = .ok result) :
    ∃ result', finish P now judge id "" db.publicPart = .ok result' ∧
      result'.2.publicPart = result.2.publicPart := by
  obtain ⟨s, hs, ⟨hsucceeded, hclaimedBy, rfl⟩ | ⟨howned, submission, houtcome, rfl⟩⟩ :=
    finish_eq_ok h
  · have hsucceeded' : s.publicPart.job.status = .succeeded := hsucceeded
    have hclaimedBy' : s.publicPart.job.claimedBy = some judge := hclaimedBy
    rw [finish, lockJob_publicPart hs, Except.ok_bind, if_pos hsucceeded',
      if_neg (not_not.mpr hclaimedBy')]
    exact ⟨_, rfl, Database.publicPart_publicPart db⟩
  · have howned' := owned_publicPart howned
    have hunfinished : s.publicPart.job.status ≠ .succeeded := by
      intro hsucceeded
      have := howned'.leased
      rw [hsucceeded] at this
      cases this
    rw [finish, lockJob_publicPart hs, Except.ok_bind, if_neg hunfinished,
      assertOwned_eq_ok.mpr howned', Except.ok_bind, if_neg (not_not.mpr howned'.leased),
      outcome_publicPart, houtcome]
    refine ⟨_, rfl, ?_⟩
    rw [close, close, Database.publicPart_refreshContestScore,
      Database.publicPart_refreshContestScore, Database.publicPart_store,
      Database.publicPart_store, Database.publicPart_publicPart]
    simp only [Judging.publicPart, TestCases.publicPart_publicPart]
    rfl

theorem fail_publicPart {code errorMessage : String} {result : Submission × Database}
    (h : fail P now judge id code errorMessage db = .ok result) :
    ∃ result', fail P now judge id code "" db.publicPart = .ok result' ∧
      result'.2.publicPart = result.2.publicPart := by
  obtain ⟨s, hs, ⟨hfailed, hclaimedBy, rfl⟩ | ⟨howned, rfl⟩⟩ := fail_eq_ok h
  · have hfailed' : s.publicPart.job.status = .failed := hfailed
    have hclaimedBy' : s.publicPart.job.claimedBy = some judge := hclaimedBy
    rw [fail, lockJob_publicPart hs, Except.ok_bind, if_pos hfailed',
      if_neg (not_not.mpr hclaimedBy')]
    exact ⟨_, rfl, Database.publicPart_publicPart db⟩
  · have howned' := owned_publicPart howned
    have hunfailed : s.publicPart.job.status ≠ .failed := by
      intro hfailed
      have := howned'.leased
      rw [hfailed] at this
      cases this
    rw [fail, lockJob_publicPart hs, Except.ok_bind, if_neg hunfailed,
      assertOwned_eq_ok.mpr howned', Except.ok_bind, if_neg (not_not.mpr howned'.leased),
      if_neg (by decide)]
    refine ⟨_, rfl, ?_⟩
    rw [close, close, Database.publicPart_refreshContestScore,
      Database.publicPart_refreshContestScore, Database.publicPart_store,
      Database.publicPart_store, Database.publicPart_publicPart]
    simp only [Judging.publicPart, TestCases.publicPart_publicPart]
    rfl

end JudgeResultService

/-! ## Expiry, claims and heartbeats -/

namespace JudgeGatewayService

variable {now : Time} {db db' : Database}

theorem rows_jobs_publicPart (db : Database) :
    db.publicPart.jobs.rows = db.jobs.rows.map JudgeJob.publicPart := rfl

theorem staleJobs_publicPart (now : Time) (db : Database) :
    staleJobs now db.publicPart = staleJobs now db := by
  unfold staleJobs
  rw [rows_jobs_publicPart, List.filter_map, List.map_map]
  rfl

theorem expire_publicPart (now : Time) (s : Judging) :
    (s.publicPart.expire now).publicPart = (s.expire now).publicPart := by
  unfold Judging.expire Judging.publicPart
  dsimp only
  change Judging.publicPart (if s.job.maxAttempts ≤ s.job.attempts then _ else _) = _
  split <;> rfl

/-- Databases with the same public part expire a job to such databases. -/
theorem publicPart_expireJob (h : db.publicPart = db'.publicPart) (now : Time) (id : ℕ) :
    (expireJob now db id).publicPart = (expireJob now db' id).publicPart := by
  have hexpire (db : Database) : (expireJob now db id).publicPart =
      (expireJob now db.publicPart id).publicPart := by
    unfold expireJob
    rw [Database.judging?_publicPart]
    cases db.judging? id with
    | none => exact (Database.publicPart_publicPart db).symm
    | some s =>
        change (db.store (s.expire now)).publicPart =
          (db.publicPart.store (s.publicPart.expire now)).publicPart
        rw [Database.publicPart_store, Database.publicPart_store, Database.publicPart_publicPart,
          expire_publicPart]
  rw [hexpire db, hexpire db', h]

theorem publicPart_expireStaleJobs (h : db.publicPart = db'.publicPart) (now : Time) :
    (expireStaleJobs now db).2.publicPart = (expireStaleJobs now db').2.publicPart := by
  have hfold (ids : List ℕ) : ∀ {db db' : Database}, db.publicPart = db'.publicPart →
      (ids.foldl (expireJob now) db).publicPart = (ids.foldl (expireJob now) db').publicPart := by
    induction ids with
    | nil => exact id
    | cons first rest ih => exact fun h => ih (publicPart_expireJob h now first)
  have hstale : staleJobs now db = staleJobs now db' := by
    rw [← staleJobs_publicPart now db, h, staleJobs_publicPart]
  unfold expireStaleJobs
  rw [hstale]
  exact hfold _ h

theorem firstJob_map_publicPart (tie : ℕ) (eligible : List JudgeJob) :
    firstJob tie (eligible.map JudgeJob.publicPart) =
      (firstJob tie eligible).map JudgeJob.publicPart := by
  have htied : (eligible.map JudgeJob.publicPart).filter (fun job =>
      (eligible.map JudgeJob.publicPart).all fun other => !other.ahead job) =
        (eligible.filter fun job => eligible.all fun other => !other.ahead job).map
          JudgeJob.publicPart := by
    rw [List.filter_map]
    congr 1
    refine List.filter_congr fun job _ => ?_
    rw [Function.comp_apply, List.all_map]
    rfl
  unfold firstJob
  dsimp only
  rw [htied, List.length_map, List.getElem?_map]

/-- A claim, after the stale jobs are expired. -/
theorem publicPart_claimJob (h : db.publicPart = db'.publicPart) (now : Time) (judge : ℕ)
    (languages : List String) (tie : ℕ) :
    (claimJob now judge languages tie db).2.publicPart =
      (claimJob now judge languages tie db').2.publicPart := by
  have hclaim (db : Database) :
      (claimJob now judge languages tie db).2.publicPart =
        (firstJob tie ((expireStaleJobs now db).2.publicPart.jobs.rows.filter
            (JudgeJob.claimable languages))).elim (expireStaleJobs now db).2.publicPart fun job =>
          { (expireStaleJobs now db).2.publicPart with
            jobs := (expireStaleJobs now db).2.publicPart.jobs.save (job.claim judge now) } := by
    have hclaimable : ((expireStaleJobs now db).2.publicPart.jobs.rows.filter
        (JudgeJob.claimable languages)) =
          ((expireStaleJobs now db).2.jobs.rows.filter (JudgeJob.claimable languages)).map
            JudgeJob.publicPart := by
      rw [rows_jobs_publicPart, List.filter_map]
      rfl
    rw [hclaimable, firstJob_map_publicPart]
    unfold claimJob
    dsimp only
    cases firstJob tie ((expireStaleJobs now db).2.jobs.rows.filter
        (JudgeJob.claimable languages)) with
    | none => rfl
    | some job =>
        unfold Database.publicPart
        dsimp only
        rw [Table.map_save]
        rfl
  rw [hclaim db, hclaim db', publicPart_expireStaleJobs h]

theorem publicPart_heartbeat (now : Time) (judge : ℕ) (db : Database) :
    (heartbeat now judge db).publicPart = heartbeat now judge db.publicPart := by
  unfold heartbeat Database.publicPart
  dsimp only
  congr 1
  exact Table.map_updateWhere _ _ JudgeJob.id_publicPart (JudgeJob.id_extendLease now) (fun _ => rfl)
    fun _ => rfl

end JudgeGatewayService

/-! ## Creating and rejudging -/

namespace SubmissionService

variable {now : Time} {db db' : Database}

theorem get?_participations_publicPart (db : Database) (id : ℕ) :
    db.publicPart.participations.get? id =
      (db.participations.get? id).map fun participation => participation.withScores {} :=
  Table.get?_map _ _ (fun participation => participation.id_withScores {}) id

theorem nextKey_jobs_publicPart (db : Database) :
    db.publicPart.jobs.nextKey = db.jobs.nextKey :=
  Table.nextKey_map _ _ JudgeJob.id_publicPart

/-- A configuration depends on the contest of a participation, not on its scores. -/
theorem buildJobConfig_publicPart (db : Database) (context : ProblemContext)
    (package : Option ProblemPackage) (participation : Option ℕ) (mode : SubmissionMode)
    (customInput expectedOutput : String) :
    buildJobConfig context package (participation.bind db.publicPart.participations.get?) mode
        customInput expectedOutput =
      buildJobConfig context package (participation.bind db.participations.get?) mode customInput
        expectedOutput := by
  cases participation with
  | none => rfl
  | some id =>
      rw [Option.bind_some, Option.bind_some, get?_participations_publicPart]
      cases db.participations.get? id <;> rfl

theorem newJudging_publicPart (now : Time) (request : SubmissionRequest) (db : Database) :
    newJudging now request db.publicPart = newJudging now request db := by
  have hsubmissions : db.publicPart.submissions.nextKey = db.submissions.nextKey :=
    Table.nextKey_map _ _ Submission.id_publicPart
  unfold newJudging newJob
  rw [nextKey_jobs_publicPart, hsubmissions, buildJobConfig_publicPart]

theorem createSubmission_publicPart {request : SubmissionRequest}
    (h : createSubmission now request db = .ok db') :
    ∃ db'', createSubmission now request db.publicPart = .ok db'' ∧
      db''.publicPart = db'.publicPart := by
  unfold createSubmission at h ⊢
  obtain ⟨_, hvalid, h⟩ := Except.bind_eq_ok.mp h
  rw [hvalid, Except.ok_bind]
  have hparticipation : (∃ id ∈ request.contestParticipation,
      db.publicPart.participations.get? id = none) ↔
        ∃ id ∈ request.contestParticipation, db.participations.get? id = none := by
    simp only [get?_participations_publicPart, Option.map_eq_none_iff]
  simp only [hparticipation]
  split_ifs at h ⊢
  cases h
  refine ⟨_, rfl, ?_⟩
  rw [newJudging_publicPart, Database.publicPart_store, Database.publicPart_store,
    Database.publicPart_publicPart]

theorem jobOf?_publicPart (db : Database) (id : ℕ) :
    db.publicPart.jobOf? id = (db.jobOf? id).map JudgeJob.publicPart := by
  unfold Database.jobOf?
  rw [JudgeGatewayService.rows_jobs_publicPart, List.find?_map]
  rfl

theorem rejudgeSubmission_publicPart {id : ℕ} {context : ProblemContext}
    (h : rejudgeSubmission now id context db = .ok db') :
    ∃ db'', rejudgeSubmission now id context db.publicPart = .ok db'' ∧
      db''.publicPart = db'.publicPart := by
  unfold rejudgeSubmission at h ⊢
  have hget : db.publicPart.submissions.get? id =
    (db.submissions.get? id).map Submission.publicPart :=
      Table.get?_map _ _ Submission.id_publicPart id
  rw [hget]
  cases hsubmission : db.submissions.get? id with
  | none =>
      rw [hsubmission] at h
      cases h
  | some submission =>
      rw [hsubmission] at h
      have hmode : submission.publicPart.mode = submission.mode := rfl
      have hparticipation : submission.publicPart.contestParticipation =
        submission.contestParticipation := rfl
      have hpackage : (db.publicPart.jobOf? id).elim context.activePackage JudgeJob.package =
          (db.jobOf? id).elim context.activePackage JudgeJob.package := by
        rw [jobOf?_publicPart]
        cases db.jobOf? id <;> rfl
      rw [Option.map_some]
      simp only [hpackage, nextKey_jobs_publicPart, hmode, hparticipation,
        buildJobConfig_publicPart] at h ⊢
      split_ifs at h ⊢
      cases h
      refine ⟨_, rfl, ?_⟩
      rw [Database.publicPart_store, Database.publicPart_store, Database.publicPart_publicPart,
        jobOf?_publicPart]
      cases db.jobOf? id <;> rfl

end SubmissionService

/-! ## All operations -/

/-- What a call accepts with its private texts it accepts without them, with the same
effect on the public part. -/
theorem Op.perform_publicPart {P : Python} {now : Time} {op : Op} {db db' : Database}
    (h : op.perform P now db = .ok db') :
    ∃ db'', op.publicPart.perform P now db.publicPart = .ok db'' ∧
      db''.publicPart = db'.publicPart := by
  have hsame : db.publicPart.publicPart = db.publicPart := Database.publicPart_publicPart db
  cases op with
  | advance elapsed =>
      cases h
      exact ⟨_, rfl, hsame⟩
  | createSubmission request => exact SubmissionService.createSubmission_publicPart h
  | claimJob judge languages tie =>
      cases h
      exact ⟨_, rfl, JudgeGatewayService.publicPart_claimJob hsame now judge languages tie⟩
  | start judge job =>
      exact ⟨_, JudgeResultService.start_publicPart h, Database.publicPart_publicPart db'⟩
  | recordCases judge job cases =>
      exact ⟨_, JudgeResultService.recordCases_publicPart h, Database.publicPart_publicPart db'⟩
  | finish judge job errorMessage =>
      obtain ⟨result, hresult, rfl⟩ := Except.map_eq_ok.mp h
      obtain ⟨result', hresult', hpublic⟩ := JudgeResultService.finish_publicPart hresult
      exact ⟨_, Except.map_eq_ok.mpr ⟨result', hresult', rfl⟩, hpublic⟩
  | fail judge job result errorMessage =>
      obtain ⟨result, hresult, rfl⟩ := Except.map_eq_ok.mp h
      obtain ⟨result', hresult', hpublic⟩ := JudgeResultService.fail_publicPart hresult
      exact ⟨_, Except.map_eq_ok.mpr ⟨result', hresult', rfl⟩, hpublic⟩
  | heartbeat judge =>
      cases h
      refine ⟨_, rfl, ?_⟩
      rw [JudgeGatewayService.publicPart_heartbeat, JudgeGatewayService.publicPart_heartbeat, hsame]
  | expireStaleJobs =>
      cases h
      exact ⟨_, rfl, JudgeGatewayService.publicPart_expireStaleJobs hsame now⟩
  | rejudgeSubmission submission context =>
      exact SubmissionService.rejudgeSubmission_publicPart h

/-- Calls that differ in private texts only keep worlds that differ in such texts only. -/
theorem World.unwinding_publicPart (P : Python) :
    Noninterference.Unwinding (World.step? P) World.publicPart Op.publicPart := by
  intro w w' op op' t t' hworld hop ht ht'
  have hdb : w.publicPart.db = w'.publicPart.db := congrArg World.db hworld
  have hnow : w.publicPart.now = w'.publicPart.now := congrArg World.now hworld
  change w.db.publicPart = w'.db.publicPart at hdb
  change w.now = w'.now at hnow
  have helapsed : op.elapsed = op'.elapsed := by
    have hpublic (op : Op) : op.publicPart.elapsed = op.elapsed := by cases op <;> rfl
    rw [← hpublic op, hop, hpublic]
  unfold World.step? at ht ht'
  cases hperform : op.perform P w.now w.db with
  | error error =>
      rw [hperform] at ht
      cases ht
  | ok db =>
      cases hperform' : op'.perform P w'.now w'.db with
      | error error =>
          rw [hperform'] at ht'
          cases ht'
      | ok db' =>
          rw [hperform] at ht
          rw [hperform'] at ht'
          cases ht
          cases ht'
          obtain ⟨erased, herased, hpublic⟩ := Op.perform_publicPart hperform
          obtain ⟨erased', herased', hpublic'⟩ := Op.perform_publicPart hperform'
          rw [hop, hdb, hnow, herased'] at herased
          cases herased
          unfold World.publicPart
          dsimp only
          rw [← hpublic, hpublic', hnow, helapsed]

end JudgeLoom
