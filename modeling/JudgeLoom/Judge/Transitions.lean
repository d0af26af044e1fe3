import JudgeLoom.Judge.World
import JudgeLoom.Library.Except

/-!
# What an operation does to one job

Each service function has one lemma here that says what a successful call did.
`Judging.Step` is the resulting life cycle of a single job: its labels are the
events that can happen to the job, each with its guard and its effect.  The main
result of the file, `Op.perform_change`, says that an operation takes every job
through events that the operation permits, and creates jobs only in their initial
state.  The invariants of the later files are proved for one event at a time.
-/

namespace JudgeLoom

/-! ## Consistency of the tables -/

namespace Database

/-- The foreign keys and the one-to-one relation that the schema enforces. -/
structure Consistent (db : Database) : Prop where
  submission_exists : ∀ job ∈ db.jobs.rows, ∃ submission,
    db.submissions.get? job.submission = some submission
  submission_unique : ∀ job ∈ db.jobs.rows, ∀ other ∈ db.jobs.rows,
    job.submission = other.submission → job = other
  testCases_owned : ∀ id, db.submissions.get? id = none → db.testCases id = ∅

/-- Saving `judging` leaves the tables consistent: its parts belong together, and
its submission has no other job. -/
structure Fits (db : Database) (judging : Judging) : Prop where
  linked : judging.submission.id = judging.job.submission
  owner : ∀ job ∈ db.jobs.rows,
    job.submission = judging.job.submission ↔ job.id = judging.job.id

variable {db : Database} {id : ℕ} {s : Judging}

theorem judging?_eq_some : db.judging? id = some s ↔
    db.jobs.get? id = some s.job ∧
      db.submissions.get? s.job.submission = some s.submission ∧
        db.testCases s.job.submission = s.testCases := by
  unfold judging?
  cases s
  simp only [Option.bind_eq_some_iff, Option.map_eq_some_iff, Judging.mk.injEq]
  constructor
  · rintro ⟨job, hjob, submission, hsubmission, rfl, rfl, rfl⟩
    exact ⟨hjob, hsubmission, rfl⟩
  · rintro ⟨hjob, hsubmission, htestCases⟩
    exact ⟨_, hjob, _, hsubmission, rfl, rfl, htestCases⟩

theorem id_of_judging? (h : db.judging? id = some s) : s.job.id = id :=
  Table.key_of_get? (judging?_eq_some.mp h).1

theorem linked_of_judging? (h : db.judging? id = some s) : s.submission.id = s.job.submission :=
  Table.key_of_get? (judging?_eq_some.mp h).2.1

theorem job_mem_of_judging? (h : db.judging? id = some s) : s.job ∈ db.jobs.rows :=
  Table.mem_of_get? (judging?_eq_some.mp h).1

theorem Consistent.judging?_of_mem (hc : db.Consistent) {job : JudgeJob}
    (hjob : job ∈ db.jobs.rows) : ∃ s, db.judging? job.id = some s ∧ s.job = job := by
  obtain ⟨submission, hsubmission⟩ := hc.submission_exists job hjob
  exact ⟨⟨job, submission, db.testCases job.submission⟩,
    judging?_eq_some.mpr ⟨Table.get?_key_of_mem hjob, hsubmission, rfl⟩, rfl⟩

theorem Consistent.judging?_eq_none (hc : db.Consistent) :
    db.judging? id = none ↔ db.jobs.get? id = none := by
  constructor
  · intro hnone
    cases hjob : db.jobs.get? id with
    | none => rfl
    | some job =>
        obtain ⟨s, hs, _⟩ := hc.judging?_of_mem (Table.mem_of_get? hjob)
        rw [Table.key_of_get? hjob, hnone] at hs
        cases hs
  · intro hnone
    simp [judging?, hnone]

theorem judging?_store (hfits : db.Fits s) (id : ℕ) :
    (db.store s).judging? id = if id = s.job.id then some s else db.judging? id := by
  split_ifs with hid
  · subst hid
    rw [judging?_eq_some]
    simp [store, hfits.linked]
  · unfold judging? store
    rw [Table.get?_save, if_neg hid]
    cases hjob : db.jobs.get? id with
    | none => rfl
    | some job =>
        have hne : job.submission ≠ s.submission.id := by
          rw [hfits.linked]
          intro heq
          refine hid ?_
          rw [← Table.key_of_get? hjob]
          exact (hfits.owner job (Table.mem_of_get? hjob)).mp heq
        simp [hne]

theorem Consistent.store (hc : db.Consistent) (hfits : db.Fits s) : (db.store s).Consistent where
  submission_exists := by
    intro job hjob
    simp only [Database.store, Table.get?_save]
    split_ifs with heq
    · exact ⟨_, rfl⟩
    · rcases Table.mem_save_iff.mp hjob with rfl | ⟨hjob, _⟩
      · exact absurd hfits.linked.symm heq
      · exact hc.submission_exists job hjob
  submission_unique := by
    intro job hjob other hother heq
    rcases Table.mem_save_iff.mp hjob with rfl | ⟨hjob, hne⟩ <;>
      rcases Table.mem_save_iff.mp hother with rfl | ⟨hother, hne'⟩
    · rfl
    · exact absurd ((hfits.owner other hother).mp heq.symm) hne'
    · exact absurd ((hfits.owner job hjob).mp heq) hne
    · exact hc.submission_unique job hjob other hother heq
  testCases_owned := by
    intro id hnone
    simp only [Database.store, Table.get?_save] at hnone ⊢
    split_ifs at hnone with heq
    rw [Function.update_of_ne heq]
    exact hc.testCases_owned id hnone

/-- Saving a stored judging with another job saves the job. -/
theorem store_job (h : db.judging? id = some s) (job : JudgeJob) :
    db.store { s with job } = { db with jobs := db.jobs.save job } := by
  obtain ⟨_, hsubmission, htestCases⟩ := judging?_eq_some.mp h
  have hlinked := linked_of_judging? h
  rw [store, Table.save_of_get? (by rw [hlinked, hsubmission]), hlinked, ← htestCases,
    Function.update_eq_self]

/-- A saved judging whose keys are those of a stored one fits. -/
theorem Consistent.fits (hc : db.Consistent) (h : db.judging? id = some s) {t : Judging}
    (hid : t.job.id = s.job.id) (hsubmission : t.job.submission = s.job.submission)
    (hkey : t.submission.id = s.submission.id) : db.Fits t where
  linked := by rw [hkey, hsubmission, linked_of_judging? h]
  owner := by
    intro job hjob
    rw [hid, hsubmission]
    constructor
    · intro heq
      rw [hc.submission_unique job hjob s.job (job_mem_of_judging? h) heq]
    · intro heq
      rw [db.jobs.key_injOn hjob (job_mem_of_judging? h) heq]

@[simp] theorem judging?_refreshContestScore (A : FloatArith) (submission : Submission)
    (db : Database) (id : ℕ) :
    (db.refreshContestScore A submission).judging? id = db.judging? id := by
  unfold refreshContestScore
  split <;> rfl

theorem Consistent.refreshContestScore (hc : db.Consistent) (A : FloatArith)
    (submission : Submission) : (db.refreshContestScore A submission).Consistent := by
  unfold Database.refreshContestScore
  split
  · exact hc
  · exact ⟨hc.submission_exists, hc.submission_unique, hc.testCases_owned⟩

end Database

/-! ## The life cycle of a job -/

/-- What can happen to a job. -/
inductive JobEvent
  | claim (judge : ℕ)
  | start (judge : ℕ)
  | extend (judge : ℕ)
  | record (judge : ℕ) (cases : List JudgeCaseIn)
  | finish (judge : ℕ) (errorMessage : String)
  | fail (judge : ℕ) (result errorMessage : String)
  | expire
  | reset (config : JobConfig)

/-- The judge holds the job, and its lease is not over. -/
structure JudgeJob.Owned (now : Time) (judge : ℕ) (job : JudgeJob) : Prop where
  claimedBy : job.claimedBy = some judge
  lease : job.leaseOver now = false
  leased : job.status.leased = true

open JudgeResultService in
/-- One event in the life of a job, with its submission and test-case rows. -/
inductive Judging.Step (P : Python) (now : Time) : Judging → JobEvent → Judging → Prop
  | claim {s : Judging} (judge : ℕ) (hqueued : s.job.status = .queued) :
      Step P now s (.claim judge) { s with job := s.job.claim judge now }
  | start {s : Judging} (judge : ℕ) (howned : s.job.Owned now judge)
      (hclaimed : s.job.status = .claimed) :
      Step P now s (.start judge)
        { s with job := s.job.start now, submission := s.submission.judging }
  | extend {s : Judging} (judge : ℕ) (hleased : s.job.leasedBy judge = true) :
      Step P now s (.extend judge) { s with job := s.job.extendLease now }
  | record {s : Judging} (judge : ℕ) (cases : List JudgeCaseIn) {testCases : TestCases}
      {maxCase : ℕ} (howned : s.job.Owned now judge)
      (hrecorded : cases.foldlM (recordCase P s.job.manifestCases)
        (s.testCases, s.submission.currentTestcase) = .ok (testCases, maxCase)) :
      Step P now s (.record judge cases)
        { job := s.job.record now
          submission := recordedSubmission s.job.manifestCases testCases maxCase s.submission
          testCases }
  | finish {s : Judging} (judge : ℕ) (errorMessage : String) {submission : Submission}
      (howned : s.job.Owned now judge) (houtcome : outcome P s = .ok submission) :
      Step P now s (.finish judge errorMessage)
        { s with
          job := s.job.succeed now
          submission :=
            { submission with judgedAt := some now, judgedOn := some judge, errorMessage } }
  | fail {s : Judging} (judge : ℕ) (result errorMessage : String)
      (howned : s.job.Owned now judge) :
      Step P now s (.fail judge result errorMessage)
        { s with
          job := s.job.fail now errorMessage
          submission :=
            s.submission.erroneous (failResult result) errorMessage now (some judge) }
  | expire {s : Judging} (hstale : s.job.stale now = true) :
      Step P now s .expire (s.expire now)
  | reset {s : Judging} (config : JobConfig) :
      Step P now s (.reset config)
        { job := s.job.reset config, submission := s.submission.unjudged, testCases := ∅ }

namespace Judging

/-- A job that was just created. -/
structure New (s : Judging) : Prop where
  status : s.job.status = .queued
  claimedBy : s.job.claimedBy = none
  lease : s.job.leaseExpiresAt = none
  attempts : s.job.attempts = 0
  submission : s.submission.unjudged = s.submission
  testCases : s.testCases = ∅

/-- Everything but the progress of judging is the same. -/
structure SameWork (s t : Judging) : Prop where
  job : ∀ config, t.job.reset config = s.job.reset config
  submission : t.submission.unjudged = s.submission.unjudged

namespace SameWork

variable {s t u : Judging}

theorem refl (s : Judging) : SameWork s s := ⟨fun _ => rfl, rfl⟩

theorem trans (h : SameWork s t) (h' : SameWork t u) : SameWork s u :=
  ⟨fun config => (h'.job config).trans (h.job config), h'.submission.trans h.submission⟩

theorem job_id (h : SameWork s t) : t.job.id = s.job.id := by
  simpa [JudgeJob.reset] using congrArg JudgeJob.id (h.job s.job.config)

theorem job_submission (h : SameWork s t) : t.job.submission = s.job.submission := by
  simpa [JudgeJob.reset] using congrArg JudgeJob.submission (h.job s.job.config)

theorem package (h : SameWork s t) : t.job.package = s.job.package := by
  simpa [JudgeJob.reset] using congrArg JudgeJob.package (h.job s.job.config)

theorem maxAttempts (h : SameWork s t) : t.job.maxAttempts = s.job.maxAttempts := by
  simpa [JudgeJob.reset] using congrArg JudgeJob.maxAttempts (h.job s.job.config)

theorem submission_id (h : SameWork s t) : t.submission.id = s.submission.id := by
  simpa [Submission.unjudged] using congrArg Submission.id h.submission

theorem mode (h : SameWork s t) : t.submission.mode = s.submission.mode := by
  simpa [Submission.unjudged] using congrArg Submission.mode h.submission

theorem contestParticipation (h : SameWork s t) :
    t.submission.contestParticipation = s.submission.contestParticipation := by
  simpa [Submission.unjudged] using congrArg Submission.contestParticipation h.submission

end SameWork

variable {P : Python} {now : Time} {s t : Judging} {event : JobEvent}

/-- Scoring rewrites the result of a submission and nothing else. -/
theorem unjudged_of_outcome {submission : Submission}
    (h : JudgeResultService.outcome P s = .ok submission) :
    submission.unjudged = s.submission.unjudged := by
  unfold JudgeResultService.outcome at h
  split at h
  · cases h
    unfold JudgeResultService.runOutcome
    split <;> rfl
  · cases h
  · unfold JudgeResultService.scoredOutcome at h
    split at h
    · cases h
    · cases h
      rfl

theorem sameWork_expire (now : Time) (s : Judging) : SameWork s (s.expire now) := by
  unfold expire
  split <;> exact ⟨fun _ => rfl, rfl⟩

theorem Step.sameWork (h : Step P now s event t) : SameWork s t := by
  cases h with
  | claim judge hqueued => exact ⟨fun _ => rfl, rfl⟩
  | start judge howned hclaimed => exact ⟨fun _ => rfl, rfl⟩
  | extend judge hleased => exact ⟨fun _ => rfl, rfl⟩
  | record judge cases howned hrecorded =>
      refine ⟨fun config => ?_, rfl⟩
      unfold JudgeJob.record
      dsimp only
      split <;> rfl
  | finish judge errorMessage howned houtcome =>
      refine ⟨fun _ => rfl, ?_⟩
      rw [← unjudged_of_outcome houtcome]
      rfl
  | fail judge result errorMessage howned => exact ⟨fun _ => rfl, rfl⟩
  | expire hstale => exact sameWork_expire now s
  | reset config => exact ⟨fun _ => rfl, rfl⟩

theorem sameWork_of_run {labels : List JobEvent} (run : Run (Step P now) s labels t) :
    SameWork s t :=
  run.invariant (SameWork.refl s) fun _ _ _ hwork hstep => hwork.trans hstep.sameWork

end Judging

/-! ## Successful calls -/

namespace JudgeResultService

variable {P : Python} {now : Time} {judge id : ℕ} {db db' : Database}

theorem assertOwned_eq_ok {job : JudgeJob} :
    assertOwned now judge job = .ok () ↔ job.Owned now judge := by
  unfold assertOwned
  split_ifs with howner hlease hstatus
  · exact iff_of_false (by simp) fun howned => howner howned.claimedBy
  · exact iff_of_false (by simp) fun howned => by simp [howned.lease] at hlease
  · exact iff_of_true rfl ⟨not_not.mp howner, by simpa using hlease, hstatus⟩
  · exact iff_of_false (by simp) fun howned => hstatus howned.leased

theorem lockJob_eq_ok {s : Judging} : db.lockJob id = .ok s ↔ db.judging? id = some s := by
  unfold Database.lockJob
  cases db.judging? id <;> simp

theorem start_eq_ok (h : start now judge id db = .ok db') : ∃ s, db.judging? id = some s ∧
    ((s.job.status = .running ∧ s.job.claimedBy = some judge ∧
        db' = db.store { s with job := s.job.extendLease now }) ∨
      (s.job.Owned now judge ∧ s.job.status = .claimed ∧
        db' = db.store
          { s with job := s.job.start now, submission := s.submission.judging })) := by
  obtain ⟨s, hs, h⟩ := Except.bind_eq_ok.mp h
  refine ⟨s, lockJob_eq_ok.mp hs, ?_⟩
  by_cases hrunning : s.job.status = .running
  · rw [if_pos hrunning] at h
    split_ifs at h with howner
    cases h
    exact Or.inl ⟨hrunning, not_not.mp howner, rfl⟩
  · rw [if_neg hrunning] at h
    obtain ⟨_, howned, h⟩ := Except.bind_eq_ok.mp h
    split_ifs at h with hclaimed
    cases h
    exact Or.inr ⟨assertOwned_eq_ok.mp howned, not_not.mp hclaimed, rfl⟩

theorem recordCases_eq_ok {cases : List JudgeCaseIn}
    (h : recordCases P now judge id cases db = .ok db') : ∃ s, db.judging? id = some s ∧
    s.job.Owned now judge ∧ ∃ testCases maxCase,
      cases.foldlM (recordCase P s.job.manifestCases)
          (s.testCases, s.submission.currentTestcase) = .ok (testCases, maxCase) ∧
        db' = db.store
          { job := s.job.record now
            submission := recordedSubmission s.job.manifestCases testCases maxCase s.submission
            testCases } := by
  obtain ⟨s, hs, h⟩ := Except.bind_eq_ok.mp h
  obtain ⟨_, howned, h⟩ := Except.bind_eq_ok.mp h
  obtain ⟨⟨testCases, maxCase⟩, hrecorded, h⟩ := Except.bind_eq_ok.mp h
  cases h
  exact ⟨s, lockJob_eq_ok.mp hs, assertOwned_eq_ok.mp howned, testCases, maxCase, hrecorded, rfl⟩

/-- The call found the job finished by the same judge and changed nothing, or it
closed the job. -/
theorem finish_eq_ok {errorMessage : String} {result : Submission × Database}
    (h : finish P now judge id errorMessage db = .ok result) : ∃ s, db.judging? id = some s ∧
    ((s.job.status = .succeeded ∧ s.job.claimedBy = some judge ∧ result = (s.submission, db)) ∨
      (s.job.Owned now judge ∧ ∃ submission, outcome P s = .ok submission ∧
        result = close P db
          { s with
            job := s.job.succeed now
            submission := { submission with
              judgedAt := some now, judgedOn := some judge, errorMessage } })) := by
  obtain ⟨s, hs, h⟩ := Except.bind_eq_ok.mp h
  refine ⟨s, lockJob_eq_ok.mp hs, ?_⟩
  by_cases hsucceeded : s.job.status = .succeeded
  · rw [if_pos hsucceeded] at h
    split_ifs at h with howner
    cases h
    exact Or.inl ⟨hsucceeded, not_not.mp howner, rfl⟩
  · rw [if_neg hsucceeded] at h
    obtain ⟨_, howned, h⟩ := Except.bind_eq_ok.mp h
    have howned := assertOwned_eq_ok.mp howned
    rw [if_neg (not_not.mpr howned.leased)] at h
    obtain ⟨submission, houtcome, h⟩ := Except.bind_eq_ok.mp h
    split_ifs at h
    cases h
    exact Or.inr ⟨howned, submission, houtcome, rfl⟩

/-- The call found the job failed by the same judge and changed nothing, or it
closed the job. -/
theorem fail_eq_ok {code errorMessage : String} {result : Submission × Database}
    (h : fail P now judge id code errorMessage db = .ok result) : ∃ s, db.judging? id = some s ∧
    ((s.job.status = .failed ∧ s.job.claimedBy = some judge ∧ result = (s.submission, db)) ∨
      (s.job.Owned now judge ∧
        result = close P db
          { s with
            job := s.job.fail now errorMessage
            submission :=
              s.submission.erroneous (failResult code) errorMessage now (some judge) })) := by
  obtain ⟨s, hs, h⟩ := Except.bind_eq_ok.mp h
  refine ⟨s, lockJob_eq_ok.mp hs, ?_⟩
  by_cases hfailed : s.job.status = .failed
  · rw [if_pos hfailed] at h
    split_ifs at h with howner
    cases h
    exact Or.inl ⟨hfailed, not_not.mp howner, rfl⟩
  · rw [if_neg hfailed] at h
    obtain ⟨_, howned, h⟩ := Except.bind_eq_ok.mp h
    split_ifs at h
    cases h
    exact Or.inr ⟨assertOwned_eq_ok.mp howned, rfl⟩

end JudgeResultService

namespace JudgeGatewayService

variable {now : Time} {db : Database}

theorem judging?_expireJob (hc : db.Consistent) (now : Time) (expired id : ℕ) :
    (expireJob now db expired).judging? id =
      (db.judging? id).map fun s => if id = expired then s.expire now else s := by
  unfold expireJob
  cases hexpired : db.judging? expired with
  | none =>
      dsimp only
      split_ifs with hid
      · rw [hid, hexpired]
        rfl
      · rw [Option.map_id']
  | some s =>
      have hwork := Judging.sameWork_expire now s
      dsimp only
      rw [Database.judging?_store
        (hc.fits hexpired hwork.job_id hwork.job_submission hwork.submission_id),
        hwork.job_id, Database.id_of_judging? hexpired]
      split_ifs with hid
      · rw [hid, hexpired]
        rfl
      · rw [Option.map_id']

theorem consistent_expireJob (hc : db.Consistent) (now : Time) (expired : ℕ) :
    (expireJob now db expired).Consistent := by
  unfold expireJob
  split
  · exact hc
  · next s hs =>
      have hwork := Judging.sameWork_expire now s
      exact hc.store (hc.fits hs hwork.job_id hwork.job_submission hwork.submission_id)

/-- The loop visits every job at most once, so what it does to a job it does once. -/
theorem foldl_expireJob (now : Time) (ids : List ℕ) (hnodup : ids.Nodup) :
    ∀ db : Database, db.Consistent → (ids.foldl (expireJob now) db).Consistent ∧
      ∀ id, (ids.foldl (expireJob now) db).judging? id =
        (db.judging? id).map fun s => if id ∈ ids then s.expire now else s := by
  induction ids with
  | nil =>
      intro db hc
      refine ⟨hc, fun id => ?_⟩
      simp
  | cons first rest ih =>
      intro db hc
      rw [List.nodup_cons] at hnodup
      obtain ⟨hconsistent, hjudging⟩ := ih hnodup.2 _ (consistent_expireJob hc now first)
      refine ⟨hconsistent, fun id => ?_⟩
      rw [List.foldl_cons, hjudging, judging?_expireJob hc, Option.map_map]
      refine congrArg (Option.map · _) (funext fun s => ?_)
      simp only [Function.comp_apply, List.mem_cons]
      by_cases hid : id = first
      · rw [hid, if_neg hnodup.1]
        simp
      · simp [hid]

theorem mem_staleJobs {id : ℕ} {s : Judging} (hs : db.judging? id = some s) :
    id ∈ staleJobs now db ↔ s.job.stale now = true := by
  have hid := Database.id_of_judging? hs
  simp only [staleJobs, List.mem_map, List.mem_filter]
  constructor
  · rintro ⟨job, ⟨hjob, hstale⟩, hkey⟩
    rwa [← db.jobs.key_injOn hjob (Database.job_mem_of_judging? hs) (hkey.trans hid.symm)]
  · intro hstale
    exact ⟨s.job, ⟨Database.job_mem_of_judging? hs, hstale⟩, hid⟩

theorem nodup_staleJobs (now : Time) (db : Database) : (staleJobs now db).Nodup :=
  ((db.jobs.filter (JudgeJob.stale now)).nodup_keys :)

theorem consistent_expireStaleJobs (hc : db.Consistent) (now : Time) :
    (expireStaleJobs now db).2.Consistent :=
  (foldl_expireJob now _ (nodup_staleJobs now db) db hc).1

theorem judging?_expireStaleJobs (hc : db.Consistent) (now : Time) (id : ℕ) :
    (expireStaleJobs now db).2.judging? id =
      (db.judging? id).map fun s => if s.job.stale now then s.expire now else s := by
  rw [expireStaleJobs, (foldl_expireJob now _ (nodup_staleJobs now db) db hc).2]
  cases hs : db.judging? id with
  | none => rfl
  | some s => simp only [Option.map_some, mem_staleJobs hs]

theorem firstJob_mem {tie : ℕ} {eligible : List JudgeJob} {job : JudgeJob}
    (h : firstJob tie eligible = some job) : job ∈ eligible :=
  List.mem_of_mem_filter (List.mem_of_getElem? h)

/-- A claim expires the stale jobs and then claims a queued job, if there is one. -/
theorem claimJob_cases (hc : db.Consistent) (now : Time) (judge : ℕ) (languages : List String)
    (tie : ℕ) :
    claimJob now judge languages tie db = (none, (expireStaleJobs now db).2) ∨
      ∃ s, (expireStaleJobs now db).2.judging? s.job.id = some s ∧ s.job.status = .queued ∧
        claimJob now judge languages tie db =
          (some (s.job.claim judge now),
            (expireStaleJobs now db).2.store { s with job := s.job.claim judge now }) := by
  have hc' := consistent_expireStaleJobs hc now
  unfold claimJob
  dsimp only
  split
  · exact Or.inl rfl
  · next job hfirst =>
      obtain ⟨hjob, hclaimable⟩ := List.mem_filter.mp (firstJob_mem hfirst)
      obtain ⟨s, hs, rfl⟩ := hc'.judging?_of_mem hjob
      have hqueued : s.job.status = .queued := by
        simp only [JudgeJob.claimable, Bool.and_eq_true, decide_eq_true_eq] at hclaimable
        exact hclaimable.1
      refine Or.inr ⟨s, hs, hqueued, ?_⟩
      rw [Database.store_job hs]

theorem get?_jobs_heartbeat (now : Time) (judge : ℕ) (db : Database) (id : ℕ) :
    (heartbeat now judge db).jobs.get? id = (db.jobs.get? id).map fun job =>
      if job.leasedBy judge then job.extendLease now else job :=
  Table.get?_updateWhere db.jobs (JudgeJob.leasedBy judge) (JudgeJob.extendLease now)
    (fun _ => rfl) id

theorem judging?_heartbeat (now : Time) (judge : ℕ) (db : Database) (id : ℕ) :
    (heartbeat now judge db).judging? id = (db.judging? id).map fun s =>
      if s.job.leasedBy judge then { s with job := s.job.extendLease now } else s := by
  unfold Database.judging?
  rw [get?_jobs_heartbeat]
  cases db.jobs.get? id with
  | none => rfl
  | some job =>
      have hsubmission : (if job.leasedBy judge then job.extendLease now else job).submission =
          job.submission := by split <;> rfl
      simp only [Option.map_some, Option.bind_some, hsubmission]
      change Option.map _ (db.submissions.get? job.submission) = _
      cases db.submissions.get? job.submission with
      | none => rfl
      | some submission =>
          simp only [Option.map_some]
          split <;> rfl

theorem consistent_heartbeat (hc : db.Consistent) (now : Time) (judge : ℕ) :
    (heartbeat now judge db).Consistent := by
  have hrow : ∀ row ∈ (heartbeat now judge db).jobs.rows, ∃ job ∈ db.jobs.rows,
      row = if job.leasedBy judge then job.extendLease now else job := by
    intro row hrow
    obtain ⟨job, hjob, hrow⟩ := List.mem_map.mp hrow
    exact ⟨job, hjob, hrow.symm⟩
  have hsubmission : ∀ job : JudgeJob,
      (if job.leasedBy judge then job.extendLease now else job).submission = job.submission := by
    intro job
    split <;> rfl
  refine ⟨fun row hrow' => ?_, fun row hrow' other hother heq => ?_, hc.testCases_owned⟩
  · obtain ⟨job, hjob, rfl⟩ := hrow row hrow'
    rw [hsubmission]
    exact hc.submission_exists job hjob
  · obtain ⟨job, hjob, rfl⟩ := hrow row hrow'
    obtain ⟨job', hjob', rfl⟩ := hrow other hother
    rw [hsubmission, hsubmission] at heq
    rw [hc.submission_unique job hjob job' hjob' heq]

end JudgeGatewayService

namespace SubmissionService

variable {now : Time} {db db' : Database}

theorem createSubmission_eq_ok {request : SubmissionRequest}
    (h : createSubmission now request db = .ok db') :
    db' = db.store (newJudging now request db) := by
  obtain ⟨_, _, h⟩ := Except.bind_eq_ok.mp h
  split_ifs at h
  cases h
  rfl

theorem fits_newJudging (hc : db.Consistent) (now : Time) (request : SubmissionRequest) :
    db.Fits (newJudging now request db) where
  linked := rfl
  owner := by
    intro job hjob
    refine iff_of_false (fun heq => ?_) (fun heq => ?_)
    · obtain ⟨submission, hsubmission⟩ := hc.submission_exists job hjob
      rw [heq] at hsubmission
      simp [newJudging, newJob] at hsubmission
    · exact (Table.key_lt_nextKey hjob).ne heq

theorem new_newJudging (now : Time) (request : SubmissionRequest) (db : Database) :
    (newJudging now request db).New :=
  ⟨rfl, rfl, rfl, rfl, rfl, rfl⟩

/-- A rejudge resets the job of the submission, or creates one if there is none. -/
theorem rejudgeSubmission_eq_ok (hc : db.Consistent) {id : ℕ} {context : ProblemContext}
    (h : rejudgeSubmission now id context db = .ok db') :
    (∃ s config, db.judging? s.job.id = some s ∧ s.submission.id = id ∧
        db' = db.store
          { job := s.job.reset config, submission := s.submission.unjudged, testCases := ∅ }) ∨
      ∃ s, s.New ∧ db.Fits s ∧ db.judging? s.job.id = none ∧
        (∃ submission, db.submissions.get? s.submission.id = some submission ∧
          s.submission = submission.unjudged) ∧ db' = db.store s := by
  unfold rejudgeSubmission at h
  split at h
  · cases h
  · next submission hsubmission =>
      dsimp only at h
      split_ifs at h
      cases h
      cases hjob : db.jobOf? id with
      | some job =>
          have hmem : job ∈ db.jobs.rows := List.mem_of_find?_eq_some hjob
          have hkey : job.submission = id := by simpa using List.find?_some hjob
          obtain ⟨s, hs, rfl⟩ := hc.judging?_of_mem hmem
          have hsub := (Database.judging?_eq_some.mp hs).2.1
          rw [hkey, hsubmission] at hsub
          cases hsub
          exact Or.inl ⟨s, _, hs, Table.key_of_get? hsubmission, rfl⟩
      | none =>
          have hid := Table.key_of_get? hsubmission
          refine Or.inr ⟨_, ⟨rfl, rfl, rfl, rfl, rfl, rfl⟩, ⟨rfl, ?_⟩, ?_,
            ⟨submission, by simpa [Submission.unjudged, hid] using hsubmission, rfl⟩, rfl⟩
          · intro job hmem
            refine iff_of_false (fun heq => ?_) (fun heq => ?_)
            · have hfind := List.find?_eq_none.mp hjob job hmem
              exact hfind (by simpa using heq.trans hid)
            · exact (Table.key_lt_nextKey hmem).ne heq
          · rw [hc.judging?_eq_none]
            simp [JudgeJob.reset, missingJob]

end SubmissionService

/-! ## Operations -/

/-- The events that an operation can cause to the job of key `id`. -/
def Op.Permits (id : ℕ) : Op → JobEvent → Prop
  | advance _, _ => False
  | createSubmission _, _ => False
  | claimJob judge _ _, event => event = .expire ∨ event = .claim judge
  | start judge job, event => job = id ∧ (event = .start judge ∨ event = .extend judge)
  | recordCases judge job cases, event => job = id ∧ event = .record judge cases
  | finish judge job errorMessage, event => job = id ∧ event = .finish judge errorMessage
  | fail judge job result errorMessage, event =>
      job = id ∧ event = .fail judge result errorMessage
  | heartbeat judge, event => event = .extend judge
  | expireStaleJobs, event => event = .expire
  | rejudgeSubmission _ _, event => ∃ config, event = .reset config

/-- What becomes of a job: it goes through permitted events, or it is new. -/
inductive Judging.Change (P : Python) (now : Time) (permits : JobEvent → Prop) :
    Option Judging → Option Judging → Prop
  | absent : Change P now permits none none
  | created {s : Judging} (hnew : s.New) : Change P now permits none (some s)
  | events {s t : Judging} {labels : List JobEvent} (run : Run (Step P now) s labels t)
      (hpermits : ∀ event ∈ labels, permits event) : Change P now permits (some s) (some t)

namespace Judging.Change

variable {P : Python} {now : Time} {permits : JobEvent → Prop} {s t : Judging}
  {event : JobEvent}

theorem same (judging : Option Judging) : Change P now permits judging judging := by
  cases judging with
  | none => exact absent
  | some s => exact events Run.nil (by simp)

theorem of_step (h : Step P now s event t) (hpermits : permits event) :
    Change P now permits (some s) (some t) :=
  events (Run.single h) (by simpa using hpermits)

/-- What holds of new jobs and is kept by every permitted event holds after a change. -/
theorem keep {Q : Judging → Prop} {before after : Option Judging}
    (h : Change P now permits before after) (hnew : ∀ s : Judging, s.New → Q s)
    (hkeep : ∀ event, permits event → ∀ s t : Judging, Q s → Step P now s event t → Q t)
    (hbefore : ∀ s ∈ before, Q s) : ∀ t ∈ after, Q t := by
  cases h with
  | absent => simp
  | created hcreated => simpa using hnew _ hcreated
  | @events s t labels run hpermits =>
      have hs := hbefore s rfl
      simp only [Option.mem_def, Option.some.injEq, forall_eq']
      clear hbefore
      induction run with
      | nil => exact hs
      | snoc _ hlast ih =>
          have hearlier := ih fun event hevent => hpermits event (List.mem_append_left _ hevent)
          have hevent := hpermits _ (List.mem_append_right _ (List.mem_singleton_self _))
          exact hkeep _ hevent _ _ hearlier hlast

/-- Two changes in a row, the first of which creates no job. -/
theorem trans {first second third : Option Judging} (h : Change P now permits first second)
    (h' : Change P now permits second third) (hold : first = none → second = none) :
    Change P now permits first third := by
  cases h with
  | absent => exact h'
  | created hnew => simp at hold
  | events run hpermits =>
      cases h' with
      | events run' hpermits' =>
          exact events (run.append run') fun event hevent =>
            (List.mem_append.mp hevent).elim (hpermits event) (hpermits' event)

end Judging.Change

section Perform

variable {P : Python} {now : Time} {op : Op} {db db' : Database} {s t : Judging}
  {event : JobEvent}

/-- Saving the effect of a permitted event on a stored job. -/
theorem change_store (op : Op) (hc : db.Consistent) (hs : db.judging? s.job.id = some s)
    (hstep : Judging.Step P now s event t) (hpermits : op.Permits s.job.id event) :
    (db.store t).Consistent ∧
      ∀ id, Judging.Change P now (op.Permits id) (db.judging? id) ((db.store t).judging? id) := by
  have hwork := hstep.sameWork
  have hfits := hc.fits hs hwork.job_id hwork.job_submission hwork.submission_id
  refine ⟨hc.store hfits, fun id => ?_⟩
  rw [Database.judging?_store hfits, hwork.job_id]
  split_ifs with hid
  · rw [hid, hs]
    exact .of_step hstep hpermits
  · exact .same _

/-- Saving a new job. -/
theorem change_store_new (hc : db.Consistent) (hnew : s.New) (hfits : db.Fits s)
    (hnone : db.judging? s.job.id = none) {permits : ℕ → JobEvent → Prop} :
    (db.store s).Consistent ∧
      ∀ id, Judging.Change P now (permits id) (db.judging? id) ((db.store s).judging? id) := by
  refine ⟨hc.store hfits, fun id => ?_⟩
  rw [Database.judging?_store hfits]
  split_ifs with hid
  · rw [hid, hnone]
    exact .created hnew
  · exact .same _

theorem change_expireStaleJobs (op : Op) (hc : db.Consistent)
    (hpermits : ∀ id, op.Permits id .expire) (id : ℕ) : Judging.Change P now (op.Permits id) (db.judging? id)
      ((JudgeGatewayService.expireStaleJobs now db).2.judging? id) := by
  rw [JudgeGatewayService.judging?_expireStaleJobs hc]
  cases db.judging? id with
  | none => exact .absent
  | some s =>
      simp only [Option.map_some]
      split_ifs with hstale
      · exact .of_step (.expire hstale) (hpermits id)
      · exact .same _

/-- An operation keeps the tables consistent and takes every job through events that
it permits. -/
theorem Op.perform_change (hc : db.Consistent) (h : op.perform P now db = .ok db') :
    db'.Consistent ∧
      ∀ id, Judging.Change P now (op.Permits id) (db.judging? id) (db'.judging? id) := by
  cases op with
  | advance elapsed =>
      cases h
      exact ⟨hc, fun id => .same _⟩
  | createSubmission request =>
      rw [SubmissionService.createSubmission_eq_ok h]
      refine change_store_new hc (SubmissionService.new_newJudging now request db)
        (SubmissionService.fits_newJudging hc now request) ?_
      rw [hc.judging?_eq_none]
      exact Table.get?_nextKey _
  | claimJob judge languages tie =>
      cases h
      have hc' := JudgeGatewayService.consistent_expireStaleJobs hc now
      have hexpire : ∀ id, Judging.Change P now (Op.Permits id (.claimJob judge languages tie))
          (db.judging? id) ((JudgeGatewayService.expireStaleJobs now db).2.judging? id) :=
        change_expireStaleJobs _ hc fun _ => Or.inl rfl
      rcases JudgeGatewayService.claimJob_cases hc now judge languages tie with
        hnone | ⟨s, hs, hqueued, hclaim⟩
      · rw [hnone]
        exact ⟨hc', hexpire⟩
      · rw [hclaim]
        have hstep : Judging.Step P now s (.claim judge) _ := .claim judge hqueued
        obtain ⟨hconsistent, hclaimed⟩ :=
          change_store (.claimJob judge languages tie) hc' hs hstep (Or.inr rfl)
        refine ⟨hconsistent, fun id => ?_⟩
        -- the job may have expired first, so its two events are put together
        refine (hexpire id).trans (hclaimed id) fun hnone => ?_
        rw [JudgeGatewayService.judging?_expireStaleJobs hc, hnone]
        rfl
  | start judge job =>
      obtain ⟨s, hs, ⟨hrunning, howner, rfl⟩ | ⟨howned, hclaimed, rfl⟩⟩ :=
        JudgeResultService.start_eq_ok h
      all_goals obtain rfl := Database.id_of_judging? hs
      · have hleased : s.job.leasedBy judge = true := by
          simp [JudgeJob.leasedBy, howner, JudgeJobStatus.leased, hrunning]
        exact change_store _ hc hs (.extend judge hleased) ⟨rfl, Or.inr rfl⟩
      · exact change_store _ hc hs (.start judge howned hclaimed) ⟨rfl, Or.inl rfl⟩
  | recordCases judge job cases =>
      obtain ⟨s, hs, howned, testCases, maxCase, hrecorded, rfl⟩ :=
        JudgeResultService.recordCases_eq_ok h
      obtain rfl := Database.id_of_judging? hs
      exact change_store _ hc hs (.record judge cases howned hrecorded) ⟨rfl, rfl⟩
  | finish judge job errorMessage =>
      obtain ⟨result, hresult, rfl⟩ := Except.map_eq_ok.mp h
      obtain ⟨s, hs, ⟨_, _, rfl⟩ | ⟨howned, submission, houtcome, rfl⟩⟩ :=
        JudgeResultService.finish_eq_ok hresult
      · exact ⟨hc, fun id => .same _⟩
      · obtain rfl := Database.id_of_judging? hs
        obtain ⟨hconsistent, hchange⟩ := change_store (.finish judge s.job.id errorMessage) hc hs
          (.finish judge errorMessage howned houtcome) ⟨rfl, rfl⟩
        refine ⟨hconsistent.refreshContestScore _ _, fun id => ?_⟩
        rw [JudgeResultService.close, Database.judging?_refreshContestScore]
        exact hchange id
  | fail judge job result errorMessage =>
      obtain ⟨answer, hanswer, rfl⟩ := Except.map_eq_ok.mp h
      obtain ⟨s, hs, ⟨_, _, rfl⟩ | ⟨howned, rfl⟩⟩ := JudgeResultService.fail_eq_ok hanswer
      · exact ⟨hc, fun id => .same _⟩
      · obtain rfl := Database.id_of_judging? hs
        have hstep : Judging.Step P now s (.fail judge result errorMessage) _ :=
          .fail judge result errorMessage howned
        obtain ⟨hconsistent, hchange⟩ :=
          change_store (.fail judge s.job.id result errorMessage) hc hs hstep ⟨rfl, rfl⟩
        refine ⟨hconsistent.refreshContestScore _ _, fun id => ?_⟩
        rw [JudgeResultService.close, Database.judging?_refreshContestScore]
        exact hchange id
  | heartbeat judge =>
      cases h
      refine ⟨JudgeGatewayService.consistent_heartbeat hc now judge, fun id => ?_⟩
      rw [JudgeGatewayService.judging?_heartbeat]
      cases db.judging? id with
      | none => exact .absent
      | some s =>
          simp only [Option.map_some]
          split_ifs with hleased
          · exact .of_step (.extend judge hleased) rfl
          · exact .same _
  | expireStaleJobs =>
      cases h
      exact ⟨JudgeGatewayService.consistent_expireStaleJobs hc now,
        change_expireStaleJobs _ hc fun _ => rfl⟩
  | rejudgeSubmission submission context =>
      rcases SubmissionService.rejudgeSubmission_eq_ok hc h with
        ⟨s, config, hs, _, rfl⟩ | ⟨s, hnew, hfits, hnone, _, rfl⟩
      · exact change_store _ hc hs (.reset config) ⟨config, rfl⟩
      · exact change_store_new hc hnew hfits hnone

end Perform

end JudgeLoom
