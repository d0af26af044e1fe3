import JudgeLoom.Judge.LeaseInvariant

/-!
# Contest scores when judging is quiescent

A participation stores aggregates of its submissions.  `finish` and `fail`
recalculate them; requeueing, rejudging and expiry at the attempt limit do not.
The first two leave the job in the queue, so the aggregates may be out of date
until it ends.  The last one ends the job.

Accordingly, the aggregates of a participation without a job in progress are those
of `calculateParticipation` in every run in which no expiry ends a job of a contest
(`World.settled_run`), and need not be otherwise (`World.stale_score`).
-/

namespace JudgeLoom

/-- The job has not ended. -/
def JudgeJobStatus.active (status : JudgeJobStatus) : Bool :=
  status = .queued || status = .claimed || status = .running

namespace Database

variable {db : Database} {A : FloatArith} {id : ℕ} {participation : ContestParticipation}

/-- The submissions bound to a participation. -/
def contestSubmissions (db : Database) (id : ℕ) : Table Submission Submission.id :=
  db.submissions.filter fun submission => submission.contestParticipation = some id

/-- A submission of the participation has a job in progress. -/
def Judges (db : Database) (id : ℕ) : Prop :=
  ∃ job s, db.judging? job = some s ∧ s.job.status.active = true ∧
    s.submission.contestParticipation = some id

/-- The stored aggregates are those of the submissions, or the initial ones if there
is no submission. -/
structure Fresh (A : FloatArith) (db : Database) (participation : ContestParticipation) : Prop where
  initial : (db.contestSubmissions participation.id).rows = [] →
    participation.toParticipationScores = {}
  calculated : (db.contestSubmissions participation.id).rows ≠ [] →
    ∀ scores ∈ calculateParticipation A participation
        (submissionView db.submissions.rows participation),
      participation.toParticipationScores = scores

/-- Every participation without a job in progress is fresh. -/
def Settled (A : FloatArith) (db : Database) : Prop :=
  ∀ id, ∀ participation ∈ db.participations.get? id,
    db.Judges id ∨ db.Fresh A participation

/-! ## Recalculation -/

/-- The queries of a participation see its own submissions only. -/
theorem submissionView_congr {rows rows' : List Submission}
    (h : rows.filter (fun submission =>
        decide (submission.contestParticipation = some participation.id)) =
      rows'.filter fun submission =>
        decide (submission.contestParticipation = some participation.id)) :
    submissionView rows participation = submissionView rows' participation := by
  funext contestProblem
  have hfilter : ∀ rows : List Submission,
      submissionView rows participation contestProblem =
        ((rows.filter fun submission =>
            decide (submission.contestParticipation = some participation.id)).filter
          fun submission => decide (submission.user = participation.user ∧
            submission.problem = contestProblem.problem)).insertionSort ContestFormat.before := by
    intro rows
    unfold submissionView ContestFormat.submissionQueryset
    rw [List.filter_filter]
    simp only [Option.not_mem_none, false_implies, implies_true, and_true]
    congr 1
    refine List.filter_congr fun submission _ => ?_
    by_cases hbound : submission.contestParticipation = some participation.id <;> simp [hbound]
  rw [hfilter, hfilter, h]

/-- Freshness depends on the submissions of the participation only. -/
theorem Fresh.congr {db' : Database} (h : db.Fresh A participation)
    (heq : db'.contestSubmissions participation.id = db.contestSubmissions participation.id) :
    db'.Fresh A participation := by
  have hview := submissionView_congr (congrArg Table.rows heq)
  refine ⟨fun hnone => h.initial (heq ▸ hnone), fun hsome => ?_⟩
  rw [hview]
  exact h.calculated (heq ▸ hsome)

/-- A recalculated participation is fresh. -/
theorem fresh_recalculateParticipation
    (hsome : (db.contestSubmissions participation.id).rows ≠ []) :
    db.Fresh A (recalculateParticipation A participation
      (submissionView db.submissions.rows participation)) := by
  unfold recalculateParticipation
  cases hscores : calculateParticipation A participation
      (submissionView db.submissions.rows participation) with
  | none =>
      refine ⟨fun hnone => absurd hnone hsome, fun _ scores hcalculated => ?_⟩
      rw [hscores] at hcalculated
      cases hcalculated
  | some scores =>
      refine ⟨fun hnone => absurd hnone hsome, fun _ scores' hcalculated => ?_⟩
      have hsame : calculateParticipation A participation
          (submissionView db.submissions.rows participation) = some scores' := hcalculated
      rw [hscores] at hsame
      exact Option.some.inj hsame

/-! ## Saving a job -/

/-- Saving `judging` moves no submission to another participation. -/
structure Binds (db : Database) (judging : Judging) : Prop where
  job : ∀ s ∈ db.judging? judging.job.id,
    s.submission.contestParticipation = judging.submission.contestParticipation
  submission : ∀ submission ∈ db.submissions.get? judging.submission.id,
    submission.contestParticipation = judging.submission.contestParticipation

variable {s t : Judging}

theorem binds_of_sameWork (hs : db.judging? s.job.id = some s) (hwork : Judging.SameWork s t) :
    db.Binds t where
  job := by
    intro other hother
    rw [hwork.job_id, hs] at hother
    obtain rfl := Option.some.inj hother
    exact hwork.contestParticipation.symm
  submission := by
    intro submission hsubmission
    rw [hwork.submission_id, linked_of_judging? hs, (judging?_eq_some.mp hs).2.1] at hsubmission
    obtain rfl := Option.some.inj hsubmission
    exact hwork.contestParticipation.symm

/-- Other participations keep their submissions. -/
theorem contestSubmissions_store (hbinds : db.Binds t)
    (hne : t.submission.contestParticipation ≠ some id) :
    (db.store t).contestSubmissions id = db.contestSubmissions id := by
  refine Table.ext_get? fun key => ?_
  unfold contestSubmissions store
  rw [Table.get?_filter, Table.get?_filter, Table.get?_save]
  split_ifs with hkey
  · rw [Option.filter_some, if_neg (by simpa using hne)]
    cases hold : db.submissions.get? key with
    | none => rfl
    | some submission =>
        have hbound := hbinds.submission submission (by rw [← hkey]; exact hold)
        rw [Option.filter_some, if_neg (by simpa [hbound] using hne)]
  · rfl

/-- Other participations keep their jobs in progress. -/
theorem Judges.store (h : db.Judges id) (hfits : db.Fits t) (hbinds : db.Binds t)
    (hne : t.submission.contestParticipation ≠ some id) : (db.store t).Judges id := by
  obtain ⟨job, s, hs, hactive, hbound⟩ := h
  refine ⟨job, s, ?_, hactive, hbound⟩
  rw [judging?_store hfits, if_neg ?_]
  · exact hs
  · rintro rfl
    exact hne ((hbinds.job s hs).symm.trans hbound)

/-- Saving a job leaves every other participation settled. -/
theorem Settled.store_of_ne (h : db.Settled A) (hfits : db.Fits t) (hbinds : db.Binds t)
    (hne : t.submission.contestParticipation ≠ some id)
    (hparticipation : participation ∈ db.participations.get? id) :
    (db.store t).Judges id ∨ (db.store t).Fresh A participation := by
  rcases h id participation hparticipation with hjudges | hfresh
  · exact Or.inl (hjudges.store hfits hbinds hne)
  · refine Or.inr (hfresh.congr (contestSubmissions_store hbinds ?_))
    rwa [Table.key_of_get? hparticipation]

/-- Saving a job in progress, or one outside of contests, leaves everything settled. -/
theorem Settled.store (h : db.Settled A) (hfits : db.Fits t) (hbinds : db.Binds t)
    (hactive : t.submission.contestParticipation ≠ none → t.job.status.active = true) :
    (db.store t).Settled A := by
  intro id participation hparticipation
  by_cases hbound : t.submission.contestParticipation = some id
  · refine Or.inl ⟨t.job.id, t, ?_, hactive (by simp [hbound]), hbound⟩
    rw [judging?_store hfits, if_pos rfl]
  · exact h.store_of_ne hfits hbinds hbound hparticipation

/-- Saving the end of a job and recalculating its participation leaves everything
settled. -/
theorem Settled.close {P : Python} (h : db.Settled P.arith) (hfits : db.Fits t)
    (hbinds : db.Binds t) : (JudgeResultService.close P db t).2.Settled P.arith := by
  unfold JudgeResultService.close refreshContestScore
  dsimp only
  cases hbound : t.submission.contestParticipation with
  | none => exact h.store hfits hbinds fun hne => absurd hbound hne
  | some bound =>
      dsimp only
      intro id participation hparticipation
      rw [Table.get?_modify] at hparticipation
      by_cases hid : id = bound
      · subst hid
        rw [if_pos rfl] at hparticipation
        obtain ⟨old, hold, rfl⟩ := Option.map_eq_some_iff.mp hparticipation
        have hkey : old.id = id := Table.key_of_get? hold
        have hmem : t.submission ∈ ((db.store t).contestSubmissions old.id).rows := by
          refine Table.mem_of_get? (k := t.submission.id) ?_
          unfold contestSubmissions Database.store
          rw [Table.get?_filter, Table.get?_save, if_pos rfl, Option.filter_some,
            if_pos (by simp [hbound, hkey])]
        exact Or.inr (fresh_recalculateParticipation (List.ne_nil_of_mem hmem))
      · rw [if_neg hid] at hparticipation
        have hne : t.submission.contestParticipation ≠ some id := by
          rw [hbound]
          simpa using Ne.symm hid
        rcases h.store_of_ne hfits hbinds hne hparticipation with hjudges | hfresh
        · exact Or.inl hjudges
        · exact Or.inr ⟨hfresh.initial, hfresh.calculated⟩

/-! ## Expiry and heartbeats -/

theorem Settled.expireJob (h : db.Settled A) (hc : db.Consistent) (now : Time)
    (hend : ∀ s ∈ db.judging? id, s.job.maxAttempts ≤ s.job.attempts →
      s.submission.contestParticipation = none) :
    (JudgeGatewayService.expireJob now db id).Settled A := by
  unfold JudgeGatewayService.expireJob
  split
  · exact h
  · next s hs =>
      have hwork := Judging.sameWork_expire now s
      have hfits := hc.fits hs hwork.job_id hwork.job_submission hwork.submission_id
      have hbinds : db.Binds (s.expire now) := by
        refine binds_of_sameWork (s := s) ?_ hwork
        rwa [id_of_judging? hs]
      refine h.store hfits hbinds fun hbound => ?_
      by_cases hlimit : s.job.maxAttempts ≤ s.job.attempts
      · refine absurd ?_ hbound
        rw [hwork.contestParticipation]
        exact hend s hs hlimit
      · unfold Judging.expire
        rw [if_neg hlimit]
        rfl

/-- Expiry that ends no job of a contest leaves everything settled. -/
theorem Settled.foldl_expireJob (now : Time) (ids : List ℕ) (hnodup : ids.Nodup) :
    ∀ db : Database, db.Settled A → db.Consistent →
      (∀ id ∈ ids, ∀ s ∈ db.judging? id, s.job.maxAttempts ≤ s.job.attempts →
        s.submission.contestParticipation = none) →
      (ids.foldl (JudgeGatewayService.expireJob now) db).Settled A := by
  induction ids with
  | nil =>
      intro db h _ _
      exact h
  | cons first rest ih =>
      intro db h hc hend
      rw [List.nodup_cons] at hnodup
      refine ih hnodup.2 _ (h.expireJob hc now (hend first List.mem_cons_self))
        (JudgeGatewayService.consistent_expireJob hc now first) ?_
      intro id hid s hs
      have hne : id ≠ first := fun heq => hnodup.1 (heq ▸ hid)
      rw [JudgeGatewayService.judging?_expireJob hc] at hs
      simp only [if_neg hne, Option.map_id'] at hs
      exact hend id (List.mem_cons_of_mem _ hid) s hs

theorem Settled.expireStaleJobs (h : db.Settled A) (hc : db.Consistent) (now : Time)
    (hend : ∀ id, ∀ s ∈ db.judging? id, s.job.stale now = true →
      s.job.maxAttempts ≤ s.job.attempts → s.submission.contestParticipation = none) :
    (JudgeGatewayService.expireStaleJobs now db).2.Settled A := by
  refine Settled.foldl_expireJob now _ (JudgeGatewayService.nodup_staleJobs now db) db h hc ?_
  intro id hid s hs
  exact hend id s hs ((JudgeGatewayService.mem_staleJobs hs).mp hid)

theorem Settled.heartbeat (h : db.Settled A) (now : Time) (judge : ℕ) :
    (JudgeGatewayService.heartbeat now judge db).Settled A := by
  intro id participation hparticipation
  rcases h id participation hparticipation with ⟨job, s, hs, hactive, hbound⟩ | hfresh
  · refine Or.inl ⟨job, if s.job.leasedBy judge then
      { s with job := s.job.extendLease now } else s, ?_, ?_, ?_⟩
    · rw [JudgeGatewayService.judging?_heartbeat, hs]
      rfl
    · split <;> exact hactive
    · split <;> exact hbound
  · exact Or.inr ⟨hfresh.initial, hfresh.calculated⟩

end Database

/-! ## Operations and runs -/

/-- The operation makes an expiry that ends a job of a contest submission. -/
def World.EndsContestJob (world : World) (op : Op) : Prop :=
  (op = .expireStaleJobs ∨ ∃ judge languages tie, op = .claimJob judge languages tie) ∧
    ∃ id s, world.db.judging? id = some s ∧ s.job.stale world.now = true ∧
      s.job.maxAttempts ≤ s.job.attempts ∧ s.submission.contestParticipation ≠ none

section Perform

variable {P : Python} {world : World} {op : Op} {db : Database}

theorem World.not_ends {id : ℕ} {s : Judging} (hnot : ¬ world.EndsContestJob op)
    (hexpires : op = .expireStaleJobs ∨ ∃ judge languages tie, op = .claimJob judge languages tie)
    (hs : s ∈ world.db.judging? id) (hstale : s.job.stale world.now = true)
    (hlimit : s.job.maxAttempts ≤ s.job.attempts) :
    s.submission.contestParticipation = none := by
  by_contra hbound
  exact hnot ⟨hexpires, id, s, hs, hstale, hlimit, hbound⟩

/-- A saved event that leaves the job in progress leaves everything settled. -/
theorem settled_of_step {now : Time} {s t : Judging} {event : JobEvent} {A : FloatArith}
    (h : db.Settled A) (hc : db.Consistent) (hs : db.judging? s.job.id = some s)
    (hstep : Judging.Step P now s event t) (hactive : t.job.status.active = true) :
    (db.store t).Settled A := by
  have hwork := hstep.sameWork
  exact h.store (hc.fits hs hwork.job_id hwork.job_submission hwork.submission_id)
    (Database.binds_of_sameWork hs hwork) fun _ => hactive

/-- A saved event that ends the job, followed by the recalculation, does too. -/
theorem settled_of_close {now : Time} {s t : Judging} {event : JobEvent}
    (h : db.Settled P.arith) (hc : db.Consistent) (hs : db.judging? s.job.id = some s)
    (hstep : Judging.Step P now s event t) :
    (JudgeResultService.close P db t).2.Settled P.arith := by
  have hwork := hstep.sameWork
  exact h.close (hc.fits hs hwork.job_id hwork.job_submission hwork.submission_id)
    (Database.binds_of_sameWork hs hwork)

theorem settled_perform (h : world.db.Settled P.arith) (hc : world.db.Consistent)
    (hnot : ¬ world.EndsContestJob op) (hok : op.perform P world.now world.db = .ok db) :
    db.Settled P.arith := by
  cases op with
  | advance elapsed =>
      cases hok
      exact h
  | createSubmission request =>
      rw [SubmissionService.createSubmission_eq_ok hok]
      refine h.store (SubmissionService.fits_newJudging hc world.now request) ⟨?_, ?_⟩ fun _ => rfl
      · have hnone := hc.judging?_eq_none.mpr (Table.get?_nextKey world.db.jobs)
        simp [SubmissionService.newJudging, SubmissionService.newJob, hnone]
      · simp [SubmissionService.newJudging, SubmissionService.newSubmission]
  | claimJob judge languages tie =>
      cases hok
      have hexpired : (JudgeGatewayService.expireStaleJobs world.now world.db).2.Settled P.arith :=
        h.expireStaleJobs hc world.now fun id s hs => World.not_ends hnot
          (Or.inr ⟨judge, languages, tie, rfl⟩) hs
      rcases JudgeGatewayService.claimJob_cases hc world.now judge languages tie with
        hnone | ⟨s, hs, hqueued, hclaim⟩
      · rw [hnone]
        exact hexpired
      · have hstep : Judging.Step P world.now s (.claim judge) _ := .claim judge hqueued
        rw [hclaim]
        exact settled_of_step hexpired
          (JudgeGatewayService.consistent_expireStaleJobs hc world.now) hs hstep rfl
  | start judge job =>
      obtain ⟨s, hs, ⟨hrunning, howner, rfl⟩ | ⟨howned, hclaimed, rfl⟩⟩ :=
        JudgeResultService.start_eq_ok hok
      all_goals obtain rfl := Database.id_of_judging? hs
      · have hleased : s.job.leasedBy judge = true := by
          simp [JudgeJob.leasedBy, howner, JudgeJobStatus.leased, hrunning]
        have hstep : Judging.Step P world.now s (.extend judge) _ := .extend judge hleased
        refine settled_of_step h hc hs hstep ?_
        simp [JudgeJob.extendLease, JudgeJobStatus.active, hrunning]
      · have hstep : Judging.Step P world.now s (.start judge) _ := .start judge howned hclaimed
        exact settled_of_step h hc hs hstep rfl
  | recordCases judge job cases =>
      obtain ⟨s, hs, howned, testCases, maxCase, hrecorded, rfl⟩ :=
        JudgeResultService.recordCases_eq_ok hok
      obtain rfl := Database.id_of_judging? hs
      refine settled_of_step h hc hs (.record judge cases howned hrecorded) ?_
      simp [JudgeJob.status_record howned.leased, JudgeJobStatus.active]
  | finish judge job errorMessage =>
      obtain ⟨result, hresult, rfl⟩ := Except.map_eq_ok.mp hok
      obtain ⟨s, hs, ⟨_, _, rfl⟩ | ⟨howned, submission, houtcome, rfl⟩⟩ :=
        JudgeResultService.finish_eq_ok hresult
      · exact h
      · obtain rfl := Database.id_of_judging? hs
        exact settled_of_close h hc hs (.finish judge errorMessage howned houtcome)
  | fail judge job result errorMessage =>
      obtain ⟨answer, hanswer, rfl⟩ := Except.map_eq_ok.mp hok
      obtain ⟨s, hs, ⟨_, _, rfl⟩ | ⟨howned, rfl⟩⟩ := JudgeResultService.fail_eq_ok hanswer
      · exact h
      · obtain rfl := Database.id_of_judging? hs
        exact settled_of_close h hc hs (.fail judge result errorMessage howned)
  | heartbeat judge =>
      cases hok
      exact h.heartbeat world.now judge
  | expireStaleJobs =>
      cases hok
      exact h.expireStaleJobs hc world.now fun id s hs => World.not_ends hnot (Or.inl rfl) hs
  | rejudgeSubmission submission context =>
      rcases SubmissionService.rejudgeSubmission_eq_ok hc hok with
        ⟨s, config, hs, _, rfl⟩ | ⟨s, hnew, hfits, hnone, ⟨old, hold, hsame⟩, rfl⟩
      · have hstep : Judging.Step P world.now s (.reset config) _ := .reset config
        exact settled_of_step h hc hs hstep rfl
      · refine h.store hfits ⟨by simp [hnone], ?_⟩ fun _ => ?_
        · rw [hold, hsame]
          simp [Submission.unjudged]
        · simp [hnew.status, JudgeJobStatus.active]

end Perform

namespace World

variable {P : Python} {start world : World} {ops : List Op}

theorem Initial.settled (h : world.Initial) (A : FloatArith) : world.db.Settled A := by
  intro id participation hparticipation
  have hnone : (world.db.contestSubmissions participation.id).rows = [] := by
    unfold Database.contestSubmissions
    rw [h.submissions]
    rfl
  exact Or.inr ⟨fun _ => h.participations _ (Table.mem_of_get? hparticipation),
    fun hsome => absurd hnone hsome⟩

/-- In every run in which no expiry ends a job of a contest submission, a participation
without a job in progress stores what its format calculates. -/
theorem settled_run (hstart : start.Initial)
    (run : Run (fun world op next => ¬ world.EndsContestJob op ∧ next = world.step P op)
      start ops world) :
    ∀ id, ∀ participation ∈ world.db.participations.get? id,
      ¬ world.db.Judges id → world.db.Fresh P.arith participation := by
  have hinv : world.Valid ∧ world.db.Settled P.arith := by
    refine run.invariant (P := fun world => world.Valid ∧ world.db.Settled P.arith)
      ⟨hstart.valid, hstart.settled P.arith⟩ ?_
    rintro world op next ⟨hvalid, hsettled⟩ ⟨hnot, rfl⟩
    refine ⟨hvalid.step, ?_⟩
    exact step_cases (Q := fun world => world.db.Settled P.arith) hsettled fun db hok =>
      settled_perform hsettled hvalid.consistent hnot hok
  intro id participation hparticipation hquiescent
  exact (hinv.2 id participation hparticipation).resolve_left hquiescent

/-! ## A score that stays -/

/-- A participation in a contest with the default format and one problem. -/
def sampleParticipation : ContestParticipation where
  id := 1
  user := 1
  contest :=
    { format := some .default
      startTime := 0
      problems := [{ problem := 1, label := "A", points := 100 }] }

def sampleContest : World where
  db := { participations := (∅ : Table _ ContestParticipation.id).save sampleParticipation }

/-- The submission of the participant. -/
def sampleSubmit : Op :=
  .createSubmission { sampleRequest with contestParticipation := some 1 }

/-- The participant submits, and the submission is accepted. -/
def sampleSolved : List Op :=
  [sampleSubmit, sampleClaim,
    .recordCases 7 1 [sampleAccepted], .finish 7 1 ""]

/-- The submission is rejudged, and three judges in a row die. -/
def sampleAbandoned : List Op :=
  [.rejudgeSubmission 1 sampleContext, sampleClaim, .advance 61000000, sampleClaim,
    .advance 61000000, sampleClaim, .advance 61000000, .expireStaleJobs]

theorem sampleContest_initial : sampleContest.Initial where
  submissions := rfl
  jobs := rfl
  testCases _ := rfl
  participations := by
    intro participation hparticipation
    rcases Table.mem_save_iff.mp hparticipation with rfl | ⟨hnone, _⟩
    · rfl
    · cases hnone

/-- A participation is not judged when all jobs have ended. -/
theorem not_judges_of_status {db : Database} {id : ℕ} {status : JudgeJobStatus}
    (hstatus : db.jobs.rows.map JudgeJob.status = [status]) (hactive : status.active = false) :
    ¬ db.Judges id := by
  rintro ⟨job, s, hs, hjob, _⟩
  have hmem := List.mem_map_of_mem (f := JudgeJob.status) (Database.job_mem_of_judging? hs)
  rw [hstatus, List.mem_singleton] at hmem
  rw [hmem, hactive] at hjob
  cases hjob

theorem sampleSolved_run :
    Run (fun world op next => ¬ world.EndsContestJob op ∧ next = world.step samplePython op)
      sampleContest sampleSolved (sampleContest.run samplePython sampleSolved) := by
  refine Run.snoc (Run.snoc (Run.snoc (Run.single ⟨?_, rfl⟩) ⟨?_, rfl⟩) ⟨?_, rfl⟩) ⟨?_, rfl⟩
  all_goals rintro ⟨h | ⟨_, _, _, h⟩, id, s, hs, hstale, _⟩ <;> cases h
  -- only the claim expires jobs, and the new job has no lease yet
  have hfresh : ∀ job ∈ (sampleContest.step samplePython sampleSubmit).db.jobs.rows,
      job.stale 0 = false := by decide
  have hnot := hfresh s.job (Database.job_mem_of_judging? hs)
  exact absurd (hnot.symm.trans hstale) (by decide)

theorem settled_run_solved :
    ∃ participation : ContestParticipation, participation.score = 100 ∧
      (sampleContest.run samplePython sampleSolved).db.Fresh samplePython.arith participation :=
  have hstatus : (sampleContest.run samplePython sampleSolved).db.jobs.rows.map
      JudgeJob.status = [.succeeded] := by decide +kernel
  ⟨_, by decide +kernel, settled_run sampleContest_initial sampleSolved_run 1 _ rfl
    (not_judges_of_status hstatus rfl)⟩

/-- The submission has ended with no points, and the participation keeps its 100. -/
theorem stale_score :
    let world := sampleContest.run samplePython (sampleSolved ++ sampleAbandoned)
    ∃ participation, world.db.participations.get? 1 = some participation ∧
      ¬ world.db.Judges 1 ∧ participation.score = 100 ∧
        ¬ world.db.Fresh samplePython.arith participation := by
  intro world
  have hstatus : world.db.jobs.rows.map JudgeJob.status = [.failed] := by decide +kernel
  refine ⟨_, rfl, not_judges_of_status hstatus rfl, by decide +kernel, fun hfresh => ?_⟩
  have hscores := congrArg ParticipationScores.score
    (hfresh.calculated (by decide +kernel) _ rfl)
  revert hscores
  decide +kernel

end World

end JudgeLoom
