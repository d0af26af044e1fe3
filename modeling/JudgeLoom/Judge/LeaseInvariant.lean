import JudgeLoom.Judge.Transitions

/-!
# The lease invariant

The columns of a job and of its submission that the services write separately
agree in every reachable state.  The invariant is about one job with its
submission; it holds when the job is created and is preserved by every event of
its life cycle, expiry at the attempt limit and rejudging from any state included.
-/

namespace JudgeLoom

/-- A submission that waits for its first verdict. -/
structure Submission.Unjudged (submission : Submission) : Prop where
  status : submission.status = .queued
  result : submission.result = none
  points : submission.points = 0
  timeUsed : submission.timeUsed = 0
  memoryUsed : submission.memoryUsed = 0
  caseTotal : submission.caseTotal = 0
  casePassed : submission.casePassed = 0
  currentTestcase : submission.currentTestcase = 0

theorem Submission.unjudged_unjudged (submission : Submission) : submission.unjudged.Unjudged :=
  ⟨rfl, rfl, rfl, rfl, rfl, rfl, rfl, rfl⟩

/-- What the columns of a job and of its submission say about each other. -/
structure Judging.LeaseInvariant (s : Judging) : Prop where
  leased : s.job.status.leased = true →
    s.job.leaseExpiresAt ≠ none ∧ s.job.claimedBy ≠ none
  unleased : s.job.status.leased = false → s.job.leaseExpiresAt = none
  attempts : s.job.attempts ≤ s.job.maxAttempts
  queued : s.job.status = .queued →
    s.job.claimedBy = none ∧ s.job.attempts < s.job.maxAttempts
  unjudged : s.job.status = .queued ∨ s.job.status = .claimed →
    s.submission.Unjudged ∧ s.testCases = ∅
  running : s.job.status = .running → s.submission.status = .judging
  succeeded : s.job.status = .succeeded →
    (s.submission.status = .completed ∨ s.submission.status = .error) ∧ s.submission.result ≠ none
  failed : s.job.status = .failed →
    s.submission.status = .error ∧
      (s.submission.result = some .CE ∨ s.submission.result = some .IE) ∧ s.submission.points = 0

namespace Judging

variable {P : Python} {now : Time} {s t : Judging} {event : JobEvent}

theorem New.leaseInvariant (hnew : s.New) : s.LeaseInvariant where
  leased hleased := by simp [hnew.status, JudgeJobStatus.leased] at hleased
  unleased _ := hnew.lease
  attempts := by simp [hnew.attempts]
  queued _ := ⟨hnew.claimedBy, by simp [hnew.attempts]⟩
  unjudged _ := ⟨hnew.submission ▸ s.submission.unjudged_unjudged, hnew.testCases⟩
  running hrunning := by simp [hnew.status] at hrunning
  succeeded hsucceeded := by simp [hnew.status] at hsucceeded
  failed hfailed := by simp [hnew.status] at hfailed

/-- The outcome of a job is a final status with a verdict. -/
theorem outcome_final {submission : Submission}
    (h : JudgeResultService.outcome P s = .ok submission) :
    (submission.status = .completed ∨ submission.status = .error) ∧ submission.result ≠ none := by
  unfold JudgeResultService.outcome at h
  split at h
  · cases h
    unfold JudgeResultService.runOutcome
    split <;> simp
  · cases h
  · unfold JudgeResultService.scoredOutcome at h
    split at h
    · cases h
    · next summary hscore =>
        cases h
        exact ⟨ScoringService.score_status hscore, by simp⟩

theorem failResult_eq_or (code : String) :
    JudgeResultService.failResult code = .CE ∨ JudgeResultService.failResult code = .IE := by
  unfold JudgeResultService.failResult
  split <;> simp

/-- A job that ended in an error, whatever ended it. -/
theorem leaseInvariant_of_failed (hattempts : s.job.attempts ≤ s.job.maxAttempts)
    (hstatus : s.job.status = .failed) (hlease : s.job.leaseExpiresAt = none)
    (herror : s.submission.status = .error)
    (hresult : s.submission.result = some .CE ∨ s.submission.result = some .IE)
    (hpoints : s.submission.points = 0) : s.LeaseInvariant where
  leased hleased := by simp [hstatus, JudgeJobStatus.leased] at hleased
  unleased _ := hlease
  attempts := hattempts
  queued hqueued := by simp [hstatus] at hqueued
  unjudged hwaiting := by simp [hstatus] at hwaiting
  running hrunning := by simp [hstatus] at hrunning
  succeeded hsucceeded := by simp [hstatus] at hsucceeded
  failed _ := ⟨herror, hresult, hpoints⟩

/-- A job that waits in the queue, whatever put it there. -/
theorem leaseInvariant_of_queued (hstatus : s.job.status = .queued)
    (hclaimedBy : s.job.claimedBy = none) (hlease : s.job.leaseExpiresAt = none)
    (hattempts : s.job.attempts < s.job.maxAttempts) (hsubmission : s.submission.Unjudged)
    (htestCases : s.testCases = ∅) : s.LeaseInvariant where
  leased hleased := by simp [hstatus, JudgeJobStatus.leased] at hleased
  unleased _ := hlease
  attempts := hattempts.le
  queued _ := ⟨hclaimedBy, hattempts⟩
  unjudged _ := ⟨hsubmission, htestCases⟩
  running hrunning := by simp [hstatus] at hrunning
  succeeded hsucceeded := by simp [hstatus] at hsucceeded
  failed hfailed := by simp [hstatus] at hfailed

/-- A job that runs under a lease. -/
theorem leaseInvariant_of_running (hstatus : s.job.status = .running)
    (hclaimedBy : s.job.claimedBy ≠ none) (hlease : s.job.leaseExpiresAt ≠ none)
    (hattempts : s.job.attempts ≤ s.job.maxAttempts)
    (hsubmission : s.submission.status = .judging) : s.LeaseInvariant where
  leased _ := ⟨hlease, hclaimedBy⟩
  unleased hunleased := by simp [hstatus, JudgeJobStatus.leased] at hunleased
  attempts := hattempts
  queued hqueued := by simp [hstatus] at hqueued
  unjudged hwaiting := by simp [hstatus] at hwaiting
  running _ := hsubmission
  succeeded hsucceeded := by simp [hstatus] at hsucceeded
  failed hfailed := by simp [hstatus] at hfailed

theorem leaseInvariant_expire (hinv : s.LeaseInvariant) (now : Time) :
    (s.expire now).LeaseInvariant := by
  unfold expire
  split
  · exact leaseInvariant_of_failed hinv.attempts rfl rfl rfl (Or.inr rfl) rfl
  · next hlimit =>
      exact leaseInvariant_of_queued rfl rfl rfl (not_le.mp hlimit)
        s.submission.unjudged_unjudged rfl

/-- Every event in the life of a job preserves the invariant. -/
theorem LeaseInvariant.step (hinv : s.LeaseInvariant) (h : Step P now s event t) :
    t.LeaseInvariant := by
  cases h with
  | claim judge hqueued =>
      exact {
        leased := fun _ => ⟨by simp [JudgeJob.claim], by simp [JudgeJob.claim]⟩
        unleased := fun hunleased => by simp [JudgeJob.claim, JudgeJobStatus.leased] at hunleased
        attempts := (hinv.queued hqueued).2
        queued := fun h => by simp [JudgeJob.claim] at h
        unjudged := fun _ => hinv.unjudged (Or.inl hqueued)
        running := fun h => by simp [JudgeJob.claim] at h
        succeeded := fun h => by simp [JudgeJob.claim] at h
        failed := fun h => by simp [JudgeJob.claim] at h }
  | start judge howned hclaimed =>
      exact leaseInvariant_of_running rfl (hinv.leased howned.leased).2
        (by simp [JudgeJob.start]) hinv.attempts rfl
  | extend judge hleased =>
      have hstatus : s.job.status.leased = true := by
        simp only [JudgeJob.leasedBy, Bool.and_eq_true] at hleased
        exact hleased.2
      exact { hinv with
        leased := fun _ => ⟨by simp [JudgeJob.extendLease], (hinv.leased hstatus).2⟩
        unleased := fun hunleased => absurd (hstatus.symm.trans hunleased) (by decide) }
  | record judge cases howned hrecorded =>
      refine leaseInvariant_of_running (JudgeJob.status_record howned.leased now) ?_ ?_ ?_ rfl
      · simpa using (hinv.leased howned.leased).2
      · simp [JudgeJob.record, JudgeJob.extendLease]
      · simpa using hinv.attempts
  | finish judge errorMessage howned houtcome =>
      have hfinal := outcome_final houtcome
      exact {
        leased := fun h => by simp [JudgeJob.succeed, JudgeJobStatus.leased] at h
        unleased := fun _ => rfl
        attempts := hinv.attempts
        queued := fun h => by simp [JudgeJob.succeed] at h
        unjudged := fun h => by simp [JudgeJob.succeed] at h
        running := fun h => by simp [JudgeJob.succeed] at h
        succeeded := fun _ => hfinal
        failed := fun h => by simp [JudgeJob.succeed] at h }
  | fail judge result errorMessage howned =>
      refine leaseInvariant_of_failed hinv.attempts rfl rfl rfl ?_ rfl
      simpa [Submission.erroneous] using failResult_eq_or result
  | expire hstale => exact leaseInvariant_expire hinv now
  | reset config =>
      exact leaseInvariant_of_queued rfl rfl rfl s.job.maxAttempts.pos
        s.submission.unjudged_unjudged rfl

theorem leaseInvariant_of_change {permits : JobEvent → Prop} {before after : Option Judging}
    (h : Change P now permits before after) (hbefore : ∀ s ∈ before, s.LeaseInvariant) :
    ∀ t ∈ after, t.LeaseInvariant :=
  h.keep (fun _ hnew => hnew.leaseInvariant) (fun _ _ _ _ hinv hstep => hinv.step hstep) hbefore

end Judging

/-- The tables are consistent, and every job satisfies the lease invariant. -/
structure World.Valid (world : World) : Prop where
  consistent : world.db.Consistent
  leases : ∀ id, ∀ s ∈ world.db.judging? id, s.LeaseInvariant

namespace World

variable {P : Python} {world : World} {op : Op}

theorem Initial.consistent (h : world.Initial) : world.db.Consistent where
  submission_exists := by simp [h.jobs]
  submission_unique := by simp [h.jobs]
  testCases_owned _ _ := h.testCases _

theorem Initial.judging? (h : world.Initial) (id : ℕ) : world.db.judging? id = none := by
  rw [h.consistent.judging?_eq_none, h.jobs]
  rfl

theorem Initial.valid (h : world.Initial) : world.Valid where
  consistent := h.consistent
  leases id := by simp [h.judging? id]

theorem Valid.step (hvalid : world.Valid) : (world.step P op).Valid := by
  refine step_cases hvalid fun db hok => ?_
  obtain ⟨hconsistent, hchange⟩ := Op.perform_change hvalid.consistent hok
  exact ⟨hconsistent, fun id =>
    Judging.leaseInvariant_of_change (hchange id) (hvalid.leases id)⟩

theorem Valid.run (hvalid : world.Valid) (ops : List Op) : (world.run P ops).Valid :=
  run_invariant hvalid fun _ _ hvalid => hvalid.step

/-- What expiry keeps holds after `claim_job` of every job but the claimed one, which
was queued and satisfied the lease invariant. -/
theorem Valid.claimJob_cases (hvalid : world.Valid) (judge : ℕ) (languages : List String)
    (tie : ℕ) {Q : ℕ → Judging → Prop}
    (hexpire : ∀ id s, Q id s → s.job.stale world.now = true → Q id (s.expire world.now))
    (hbefore : ∀ id, ∀ s ∈ world.db.judging? id, Q id s) :
    let claimed := JudgeGatewayService.claimJob world.now judge languages tie world.db
    (claimed.1 = none ∧ ∀ id, ∀ s ∈ claimed.2.judging? id, Q id s) ∨
      ∃ s : Judging, s.LeaseInvariant ∧ s.job.status = .queued ∧
        claimed.1 = some (s.job.claim judge world.now) ∧
          claimed.2.judging? s.job.id = some { s with job := s.job.claim judge world.now } ∧
            ∀ id, id ≠ s.job.id → ∀ t ∈ claimed.2.judging? id, Q id t := by
  intro claimed
  have hexpired : ∀ id, ∀ t ∈
      (JudgeGatewayService.expireStaleJobs world.now world.db).2.judging? id,
        t.LeaseInvariant ∧ Q id t := by
    intro id t ht
    rw [JudgeGatewayService.judging?_expireStaleJobs hvalid.consistent] at ht
    obtain ⟨s, hs, rfl⟩ := Option.map_eq_some_iff.mp ht
    have hinv := hvalid.leases id s hs
    have hs := hbefore id s hs
    split_ifs with hstale
    · exact ⟨Judging.leaseInvariant_expire hinv world.now, hexpire id s hs hstale⟩
    · exact ⟨hinv, hs⟩
  rcases JudgeGatewayService.claimJob_cases hvalid.consistent world.now judge languages tie with
    hnone | ⟨s, hs, hqueued, hsome⟩
  · rw [show claimed = _ from hnone]
    exact Or.inl ⟨rfl, fun id t ht => (hexpired id t ht).2⟩
  · rw [show claimed = _ from hsome]
    have hc := JudgeGatewayService.consistent_expireStaleJobs hvalid.consistent world.now
    have hstore := Database.judging?_store
      (hc.fits hs (t := { s with job := s.job.claim judge world.now }) rfl rfl rfl)
    refine Or.inr ⟨s, (hexpired _ s hs).1, hqueued, rfl, ?_, fun id hid t ht => ?_⟩
    · rw [hstore]
      exact if_pos rfl
    · rw [hstore] at ht
      change t ∈ (if id = s.job.id then _ else _) at ht
      rw [if_neg hid] at ht
      exact (hexpired id t ht).2

/-- After every run, every job has its submission, and the two satisfy the invariant. -/
theorem leaseInvariant_run (P : Python) (hinitial : world.Initial) (ops : List Op) :
    ∀ job ∈ (world.run P ops).db.jobs.rows, ∃ s : Judging,
      (world.run P ops).db.judging? job.id = some s ∧ s.job = job ∧ s.LeaseInvariant := by
  have hvalid := hinitial.valid.run (P := P) ops
  intro job hjob
  obtain ⟨s, hs, hsame⟩ := hvalid.consistent.judging?_of_mem hjob
  exact ⟨s, hs, hsame, hvalid.leases job.id s hs⟩

theorem leaseInvariant_run_claimed :
    let world := World.run samplePython {} [.createSubmission sampleRequest, sampleClaim]
    world.db.jobs.rows.map JudgeJob.status = [.claimed] ∧
      ∀ job ∈ world.db.jobs.rows, ∃ s : Judging,
        world.db.judging? job.id = some s ∧ s.job = job ∧ s.LeaseInvariant :=
  ⟨by decide, leaseInvariant_run samplePython (initial_empty 0) _⟩

end World

end JudgeLoom
