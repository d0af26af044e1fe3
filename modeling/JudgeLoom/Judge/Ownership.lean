import JudgeLoom.Judge.LeaseInvariant

/-!
# Expired and foreign callbacks

A callback of a judge that does not hold the job, or that comes after the lease is
over, should raise and change nothing; a repeated `finish` or `fail` of the judge
that ended the job returns the submission and changes nothing either.

All four handlers keep this law except in one case, which
`Callback.ineffective_iff` singles out: `start` on a running job returns early,
after checking the claimant but not the lease, and gives the job a new lease.
-/

namespace JudgeLoom

/-- The four calls by which a worker reports on a job. -/
inductive Callback
  | start
  | cases (cases : List JudgeCaseIn)
  | finish (errorMessage : String)
  | fail (result errorMessage : String)

namespace Callback

/-- The call of `judge` on `job`. -/
def op (judge job : ℕ) : Callback → Op
  | start => .start judge job
  | cases reports => .recordCases judge job reports
  | finish errorMessage => .finish judge job errorMessage
  | fail result errorMessage => .fail judge job result errorMessage

/-- The call repeats the one that ended the job. -/
def Repeats (judge : ℕ) (job : JudgeJob) : Callback → Prop
  | finish _ => job.status = .succeeded ∧ job.claimedBy = some judge
  | fail _ _ => job.status = .failed ∧ job.claimedBy = some judge
  | _ => False

/-- The judge does not hold the job, or its lease is missing or over. -/
def Foreign (now : Time) (judge : ℕ) (job : JudgeJob) : Prop :=
  job.claimedBy ≠ some judge ∨ job.leaseOver now = true

/-- The call changes nothing: it raises, or it repeats the call that ended the job. -/
def Ineffective (P : Python) (world : World) (judge id : ℕ) (callback : Callback) : Prop :=
  world.step P (callback.op judge id) = world ∧
    ((∃ error, (callback.op judge id).perform P world.now world.db = .error error) ∨
      ∃ s, world.db.judging? id = some s ∧ callback.Repeats judge s.job)

/-- A `start` by the claimant of a running job. -/
def Restarts (judge : ℕ) (job : JudgeJob) (callback : Callback) : Prop :=
  callback = .start ∧ job.status = .running ∧ job.claimedBy = some judge

end Callback

open JudgeResultService Callback

variable {P : Python} {world : World} {judge id : ℕ} {s : Judging}

theorem JudgeJob.Owned.not_foreign {now : Time} {job : JudgeJob} (howned : job.Owned now judge) :
    ¬ Foreign now judge job := by
  rintro (hclaimedBy | hlease)
  · exact hclaimedBy howned.claimedBy
  · rw [howned.lease] at hlease
    cases hlease

/-- A call that raises is ineffective. -/
theorem Callback.ineffective_of_error {callback : Callback} {error : ServiceError}
    (herror : (callback.op judge id).perform P world.now world.db = .error error) :
    callback.Ineffective P world judge id :=
  ⟨World.step_of_error herror, Or.inl ⟨error, herror⟩⟩

/-- A call that repeats the one that ended the job succeeds and writes nothing. -/
theorem Callback.perform_of_repeats {now : Time} {db : Database} {callback : Callback}
    (hs : db.judging? id = some s) (hrepeats : callback.Repeats judge s.job) :
    (callback.op judge id).perform P now db = .ok db := by
  cases callback with
  | start => exact hrepeats.elim
  | cases reports => exact hrepeats.elim
  | finish errorMessage =>
      obtain ⟨hsucceeded, howner⟩ := hrepeats
      have hcall : JudgeResultService.finish P now judge id errorMessage db =
          .ok (s.submission, db) := by
        unfold JudgeResultService.finish
        rw [lockJob_eq_ok.mpr hs]
        simp [bind, Except.bind, hsucceeded, howner]
      exact Except.map_eq_ok.mpr ⟨_, hcall, rfl⟩
  | fail code errorMessage =>
      obtain ⟨hfailed, howner⟩ := hrepeats
      have hcall : JudgeResultService.fail P now judge id code errorMessage db =
          .ok (s.submission, db) := by
        unfold JudgeResultService.fail
        rw [lockJob_eq_ok.mpr hs]
        simp [bind, Except.bind, hfailed, howner]
      exact Except.map_eq_ok.mpr ⟨_, hcall, rfl⟩

theorem Callback.step_of_repeats {callback : Callback} (hs : world.db.judging? id = some s)
    (hrepeats : callback.Repeats judge s.job) :
    world.step P (callback.op judge id) = world := by
  rw [World.step_of_ok (perform_of_repeats hs hrepeats)]
  cases callback <;> simp [op, Op.elapsed]

/-- A foreign callback that does not restart the job changes nothing. -/
theorem Callback.ineffective_of_foreign {callback : Callback}
    (hs : world.db.judging? id = some s) (hforeign : Foreign world.now judge s.job)
    (hrestarts : ¬ callback.Restarts judge s.job) :
    callback.Ineffective P world judge id := by
  cases hcall : (callback.op judge id).perform P world.now world.db with
  | error error => exact ineffective_of_error hcall
  | ok db =>
      cases callback with
      | start =>
          obtain ⟨t, ht, ⟨hrunning, howner, _⟩ | ⟨howned, _⟩⟩ := start_eq_ok hcall
          all_goals obtain rfl : s = t := Option.some.inj (hs.symm.trans ht)
          · exact absurd ⟨rfl, hrunning, howner⟩ hrestarts
          · exact absurd hforeign howned.not_foreign
      | cases reports =>
          obtain ⟨t, ht, howned, _⟩ := recordCases_eq_ok hcall
          obtain rfl : s = t := Option.some.inj (hs.symm.trans ht)
          exact absurd hforeign howned.not_foreign
      | finish errorMessage =>
          obtain ⟨result, hresult, hdb⟩ := Except.map_eq_ok.mp hcall
          obtain ⟨t, ht, ⟨hsucceeded, howner, rfl⟩ | ⟨howned, _⟩⟩ := finish_eq_ok hresult
          all_goals obtain rfl : s = t := Option.some.inj (hs.symm.trans ht)
          · cases hdb
            have hrepeats : (finish errorMessage).Repeats judge s.job := ⟨hsucceeded, howner⟩
            exact ⟨step_of_repeats hs hrepeats, Or.inr ⟨s, hs, hrepeats⟩⟩
          · exact absurd hforeign howned.not_foreign
      | fail code errorMessage =>
          obtain ⟨result, hresult, hdb⟩ := Except.map_eq_ok.mp hcall
          obtain ⟨t, ht, ⟨hfailed, howner, rfl⟩ | ⟨howned, _⟩⟩ := fail_eq_ok hresult
          all_goals obtain rfl : s = t := Option.some.inj (hs.symm.trans ht)
          · cases hdb
            have hrepeats : (fail code errorMessage).Repeats judge s.job := ⟨hfailed, howner⟩
            exact ⟨step_of_repeats hs hrepeats, Or.inr ⟨s, hs, hrepeats⟩⟩
          · exact absurd hforeign howned.not_foreign

/-- A restart after the end of the lease gives the job a new lease. -/
theorem Callback.not_ineffective_of_restarts {callback : Callback}
    (hs : world.db.judging? id = some s) (hforeign : Foreign world.now judge s.job)
    (hrestarts : callback.Restarts judge s.job) :
    ¬ callback.Ineffective P world judge id := by
  obtain ⟨rfl, hrunning, howner⟩ := hrestarts
  have hlease : s.job.leaseOver world.now = true := hforeign.resolve_left (not_not.mpr howner)
  have hstart : (Op.start judge id).perform P world.now world.db =
      .ok (world.db.store { s with job := s.job.extendLease world.now }) := by
    change JudgeResultService.start world.now judge id world.db = _
    unfold JudgeResultService.start
    rw [lockJob_eq_ok.mpr hs]
    simp [bind, Except.bind, hrunning, howner]
  rintro ⟨hsame, _⟩
  change World.step P world (.start judge id) = world at hsame
  rw [World.step_of_ok hstart] at hsame
  have hdb := congrArg World.db hsame
  have hid := Database.id_of_judging? hs
  -- the stored job has the new lease, which is later than the old one
  have hjob : some (s.job.extendLease world.now) = some s.job := by
    rw [← (Database.judging?_eq_some.mp hs).1, ← hdb]
    simp [Database.store, JudgeJob.extendLease, hid]
  have hnew := congrArg JudgeJob.leaseExpiresAt (Option.some.inj hjob)
  rw [JudgeJob.extendLease] at hnew
  rw [JudgeJob.leaseOver, ← hnew] at hlease
  simp [leaseSeconds, second] at hlease

/-- In every state, a foreign callback changes nothing if and only if it is not a
`start` by the claimant of a running job. -/
theorem Callback.ineffective_iff (P : Python) (world : World) (judge id : ℕ)
    (callback : Callback) (hs : world.db.judging? id = some s)
    (hforeign : Foreign world.now judge s.job) :
    callback.Ineffective P world judge id ↔ ¬ callback.Restarts judge s.job :=
  ⟨fun hineffective hrestarts =>
    not_ineffective_of_restarts hs hforeign hrestarts hineffective,
    ineffective_of_foreign hs hforeign⟩

/-- A minute after its last sign of life, a worker that has started its job is gone. -/
def sampleSilence : World :=
  .run samplePython {}
    [.createSubmission sampleRequest, sampleClaim, .start 7 1, .advance 61000000]

/-- A late `finish` in that state changes nothing. -/
theorem Callback.ineffective_iff_finish :
    (Callback.finish "").Ineffective samplePython sampleSilence 7 1 :=
  (Callback.ineffective_iff samplePython sampleSilence 7 1 (.finish "") rfl
    (Or.inr (by decide))).mpr (by rintro ⟨h, _⟩; cases h)

/-- A late `start` in that state gives the job a new lease. -/
theorem Callback.start_restarts_expired : ∃ s, sampleSilence.db.judging? 1 = some s ∧
    Foreign sampleSilence.now 7 s.job ∧
      ¬ Callback.start.Ineffective samplePython sampleSilence 7 1 :=
  ⟨_, rfl, Or.inr (by decide),
    not_ineffective_of_restarts rfl (Or.inr (by decide)) ⟨rfl, by decide, by decide⟩⟩

end JudgeLoom
