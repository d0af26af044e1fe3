import JudgeLoom.Judge.LeaseInvariant

/-!
# The outcome of a job depends on its last reports

A job that is finished has the rows of the reports received since its last claim,
one row per case number, each with the contents of the last report of that number.
Its verdict, its points and its counters are functions of these rows and of the
package, so neither the batches and the order in which the reports came nor the
earlier attempts of the job leave a trace.

The proof follows the reports received since the last claim along a run
(`History`): `record_cases` upserts them, a claim finds no rows, and no other
operation touches the rows of a job that a worker holds.
-/

namespace JudgeLoom

open JudgeResultService

/-! ## Rows as last reports -/

/-- The last report of a case. -/
def lastReport (reports : List JudgeCaseIn) (caseNumber : ℕ) : Option JudgeCaseIn :=
  reports.reverse.find? fun report => report.caseNumber = caseNumber

theorem lastReport_append (reports : List JudgeCaseIn) (report : JudgeCaseIn) (caseNumber : ℕ) :
    lastReport (reports ++ [report]) caseNumber =
      if report.caseNumber = caseNumber then some report else lastReport reports caseNumber := by
  unfold lastReport
  rw [List.reverse_append, List.reverse_singleton, List.singleton_append, List.find?_cons]
  by_cases h : report.caseNumber = caseNumber <;> simp [h]

section Rows

variable {P : Python} {manifestCases : List Json}

/-- No report is stored under the number zero. -/
theorem get?_foldl_upsertCase_zero (reports : List JudgeCaseIn) :
    (reports.foldl (upsertCase P manifestCases) ∅).get? 0 = none := by
  induction reports using List.reverseRecOn with
  | nil => rfl
  | append_singleton reports report ih =>
      rw [List.foldl_append, List.foldl_cons, List.foldl_nil, upsertCase]
      split_ifs with hpositive
      · exact ih
      · have hne : (0 : ℕ) ≠ (reportRow P manifestCases report).caseNumber := by
          change 0 ≠ report.caseNumber.toNat
          omega
        rw [Table.get?_save, if_neg hne]
        exact ih

/-- The row of a case number is that of its last report. -/
theorem get?_foldl_upsertCase (reports : List JudgeCaseIn) {caseNumber : ℕ}
    (hpositive : 0 < caseNumber) :
    (reports.foldl (upsertCase P manifestCases) ∅).get? caseNumber =
      (lastReport reports caseNumber).map (reportRow P manifestCases) := by
  induction reports using List.reverseRecOn with
  | nil => rfl
  | append_singleton reports report ih =>
      rw [List.foldl_append, List.foldl_cons, List.foldl_nil, lastReport_append, upsertCase]
      by_cases hreport : report.caseNumber ≤ 0
      · have hne : report.caseNumber ≠ caseNumber := by omega
        rw [if_pos hreport, if_neg hne]
        exact ih
      · have hkey : caseNumber = (reportRow P manifestCases report).caseNumber ↔
            report.caseNumber = caseNumber := by
          change caseNumber = report.caseNumber.toNat ↔ _
          omega
        rw [if_neg hreport, Table.get?_save]
        by_cases hnumber : report.caseNumber = caseNumber
        · rw [if_pos (hkey.mpr hnumber), if_pos hnumber]
          rfl
        · rw [if_neg (mt hkey.mp hnumber), if_neg hnumber]
          exact ih

/-- Reports with the same last report of every case are stored as the same rows. -/
theorem foldl_upsertCase_congr {reports reports' : List JudgeCaseIn}
    (h : ∀ caseNumber, 0 < caseNumber →
      lastReport reports caseNumber = lastReport reports' caseNumber) :
    reports.foldl (upsertCase P manifestCases) ∅ =
      reports'.foldl (upsertCase P manifestCases) ∅ := by
  refine Table.ext_get? fun caseNumber => ?_
  rcases Nat.eq_zero_or_pos caseNumber with rfl | hpositive
  · rw [get?_foldl_upsertCase_zero, get?_foldl_upsertCase_zero]
  · rw [get?_foldl_upsertCase reports hpositive, get?_foldl_upsertCase reports' hpositive,
      h caseNumber hpositive]

end Rows

/-! ## The reports since the last claim -/

/-- A world with the reports that a job received since its last claim. -/
structure History where
  world : World
  reports : List JudgeCaseIn := []

namespace History

/-- The reports after an operation: a claim of the job forgets them, and a successful
`record_cases` adds its batch. -/
def reportsAfter (P : Python) (id : ℕ) (history : History) (op : Op) : List JudgeCaseIn :=
  match op with
  | .claimJob judge languages tie =>
      if (JudgeGatewayService.claimJob history.world.now judge languages tie
          history.world.db).1.map JudgeJob.id = some id then []
      else history.reports
  | .recordCases judge job cases =>
      if job = id ∧ (recordCases P history.world.now judge job cases history.world.db).isOk then
        history.reports ++ cases
      else history.reports
  | _ => history.reports

def step (P : Python) (id : ℕ) (history : History) (op : Op) : History where
  world := history.world.step P op
  reports := history.reportsAfter P id op

/-- The history of job `id` along a run. -/
def run (P : Python) (id : ℕ) (start : World) (ops : List Op) : History :=
  ops.foldl (step P id) { world := start }

theorem world_run (P : Python) (id : ℕ) (start : World) (ops : List Op) :
    (run P id start ops).world = start.run P ops :=
  (List.foldl_hom History.world fun _ _ => rfl).symm

end History

/-- The rows of a job that a worker holds are those of the reports. -/
def Judging.Recorded (P : Python) (reports : List JudgeCaseIn) (s : Judging) : Prop :=
  s.job.status.leased = true →
    s.testCases = reports.foldl (upsertCase P s.job.manifestCases) ∅

namespace Judging

variable {P : Python} {now : Time} {reports : List JudgeCaseIn} {s t : Judging}
  {event : JobEvent}

theorem recorded_of_unleased (h : s.job.status.leased = false) : s.Recorded P reports := by
  intro hleased
  rw [h] at hleased
  cases hleased

/-- A claimed job has no rows. -/
theorem recorded_claim (judge : ℕ) (hinv : s.LeaseInvariant) (hqueued : s.job.status = .queued) :
    { s with job := s.job.claim judge now }.Recorded P [] := by
  intro _
  exact (hinv.unjudged (Or.inl hqueued)).2

theorem recorded_expire (now : Time) (s : Judging) : (s.expire now).Recorded P reports := by
  refine recorded_of_unleased ?_
  unfold expire
  split <;> rfl

/-- A batch adds its reports. -/
theorem Recorded.record {cases : List JudgeCaseIn} {testCases : TestCases} {maxCase maxCase' : ℕ}
    (h : s.Recorded P reports) (hleased : s.job.status.leased = true)
    (hrecorded : cases.foldlM (recordCase P s.job.manifestCases) (s.testCases, maxCase) =
      .ok (testCases, maxCase')) {submission : Submission} :
    Judging.Recorded P (reports ++ cases) { job := s.job.record now, submission, testCases } := by
  intro _
  have hmanifest : (s.job.record now).manifestCases = s.job.manifestCases := by
    unfold JudgeJob.record JudgeJob.manifestCases
    dsimp only
    split <;> rfl
  calc testCases = cases.foldl (upsertCase P s.job.manifestCases) s.testCases :=
        foldlM_recordCase hrecorded
    _ = cases.foldl (upsertCase P s.job.manifestCases)
          (reports.foldl (upsertCase P s.job.manifestCases) ∅) := by rw [h hleased]
    _ = (reports ++ cases).foldl (upsertCase P (s.job.record now).manifestCases) ∅ := by
        rw [hmanifest, List.foldl_append]

/-- No other event touches the rows of a job that a worker holds. -/
theorem Recorded.step (h : s.Recorded P reports) (hclaim : ∀ judge, event ≠ .claim judge)
    (hrecord : ∀ judge cases, event ≠ .record judge cases) (hstep : Step P now s event t) :
    t.Recorded P reports := by
  cases hstep with
  | claim judge hqueued => exact absurd rfl (hclaim judge)
  | record judge cases howned hrecorded => exact absurd rfl (hrecord judge cases)
  | start judge howned hclaimed =>
      intro _
      exact h howned.leased
  | extend judge hleased => exact h
  | finish judge errorMessage howned houtcome => exact recorded_of_unleased rfl
  | fail judge result errorMessage howned => exact recorded_of_unleased rfl
  | expire hstale => exact recorded_expire now s
  | reset config => exact recorded_of_unleased rfl

theorem New.recorded (hnew : s.New) : s.Recorded P reports := by
  refine recorded_of_unleased ?_
  rw [hnew.status]
  rfl

end Judging

namespace History

variable {P : Python} {id : ℕ} {history : History} {op : Op}

/-- A valid world in which the rows of job `id` are those of its reports. -/
structure Faithful (P : Python) (id : ℕ) (history : History) : Prop where
  valid : history.world.Valid
  recorded : ∀ s ∈ history.world.db.judging? id, s.Recorded P history.reports

theorem recorded_claimJob (h : history.Faithful P id) (judge : ℕ) (languages : List String)
    (tie : ℕ) :
    ∀ s ∈ (JudgeGatewayService.claimJob history.world.now judge languages tie
        history.world.db).2.judging? id,
      s.Recorded P (history.reportsAfter P id (.claimJob judge languages tie)) := by
  have hexpire : ∀ (job : ℕ) (s : Judging), (job = id → s.Recorded P history.reports) →
      s.job.stale history.world.now = true →
        job = id → (s.expire history.world.now).Recorded P history.reports :=
    fun _ s _ _ _ => Judging.recorded_expire _ s
  have hbefore : ∀ job, ∀ s ∈ history.world.db.judging? job,
      job = id → s.Recorded P history.reports := by
    rintro job s hs rfl
    exact h.recorded s hs
  unfold reportsAfter
  dsimp only
  rcases h.valid.claimJob_cases judge languages tie hexpire hbefore with
    ⟨hnone, hothers⟩ | ⟨s, hinv, hqueued, hsome, hclaimed, hothers⟩
  · rw [hnone]
    exact fun s hs => hothers id s hs rfl
  · rw [hsome]
    change ∀ t ∈ _,
      Judging.Recorded P (if some s.job.id = some id then [] else history.reports) t
    by_cases hid : id = s.job.id
    · rw [if_pos (by rw [hid]), hid, hclaimed]
      simpa using Judging.recorded_claim judge hinv hqueued
    · rw [if_neg (by simpa using Ne.symm hid)]
      exact fun t ht => hothers id hid t ht rfl

theorem recorded_recordCases (h : history.Faithful P id) {judge job : ℕ}
    {cases : List JudgeCaseIn} {db : Database}
    (hok : recordCases P history.world.now judge job cases history.world.db = .ok db) :
    ∀ s ∈ db.judging? id, s.Recorded P (history.reportsAfter P id (.recordCases judge job cases)) := by
  obtain ⟨s, hs, howned, testCases, maxCase, hrecorded, rfl⟩ := recordCases_eq_ok hok
  have hjob := Database.id_of_judging? hs
  have hwork := (Judging.Step.record (P := P) judge cases howned hrecorded).sameWork
  rw [Database.judging?_store
    (h.valid.consistent.fits hs hwork.job_id hwork.job_submission hwork.submission_id),
    hwork.job_id, hjob]
  unfold reportsAfter
  dsimp only
  rw [hok]
  by_cases hid : id = job
  · subst hid
    simpa [Except.isOk, Except.toBool] using
      (h.recorded s hs).record howned.leased hrecorded
  · simpa [hid, Ne.symm hid] using h.recorded

theorem Faithful.step (h : history.Faithful P id) : (history.step P id op).Faithful P id := by
  refine ⟨h.valid.step, ?_⟩
  change ∀ s ∈ (history.world.step P op).db.judging? id,
    s.Recorded P (history.reportsAfter P id op)
  cases hcall : op.perform P history.world.now history.world.db with
  | error error =>
      rw [World.step_of_error hcall]
      cases op with
      | claimJob => cases hcall
      | recordCases judge job cases =>
          have hfailed : reportsAfter P id history (.recordCases judge job cases) =
              history.reports := by
            have herror : recordCases P history.world.now judge job cases history.world.db =
              .error error := hcall
            simp [reportsAfter, herror, Except.isOk, Except.toBool]
          rw [hfailed]
          exact h.recorded
      | _ => exact h.recorded
  | ok db =>
      rw [World.step_of_ok hcall]
      obtain ⟨_, hchange⟩ := Op.perform_change h.valid.consistent hcall
      have hother (hclaim : ∀ judge, ¬ op.Permits id (.claim judge))
          (hrecord : ∀ judge cases, ¬ op.Permits id (.record judge cases)) :
          ∀ s ∈ db.judging? id, s.Recorded P history.reports := by
        refine (hchange id).keep (fun s hnew => hnew.recorded)
          (fun event hevent s t hs hstep => hs.step ?_ ?_ hstep) h.recorded
        · rintro judge rfl
          exact hclaim judge hevent
        · rintro judge cases rfl
          exact hrecord judge cases hevent
      cases op with
      | claimJob judge languages tie =>
          cases hcall
          exact recorded_claimJob h judge languages tie
      | recordCases judge job cases => exact recorded_recordCases h hcall
      | _ => exact hother (by simp [Op.Permits]) (by simp [Op.Permits])

theorem faithful_run {start : World} (hstart : start.Initial) (ops : List Op) :
    (run P id start ops).Faithful P id := by
  have hinitial : Faithful P id { world := start } :=
    ⟨hstart.valid, by simp [hstart.judging? id]⟩
  exact (Run.foldl (step P id) _ ops).invariant hinitial fun _ _ _ h hnext => hnext ▸ h.step

end History

/-! ## Finished jobs -/

/-- The fields of a submission that its judging determines, timestamps apart. -/
structure Submission.SameOutcome (first second : Submission) : Prop where
  status : first.status = second.status
  result : first.result = second.result
  points : first.points = second.points
  subtaskScores : first.subtaskScores = second.subtaskScores
  timeUsed : first.timeUsed = second.timeUsed
  memoryUsed : first.memoryUsed = second.memoryUsed
  caseTotal : first.caseTotal = second.caseTotal
  casePassed : first.casePassed = second.casePassed
  currentTestcase : first.currentTestcase = second.currentTestcase

namespace Submission.SameOutcome

variable {first second third : Submission}

theorem symm (h : first.SameOutcome second) : second.SameOutcome first :=
  ⟨h.status.symm, h.result.symm, h.points.symm, h.subtaskScores.symm, h.timeUsed.symm,
    h.memoryUsed.symm, h.caseTotal.symm, h.casePassed.symm, h.currentTestcase.symm⟩

theorem trans (h : first.SameOutcome second) (h' : second.SameOutcome third) :
    first.SameOutcome third :=
  ⟨h.status.trans h'.status, h.result.trans h'.result, h.points.trans h'.points,
    h.subtaskScores.trans h'.subtaskScores, h.timeUsed.trans h'.timeUsed,
    h.memoryUsed.trans h'.memoryUsed, h.caseTotal.trans h'.caseTotal,
    h.casePassed.trans h'.casePassed, h.currentTestcase.trans h'.currentTestcase⟩

end Submission.SameOutcome

/-- The score of a submission is a function of its package and its rows. -/
theorem scoredOutcome_congr {P : Python} {package : ProblemPackage} {testCases : TestCases}
    {first second scored scored' : Submission}
    (h : scoredOutcome P package testCases first = .ok scored)
    (h' : scoredOutcome P package testCases second = .ok scored') :
    scored.SameOutcome scored' := by
  unfold scoredOutcome at h h'
  cases hscore : ScoringService.score P package (testCases.rows.map casePayload) with
  | error error =>
      rw [hscore] at h
      cases h
  | ok summary =>
      rw [hscore] at h h'
      cases h
      cases h'
      exact ⟨rfl, rfl, rfl, rfl, rfl, rfl, rfl, rfl, rfl⟩

/-- A run at whose end a judge finishes job `id`. -/
structure FinishedRun (P : Python) (id : ℕ) where
  start : World
  ops : List Op
  judge : ℕ
  errorMessage : String
  /-- The job before the last call. -/
  before : Judging
  /-- The job after the last call. -/
  after : Judging
  initial : start.Initial
  before_eq : (start.run P ops).db.judging? id = some before
  after_eq : (start.run P (ops ++ [.finish judge id errorMessage])).db.judging? id = some after
  unfinished : before.job.status ≠ .succeeded
  finished : after.job.status = .succeeded

namespace FinishedRun

variable {P : Python} {id : ℕ}

/-- The reports that the job received since its last claim. -/
def reports (h : FinishedRun P id) : List JudgeCaseIn := (History.run P id h.start h.ops).reports

/-- The rows after the last call are those of the reports, and the verdict is their
score. -/
theorem after_spec (h : FinishedRun P id) (hmode : h.before.submission.mode = .submit) :
    h.after.testCases = h.reports.foldl (upsertCase P h.before.job.manifestCases) ∅ ∧
      ∃ package scored, h.before.job.package = some package ∧
        scoredOutcome P package h.after.testCases h.before.submission = .ok scored ∧
          h.after.submission.SameOutcome scored := by
  have hfaithful : (History.run P id h.start h.ops).Faithful P id :=
    History.faithful_run h.initial h.ops
  have hworld : (History.run P id h.start h.ops).world = h.start.run P h.ops :=
    History.world_run P id h.start h.ops
  have hvalid := hfaithful.valid
  have hrecorded := hfaithful.recorded h.before (by rw [hworld]; exact h.before_eq)
  have hafter := h.after_eq
  rw [hworld] at hvalid
  rw [World.run_append] at hafter
  change ((h.start.run P h.ops).step P _).db.judging? id = _ at hafter
  cases hcall : (Op.finish h.judge id h.errorMessage).perform P (h.start.run P h.ops).now
      (h.start.run P h.ops).db with
  | error error =>
      -- a rejected call would leave the job unfinished
      rw [World.step_of_error hcall, h.before_eq] at hafter
      exact absurd (Option.some.inj hafter ▸ h.finished) h.unfinished
  | ok db =>
      rw [World.step_of_ok hcall] at hafter
      obtain ⟨result, hresult, rfl⟩ := Except.map_eq_ok.mp hcall
      obtain ⟨s, hs, ⟨hsucceeded, _, _⟩ | ⟨howned, submission, houtcome, rfl⟩⟩ :=
        finish_eq_ok hresult
      all_goals obtain rfl : h.before = s := Option.some.inj (h.before_eq.symm.trans hs)
      · exact absurd hsucceeded h.unfinished
      · have hwork := (Judging.Step.finish (P := P) h.judge h.errorMessage howned houtcome).sameWork
        have hfits := hvalid.consistent.fits hs hwork.job_id hwork.job_submission
          hwork.submission_id
        have hid : id = h.before.job.id := (Database.id_of_judging? hs).symm
        rw [close, Database.judging?_refreshContestScore, Database.judging?_store hfits,
          hwork.job_id, if_pos hid] at hafter
        rw [← Option.some.inj hafter]
        refine ⟨hrecorded howned.leased, ?_⟩
        unfold outcome at houtcome
        rw [hmode] at houtcome
        cases hpackage : h.before.job.package with
        | none =>
            rw [hpackage] at houtcome
            cases houtcome
        | some package =>
            rw [hpackage] at houtcome
            exact ⟨package, submission, rfl, houtcome,
              ⟨rfl, rfl, rfl, rfl, rfl, rfl, rfl, rfl, rfl⟩⟩

end FinishedRun

/-- Two runs that finish the same job of a package, after reports of which the last one
of every case is the same, leave the same rows and the same outcome.  The reports are
those since the last claim; whatever happened before it leaves no trace. -/
theorem outcome_eq_of_lastReport_eq (P : Python) {id : ℕ} (first second : FinishedRun P id)
    (hmode : first.before.submission.mode = .submit)
    (hmode' : second.before.submission.mode = .submit)
    (hpackage : first.before.job.package = second.before.job.package)
    (hreports : ∀ caseNumber, 0 < caseNumber →
      lastReport first.reports caseNumber = lastReport second.reports caseNumber) :
    first.after.testCases = second.after.testCases ∧
      first.after.submission.SameOutcome second.after.submission := by
  obtain ⟨hrows, package, scored, hfirst, hscored, hsame⟩ := first.after_spec hmode
  obtain ⟨hrows', package', scored', hsecond, hscored', hsame'⟩ := second.after_spec hmode'
  have hmanifest : first.before.job.manifestCases = second.before.job.manifestCases := by
    rw [JudgeJob.manifestCases, JudgeJob.manifestCases, hpackage]
  have htestCases : first.after.testCases = second.after.testCases := by
    rw [hrows, hrows', hmanifest]
    exact foldl_upsertCase_congr hreports
  obtain rfl : package = package' := by
    rw [hpackage, hsecond] at hfirst
    exact (Option.some.inj hfirst).symm
  rw [htestCases] at hscored
  exact ⟨htestCases, (hsame.trans (scoredOutcome_congr hscored hscored')).trans hsame'.symm⟩

/-- The first attempt succeeds. -/
def sampleDirect : FinishedRun samplePython 1 where
  start := {}
  ops := [.createSubmission sampleRequest, sampleClaim, .recordCases 7 1 [sampleAccepted]]
  judge := 7
  errorMessage := ""
  before := Option.get _ rfl
  after := Option.get _ rfl
  initial := World.initial_empty 0
  before_eq := (Option.some_get _).symm
  after_eq := (Option.some_get _).symm
  unfinished := by decide
  finished := by decide +kernel

/-- The first attempt reports a wrong answer and dies; the second one reports twice. -/
def sampleRetried : FinishedRun samplePython 1 where
  start := {}
  ops :=
    [.createSubmission sampleRequest, sampleClaim, .start 7 1,
      .recordCases 7 1 [{ caseNumber := 1, status := "WA", totalPoints := 100 }],
      .advance 61000000, .claimJob 8 ["python"] 0,
      .recordCases 8 1 [{ caseNumber := 1, status := "TLE", totalPoints := 100 }, sampleAccepted],
      .recordCases 8 1 [sampleAccepted]]
  judge := 8
  errorMessage := ""
  before := Option.get _ rfl
  after := Option.get _ rfl
  initial := World.initial_empty 0
  before_eq := (Option.some_get _).symm
  after_eq := (Option.some_get _).symm
  unfinished := by decide
  finished := by decide +kernel

theorem outcome_eq_of_lastReport_eq_sample :
    sampleDirect.reports.length = 1 ∧ sampleRetried.reports.length = 3 ∧
      sampleDirect.after.testCases = sampleRetried.after.testCases ∧
        sampleDirect.after.submission.SameOutcome sampleRetried.after.submission := by
  refine ⟨by decide, by decide, ?_⟩
  refine outcome_eq_of_lastReport_eq samplePython sampleDirect sampleRetried (by decide)
    (by decide) rfl fun caseNumber hpositive => ?_
  have hdirect : sampleDirect.reports = [sampleAccepted] := rfl
  have hretried : sampleRetried.reports =
      [{ caseNumber := 1, status := "TLE", totalPoints := 100 }, sampleAccepted] ++
        [sampleAccepted] := rfl
  rw [hdirect, hretried, lastReport_append]
  by_cases hone : (1 : ℤ) = caseNumber <;> simp [lastReport, sampleAccepted, hone]

end JudgeLoom
