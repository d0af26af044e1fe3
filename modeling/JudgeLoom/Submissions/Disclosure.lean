import JudgeLoom.Submissions.Erasure

/-!
# What the feed of a submission discloses

Two runs that differ in private texts only leave the same details for a viewer who may
not see private data: REST masks the error message.  The feed does not.  A client joins
it under `can_view_submission`, and `record_cases` and `fail` publish the texts of the
reports and the error message to all who joined.

`observe_eq_iff` says which pairs of runs such a viewer can tell apart: those in which,
at some call after the viewer has joined, the reports recorded for the submission or the
error message with which its job fails differ.
-/

namespace JudgeLoom

open Noninterference

/-! ## Events of a call -/

/-- A call that publishes no text of its own. -/
def Op.Silent : Op → Prop
  | recordCases _ _ _ => False
  | fail _ _ _ _ => False
  | _ => True

/-- The texts of a batch of reports. -/
def caseTexts (cases : List JudgeCaseIn) : List String :=
  cases.flatMap fun report => [report.feedback, report.output]

/-- The private texts that a call hands to the feed of submission `id`: those of the
reports that it records for the submission, and the error message with which it ends the
submission's job. -/
def World.disclosed (P : Python) (id : ℕ) (world : World) (op : Op) : List String :=
  match op.perform P world.now world.db, op with
  | .ok _, .recordCases _ job cases =>
      if (world.db.judging? job).any fun s => s.submission.id = id then caseTexts cases else []
  | .ok _, .fail _ job _ errorMessage =>
      if (world.db.judging? job).any fun s => s.submission.id = id ∧ s.job.status ≠ .failed then
        [errorMessage]
      else []
  | _, _ => []

section Events

variable {P : Python} {now : Time} {db db' : Database} {id : ℕ}

theorem finishEvents_publicPart (P : Python) (s : Judging) :
    s.publicPart.finishEvents P = s.finishEvents P := by
  have hstatus : s.publicPart.job.status = s.job.status := rfl
  unfold Judging.finishEvents
  rw [hstatus, JudgeResultService.outcome_publicPart]
  cases JudgeResultService.outcome P s <;> rfl

theorem expireEvents_publicPart (now : Time) (db : Database) :
    db.publicPart.expireEvents now = db.expireEvents now := by
  unfold Database.expireEvents
  rw [JudgeGatewayService.staleJobs_publicPart]
  congr 1
  funext job
  rw [Database.judging?_publicPart, Option.map_map]
  rfl

/-- The events of a silent call depend on the public part only. -/
theorem Op.events_publicPart {op : Op} (h : op.Silent) :
    op.publicPart.events P now db.publicPart = op.events P now db := by
  have helim (job : ℕ) (f : Judging → List SubmissionEvent)
      (hf : ∀ s : Judging, f s.publicPart = f s) :
      (db.publicPart.judging? job).elim [] f = (db.judging? job).elim [] f := by
    rw [Database.judging?_publicPart]
    cases db.judging? job with
    | none => rfl
    | some s => exact hf s
  cases op with
  | advance elapsed => rfl
  | createSubmission request =>
      have hkey : db.publicPart.submissions.nextKey = db.submissions.nextKey :=
        Table.nextKey_map _ _ Submission.id_publicPart
      change [SubmissionEvent.status db.publicPart.submissions.nextKey _ _] = _
      rw [hkey]
      rfl
  | claimJob judge languages tie => exact expireEvents_publicPart now db
  | start judge job => exact helim job _ fun _ => rfl
  | recordCases judge job cases => exact absurd h id
  | finish judge job errorMessage => exact helim job _ (finishEvents_publicPart P)
  | fail judge job result errorMessage => exact absurd h id
  | heartbeat judge => rfl
  | expireStaleJobs => exact expireEvents_publicPart now db
  | rejudgeSubmission submission context => rfl

theorem Op.silent_publicPart {op : Op} : op.publicPart.Silent ↔ op.Silent := by
  cases op <;> exact Iff.rfl

/-- Equal texts and equal public parts make equal reports. -/
theorem caseTexts_eq_iff : ∀ {cases cases' : List JudgeCaseIn},
    cases.map JudgeCaseIn.publicPart = cases'.map JudgeCaseIn.publicPart →
      (cases = cases' ↔ caseTexts cases = caseTexts cases') := by
  intro cases
  induction cases with
  | nil =>
      intro cases' h
      rw [List.map_nil, eq_comm, List.map_eq_nil_iff] at h
      rw [h]
      exact iff_of_true rfl rfl
  | cons report rest ih =>
      intro cases' h
      cases cases' with
      | nil => simp at h
      | cons report' rest' =>
          rw [List.map_cons, List.map_cons, List.cons.injEq] at h
          have hreport : report = report' ↔
              report.feedback = report'.feedback ∧ report.output = report'.output := by
            constructor
            · rintro rfl
              exact ⟨rfl, rfl⟩
            · rintro ⟨hfeedback, houtput⟩
              cases report
              cases report'
              simp only [JudgeCaseIn.publicPart, JudgeCaseIn.mk.injEq] at h hfeedback houtput ⊢
              tauto
          rw [List.cons.injEq, ih h.2, hreport]
          simp only [caseTexts, List.flatMap_cons, List.cons_append, List.nil_append,
            List.cons.injEq]
          tauto

/-- Jobs that look the same. -/
theorem publicPart_eq_of_judging? (hdb : db.publicPart = db'.publicPart) {job : ℕ} {s s' : Judging}
    (hs : db.judging? job = some s) (hs' : db'.judging? job = some s') :
    s.publicPart = s'.publicPart := by
  have h := congrArg (Database.judging? · job) hdb
  simp only [Database.judging?_publicPart, hs, hs', Option.map_some, Option.some.injEq] at h
  exact h

/-- The event of a recorded batch: the reports as they came, and counters. -/
theorem exists_events_recordCases {judge job : ℕ} {cases : List JudgeCaseIn}
    (h : JudgeResultService.recordCases P now judge job cases db = .ok db') :
    ∃ s, db.judging? job = some s ∧ ∃ caseTotal casePassed maxCase,
      ((Op.recordCases judge job cases).events P now db =
          [.cases s.submission.id cases caseTotal casePassed maxCase]) ∧
        (Op.recordCases judge job (cases.map JudgeCaseIn.publicPart)).events P now db.publicPart =
          [.cases s.submission.id (cases.map JudgeCaseIn.publicPart) caseTotal casePassed
            maxCase] := by
  obtain ⟨s, hs, -, testCases, maxCase, hrecorded, -⟩ := JudgeResultService.recordCases_eq_ok h
  let recorded := JudgeResultService.recordedSubmission s.job.manifestCases testCases maxCase
    s.submission
  refine ⟨s, hs, recorded.caseTotal, recorded.casePassed, maxCase, ?_, ?_⟩
  · change (db.judging? job).elim [] (Judging.casesEvents P cases) = _
    rw [hs, Option.elim_some, Judging.casesEvents, hrecorded]
    rfl
  · have hpublic : (cases.map JudgeCaseIn.publicPart).foldlM
        (JudgeResultService.recordCase P s.publicPart.job.manifestCases)
        (s.publicPart.testCases, s.publicPart.submission.currentTestcase) =
          .ok (TestCases.publicPart testCases, maxCase) :=
      JudgeResultService.foldlM_recordCase_publicPart hrecorded
    change (db.publicPart.judging? job).elim [] (Judging.casesEvents P _) = _
    rw [Database.judging?_publicPart, hs, Option.map_some, Option.elim_some, Judging.casesEvents,
      hpublic]
    dsimp only
    rw [Judging.publicPart, JudgeResultService.recordedSubmission_publicPart]
    rfl

theorem exists_judging_fail {judge job : ℕ} {result errorMessage : String}
    (h : (Op.fail judge job result errorMessage).perform P now db = .ok db') :
    ∃ s, db.judging? job = some s := by
  obtain ⟨submission, hfail, -⟩ := Except.map_eq_ok.mp h
  obtain ⟨s, hs, -⟩ := JudgeResultService.fail_eq_ok hfail
  exact ⟨s, hs⟩

theorem events_fail {judge job : ℕ} {result errorMessage : String} {s : Judging}
    (hs : db.judging? job = some s) :
    (Op.fail judge job result errorMessage).events P now db =
      if s.job.status = .failed then []
      else [.failed s.submission.id .error (JudgeResultService.failResult result)
        errorMessage] := by
  change (db.judging? job).elim [] (Judging.failEvents result errorMessage) = _
  rw [hs]
  rfl

end Events

/-! ## One call -/

namespace World

variable {P : Python} {id : ℕ} {w w' : World} {op op' : Op}

theorem published_of_ok {db : Database} (h : op.perform P w.now w.db = .ok db) :
    w.published P id op = (op.events P w.now w.db).filter fun event => event.submission = id := by
  unfold published
  rw [h]

theorem disclosed_error {error : ServiceError} (h : op.perform P w.now w.db = .error error) :
    w.disclosed P id op = [] := by
  unfold disclosed
  rw [h]

theorem disclosed_silent (h : op.Silent) : w.disclosed P id op = [] := by
  unfold disclosed
  cases op.perform P w.now w.db with
  | error error => rfl
  | ok db =>
      cases op with
      | recordCases => exact absurd h not_false
      | fail => exact absurd h not_false
      | _ => rfl

/-- A batch of reports discloses its texts to the group of its submission. -/
theorem published_recordCases_aligned (hnow : w.now = w'.now)
    (hdb : w.db.publicPart = w'.db.publicPart) {judge job : ℕ} {cases cases' : List JudgeCaseIn}
    (hcases : cases.map JudgeCaseIn.publicPart = cases'.map JudgeCaseIn.publicPart)
    {db db' : Database}
    (hcall : (Op.recordCases judge job cases).perform P w.now w.db = .ok db)
    (hcall' : (Op.recordCases judge job cases').perform P w'.now w'.db = .ok db') :
    (w.published P id (.recordCases judge job cases)).length =
        (w'.published P id (.recordCases judge job cases')).length ∧
      (w.published P id (.recordCases judge job cases) =
          w'.published P id (.recordCases judge job cases') ↔
        w.disclosed P id (.recordCases judge job cases) =
          w'.disclosed P id (.recordCases judge job cases')) := by
  obtain ⟨s, hs, total, passed, current, hevents, herased⟩ := exists_events_recordCases hcall
  obtain ⟨s', hs', total', passed', current', hevents', herased'⟩ :=
    exists_events_recordCases hcall'
  -- without the texts both calls publish the same event, so the counters agree
  rw [hnow, hdb, hcases, herased', List.cons.injEq, SubmissionEvent.cases.injEq] at herased
  obtain ⟨⟨hsubmission, -, htotal, hpassed, hcurrent⟩, -⟩ := herased
  have hdisclosed : w.disclosed P id (.recordCases judge job cases) =
      if s.submission.id = id then caseTexts cases else [] := by
    unfold disclosed
    rw [hcall]
    simp [hs]
  have hdisclosed' : w'.disclosed P id (.recordCases judge job cases') =
      if s.submission.id = id then caseTexts cases' else [] := by
    unfold disclosed
    rw [hcall']
    simp [hs', hsubmission]
  rw [published_of_ok hcall, published_of_ok hcall', hevents, hevents', hdisclosed, hdisclosed',
    hsubmission, htotal, hpassed, hcurrent, List.filter_singleton, List.filter_singleton]
  by_cases hid : s.submission.id = id
  · simp [SubmissionEvent.submission, hid, caseTexts_eq_iff hcases]
  · simp [SubmissionEvent.submission, hid]

/-- A failed job discloses its error message to the group of its submission. -/
theorem published_fail_aligned (hdb : w.db.publicPart = w'.db.publicPart) {judge job : ℕ}
    {result errorMessage errorMessage' : String} {db db' : Database}
    (hcall : (Op.fail judge job result errorMessage).perform P w.now w.db = .ok db)
    (hcall' : (Op.fail judge job result errorMessage').perform P w'.now w'.db = .ok db') :
    (w.published P id (.fail judge job result errorMessage)).length =
        (w'.published P id (.fail judge job result errorMessage')).length ∧
      (w.published P id (.fail judge job result errorMessage) =
          w'.published P id (.fail judge job result errorMessage') ↔
        w.disclosed P id (.fail judge job result errorMessage) =
          w'.disclosed P id (.fail judge job result errorMessage')) := by
  obtain ⟨s, hs⟩ := exists_judging_fail hcall
  obtain ⟨s', hs'⟩ := exists_judging_fail hcall'
  have hpublic : s.publicPart = s'.publicPart := publicPart_eq_of_judging? hdb hs hs'
  have hsubmission : s.submission.id = s'.submission.id :=
    congrArg (·.submission.id) hpublic
  have hstatus : s.job.status = s'.job.status :=
    congrArg (·.job.status) hpublic
  have hdisclosed : w.disclosed P id (.fail judge job result errorMessage) =
      if s.submission.id = id ∧ s.job.status ≠ .failed then [errorMessage] else [] := by
    unfold disclosed
    rw [hcall]
    simp [hs]
  have hdisclosed' : w'.disclosed P id (.fail judge job result errorMessage') =
      if s.submission.id = id ∧ s.job.status ≠ .failed then [errorMessage'] else [] := by
    unfold disclosed
    rw [hcall']
    simp [hs', hsubmission, hstatus]
  rw [published_of_ok hcall, published_of_ok hcall', events_fail hs, events_fail hs', hdisclosed,
    hdisclosed', ← hsubmission, ← hstatus]
  by_cases hfailed : s.job.status = .failed
  · simp [hfailed]
  · by_cases hid : s.submission.id = id
    · simp [SubmissionEvent.submission, hfailed, hid]
    · simp [SubmissionEvent.submission, hfailed, hid]

/-- Two calls that look the same publish as many events, and the same ones exactly if
they disclose the same texts. -/
theorem published_aligned (hworld : w.publicPart = w'.publicPart)
    (hop : op.publicPart = op'.publicPart)
    (haccepted : (w.step? P op).isSome = (w'.step? P op').isSome) :
    (w.published P id op).length = (w'.published P id op').length ∧
      (w.published P id op = w'.published P id op' ↔
        w.disclosed P id op = w'.disclosed P id op') := by
  have hdb : w.publicPart.db = w'.publicPart.db := congrArg World.db hworld
  have hnow : w.publicPart.now = w'.publicPart.now := congrArg World.now hworld
  change w.db.publicPart = w'.db.publicPart at hdb
  change w.now = w'.now at hnow
  cases hcall : op.perform P w.now w.db with
  | error error =>
      cases hcall' : op'.perform P w'.now w'.db with
      | error error' =>
          have hpublished : w.published P id op = w'.published P id op' := by
            rw [published, published, hcall, hcall']
          have hdisclosed : w.disclosed P id op = w'.disclosed P id op' :=
            (disclosed_error hcall).trans (disclosed_error hcall').symm
          exact ⟨congrArg List.length hpublished, iff_of_true hpublished hdisclosed⟩
      | ok db' =>
          unfold step? at haccepted
          rw [hcall, hcall'] at haccepted
          cases haccepted
  | ok db =>
      cases hcall' : op'.perform P w'.now w'.db with
      | error error' =>
          unfold step? at haccepted
          rw [hcall, hcall'] at haccepted
          cases haccepted
      | ok db' =>
          by_cases hsilent : op.Silent
          · have hsilent' : op'.Silent := by
              rw [← Op.silent_publicPart, ← hop, Op.silent_publicPart]
              exact hsilent
            have hevents : op.events P w.now w.db = op'.events P w'.now w'.db := by
              rw [← Op.events_publicPart hsilent, ← Op.events_publicPart hsilent', hop, hnow, hdb]
            have hpublished : w.published P id op = w'.published P id op' := by
              rw [published_of_ok hcall, published_of_ok hcall', hevents]
            exact ⟨congrArg List.length hpublished,
              iff_of_true hpublished ((disclosed_silent hsilent).trans
                (disclosed_silent hsilent').symm)⟩
          · cases op with
            | recordCases judge job cases =>
                cases op' with
                | recordCases judge' job' cases' =>
                    obtain ⟨rfl, rfl, hcases⟩ := Op.recordCases.inj hop
                    exact published_recordCases_aligned hnow hdb hcases hcall hcall'
                | _ => cases hop
            | fail judge job result errorMessage =>
                cases op' with
                | fail judge' job' result' errorMessage' =>
                    obtain ⟨rfl, rfl, rfl, -⟩ := Op.fail.inj hop
                    exact published_fail_aligned hdb hcall hcall'
                | _ => cases hop
            | _ => exact absurd trivial hsilent

end World

/-! ## A viewer of a run -/

/-- What a viewer gets in the course of a run: at every moment the details of the
submission and those for a share token, and the messages of the feed. -/
structure Observation where
  details : List (Except SubmissionViewError SubmissionDetailOut)
  shared : List (Except SubmissionViewError SubmissionDetailOut)
  messages : List SubmissionEvent

section Viewer

variable (P : Python) (site : SubmissionSite) (user : RequestUser) (id : ℕ)

/-- The viewer connects to the feed when `joined` calls have been made. -/
def observe (token : Option ℕ) (joined : ℕ) (start : World) (ops : List Op) : Observation where
  details := (List.range (ops.length + 1)).map fun n =>
    getSubmissionDetail site user id (start.run P (ops.take n)).db
  shared := (List.range (ops.length + 1)).map fun n =>
    getSharedSubmission site token (start.run P (ops.take n)).db
  messages := SubmissionConsumer.messages P site user id (start.run P (ops.take joined))
    (ops.drop joined)

/-- The viewer may never see the private data of the submission. -/
def NeverPrivate (start : World) (ops : List Op) : Prop :=
  ∀ n, ∀ submission ∈ (start.run P (ops.take n)).db.submissions.get? id,
    SubmissionService.canViewSubmissionPrivate site user submission = false

/-- The viewer may join the feed. -/
def MayJoin (world : World) : Prop :=
  user.isAuthenticated = true ∧ ∃ submission ∈ world.db.submissions.get? id,
    SubmissionService.canViewSubmission site user submission = true

variable {P site user id}

theorem connect_eq_ok {db : Database} : SubmissionConsumer.connect site user id db = .ok () ↔
    user.isAuthenticated = true ∧ ∃ submission ∈ db.submissions.get? id,
      SubmissionService.canViewSubmission site user submission = true := by
  unfold SubmissionConsumer.connect
  cases user.isAuthenticated <;> cases db.submissions.get? id <;> simp

theorem messages_of_mayJoin {world : World} (h : MayJoin site user id world) (ops : List Op) :
    SubmissionConsumer.messages P site user id world ops =
      transcript (World.step? P) (World.published P id) world ops := by
  unfold SubmissionConsumer.messages
  rw [connect_eq_ok.mpr h]

theorem messages_of_not_mayJoin {world : World} (h : ¬ MayJoin site user id world)
    (ops : List Op) : SubmissionConsumer.messages P site user id world ops = [] := by
  unfold SubmissionConsumer.messages
  cases hconnect : SubmissionConsumer.connect site user id world.db with
  | error code => rfl
  | ok unit => exact absurd (connect_eq_ok.mp hconnect) h

theorem get?_submissions_publicPart (db : Database) (id : ℕ) :
    db.publicPart.submissions.get? id = (db.submissions.get? id).map Submission.publicPart :=
  Table.get?_map _ _ Submission.id_publicPart id

theorem mayJoin_publicPart {world : World} :
    MayJoin site user id world.publicPart ↔ MayJoin site user id world := by
  have hget : world.publicPart.db.submissions.get? id =
      (world.db.submissions.get? id).map Submission.publicPart :=
    get?_submissions_publicPart world.db id
  have hview (submission : Submission) :
      SubmissionService.canViewSubmission site user submission.publicPart =
        SubmissionService.canViewSubmission site user submission :=
    rfl
  unfold MayJoin
  rw [hget]
  simp [hview]

/-- The details that a public reader gets hold no private text. -/
theorem getSubmissionDetail_publicPart {db : Database}
    (h : ∀ submission ∈ db.submissions.get? id,
      SubmissionService.canViewSubmissionPrivate site user submission = false) :
    getSubmissionDetail site user id db.publicPart = getSubmissionDetail site user id db := by
  unfold getSubmissionDetail
  rw [get?_submissions_publicPart]
  cases hget : db.submissions.get? id with
  | none => rfl
  | some submission =>
      have hprivate := h submission hget
      have hprivate' :
          SubmissionService.canViewSubmissionPrivate site user submission.publicPart = false :=
        hprivate
      rw [Option.map_some]
      dsimp only
      rw [hprivate, hprivate']
      rfl

theorem getSharedSubmission_publicPart (token : Option ℕ) (db : Database) :
    getSharedSubmission site token db.publicPart = getSharedSubmission site token db := by
  unfold getSharedSubmission
  cases token with
  | none => rfl
  | some parsed =>
      have hfind : db.publicPart.submissions.rows.find? (fun submission =>
          site.shareToken submission.id = some parsed) =
            (db.submissions.rows.find? fun submission =>
              site.shareToken submission.id = some parsed).map Submission.publicPart :=
        List.find?_map
      rw [Option.bind_some, Option.bind_some, hfind]
      cases db.submissions.rows.find? _ <;> rfl

theorem neverPrivate_aligned {start : World} {ops ops' : List Op}
    (h : Aligned (World.step? P) Op.publicPart start start ops ops')
    (hviewer : NeverPrivate P site user id start ops) :
    NeverPrivate P site user id start ops' := by
  intro n submission hsubmission
  have hworld := (h.take n).low_run (World.unwinding_publicPart P) rfl
  rw [World.run_step?, World.run_step?] at hworld
  have hget := congrArg (fun world : World => world.db.submissions.get? id) hworld
  change (start.run P (ops.take n)).db.publicPart.submissions.get? id =
    (start.run P (ops'.take n)).db.publicPart.submissions.get? id at hget
  rw [get?_submissions_publicPart, get?_submissions_publicPart, hsubmission, Option.map_some,
    Option.map_eq_some_iff] at hget
  obtain ⟨submission', hsubmission', hpublic⟩ := hget
  rw [show SubmissionService.canViewSubmissionPrivate site user submission =
    SubmissionService.canViewSubmissionPrivate site user submission.publicPart from rfl, ← hpublic]
  exact hviewer n submission' hsubmission'

/-- A viewer who may not see private data can tell two runs that differ in such data
apart exactly if it can join the feed and, from then on, the texts recorded for the
submission or the error message of its job differ. -/
theorem observe_eq_iff (P : Python) (site : SubmissionSite) (user : RequestUser) (id : ℕ)
    (token : Option ℕ) (joined : ℕ) {start : World} {ops ops' : List Op}
    (h : Aligned (World.step? P) Op.publicPart start start ops ops')
    (hviewer : NeverPrivate P site user id start ops) :
    observe P site user id token joined start ops = observe P site user id token joined start ops' ↔
      ¬ MayJoin site user id (start.run P (ops.take joined)) ∨
        outputs (World.step? P) (World.disclosed P id) (start.run P (ops.take joined))
            (ops.drop joined) =
          outputs (World.step? P) (World.disclosed P id) (start.run P (ops'.take joined))
            (ops'.drop joined) := by
  have hworld (n : ℕ) :
      (start.run P (ops.take n)).publicPart = (start.run P (ops'.take n)).publicPart := by
    rw [← World.run_step?, ← World.run_step?]
    exact (h.take n).low_run (World.unwinding_publicPart P) rfl
  have hdb (n : ℕ) :
      (start.run P (ops.take n)).db.publicPart = (start.run P (ops'.take n)).db.publicPart :=
    congrArg World.db (hworld n)
  have hdetails (n : ℕ) : getSubmissionDetail site user id (start.run P (ops.take n)).db =
      getSubmissionDetail site user id (start.run P (ops'.take n)).db := by
    rw [← getSubmissionDetail_publicPart (hviewer n), hdb,
      getSubmissionDetail_publicPart (neverPrivate_aligned h hviewer n)]
  have hshared (n : ℕ) : getSharedSubmission site token (start.run P (ops.take n)).db =
      getSharedSubmission site token (start.run P (ops'.take n)).db := by
    rw [← getSharedSubmission_publicPart, hdb, getSharedSubmission_publicPart]
  have hobserve : observe P site user id token joined start ops =
      observe P site user id token joined start ops' ↔
        SubmissionConsumer.messages P site user id (start.run P (ops.take joined))
            (ops.drop joined) =
          SubmissionConsumer.messages P site user id (start.run P (ops'.take joined))
            (ops'.drop joined) := by
    unfold observe
    rw [h.length_eq, Observation.mk.injEq]
    simp only [hdetails, hshared, true_and]
  have hjoin : MayJoin site user id (start.run P (ops.take joined)) ↔
      MayJoin site user id (start.run P (ops'.take joined)) := by
    rw [← mayJoin_publicPart, hworld, mayJoin_publicPart]
  rw [hobserve]
  by_cases hmay : MayJoin site user id (start.run P (ops.take joined))
  · rw [messages_of_mayJoin hmay, messages_of_mayJoin (hjoin.mp hmay)]
    have hrest := h.drop joined
    rw [World.run_step?, World.run_step?] at hrest
    rw [hrest.transcript_eq_iff (World.unwinding_publicPart P)
      (fun _ _ _ _ => World.published_aligned) (hworld joined)]
    exact (or_iff_right (not_not.mpr hmay)).symm
  · rw [messages_of_not_mayJoin hmay, messages_of_not_mayJoin (mt hjoin.mpr hmay)]
    exact iff_of_true rfl (Or.inl hmay)

end Viewer

/-! ## A stranger at a public submission -/

/-- Every submission is public; nobody maintains the problem. -/
def sampleSite : SubmissionSite where
  isPublic _ := true
  shareToken _ := none
  problem _ := { sampleContext.problem with }
  languageName := id

def sampleStranger : RequestUser := .account { id := 2, username := "stranger" }

/-- A judge reports the sample case with the given feedback. -/
def sampleFeedback (feedback : String) : List Op :=
  [.createSubmission sampleRequest, sampleClaim, .start 7 1,
    .recordCases 7 1 [{ sampleAccepted with feedback }]]

theorem sampleFeedback_aligned :
    Aligned (World.step? samplePython) Op.publicPart {} {} (sampleFeedback "differs at line 3")
      (sampleFeedback "") :=
  .cons rfl rfl (.cons rfl rfl (.cons rfl rfl (.cons rfl (by decide +kernel) (.nil _ _))))

theorem sampleFeedback_neverPrivate : NeverPrivate samplePython sampleSite sampleStranger 1 {}
    (sampleFeedback "differs at line 3") := by
  intro n
  match n with
  | 0 | 1 | 2 | 3 => decide +kernel
  | n + 4 =>
      rw [List.take_of_length_le (by change 4 ≤ n + 4; omega)]
      decide +kernel

/-- A stranger who connects after the judging gets the same with both feedbacks. -/
theorem observe_eq_iff_late :
    observe samplePython sampleSite sampleStranger 1 none 4 {}
        (sampleFeedback "differs at line 3") =
      observe samplePython sampleSite sampleStranger 1 none 4 {} (sampleFeedback "") :=
  (observe_eq_iff samplePython sampleSite sampleStranger 1 none 4 sampleFeedback_aligned
    sampleFeedback_neverPrivate).mpr (Or.inr rfl)

deriving instance DecidableEq for JudgeCaseIn, SubmissionEvent

/-- A stranger who connects before the judging gets the feedback. -/
theorem feedback_reaches_stranger :
    Aligned (World.step? samplePython) Op.publicPart {} {} (sampleFeedback "differs at line 3")
        (sampleFeedback "") ∧
      NeverPrivate samplePython sampleSite sampleStranger 1 {}
        (sampleFeedback "differs at line 3") ∧
      MayJoin sampleSite sampleStranger 1
        (.run samplePython {} ((sampleFeedback "differs at line 3").take 1)) ∧
      observe samplePython sampleSite sampleStranger 1 none 1 {}
          (sampleFeedback "differs at line 3") ≠
        observe samplePython sampleSite sampleStranger 1 none 1 {} (sampleFeedback "") := by
  refine ⟨sampleFeedback_aligned, sampleFeedback_neverPrivate, by unfold MayJoin; decide +kernel, ?_⟩
  intro h
  have hmessages := congrArg Observation.messages h
  revert hmessages
  decide +kernel

end JudgeLoom
