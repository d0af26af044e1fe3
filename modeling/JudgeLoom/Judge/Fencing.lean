import JudgeLoom.Judge.Ownership

/-!
# Claims and late callbacks

A judge sends its callbacks over a network that may delay and duplicate them.  A
`Net` is a world together with every claim made so far, every message ever sent
(any of which may still arrive, any number of times) and every callback that was
applied.

A message carries no trace of the claim it was issued under, and `_assert_owned`
compares the judge and the time only.  So a callback that was issued under an
earlier claim is applied when its judge has claimed the job again
(`Net.stale_delivery`).  What the design does guarantee is `Net.fencing_run`: an
applied callback comes from the judge of the latest claim of its job, and every
test-case row and every final verdict of a worker was delivered under that claim.
-/

namespace JudgeLoom

/-- A callback on its way. -/
structure Message where
  judge : ℕ
  job : ℕ
  /-- The claim of the job, counted from zero, that the callback was issued under. -/
  claim : ℕ
  callback : Callback

/-- The call that the message asks for. -/
def Message.op (message : Message) : Op := message.callback.op message.judge message.job

/-- A callback that was applied, with the latest claim of its job at that moment. -/
structure Delivery where
  message : Message
  claim : ℕ

/-- A world, the judges of the claims of every job, and the traffic so far. -/
structure Net where
  world : World := {}
  claims : ℕ → List ℕ := fun _ => []
  issued : List Message := []
  deliveries : List Delivery := []

/-- The calls that arrive as messages. -/
def Op.isCallback : Op → Bool
  | start _ _ => true
  | recordCases _ _ _ => true
  | finish _ _ _ => true
  | fail _ _ _ _ => true
  | _ => false

namespace Net

/-- The claims after an operation: a successful `claim_job` adds one. -/
def claimsAfter (net : Net) (op : Op) : ℕ → List ℕ :=
  match op with
  | .claimJob judge languages tie =>
      match (JudgeGatewayService.claimJob net.world.now judge languages tie net.world.db).1 with
      | none => net.claims
      | some job => Function.update net.claims job.id (net.claims job.id ++ [judge])
  | _ => net.claims

/-- The delivery of a message now. -/
def delivery (net : Net) (message : Message) : Delivery :=
  { message, claim := (net.claims message.job).length - 1 }

/-- The call of the message succeeds, and it is no repetition of the call that ended
the job. -/
def Applies (P : Python) (net : Net) (message : Message) : Prop :=
  (∃ db, message.op.perform P net.world.now net.world.db = .ok db) ∧
    ∀ s ∈ net.world.db.judging? message.job, ¬ message.callback.Repeats message.judge s.job

end Net

/-- What happens next in a net. -/
inductive Move
  | serve (op : Op)
  | issue (message : Message)
  | deliver (message : Message)

/-- One move.  A callback is issued by the judge of the claim it names, also long
after that claim has ended; a message is never used up. -/
inductive Net.Step (P : Python) : Net → Move → Net → Prop
  | serve {net : Net} {op : Op} (hop : op.isCallback = false) :
      Step P net (.serve op)
        { net with world := net.world.step P op, claims := net.claimsAfter op }
  | issue {net : Net} {message : Message}
      (hclaim : (net.claims message.job)[message.claim]? = some message.judge) :
      Step P net (.issue message) { net with issued := net.issued ++ [message] }
  | apply {net : Net} {message : Message} (hissued : message ∈ net.issued)
      (happlies : net.Applies P message) :
      Step P net (.deliver message)
        { net with
          world := net.world.step P message.op
          deliveries := net.deliveries ++ [net.delivery message] }
  | discard {net : Net} {message : Message} (hissued : message ∈ net.issued)
      (hnot : ¬ net.Applies P message) :
      Step P net (.deliver message) { net with world := net.world.step P message.op }

/-! ## Where the data of a job comes from -/

/-- The callback was delivered for job `id` under the last of the claims `history`. -/
def Delivery.Under (history : List ℕ) (id : ℕ) (delivery : Delivery) : Prop :=
  delivery.message.job = id ∧ delivery.claim + 1 = history.length

open JudgeResultService in
/-- The rows and the final verdict of a job with the claims `history` come from
deliveries under the last claim. -/
structure Judging.Sourced (P : Python) (history : List ℕ) (deliveries : List Delivery) (id : ℕ)
    (s : Judging) : Prop where
  holder : s.job.status.leased = true → history.getLast? = s.job.claimedBy
  rows : ∀ row ∈ s.testCases.rows, ∃ delivery ∈ deliveries, delivery.Under history id ∧
    ∃ reports, delivery.message.callback = .cases reports ∧
      ∃ report ∈ reports, row = reportRow P s.job.manifestCases report
  succeeded : s.job.status = .succeeded → ∃ delivery ∈ deliveries, delivery.Under history id ∧
    ∃ errorMessage, delivery.message.callback = .finish errorMessage ∧
      s.submission.judgedOn = some delivery.message.judge
  failed : s.job.status = .failed →
    (s.submission.judgedOn = none ∧ s.submission.result = some .IE) ∨
      ∃ delivery ∈ deliveries, delivery.Under history id ∧
        ∃ result errorMessage, delivery.message.callback = .fail result errorMessage ∧
          s.submission.judgedOn = some delivery.message.judge ∧
            s.submission.result = some (failResult result)

/-- The events that no callback causes, claims apart. -/
def JobEvent.Passive : JobEvent → Prop
  | .extend _ => True
  | .expire => True
  | .reset _ => True
  | _ => False

namespace Judging

open JudgeResultService

variable {P : Python} {now : Time} {history : List ℕ} {deliveries more : List Delivery} {id : ℕ}
  {s t : Judging} {event : JobEvent}

theorem Sourced.mono (h : s.Sourced P history deliveries id) (hsub : deliveries ⊆ more) :
    s.Sourced P history more id where
  holder := h.holder
  rows := by
    intro row hrow
    obtain ⟨delivery, hdelivery, hrest⟩ := h.rows row hrow
    exact ⟨delivery, hsub hdelivery, hrest⟩
  succeeded := by
    intro hsucceeded
    obtain ⟨delivery, hdelivery, hrest⟩ := h.succeeded hsucceeded
    exact ⟨delivery, hsub hdelivery, hrest⟩
  failed := by
    intro hfailed
    rcases h.failed hfailed with hexpired | ⟨delivery, hdelivery, hrest⟩
    · exact Or.inl hexpired
    · exact Or.inr ⟨delivery, hsub hdelivery, hrest⟩

/-- A job that waits in the queue without rows has nothing to account for. -/
theorem sourced_of_queued (hstatus : s.job.status = .queued) (htestCases : s.testCases = ∅) :
    s.Sourced P history deliveries id where
  holder hleased := by simp [hstatus, JudgeJobStatus.leased] at hleased
  rows := by simp [htestCases]
  succeeded hsucceeded := by simp [hstatus] at hsucceeded
  failed hfailed := by simp [hstatus] at hfailed

/-- A claim starts a new history of a job without rows. -/
theorem sourced_claim (judge : ℕ) (hinv : s.LeaseInvariant) (hqueued : s.job.status = .queued) :
    { s with job := s.job.claim judge now }.Sourced P (history ++ [judge]) deliveries id where
  holder _ := by simp [JudgeJob.claim]
  rows := by simp [(hinv.unjudged (Or.inl hqueued)).2]
  succeeded hsucceeded := by simp [JudgeJob.claim] at hsucceeded
  failed hfailed := by simp [JudgeJob.claim] at hfailed

theorem sourced_expire (now : Time) (s : Judging) :
    (s.expire now).Sourced P history deliveries id := by
  unfold expire
  split
  · exact {
      holder := fun hleased => by simp [JudgeJob.exhaust, JudgeJob.fail, JudgeJobStatus.leased]
        at hleased
      rows := by simp
      succeeded := fun hsucceeded => by simp [JudgeJob.exhaust, JudgeJob.fail] at hsucceeded
      failed := fun _ => Or.inl ⟨rfl, rfl⟩ }
  · exact sourced_of_queued rfl rfl

/-- A change of the lease alone. -/
theorem Sourced.extend (h : s.Sourced P history deliveries id) (now : Time) :
    { s with job := s.job.extendLease now }.Sourced P history deliveries id :=
  ⟨h.holder, h.rows, h.succeeded, h.failed⟩

theorem Sourced.passive (h : s.Sourced P history deliveries id) (hevent : event.Passive)
    (hstep : Step P now s event t) : t.Sourced P history deliveries id := by
  cases hstep with
  | claim | start | record | finish | fail => exact hevent.elim
  | extend judge hleased => exact h.extend now
  | expire hstale => exact sourced_expire now s
  | reset config => exact sourced_of_queued rfl rfl

/-- What an applied callback does to its job is accounted for by its own delivery. -/
theorem Sourced.callback (h : s.Sourced P history deliveries id) {delivery : Delivery}
    (hdelivery : delivery ∈ deliveries) (hunder : delivery.Under history id)
    (hevent : delivery.message.op.Permits id event) (hstep : Step P now s event t) :
    t.Sourced P history deliveries id := by
  have hmanifest : t.job.manifestCases = s.job.manifestCases := by
    rw [JudgeJob.manifestCases, JudgeJob.manifestCases, hstep.sameWork.package]
  obtain ⟨⟨judge, job, claim, callback⟩, latest⟩ := delivery
  cases callback with
  | start =>
      obtain ⟨_, rfl | rfl⟩ := hevent
      · cases hstep with
        | start _ howned hclaimed =>
            refine ⟨fun _ => h.holder howned.leased, h.rows, fun hsucceeded => ?_, fun hfailed => ?_⟩
            · simp [JudgeJob.start] at hsucceeded
            · simp [JudgeJob.start] at hfailed
      · cases hstep with
        | extend _ hleased => exact h.extend now
  | cases reports =>
      obtain ⟨_, rfl⟩ := hevent
      cases hstep with
      | record _ _ howned hrecorded =>
          have hstatus := JudgeJob.status_record howned.leased now
          refine ⟨fun _ => ?_, fun row hrow => ?_, fun hsucceeded => ?_, fun hfailed => ?_⟩
          · rw [JudgeJob.claimedBy_record]
            exact h.holder howned.leased
          · rw [hmanifest]
            rw [foldlM_recordCase hrecorded] at hrow
            rcases mem_foldl_upsertCase reports _ hrow with hrow | ⟨report, hreport, rfl⟩
            · exact h.rows row hrow
            · exact ⟨_, hdelivery, hunder, reports, rfl, report, hreport, rfl⟩
          · rw [hstatus] at hsucceeded
            cases hsucceeded
          · rw [hstatus] at hfailed
            cases hfailed
  | finish errorMessage =>
      obtain ⟨_, rfl⟩ := hevent
      cases hstep with
      | finish _ _ howned houtcome =>
          refine ⟨fun hleased => ?_, h.rows, fun _ => ?_, fun hfailed => ?_⟩
          · simp [JudgeJob.succeed, JudgeJobStatus.leased] at hleased
          · exact ⟨_, hdelivery, hunder, errorMessage, rfl, rfl⟩
          · simp [JudgeJob.succeed] at hfailed
  | fail result errorMessage =>
      obtain ⟨_, rfl⟩ := hevent
      cases hstep with
      | fail _ _ _ howned =>
          refine ⟨fun hleased => ?_, h.rows, fun hsucceeded => ?_, fun _ => ?_⟩
          · simp [JudgeJob.fail, JudgeJobStatus.leased] at hleased
          · simp [JudgeJob.fail] at hsucceeded
          · exact Or.inr ⟨_, hdelivery, hunder, result, errorMessage, rfl, rfl, rfl⟩

end Judging

/-! ## Runs of a net -/

namespace Net

variable {P : Python} {net next : Net} {move : Move} {message : Message}

/-- What every run of a net keeps. -/
structure Fencing (P : Python) (net : Net) : Prop where
  valid : net.world.Valid
  sourced : ∀ id, ∀ s ∈ net.world.db.judging? id,
    s.Sourced P (net.claims id) net.deliveries id
  issued : ∀ message ∈ net.issued,
    (net.claims message.job)[message.claim]? = some message.judge
  /-- The judge of an applied callback made the claim that was then the latest one;
  the callback was issued under that claim or an earlier one. -/
  applied : ∀ delivery ∈ net.deliveries, delivery.message ∈ net.issued ∧
    delivery.message.claim ≤ delivery.claim ∧
      (net.claims delivery.message.job)[delivery.claim]? = some delivery.message.judge

theorem claimsAfter_of_none {judge : ℕ} {languages : List String} {tie : ℕ}
    (hnone : (JudgeGatewayService.claimJob net.world.now judge languages tie net.world.db).1 =
      none) : net.claimsAfter (.claimJob judge languages tie) = net.claims := by
  unfold claimsAfter
  simp [hnone]

theorem claimsAfter_of_some {judge : ℕ} {languages : List String} {tie : ℕ} {job : JudgeJob}
    (hsome : (JudgeGatewayService.claimJob net.world.now judge languages tie net.world.db).1 =
      some job) : net.claimsAfter (.claimJob judge languages tie) =
        Function.update net.claims job.id (net.claims job.id ++ [judge]) := by
  unfold claimsAfter
  simp [hsome]

/-- A claim once made stays where it is in the history of its job. -/
theorem claimsAfter_getElem? {op : Op} {id claim judge : ℕ}
    (hclaim : (net.claims id)[claim]? = some judge) :
    (net.claimsAfter op id)[claim]? = some judge := by
  cases op with
  | claimJob maker languages tie =>
      cases hresult :
          (JudgeGatewayService.claimJob net.world.now maker languages tie net.world.db).1 with
      | none => rwa [claimsAfter_of_none hresult]
      | some job =>
          rw [claimsAfter_of_some hresult]
          by_cases hid : id = job.id
          · subst hid
            obtain ⟨hlt, _⟩ := List.getElem?_eq_some_iff.mp hclaim
            rwa [Function.update_self, List.getElem?_append_left hlt]
          · rwa [Function.update_of_ne hid]
  | _ => exact hclaim

theorem passive_of_permits {op : Op} {id : ℕ} {event : JobEvent} (hop : op.isCallback = false)
    (hclaim : ∀ judge languages tie, op ≠ .claimJob judge languages tie)
    (hpermits : op.Permits id event) : event.Passive := by
  cases op with
  | advance | createSubmission => exact hpermits.elim
  | claimJob judge languages tie => exact absurd rfl (hclaim judge languages tie)
  | start | recordCases | finish | fail => cases hop
  | heartbeat judge =>
      obtain rfl := hpermits
      trivial
  | expireStaleJobs =>
      obtain rfl := hpermits
      trivial
  | rejudgeSubmission submission context =>
      obtain ⟨config, rfl⟩ := hpermits
      trivial

/-- A claim opens a history for the job it returns and leaves the others alone. -/
theorem sourced_claimJob (hvalid : net.world.Valid)
    (hsourced : ∀ id, ∀ s ∈ net.world.db.judging? id,
      s.Sourced P (net.claims id) net.deliveries id) (judge : ℕ) (languages : List String)
    (tie id : ℕ) :
    ∀ s ∈ (JudgeGatewayService.claimJob net.world.now judge languages tie
        net.world.db).2.judging? id,
      s.Sourced P (net.claimsAfter (.claimJob judge languages tie) id) net.deliveries id := by
  have hexpire : ∀ id (s : Judging), s.Sourced P (net.claims id) net.deliveries id →
      s.job.stale net.world.now = true →
        (s.expire net.world.now).Sourced P (net.claims id) net.deliveries id :=
    fun _ s _ _ => Judging.sourced_expire _ s
  rcases hvalid.claimJob_cases judge languages tie hexpire hsourced with
    ⟨hnone, hothers⟩ | ⟨s, hinv, hqueued, hsome, hclaimed, hothers⟩
  · rw [claimsAfter_of_none hnone]
    exact hothers id
  · rw [claimsAfter_of_some hsome]
    change ∀ t ∈ _, Judging.Sourced P
      (Function.update net.claims s.job.id (net.claims s.job.id ++ [judge]) id)
        net.deliveries id t
    by_cases hid : id = s.job.id
    · subst hid
      rw [Function.update_self, hclaimed]
      simpa using Judging.sourced_claim judge hinv hqueued
    · rw [Function.update_of_ne hid]
      exact hothers id hid

/-- Operations that are no callbacks leave nothing unaccounted for. -/
theorem Fencing.serve (h : net.Fencing P) {op : Op} (hop : op.isCallback = false) :
    { net with world := net.world.step P op, claims := net.claimsAfter op }.Fencing P where
  valid := h.valid.step
  sourced := by
    by_cases hclaim : ∃ judge languages tie, op = .claimJob judge languages tie
    · obtain ⟨judge, languages, tie, rfl⟩ := hclaim
      exact sourced_claimJob h.valid h.sourced judge languages tie
    · have hne : ∀ judge languages tie, op ≠ .claimJob judge languages tie := by
        intro judge languages tie heq
        exact hclaim ⟨judge, languages, tie, heq⟩
      have hclaims : net.claimsAfter op = net.claims := by
        cases op with
        | claimJob judge languages tie => exact absurd rfl (hne judge languages tie)
        | _ => rfl
      change ∀ id, ∀ s ∈ (net.world.step P op).db.judging? id,
        s.Sourced P (net.claimsAfter op id) net.deliveries id
      rw [hclaims]
      intro id
      refine World.step_cases (Q := fun world => ∀ s ∈ world.db.judging? id,
        s.Sourced P (net.claims id) net.deliveries id) (h.sourced id) fun db hok => ?_
      obtain ⟨_, hchange⟩ := Op.perform_change h.valid.consistent hok
      refine (hchange id).keep
        (fun s hnew => Judging.sourced_of_queued hnew.status hnew.testCases)
        (fun event hevent s t hs hstep => ?_) (h.sourced id)
      exact hs.passive (passive_of_permits hop hne hevent) hstep
  issued := by
    intro message hmessage
    exact claimsAfter_getElem? (h.issued message hmessage)
  applied := by
    intro delivery hdelivery
    obtain ⟨hissued, hle, hjudge⟩ := h.applied delivery hdelivery
    exact ⟨hissued, hle, claimsAfter_getElem? hjudge⟩

/-- A callback that is applied finds the job leased to its judge. -/
theorem Applies.leased (h : net.Applies P message) :
    ∃ s, net.world.db.judging? message.job = some s ∧ s.job.status.leased = true ∧
      s.job.claimedBy = some message.judge := by
  obtain ⟨⟨db, hok⟩, hrepeats⟩ := h
  obtain ⟨judge, job, claim, callback⟩ := message
  cases callback with
  | start =>
      obtain ⟨s, hs, ⟨hrunning, howner, _⟩ | ⟨howned, _⟩⟩ := JudgeResultService.start_eq_ok hok
      · exact ⟨s, hs, by simp [hrunning, JudgeJobStatus.leased], howner⟩
      · exact ⟨s, hs, howned.leased, howned.claimedBy⟩
  | cases reports =>
      obtain ⟨s, hs, howned, _⟩ := JudgeResultService.recordCases_eq_ok hok
      exact ⟨s, hs, howned.leased, howned.claimedBy⟩
  | finish errorMessage =>
      obtain ⟨result, hresult, _⟩ := Except.map_eq_ok.mp hok
      obtain ⟨s, hs, ⟨hsucceeded, howner, _⟩ | ⟨howned, _⟩⟩ :=
        JudgeResultService.finish_eq_ok hresult
      · exact absurd ⟨hsucceeded, howner⟩ (hrepeats s hs)
      · exact ⟨s, hs, howned.leased, howned.claimedBy⟩
  | fail code errorMessage =>
      obtain ⟨result, hresult, _⟩ := Except.map_eq_ok.mp hok
      obtain ⟨s, hs, ⟨hfailed, howner, _⟩ | ⟨howned, _⟩⟩ := JudgeResultService.fail_eq_ok hresult
      · exact absurd ⟨hfailed, howner⟩ (hrepeats s hs)
      · exact ⟨s, hs, howned.leased, howned.claimedBy⟩

/-- A callback that is not applied changes nothing. -/
theorem step_of_not_applies (hnot : ¬ net.Applies P message) :
    net.world.step P message.op = net.world := by
  cases hcall : message.op.perform P net.world.now net.world.db with
  | error error => exact World.step_of_error hcall
  | ok db =>
      have hrepeats : ∃ s, net.world.db.judging? message.job = some s ∧
          message.callback.Repeats message.judge s.job := by
        by_contra hnone
        have happlies : net.Applies P message :=
          ⟨⟨db, hcall⟩, fun s hs hrepeats => hnone ⟨s, hs, hrepeats⟩⟩
        exact hnot happlies
      obtain ⟨s, hs, hrepeats⟩ := hrepeats
      exact Callback.step_of_repeats hs hrepeats

theorem permits_of_ne {id : ℕ} {event : JobEvent} (hid : message.job ≠ id)
    (hpermits : message.op.Permits id event) : False := by
  obtain ⟨judge, job, claim, callback⟩ := message
  cases callback <;> exact hid hpermits.1

/-- An applied callback is accounted for. -/
theorem Fencing.apply (h : net.Fencing P) (hissued : message ∈ net.issued)
    (happlies : net.Applies P message) :
    { net with
      world := net.world.step P message.op
      deliveries := net.deliveries ++ [net.delivery message] }.Fencing P := by
  obtain ⟨s, hs, hleased, howner⟩ := happlies.leased
  have hlast := (h.sourced _ s hs).holder hleased
  rw [howner, List.getLast?_eq_getElem?] at hlast
  obtain ⟨hlt, _⟩ := List.getElem?_eq_some_iff.mp hlast
  have hmessage := h.issued message hissued
  obtain ⟨hclaim, _⟩ := List.getElem?_eq_some_iff.mp hmessage
  have hsub : net.deliveries ⊆ net.deliveries ++ [net.delivery message] :=
    List.subset_append_left _ _
  refine ⟨h.valid.step, ?_, h.issued, ?_⟩
  · obtain ⟨db, hok⟩ := happlies.1
    obtain ⟨_, hchange⟩ := Op.perform_change h.valid.consistent hok
    intro id t ht
    rw [World.step_of_ok hok] at ht
    have hbefore : ∀ s ∈ net.world.db.judging? id, s.Sourced P (net.claims id)
        (net.deliveries ++ [net.delivery message]) id :=
      fun s hs => (h.sourced id s hs).mono hsub
    refine (hchange id).keep
      (fun s hnew => Judging.sourced_of_queued hnew.status hnew.testCases)
      (fun event hevent s t hs hstep => ?_) hbefore t ht
    by_cases hid : message.job = id
    · refine hs.callback (List.mem_append_right _ (List.mem_singleton_self _)) ?_ hevent hstep
      subst hid
      refine ⟨rfl, ?_⟩
      dsimp only [delivery]
      omega
    · exact (permits_of_ne hid hevent).elim
  · intro delivery hdelivery
    rcases List.mem_append.mp hdelivery with hdelivery | hdelivery
    · exact h.applied delivery hdelivery
    · obtain rfl := List.mem_singleton.mp hdelivery
      refine ⟨hissued, ?_, hlast⟩
      dsimp only [delivery]
      omega

theorem Fencing.step (h : net.Fencing P) (hstep : Step P net move next) : next.Fencing P := by
  cases hstep with
  | serve hop => exact h.serve hop
  | issue hclaim =>
      refine ⟨h.valid, h.sourced, fun message hmessage => ?_, fun delivery hdelivery => ?_⟩
      · rcases List.mem_append.mp hmessage with hmessage | hmessage
        · exact h.issued message hmessage
        · obtain rfl := List.mem_singleton.mp hmessage
          exact hclaim
      · obtain ⟨hissued, hrest⟩ := h.applied delivery hdelivery
        exact ⟨List.mem_append_left _ hissued, hrest⟩
  | apply hissued happlies => exact h.apply hissued happlies
  | discard hissued hnot =>
      rw [step_of_not_applies hnot]
      exact h

/-- A net in which nothing has happened yet. -/
def Initial (net : Net) : Prop :=
  net.world.Initial ∧ net.issued = [] ∧ net.deliveries = []

theorem Initial.fencing (h : net.Initial) (P : Python) : net.Fencing P where
  valid := h.1.valid
  sourced id := by simp [h.1.judging? id]
  issued := by simp [h.2.1]
  applied := by simp [h.2.2]

/-- In every run, however messages are delayed or duplicated, the rows and the final
verdict of a worker were delivered under the latest claim of their job, and every
applied callback came from the judge of the claim that was the latest one then. -/
theorem fencing_run {start net : Net} {moves : List Move} (hstart : start.Initial)
    (run : Run (Step P) start moves net) : net.Fencing P :=
  run.invariant (hstart.fencing P) fun _ _ _ h hstep => h.step hstep

/-- A report that judge 7 sends under its first claim of the job. -/
def sampleReport : Message where
  judge := 7
  job := 1
  claim := 0
  callback := .cases [{ caseNumber := 1, status := "AC", points := 100, totalPoints := 100 }]

/-- Judge 7 claims, reports, loses its lease and claims again. -/
def sampleMoves : List Move :=
  [.serve (.createSubmission sampleRequest), .serve sampleClaim, .issue sampleReport,
    .serve (.advance 61000000), .serve .expireStaleJobs, .serve sampleClaim]

def sampleNet : Net where
  world := .run samplePython {}
    [.createSubmission sampleRequest, sampleClaim, .advance 61000000, .expireStaleJobs, sampleClaim]
  claims := Function.update (Function.update (fun _ => []) 1 [7]) 1 [7, 7]
  issued := [sampleReport]

theorem sampleNet_run : Run (Step samplePython) {} sampleMoves sampleNet := by
  refine Run.snoc (Run.snoc (Run.snoc (Run.snoc (Run.snoc (Run.single (.serve rfl)) (.serve rfl))
    (.issue rfl)) (.serve rfl)) (.serve rfl)) ?_
  exact .serve rfl

theorem sampleNet_applies : sampleNet.Applies samplePython sampleReport :=
  ⟨⟨_, rfl⟩, fun _ _ hrepeats => hrepeats⟩

/-- The report of the first claim arrives under the second one and is stored. -/
theorem stale_delivery : ∃ moves net, Run (Step samplePython) {} moves net ∧
    ∃ delivery ∈ net.deliveries, delivery.message.claim < delivery.claim ∧
      ∃ s, net.world.db.judging? delivery.message.job = some s ∧
        s.testCases.rows.map SubmissionTestCase.points = [100] := by
  refine ⟨_, _, sampleNet_run.snoc (.apply (List.mem_singleton_self _) sampleNet_applies), ?_⟩
  exact ⟨_, List.mem_singleton_self _, by decide, _, rfl, rfl⟩

theorem fencing_run_sample :
    ∃ net : Net, net.deliveries = [sampleNet.delivery sampleReport] ∧ net.Fencing samplePython :=
  ⟨_, rfl, fencing_run ⟨World.initial_empty 0, rfl, rfl⟩
    (sampleNet_run.snoc (.apply (List.mem_singleton_self _) sampleNet_applies))⟩

end Net

end JudgeLoom
