import JudgeLoom.Judge.LeaseInvariant
import Mathlib.Logic.Function.Basic

/-!
# The gateway and its worker processes

`Worker.Run` of the Go worker, in any number of processes, against the gateway.  A
process claims a job, starts it, executes it, reports its cases and finishes it, or
reports that it failed; one call at a time, and the first error of a call makes it
go back to claiming.  A second goroutine sends heartbeats from the registration on.
Processes crash and restart, several of them may share the token of a judge, and the
network may delay or lose every request and every response.

The heartbeat extends every lease of the judge, whichever process has claimed the
job and whatever became of it.  So a lease may be kept alive that no process attends
to (`Cluster.orphaned_lease`).  What holds in every run is `Cluster.attended_run`: the
latest claim of a job with an extended lease was made by a process of that judge,
which still works on it unless it crashed or one of its calls failed.
-/

namespace JudgeLoom

/-- A job that a process works on, with the number of the request that claimed it. -/
structure Task where
  claim : ℕ
  job : ℕ
  deriving DecidableEq

/-- The call whose response `Worker.Run` waits for. -/
inductive Purpose
  | claim
  | start (task : Task)
  | cases (task : Task)
  | finish (task : Task)
  | fail (task : Task)
  deriving DecidableEq

namespace Purpose

def task? : Purpose → Option Task
  | claim => none
  | start task => some task
  | cases task => some task
  | finish task => some task
  | fail task => some task

/-- The call ends the job. -/
def ends : Purpose → Bool
  | finish _ => true
  | fail _ => true
  | _ => false

end Purpose

/-- Where `Worker.Run` is; `idle` includes the waits between two polls. -/
inductive Phase
  | down
  | idle
  | calling (purpose : Purpose) (request : ℕ)
  | executing (task : Task)
  deriving DecidableEq

/-- How a process stopped working on a claim. -/
inductive Fate
  | claimFailed
  | callFailed
  | crashed
  | completed
  deriving DecidableEq

/-- A response: an error, or the claimed job if there is one. -/
abbrev Answer := Except Unit (Option ℕ)

/-- Where a request of a process is. -/
inductive Transit
  | unsent
  | request (op : Op)
  | answer (answer : Answer)
  | lost

/-- A worker process.  Its requests are numbered; the numbers go on after a restart. -/
structure Worker where
  phase : Phase := .down
  sent : ℕ := 0
  traffic : ℕ → Transit := fun _ => .unsent
  fates : ℕ → Option Fate := fun _ => none

namespace Phase

/-- The job in progress. -/
def task? : Phase → Option Task
  | calling purpose _ => purpose.task?
  | executing task => some task
  | _ => none

/-- The claim in progress: one that has no response yet, or that of the job. -/
def claim? : Phase → Option ℕ
  | calling .claim request => some request
  | phase => phase.task?.map Task.claim

/-- The process waits for the response to the claim, or works on the job that it got. -/
def Attends (phase : Phase) (claim job : ℕ) : Prop :=
  phase = .calling .claim claim ∨ phase.task? = some ⟨claim, job⟩

instance (phase : Phase) (claim job : ℕ) : Decidable (phase.Attends claim job) :=
  inferInstanceAs (Decidable (_ ∨ _))

end Phase

/-- What happens in a process, or to one of its requests. -/
inductive WorkerAction
  /-- The process starts and registers. -/
  | boot
  | crash
  | beat
  | claim (languages : List String) (tie : ℕ)
  | receive
  /-- The connection fails, or the response cannot be decoded. -/
  | giveUp
  | executed (cases : List JudgeCaseIn)
  | executionFailed (result errorMessage : String)
  /-- The gateway answers with an error before it calls a service. -/
  | refuse (request : ℕ)
  /-- A request is lost; for a response, `giveUp` stands for its loss. -/
  | drop (request : ℕ)

namespace Worker

/-- Send a request. -/
def send (worker : Worker) (op : Op) : Worker :=
  { worker with
    sent := worker.sent + 1
    traffic := Function.update worker.traffic worker.sent (.request op) }

/-- Send a request and wait for its response. -/
def call (worker : Worker) (op : Op) (purpose : Purpose) : Worker :=
  { worker.send op with phase := .calling purpose worker.sent }

/-- Stop working on the claim in progress. -/
def leave (worker : Worker) (phase : Phase) (fate : Fate) : Worker :=
  { worker with
    phase
    fates := worker.phase.claim?.elim worker.fates fun claim =>
      Function.update worker.fates claim (some fate) }

/-- A request has arrived, or it is lost. -/
def settle (worker : Worker) (request : ℕ) (transit : Transit) : Worker :=
  { worker with traffic := Function.update worker.traffic request transit }

/-- `Worker.Run` after a call. -/
def proceed (judge : ℕ) (worker : Worker) (request : ℕ) : Purpose → Answer → Worker
  | .claim, .ok (some job) => worker.call (.start judge job) (.start ⟨request, job⟩)
  | .claim, .ok none => { worker with phase := .idle }
  | .claim, .error _ => worker.leave .idle .claimFailed
  | .start task, .ok _ => { worker with phase := .executing task }
  | .cases task, .ok _ => worker.call (.finish judge task.job "") (.finish task)
  | .finish _, .ok _ => worker.leave .idle .completed
  | .fail _, .ok _ => worker.leave .idle .completed
  | _, .error _ => worker.leave .idle .callFailed

/-- The process after an action; `none` if the action is not possible. -/
def act (judge : ℕ) (worker : Worker) : WorkerAction → Option Worker
  | .boot => if worker.phase = .down then some { worker with phase := .idle } else none
  | .crash => if worker.phase ≠ .down then some (worker.leave .down .crashed) else none
  | .beat => if worker.phase ≠ .down then some (worker.send (.heartbeat judge)) else none
  | .claim languages tie =>
      if worker.phase = .idle then some (worker.call (.claimJob judge languages tie) .claim)
      else none
  | .receive =>
      match worker.phase with
      | .calling purpose request =>
          match worker.traffic request with
          | .answer answer => some (worker.proceed judge request purpose answer)
          | _ => none
      | _ => none
  | .giveUp =>
      match worker.phase with
      | .calling purpose request => some (worker.proceed judge request purpose (.error ()))
      | _ => none
  | .executed cases =>
      match worker.phase with
      | .executing task => some (worker.call (.recordCases judge task.job cases) (.cases task))
      | _ => none
  | .executionFailed result errorMessage =>
      match worker.phase with
      | .executing task =>
          some (worker.call (.fail judge task.job result errorMessage) (.fail task))
      | _ => none
  | .refuse request =>
      match worker.traffic request with
      | .request _ => some (worker.settle request (.answer (.error ())))
      | _ => none
  | .drop request =>
      match worker.traffic request with
      | .request _ => some (worker.settle request .lost)
      | _ => none

end Worker

/-! ## The composition -/

/-- The job that a call claims. -/
def World.claimedJob (world : World) : Op → Option ℕ
  | .claimJob judge languages tie =>
      (JudgeGatewayService.claimJob world.now judge languages tie world.db).1.map JudgeJob.id
  | _ => none

/-- The response to a call. -/
def World.answer (P : Python) (world : World) (op : Op) : Answer :=
  match op.perform P world.now world.db with
  | .ok _ => .ok (world.claimedJob op)
  | .error _ => .error ()

/-- What happens at the server without a worker. -/
def Op.isInternal : Op → Bool
  | advance _ => true
  | createSubmission _ => true
  | expireStaleJobs => true
  | rejudgeSubmission _ _ => true
  | _ => false

/-- The gateway and its worker processes. -/
structure Cluster (ι : Type) where
  world : World := {}
  workers : ι → Worker := fun _ => {}
  /-- The process and the request that claimed a job last. -/
  claims : ℕ → Option (ι × ℕ) := fun _ => none

inductive ClusterAction (ι : Type)
  | serve (op : Op)
  | work (process : ι) (action : WorkerAction)
  | deliver (process : ι) (request : ℕ)

namespace Cluster

variable {ι : Type} [DecidableEq ι]

/-- The gateway performs a request and answers it. -/
def perform (P : Python) (cluster : Cluster ι) (process : ι) (request : ℕ) (op : Op) :
    Cluster ι where
  world := cluster.world.step P op
  workers := Function.update cluster.workers process
    ((cluster.workers process).settle request (.answer (cluster.world.answer P op)))
  claims := (cluster.world.claimedJob op).elim cluster.claims fun job =>
    Function.update cluster.claims job (some (process, request))

/-- The cluster after an action; `token` says which judge a process is. -/
def act (P : Python) (token : ι → ℕ) (cluster : Cluster ι) : ClusterAction ι → Option (Cluster ι)
  | .serve op =>
      if op.isInternal then some { cluster with world := cluster.world.step P op } else none
  | .work process action =>
      ((cluster.workers process).act (token process) action).map fun worker =>
        { cluster with workers := Function.update cluster.workers process worker }
  | .deliver process request =>
      match (cluster.workers process).traffic request with
      | .request op => some (cluster.perform P process request op)
      | _ => none

/-- One action. -/
def Step (P : Python) (token : ι → ℕ) (cluster : Cluster ι) (action : ClusterAction ι)
    (next : Cluster ι) : Prop :=
  cluster.act P token action = some next

end Cluster

/-! ## Leases before and after a call -/

section Leases

variable {P : Python} {now : Time} {world : World} {op : Op} {s t : Judging} {event : JobEvent}
  {id : ℕ}

/-- Apart from claims, no event makes a lease, and none changes its judge. -/
theorem Judging.Step.leased_before (h : Judging.Step P now s event t)
    (hclaim : ∀ judge, event ≠ .claim judge) (hleased : t.job.status.leased = true) :
    s.job.status.leased = true ∧ t.job.claimedBy = s.job.claimedBy := by
  cases h with
  | claim judge hqueued => exact absurd rfl (hclaim judge)
  | start judge howned hclaimed => exact ⟨howned.leased, rfl⟩
  | extend judge hheld =>
      simp only [JudgeJob.leasedBy, Bool.and_eq_true] at hheld
      exact ⟨hheld.2, rfl⟩
  | record judge cases howned hrecorded => exact ⟨howned.leased, JudgeJob.claimedBy_record _ _⟩
  | finish judge errorMessage howned houtcome => cases hleased
  | fail judge result errorMessage howned => cases hleased
  | expire hstale =>
      unfold Judging.expire at hleased
      split at hleased <;> cases hleased
  | reset config => cases hleased

theorem Op.not_claim_of_permits (hop : ∀ judge languages tie, op ≠ .claimJob judge languages tie)
    (hpermits : op.Permits id event) (judge : ℕ) : event ≠ .claim judge := by
  rintro rfl
  cases op with
  | advance | createSubmission => exact hpermits
  | claimJob judge languages tie => exact hop judge languages tie rfl
  | start => exact hpermits.2.elim (fun heq => nomatch heq) fun heq => nomatch heq
  | recordCases | finish | fail => exact nomatch hpermits.2
  | heartbeat | expireStaleJobs => exact nomatch hpermits
  | rejudgeSubmission => exact nomatch hpermits.choose_spec

/-- Where a lease comes from: a claim, or the lease that was there before. -/
theorem World.Valid.lease_of_step (hvalid : world.Valid) (op : Op)
    (hs : (world.step P op).db.judging? id = some s) (hleased : s.job.status.leased = true) :
    (∃ judge languages tie, op = .claimJob judge languages tie ∧
        world.claimedJob op = some id ∧ s.job.claimedBy = some judge) ∨
      world.claimedJob op ≠ some id ∧ ∃ t, world.db.judging? id = some t ∧
        t.job.status.leased = true ∧ s.job.claimedBy = t.job.claimedBy := by
  by_cases hclaim : ∃ judge languages tie, op = .claimJob judge languages tie
  · obtain ⟨judge, languages, tie, rfl⟩ := hclaim
    have hexpire : ∀ id (s : Judging), (s.job.status.leased = true → ∃ t,
          world.db.judging? id = some t ∧ t.job.status.leased = true ∧
            s.job.claimedBy = t.job.claimedBy) → s.job.stale world.now = true →
        ((s.expire world.now).job.status.leased = true → ∃ t,
          world.db.judging? id = some t ∧ t.job.status.leased = true ∧
            (s.expire world.now).job.claimedBy = t.job.claimedBy) := by
      intro id s _ _ hexpired
      unfold Judging.expire at hexpired
      split at hexpired <;> cases hexpired
    have hcases := hvalid.claimJob_cases judge languages tie hexpire
      fun id s hs hleased => ⟨s, hs, hleased, rfl⟩
    rcases hcases with ⟨hnone, hothers⟩ | ⟨t, -, -, hsome, hclaimed, hothers⟩
    · have hno : world.claimedJob (.claimJob judge languages tie) = none := by
        simp [World.claimedJob, hnone]
      exact Or.inr ⟨by simp [hno], hothers id s hs hleased⟩
    · have hjob : world.claimedJob (.claimJob judge languages tie) = some t.job.id := by
        simp [World.claimedJob, hsome, JudgeJob.claim]
      by_cases hid : id = t.job.id
      · subst hid
        obtain rfl := Option.some.inj (hclaimed.symm.trans hs)
        exact Or.inl ⟨judge, languages, tie, rfl, hjob, rfl⟩
      · refine Or.inr ⟨?_, hothers id hid s hs hleased⟩
        rw [hjob, ne_eq, Option.some.injEq]
        exact fun heq => hid heq.symm
  · have hop : ∀ judge languages tie, op ≠ .claimJob judge languages tie := by
      intro judge languages tie heq
      exact hclaim ⟨judge, languages, tie, heq⟩
    have hnone : world.claimedJob op = none := by
      cases op with
      | claimJob judge languages tie => exact absurd rfl (hop judge languages tie)
      | _ => rfl
    refine Or.inr ⟨by simp [hnone], ?_⟩
    have hbefore : ∀ s ∈ world.db.judging? id, s.job.status.leased = true →
        ∃ t, world.db.judging? id = some t ∧ t.job.status.leased = true ∧
          s.job.claimedBy = t.job.claimedBy := fun s hs hleased => ⟨s, hs, hleased, rfl⟩
    refine World.step_cases (Q := fun world' => ∀ s ∈ world'.db.judging? id,
      s.job.status.leased = true → ∃ t, world.db.judging? id = some t ∧
        t.job.status.leased = true ∧ s.job.claimedBy = t.job.claimedBy)
      hbefore (fun db hok => ?_) s hs hleased
    obtain ⟨_, hchange⟩ := Op.perform_change hvalid.consistent hok
    refine (hchange id).keep (fun s hnew hleased => ?_)
      (fun event hevent s t hs hstep hleased => ?_) hbefore
    · rw [hnew.status] at hleased
      cases hleased
    · obtain ⟨hearlier, hsame⟩ :=
        hstep.leased_before (Op.not_claim_of_permits hop hevent) hleased
      obtain ⟨first, hfirst, hfirstLeased, hclaimedBy⟩ := hs hearlier
      exact ⟨first, hfirst, hfirstLeased, hsame.trans hclaimedBy⟩

/-- The call ends job `id`. -/
def Op.EndsJob (id : ℕ) : Op → Prop
  | finish _ job _ => job = id
  | fail _ job _ _ => job = id
  | _ => False

theorem JudgeResultService.get?_jobs_close (P : Python) (db : Database) (s : Judging) :
    (close P db s).2.jobs.get? s.job.id = some s.job := by
  unfold close Database.refreshContestScore
  dsimp only
  split <;> exact (Table.get?_save _ _ _).trans (if_pos rfl)

/-- A call that ended a job leaves no lease on it. -/
theorem Op.not_leased_of_ends {db db' : Database} (hends : op.EndsJob id)
    (hok : op.perform P now db = .ok db') (hs : db'.judging? id = some s) :
    s.job.status.leased = false := by
  have hjob := (Database.judging?_eq_some.mp hs).1
  have hclosed : ∀ t : Judging, t.job.id = id → (JudgeResultService.close P db t).2 = db' →
      s.job = t.job := by
    rintro t rfl rfl
    rw [JudgeResultService.get?_jobs_close] at hjob
    exact (Option.some.inj hjob).symm
  cases op with
  | finish judge job errorMessage =>
      obtain rfl : job = id := hends
      obtain ⟨result, hresult, rfl⟩ := Except.map_eq_ok.mp hok
      obtain ⟨t, ht, ⟨hstatus, -, rfl⟩ | ⟨-, submission, -, rfl⟩⟩ :=
        JudgeResultService.finish_eq_ok hresult
      · obtain rfl := Option.some.inj (ht.symm.trans hs)
        rw [hstatus]
        rfl
      · have hid := Database.id_of_judging? ht
        have hsame := hclosed _ (by exact hid) rfl
        rw [hsame]
        rfl
  | fail judge job result errorMessage =>
      obtain rfl : job = id := hends
      obtain ⟨answer, hanswer, rfl⟩ := Except.map_eq_ok.mp hok
      obtain ⟨t, ht, ⟨hstatus, -, rfl⟩ | ⟨-, rfl⟩⟩ := JudgeResultService.fail_eq_ok hanswer
      · obtain rfl := Option.some.inj (ht.symm.trans hs)
        rw [hstatus]
        rfl
      · have hid := Database.id_of_judging? ht
        have hsame := hclosed _ (by exact hid) rfl
        rw [hsame]
        rfl
  | _ => exact hends.elim

end Leases

/-! ## What a process keeps -/

/-- The call claims a job. -/
def Op.isClaim : Op → Bool
  | claimJob _ _ _ => true
  | _ => false

/-- The judge that the call is made for. -/
def Op.judge? : Op → Option ℕ
  | claimJob judge _ _ => some judge
  | start judge _ => some judge
  | recordCases judge _ _ => some judge
  | finish judge _ _ => some judge
  | fail judge _ _ _ => some judge
  | heartbeat judge => some judge
  | _ => none

namespace Worker

variable {judge : ℕ} {worker next : Worker} {op : Op} {purpose : Purpose} {claim job request : ℕ}

/-- The process stopped working on the claim before the job was done. -/
def Abandoned (worker : Worker) (claim : ℕ) : Prop :=
  ∃ fate, worker.fates claim = some fate ∧ fate ≠ .completed

/-- The gateway has ended the job, and the process has yet to learn it. -/
def Acknowledged (worker : Worker) : Prop :=
  ∃ purpose request job, worker.phase = .calling purpose request ∧ purpose.ends = true ∧
    worker.traffic request = .answer (.ok job)

/-- What became of a claim that got the job: it was abandoned, or the response is on its
way, or the process works on the job. -/
def Accounts (worker : Worker) (claim job : ℕ) : Prop :=
  worker.Abandoned claim ∨ worker.fates claim = none ∧
    (worker.phase = .calling .claim claim ∧
        worker.traffic claim = .answer (.ok (some job)) ∨
      worker.phase.task? = some ⟨claim, job⟩ ∧ ¬ worker.Acknowledged)

/-- The invariant of a process with the token of a judge. -/
structure Sound (judge : ℕ) (worker : Worker) : Prop where
  fresh : ∀ request, worker.sent ≤ request →
    worker.traffic request = .unsent ∧ worker.fates request = none
  waits : ∀ purpose request, worker.phase = .calling purpose request → request < worker.sent
  works : ∀ claim, worker.phase.claim? = some claim →
    claim < worker.sent ∧ worker.fates claim = none
  ends : ∀ purpose request op, worker.phase = .calling purpose request → purpose.ends = true →
    worker.traffic request = .request op → ∀ task ∈ purpose.task?, op.EndsJob task.job
  claims : ∀ request op, worker.traffic request = .request op → op.isClaim = true →
    worker.phase = .calling .claim request ∨ worker.Abandoned request
  own : ∀ request op, worker.traffic request = .request op → op.judge? = some judge

theorem sound_boot (judge : ℕ) : Sound judge {} where
  fresh _ _ := ⟨rfl, rfl⟩
  waits _ _ h := nomatch h
  works _ h := nomatch h
  ends _ _ _ h := nomatch h
  claims _ _ h := nomatch h
  own _ _ h := nomatch h

theorem claim?_eq_task (phase : Phase) {task : Task} (h : phase.task? = some task) :
    phase.claim? = some task.claim := by
  cases phase with
  | calling purpose request =>
      cases purpose with
      | claim => cases h
      | _ => exact congrArg (Option.map Task.claim) h
  | executing task => exact congrArg (Option.map Task.claim) h
  | _ => cases h

theorem Accounts.attends (h : worker.Accounts claim job) :
    worker.Abandoned claim ∨ worker.phase.Attends claim job := by
  rcases h with h | ⟨_, ⟨hphase, _⟩ | ⟨htask, _⟩⟩
  · exact Or.inl h
  · exact Or.inr (Or.inl hphase)
  · exact Or.inr (Or.inr htask)

/-! ### One request more -/

theorem traffic_send (worker : Worker) (op : Op) (request : ℕ) :
    (worker.send op).traffic request =
      if request = worker.sent then .request op else worker.traffic request :=
  Function.update_apply ..

theorem Sound.fresh_send (h : worker.Sound judge) (op : Op) (request : ℕ)
    (hle : worker.sent + 1 ≤ request) :
    (worker.send op).traffic request = .unsent ∧ worker.fates request = none := by
  rw [traffic_send, if_neg (by omega)]
  exact h.fresh request (by omega)

theorem Sound.own_send (h : worker.Sound judge) (hop : op.judge? = some judge)
    (request : ℕ) (other : Op) (hother : (worker.send op).traffic request = .request other) :
    other.judge? = some judge := by
  rw [traffic_send] at hother
  split_ifs at hother
  · cases hother
    exact hop
  · exact h.own request other hother

/-- A heartbeat does not disturb the main loop. -/
theorem Sound.send (h : worker.Sound judge) (hop : op.judge? = some judge)
    (hclaim : op.isClaim = false) : (worker.send op).Sound judge where
  fresh := h.fresh_send op
  waits purpose request hphase := Nat.lt_succ_of_lt (h.waits purpose request hphase)
  works claim hwork := ⟨Nat.lt_succ_of_lt (h.works claim hwork).1, (h.works claim hwork).2⟩
  ends purpose request other hphase hends hother := by
    have hlt := h.waits purpose request hphase
    rw [traffic_send, if_neg hlt.ne] at hother
    exact h.ends purpose request other hphase hends hother
  claims request other hother hisClaim := by
    rw [traffic_send] at hother
    split_ifs at hother
    · cases hother
      rw [hclaim] at hisClaim
      cases hisClaim
    · exact h.claims request other hother hisClaim
  own := h.own_send hop

/-- The main loop goes on to its next call. -/
theorem Sound.call (h : worker.Sound judge) (hop : op.judge? = some judge)
    (hclaim : op.isClaim = true → purpose = .claim)
    (hends : purpose.ends = true → ∀ task ∈ purpose.task?, op.EndsJob task.job)
    (hworks : ∀ task ∈ purpose.task?, task.claim < worker.sent ∧ worker.fates task.claim = none)
    (hidle : ∀ request other, worker.traffic request = .request other →
      worker.phase ≠ .calling .claim request) : (worker.call op purpose).Sound judge where
  fresh := h.fresh_send op
  waits _ _ hphase := by
    cases hphase
    exact Nat.lt_succ_self _
  works claim hwork := by
    change claim < worker.sent + 1 ∧ worker.fates claim = none
    cases htask : purpose.task? with
    | none =>
        cases purpose with
        | claim =>
            cases hwork
            exact ⟨Nat.lt_succ_self _, (h.fresh _ le_rfl).2⟩
        | _ => cases htask
    | some task =>
        have hphase := claim?_eq_task (.calling purpose worker.sent) htask
        obtain rfl := Option.some.inj (hphase.symm.trans hwork)
        obtain ⟨hlt, hnone⟩ := hworks task htask
        exact ⟨Nat.lt_succ_of_lt hlt, hnone⟩
  ends _ _ other hphase hpurpose hother := by
    cases hphase
    have hsent : (worker.send op).traffic worker.sent = .request other := hother
    rw [traffic_send, if_pos rfl] at hsent
    cases hsent
    exact hends hpurpose
  claims request other hother hisClaim := by
    have hsent : (worker.send op).traffic request = .request other := hother
    rw [traffic_send] at hsent
    split_ifs at hsent with hrequest
    · cases hsent
      subst hrequest
      rw [hclaim hisClaim]
      exact Or.inl rfl
    · exact Or.inr ((h.claims request other hsent hisClaim).resolve_left
        (hidle request other hsent))
  own := h.own_send hop

/-! ### The main loop leaves a job -/

theorem fates_leave_of_ne {phase : Phase} {fate : Fate} (h : worker.phase.claim? ≠ some claim) :
    (worker.leave phase fate).fates claim = worker.fates claim := by
  unfold leave
  dsimp only
  cases hclaim : worker.phase.claim? with
  | none => rfl
  | some other =>
      have hne : claim ≠ other := fun heq => h (heq ▸ hclaim)
      exact Function.update_of_ne hne ..

theorem fates_leave {phase : Phase} {fate : Fate} (h : worker.phase.claim? = some claim) :
    (worker.leave phase fate).fates claim = some fate := by
  unfold leave
  dsimp only
  rw [h]
  exact Function.update_self ..

theorem Sound.leave (h : worker.Sound judge) {phase : Phase} {fate : Fate}
    (hphase : phase = .idle ∨ phase = .down)
    (hfate : fate ≠ .completed ∨ ∀ request, worker.phase ≠ .calling .claim request) :
    (worker.leave phase fate).Sound judge := by
  have hclaim? : phase.claim? = none := by rcases hphase with rfl | rfl <;> rfl
  have hcalling : ∀ purpose request, phase ≠ .calling purpose request := by
    rcases hphase with rfl | rfl <;> exact fun _ _ heq => nomatch heq
  refine ⟨fun request hle => ⟨(h.fresh request hle).1, ?_⟩, ?_, ?_, ?_, ?_, h.own⟩
  · rw [fates_leave_of_ne]
    · exact (h.fresh request hle).2
    · intro hclaim
      exact absurd (h.works request hclaim).1 (not_lt.mpr hle)
  · exact fun purpose request hcall => absurd hcall (hcalling purpose request)
  · intro claim hwork
    have hnone : phase.claim? = some claim := hwork
    rw [hclaim?] at hnone
    cases hnone
  · exact fun purpose request _ hcall => absurd hcall (hcalling purpose request)
  · intro request op hop hisClaim
    refine Or.inr ?_
    rcases h.claims request op hop hisClaim with hphase | ⟨fate', hfate', hne⟩
    · have hclaim : worker.phase.claim? = some request := by
        rw [hphase]
        rfl
      exact ⟨fate, fates_leave hclaim, hfate.resolve_right fun hnot => hnot request hphase⟩
    · refine ⟨fate', ?_, hne⟩
      rw [fates_leave_of_ne, hfate']
      intro hclaim
      rw [(h.works request hclaim).2] at hfate'
      cases hfate'

theorem Accounts.leave (h : worker.Accounts claim job) (phase : Phase) {fate : Fate}
    (hfate : fate ≠ .completed) : (worker.leave phase fate).Accounts claim job := by
  refine Or.inl ?_
  by_cases hclaim : worker.phase.claim? = some claim
  · exact ⟨fate, fates_leave hclaim, hfate⟩
  · rcases h with ⟨fate', hfate', hne⟩ | ⟨-, ⟨hphase, -⟩ | ⟨htask, -⟩⟩
    · exact ⟨fate', (fates_leave_of_ne hclaim).trans hfate', hne⟩
    · rw [hphase] at hclaim
      exact absurd rfl hclaim
    · exact absurd (claim?_eq_task _ htask) hclaim

/-- A process that learns that it has ended its job accounts for its other claims. -/
theorem Accounts.complete (h : worker.Accounts claim job) (hsound : worker.Sound judge)
    {answer : Option ℕ} (hphase : worker.phase = .calling purpose request)
    (hends : purpose.ends = true) (hanswer : worker.traffic request = .answer (.ok answer)) :
    (worker.leave .idle .completed).Accounts claim job := by
  rcases h with ⟨fate, hfate, hne⟩ | ⟨-, ⟨hclaim, -⟩ | ⟨-, hnot⟩⟩
  · refine Or.inl ⟨fate, ?_, hne⟩
    rw [fates_leave_of_ne, hfate]
    intro hclaim
    rw [(hsound.works claim hclaim).2] at hfate
    cases hfate
  · rw [hphase] at hclaim
    cases hclaim
    cases hends
  · exact absurd ⟨purpose, request, answer, hphase, hends, hanswer⟩ hnot

/-! ### One action -/

/-- The main loop moves on without a call. -/
theorem Sound.enter (h : worker.Sound judge) {phase : Phase}
    (hphase : ∀ purpose request, phase ≠ .calling purpose request)
    (hworks : ∀ claim, phase.claim? = some claim →
      claim < worker.sent ∧ worker.fates claim = none)
    (hidle : ∀ request op, worker.traffic request = .request op →
      worker.phase ≠ .calling .claim request) : ({ worker with phase } : Worker).Sound judge where
  fresh := h.fresh
  waits purpose request hcall := absurd hcall (hphase purpose request)
  works := hworks
  ends purpose request _ hcall := absurd hcall (hphase purpose request)
  claims request op hop hisClaim :=
    Or.inr ((h.claims request op hop hisClaim).resolve_left (hidle request op hop))
  own := h.own

theorem Accounts.send (h : worker.Accounts claim job) (hsound : worker.Sound judge) (op : Op) :
    (worker.send op).Accounts claim job := by
  rcases h with habandoned | ⟨hnone, ⟨hphase, hanswer⟩ | ⟨htask, hnot⟩⟩
  · exact Or.inl habandoned
  · have hlt := hsound.waits _ _ hphase
    refine Or.inr ⟨hnone, Or.inl ⟨hphase, ?_⟩⟩
    rw [traffic_send, if_neg hlt.ne, hanswer]
  · refine Or.inr ⟨hnone, Or.inr ⟨htask, ?_⟩⟩
    rintro ⟨purpose, request, answer, hphase, hends, hanswer⟩
    have hlt := hsound.waits _ _ hphase
    rw [traffic_send, if_neg hlt.ne] at hanswer
    exact hnot ⟨purpose, request, answer, hphase, hends, hanswer⟩

/-- A claim in progress stays in progress when the next call is about its job. -/
theorem Accounts.call (h : worker.Accounts claim job) (op : Op)
    (hnext : worker.phase = .calling .claim claim ∧
        worker.traffic claim = .answer (.ok (some job)) ∨
      worker.phase.task? = some ⟨claim, job⟩ → purpose.task? = some ⟨claim, job⟩) :
    (worker.call op purpose).Accounts claim job := by
  rcases h with habandoned | ⟨hnone, hprogress⟩
  · exact Or.inl habandoned
  · refine Or.inr ⟨hnone, Or.inr ⟨hnext (hprogress.imp_right And.left), ?_⟩⟩
    -- the new request has no answer yet
    rintro ⟨_, request, answer, hphase, -, hanswer⟩
    cases hphase
    have hsent : (worker.send op).traffic worker.sent = .answer (.ok answer) := hanswer
    rw [traffic_send, if_pos rfl] at hsent
    cases hsent

/-- What an action of a process keeps. -/
structure Keeps (judge : ℕ) (worker next : Worker) : Prop where
  sound : next.Sound judge
  accounts : ∀ claim job, worker.Accounts claim job → next.Accounts claim job

theorem keeps_leave (h : worker.Sound judge) {phase : Phase} {fate : Fate}
    (hphase : phase = .idle ∨ phase = .down) (hfate : fate ≠ .completed) :
    Keeps judge worker (worker.leave phase fate) :=
  ⟨h.leave hphase (Or.inl hfate), fun _ _ haccounts => haccounts.leave phase hfate⟩

/-- The next call about the job in progress. -/
theorem keeps_call (h : worker.Sound judge) {task : Task} (hop : op.judge? = some judge)
    (hclaim : op.isClaim = false) (htask : worker.phase.task? = some task)
    (hpurpose : purpose.task? = some task)
    (hends : purpose.ends = true → op.EndsJob task.job) :
    Keeps judge worker (worker.call op purpose) := by
  have hworks := h.works _ (claim?_eq_task _ htask)
  refine ⟨h.call hop ?_ ?_ ?_ ?_, fun claim job haccounts => haccounts.call op ?_⟩
  · intro hisClaim
    rw [hclaim] at hisClaim
    cases hisClaim
  · rw [hpurpose]
    rintro hpurposeEnds _ ⟨⟩
    exact hends hpurposeEnds
  · rw [hpurpose]
    rintro _ ⟨⟩
    exact hworks
  · intro request other _ hphase
    rw [hphase] at htask
    cases htask
  · rintro (⟨hphase, -⟩ | hsame)
    · rw [hphase] at htask
      cases htask
    · rw [hpurpose, ← htask, hsame]

/-- `Worker.Run` after the response to a call. -/
theorem keeps_proceed (h : worker.Sound judge) {answer : Answer}
    (hphase : worker.phase = .calling purpose request)
    (hanswer : worker.traffic request = .answer answer ∨ answer = .error ()) :
    Keeps judge worker (worker.proceed judge request purpose answer) := by
  cases answer with
  | error error =>
      have hidle : Phase.idle = .idle ∨ Phase.idle = .down := Or.inl rfl
      cases purpose with
      | claim => exact keeps_leave h hidle (by decide)
      | start | cases | finish | fail => exact keeps_leave h hidle (by decide)
  | ok found =>
      have hanswer := hanswer.resolve_right (fun heq => nomatch heq)
      have hworks := h.works
      have hidle : ∀ other op, worker.traffic other = .request op →
          worker.phase ≠ .calling .claim other := by
        intro other op hop hclaim
        rw [hphase] at hclaim
        cases hclaim
        rw [hanswer] at hop
        cases hop
      rw [hphase] at hworks
      have hcomplete : purpose.ends = true →
          Keeps judge worker (worker.leave .idle .completed) := by
        intro hends
        refine ⟨h.leave (Or.inl rfl) (Or.inr fun other hclaim => ?_),
          fun claim job haccounts => haccounts.complete h hphase hends hanswer⟩
        rw [hphase] at hclaim
        cases hclaim
        cases hends
      cases purpose with
      | claim =>
          cases found with
          | none =>
              refine ⟨h.enter (fun _ _ heq => nomatch heq) (fun _ heq => nomatch heq) hidle, ?_⟩
              rintro claim job (habandoned | ⟨-, ⟨hclaim, hjob⟩ | ⟨htask, -⟩⟩)
              · exact Or.inl habandoned
              · rw [hphase] at hclaim
                cases hclaim
                rw [hanswer] at hjob
                cases hjob
              · rw [hphase] at htask
                cases htask
          | some job =>
              refine ⟨h.call rfl (fun heq => nomatch heq) (fun heq => nomatch heq) ?_ hidle,
                fun claim job' haccounts => haccounts.call _ ?_⟩
              · rintro _ ⟨⟩
                exact hworks request rfl
              · rintro (⟨hclaim, hjob⟩ | htask)
                · rw [hphase] at hclaim
                  cases hclaim
                  rw [hanswer] at hjob
                  cases hjob
                  rfl
                · rw [hphase] at htask
                  cases htask
      | start task =>
          refine ⟨h.enter (fun _ _ heq => nomatch heq) hworks hidle, ?_⟩
          rintro claim job (habandoned | ⟨hnone, ⟨hclaim, -⟩ | ⟨htask, -⟩⟩)
          · exact Or.inl habandoned
          · rw [hphase] at hclaim
            cases hclaim
          · rw [hphase] at htask
            refine Or.inr ⟨hnone, Or.inr ⟨htask, ?_⟩⟩
            rintro ⟨_, _, _, hcall, -⟩
            cases hcall
      | cases task =>
          exact keeps_call h rfl rfl (by rw [hphase]; rfl) rfl fun _ => rfl
      | finish task => exact hcomplete rfl
      | fail task => exact hcomplete rfl

theorem traffic_settle (worker : Worker) (request : ℕ) (transit : Transit) (other : ℕ) :
    (worker.settle request transit).traffic other =
      if other = request then transit else worker.traffic other :=
  Function.update_apply ..

theorem Sound.settle (h : worker.Sound judge) (hop : worker.traffic request = .request op)
    {transit : Transit} (htransit : ∀ op, transit ≠ .request op) :
    (worker.settle request transit).Sound judge where
  fresh other hle := by
    have hfresh := h.fresh other hle
    have hne : other ≠ request := by
      rintro rfl
      rw [hfresh.1] at hop
      cases hop
    rw [traffic_settle, if_neg hne]
    exact hfresh
  waits := h.waits
  works := h.works
  ends purpose other op' hphase hends hother := by
    rw [traffic_settle] at hother
    split_ifs at hother
    · exact absurd hother (htransit op')
    · exact h.ends purpose other op' hphase hends hother
  claims other op' hother hisClaim := by
    rw [traffic_settle] at hother
    split_ifs at hother
    · exact absurd hother (htransit op')
    · exact h.claims other op' hother hisClaim
  own other op' hother := by
    rw [traffic_settle] at hother
    split_ifs at hother
    · exact absurd hother (htransit op')
    · exact h.own other op' hother

/-- The answer to a request leaves the claims accounted for, unless it tells the process
that its job has ended. -/
theorem Accounts.settle (h : worker.Accounts claim job)
    (hop : worker.traffic request = .request op) {transit : Transit}
    (hnot : ∀ purpose answer, worker.phase = .calling purpose request → purpose.ends = true →
      worker.phase.task? = some ⟨claim, job⟩ → transit ≠ .answer (.ok answer)) :
    (worker.settle request transit).Accounts claim job := by
  rcases h with habandoned | ⟨hnone, ⟨hphase, hanswer⟩ | ⟨htask, hunknown⟩⟩
  · exact Or.inl habandoned
  · have hne : claim ≠ request := by
      rintro rfl
      rw [hop] at hanswer
      cases hanswer
    refine Or.inr ⟨hnone, Or.inl ⟨hphase, ?_⟩⟩
    rw [traffic_settle, if_neg hne, hanswer]
  · refine Or.inr ⟨hnone, Or.inr ⟨htask, ?_⟩⟩
    rintro ⟨purpose, other, answer, hphase, hends, hanswer⟩
    rw [traffic_settle] at hanswer
    split_ifs at hanswer with hother
    · subst hother
      exact hnot purpose answer hphase hends htask hanswer
    · exact hunknown ⟨purpose, other, answer, hphase, hends, hanswer⟩

theorem keeps_settle (h : worker.Sound judge) (hop : worker.traffic request = .request op)
    {transit : Transit} (htransit : transit = .lost ∨ transit = .answer (.error ())) :
    Keeps judge worker (worker.settle request transit) := by
  refine ⟨h.settle hop fun op heq => ?_, fun claim job haccounts =>
    haccounts.settle hop fun _ answer _ _ _ heq => ?_⟩
  all_goals
    rcases htransit with rfl | rfl <;> cases heq

theorem keeps_act (h : worker.Sound judge) {action : WorkerAction}
    (hact : worker.act judge action = some next) : Keeps judge worker next := by
  have hidle : worker.phase.claim? = none → ∀ request op, worker.traffic request = .request op →
      worker.phase ≠ .calling .claim request := by
    intro hnone request _ _ hphase
    rw [hphase] at hnone
    cases hnone
  cases action with
  | boot =>
      simp only [act, Option.ite_none_right_eq_some, Option.some.injEq] at hact
      obtain ⟨hdown, rfl⟩ := hact
      refine ⟨h.enter (fun _ _ heq => nomatch heq) (fun _ heq => nomatch heq)
        (hidle (by rw [hdown]; rfl)), ?_⟩
      rintro claim job (habandoned | ⟨-, ⟨hphase, -⟩ | ⟨htask, -⟩⟩)
      · exact Or.inl habandoned
      · rw [hdown] at hphase
        cases hphase
      · rw [hdown] at htask
        cases htask
  | crash =>
      simp only [act, Option.ite_none_right_eq_some, Option.some.injEq] at hact
      obtain ⟨-, rfl⟩ := hact
      exact keeps_leave h (Or.inr rfl) (by decide)
  | beat =>
      simp only [act, Option.ite_none_right_eq_some, Option.some.injEq] at hact
      obtain ⟨-, rfl⟩ := hact
      exact ⟨h.send rfl rfl, fun _ _ haccounts => haccounts.send h _⟩
  | claim languages tie =>
      simp only [act, Option.ite_none_right_eq_some, Option.some.injEq] at hact
      obtain ⟨hphase, rfl⟩ := hact
      refine ⟨h.call rfl (fun _ => rfl) (fun heq => nomatch heq) (fun _ heq => nomatch heq)
        (hidle (by rw [hphase]; rfl)), fun claim job haccounts => haccounts.call _ ?_⟩
      rw [hphase]
      rintro (⟨heq, -⟩ | heq) <;> cases heq
  | receive =>
      simp only [act] at hact
      split at hact
      case h_2 => cases hact
      case h_1 purpose request hphase =>
        split at hact
        case h_2 => cases hact
        case h_1 answer hanswer =>
          obtain rfl := Option.some.inj hact
          exact keeps_proceed h hphase (Or.inl hanswer)
  | giveUp =>
      simp only [act] at hact
      split at hact
      case h_2 => cases hact
      case h_1 purpose request hphase =>
        obtain rfl := Option.some.inj hact
        exact keeps_proceed h hphase (Or.inr rfl)
  | executed cases =>
      simp only [act] at hact
      split at hact
      case h_2 => cases hact
      case h_1 task hphase =>
        obtain rfl := Option.some.inj hact
        exact keeps_call h rfl rfl (by rw [hphase]; rfl) rfl fun heq => nomatch heq
  | executionFailed result errorMessage =>
      simp only [act] at hact
      split at hact
      case h_2 => cases hact
      case h_1 task hphase =>
        obtain rfl := Option.some.inj hact
        exact keeps_call h rfl rfl (by rw [hphase]; rfl) rfl fun _ => rfl
  | refuse request =>
      simp only [act] at hact
      split at hact
      case h_2 => cases hact
      case h_1 op hop =>
        obtain rfl := Option.some.inj hact
        exact keeps_settle h hop (Or.inr rfl)
  | drop request =>
      simp only [act] at hact
      split at hact
      case h_2 => cases hact
      case h_1 op hop =>
        obtain rfl := Option.some.inj hact
        exact keeps_settle h hop (Or.inl rfl)

end Worker

/-! ## Every run of a cluster -/

/-- The invariant of a cluster: every lease goes back to a claim that is accounted for. -/
structure Cluster.Sound {ι : Type} (token : ι → ℕ) (cluster : Cluster ι) : Prop where
  valid : cluster.world.Valid
  workers : ∀ process, (cluster.workers process).Sound (token process)
  leases : ∀ id s, cluster.world.db.judging? id = some s → s.job.status.leased = true →
    ∃ process claim, cluster.claims id = some (process, claim) ∧
      s.job.claimedBy = some (token process) ∧ (cluster.workers process).Accounts claim id

theorem Cluster.Sound.serve {ι : Type} {token : ι → ℕ} {cluster : Cluster ι}
    (h : cluster.Sound token) {op : Op} (hop : op.isInternal = true) (P : Python) :
    { cluster with world := cluster.world.step P op }.Sound token where
  valid := h.valid.step
  workers := h.workers
  leases id s hs hleased := by
    rcases h.valid.lease_of_step op hs hleased with
      ⟨judge, languages, tie, rfl, -⟩ | ⟨-, t, ht, hleasedBefore, hsame⟩
    · cases hop
    · rw [hsame]
      exact h.leases id t ht hleasedBefore

namespace Cluster

variable {ι : Type} [DecidableEq ι] {P : Python} {token : ι → ℕ} {cluster next start : Cluster ι}
  {action : ClusterAction ι} {actions : List (ClusterAction ι)} {process : ι} {worker : Worker}
  {op : Op} {request : ℕ}

theorem Sound.work (h : cluster.Sound token)
    (hkeeps : Worker.Keeps (token process) (cluster.workers process) worker) :
    { cluster with workers := Function.update cluster.workers process worker }.Sound token where
  valid := h.valid
  workers other := by
    by_cases hother : other = process
    · subst hother
      dsimp only
      rw [Function.update_self]
      exact hkeeps.sound
    · dsimp only
      rw [Function.update_of_ne hother]
      exact h.workers other
  leases id s hs hleased := by
    obtain ⟨other, claim, hclaim, howner, haccounts⟩ := h.leases id s hs hleased
    refine ⟨other, claim, hclaim, howner, ?_⟩
    by_cases hother : other = process
    · subst hother
      dsimp only
      rw [Function.update_self]
      exact hkeeps.accounts claim id haccounts
    · dsimp only
      rw [Function.update_of_ne hother]
      exact haccounts

theorem workers_perform_self (cluster : Cluster ι) (process : ι) (request : ℕ) (op : Op) :
    (cluster.perform P process request op).workers process =
      (cluster.workers process).settle request (.answer (cluster.world.answer P op)) :=
  Function.update_self ..

theorem workers_perform_of_ne {other : ι} (hother : other ≠ process) (request : ℕ) (op : Op) :
    (cluster.perform P process request op).workers other = cluster.workers other :=
  Function.update_of_ne hother ..

/-- The gateway performs a request. -/
theorem Sound.perform (h : cluster.Sound token)
    (hop : (cluster.workers process).traffic request = .request op) :
    (cluster.perform P process request op).Sound token where
  valid := h.valid.step
  workers other := by
    by_cases hother : other = process
    · subst hother
      rw [workers_perform_self]
      exact (h.workers other).settle hop fun _ heq => nomatch heq
    · rw [workers_perform_of_ne hother]
      exact h.workers other
  leases id s hs hleased := by
    have hworker := h.workers process
    rcases h.valid.lease_of_step op hs hleased with
      ⟨judge, languages, tie, rfl, hclaimed, howner⟩ | ⟨hclaimed, t, ht, hleasedBefore, hsame⟩
    · -- the request has claimed the job
      have hjudge : some judge = some (token process) := hworker.own request _ hop
      refine ⟨process, request, ?_, howner.trans hjudge, ?_⟩
      · change (cluster.world.claimedJob _).elim cluster.claims _ id = _
        rw [hclaimed]
        exact Function.update_self ..
      · rw [workers_perform_self]
        rcases hworker.claims request _ hop rfl with hphase | habandoned
        · have hanswer : cluster.world.answer P (.claimJob judge languages tie) =
              .ok (some id) := congrArg Except.ok hclaimed
          have hclaim : (cluster.workers process).phase.claim? = some request := by
            rw [hphase]
            rfl
          refine Or.inr ⟨(hworker.works request hclaim).2, Or.inl ⟨hphase, ?_⟩⟩
          rw [Worker.traffic_settle, if_pos rfl, hanswer]
        · exact Or.inl habandoned
    · -- the lease is older
      obtain ⟨other, claim, hclaim, howner, haccounts⟩ := h.leases id t ht hleasedBefore
      refine ⟨other, claim, ?_, hsame.trans howner, ?_⟩
      · change (cluster.world.claimedJob op).elim cluster.claims _ id = _
        cases hjob : cluster.world.claimedJob op with
        | none => exact hclaim
        | some job =>
            have hne : id ≠ job := by
              rintro rfl
              exact hclaimed hjob
            exact (Function.update_of_ne hne ..).trans hclaim
      · by_cases hother : other = process
        · subst hother
          rw [workers_perform_self]
          refine haccounts.settle hop fun purpose answer hphase hends htask hanswer => ?_
          have hjob : op.EndsJob id := by
            rw [hphase] at htask
            exact hworker.ends purpose request op hphase hends hop _ htask
          cases hok : op.perform P cluster.world.now cluster.world.db with
          | error error =>
              rw [World.answer, hok] at hanswer
              cases hanswer
          | ok db =>
              have hs' : db.judging? id = some s := by
                rw [← hs]
                exact congrArg (fun world : World => world.db.judging? id)
                  (World.step_of_ok hok).symm
              rw [Op.not_leased_of_ends hjob hok hs'] at hleased
              cases hleased
        · rw [workers_perform_of_ne hother]
          exact haccounts

theorem Sound.step (h : cluster.Sound token) (hstep : cluster.Step P token action next) :
    next.Sound token := by
  cases action with
  | serve op =>
      simp only [Step, act, Option.ite_none_right_eq_some, Option.some.injEq] at hstep
      obtain ⟨hop, rfl⟩ := hstep
      exact h.serve hop P
  | work process action =>
      obtain ⟨worker, hact, rfl⟩ := Option.map_eq_some_iff.mp hstep
      exact h.work (Worker.keeps_act (h.workers process) hact)
  | deliver process request =>
      simp only [Step, act] at hstep
      split at hstep
      case h_2 => cases hstep
      case h_1 op hop =>
        obtain rfl := Option.some.inj hstep
        exact h.perform hop

/-- No process has started, and there are no jobs. -/
structure Initial (cluster : Cluster ι) : Prop where
  world : cluster.world.Initial
  workers : ∀ process, cluster.workers process = {}

omit [DecidableEq ι] in
theorem Initial.sound (h : cluster.Initial) (token : ι → ℕ) : cluster.Sound token where
  valid := h.world.valid
  workers process := by
    rw [h.workers]
    exact Worker.sound_boot _
  leases id s hs := by
    rw [h.world.judging?] at hs
    cases hs

theorem sound_run (hstart : start.Initial) (run : Run (Step P token) start actions cluster) :
    cluster.Sound token :=
  run.invariant (hstart.sound token) fun _ _ _ hsound hstep => hsound.step hstep

/-- In every run, when a heartbeat of a judge arrives, the latest claim of every job
whose lease it extends was made by a process of that judge.  This process still
attends to the job, or it has crashed or got an error; it has not completed it. -/
theorem attended_run (hstart : start.Initial) (run : Run (Step P token) start actions cluster)
    {sender : ι} {judge id : ℕ} {job : JudgeJob}
    (hbeat : (cluster.workers sender).traffic request = .request (.heartbeat judge))
    (hjob : cluster.world.db.jobs.get? id = some job) (hextends : job.leasedBy judge = true) :
    token sender = judge ∧ ∃ process claim, cluster.claims id = some (process, claim) ∧
      token process = judge ∧
        ((cluster.workers process).phase.Attends claim id ∨
          ∃ fate, (cluster.workers process).fates claim = some fate ∧ fate ≠ .completed) := by
  have hsound := sound_run hstart run
  have hsender : some judge = some (token sender) := (hsound.workers sender).own request _ hbeat
  simp only [JudgeJob.leasedBy, Bool.and_eq_true, decide_eq_true_eq] at hextends
  obtain ⟨hclaimedBy, hleased⟩ := hextends
  obtain ⟨s, hs, rfl⟩ := hsound.valid.consistent.judging?_of_mem (Table.mem_of_get? hjob)
  obtain rfl := Table.key_of_get? hjob
  obtain ⟨process, claim, hclaim, howner, haccounts⟩ := hsound.leases _ s hs hleased
  refine ⟨(Option.some.inj hsender).symm, process, claim, hclaim, ?_, haccounts.attends.symm⟩
  exact Option.some.inj (howner.symm.trans hclaimedBy)

/-! ## A lease that nobody attends to -/

/-- A process of judge 7 claims a submission, the connection fails before the response
arrives, and ten seconds later the process sends a heartbeat. -/
def orphanActions : List (ClusterAction Unit) :=
  [.serve (.createSubmission sampleRequest), .work () .boot, .work () (.claim ["python"] 0),
    .deliver () 0, .work () .giveUp, .serve (.advance 10000000), .work () .beat]

/-- The same without the failure: the job is being executed. -/
def attendedActions : List (ClusterAction Unit) :=
  [.serve (.createSubmission sampleRequest), .work () .boot, .work () (.claim ["python"] 0),
    .deliver () 0, .work () .receive, .deliver () 1, .work () .receive, .work () .beat]

/-- The cluster after some actions of a process of judge 7. -/
def sampleCluster (actions : List (ClusterAction Unit)) : Option (Cluster Unit) :=
  actions.foldlM (act samplePython fun _ => 7) {}

theorem initial_sample : ({} : Cluster Unit).Initial where
  world := World.initial_empty 0
  workers _ := rfl

theorem run_sample {actions : List (ClusterAction Unit)} {cluster : Cluster Unit}
    (h : sampleCluster actions = some cluster) :
    Run (Step samplePython fun _ => 7) {} actions cluster :=
  Run.foldlM _ h

theorem attended_run_sample :
    ∃ cluster, sampleCluster attendedActions = some cluster ∧
      (cluster.workers ()).phase = .executing ⟨0, 1⟩ ∧
        ∃ process claim, cluster.claims 1 = some (process, claim) ∧
          ((cluster.workers process).phase.Attends claim 1 ∨
            ∃ fate, (cluster.workers process).fates claim = some fate ∧ fate ≠ .completed) := by
  have hseen : (sampleCluster attendedActions).map (fun cluster =>
      ((cluster.workers ()).phase, (cluster.workers ()).traffic 2,
        (cluster.world.db.jobs.get? 1).map (JudgeJob.leasedBy 7))) =
      some (.executing ⟨0, 1⟩, .request (.heartbeat 7), some true) := rfl
  obtain ⟨cluster, hcluster, hseen⟩ := Option.map_eq_some_iff.mp hseen
  simp only [Prod.mk.injEq, Option.map_eq_some_iff] at hseen
  obtain ⟨hphase, hbeat, job, hjob, hextends⟩ := hseen
  obtain ⟨-, process, claim, hclaim, -, hattended⟩ :=
    attended_run initial_sample (run_sample hcluster) hbeat hjob hextends
  exact ⟨cluster, hcluster, hphase, process, claim, hclaim, hattended⟩

/-- The heartbeat extends the lease of the job, which no process attends to. -/
theorem orphaned_lease :
    ∃ (cluster next : Cluster Unit) (job : JudgeJob),
      Run (Step samplePython fun _ => 7) {} orphanActions cluster ∧
        cluster.Step samplePython (fun _ => 7) (.deliver () 1) next ∧
        cluster.world.db.jobs.get? 1 = some job ∧ job.leaseExpiresAt = some 60000000 ∧
        (next.world.db.jobs.get? 1).map JudgeJob.leaseExpiresAt = some (some 70000000) ∧
        ∀ process claim, ¬ (cluster.workers process).phase.Attends claim 1 := by
  have hseen : ((sampleCluster orphanActions).bind fun cluster =>
      (cluster.act samplePython (fun _ => 7) (.deliver () 1)).map fun next =>
        ((cluster.workers ()).phase,
          (cluster.world.db.jobs.get? 1).map JudgeJob.leaseExpiresAt,
          (next.world.db.jobs.get? 1).map JudgeJob.leaseExpiresAt)) =
      some (.idle, some (some 60000000), some (some 70000000)) := by
    decide +kernel
  obtain ⟨cluster, hcluster, hseen⟩ := Option.bind_eq_some_iff.mp hseen
  obtain ⟨next, hnext, hseen⟩ := Option.map_eq_some_iff.mp hseen
  simp only [Prod.mk.injEq] at hseen
  obtain ⟨hphase, hbefore, hafter⟩ := hseen
  obtain ⟨job, hjob, hlease⟩ := Option.map_eq_some_iff.mp hbefore
  refine ⟨cluster, next, job, run_sample hcluster, hnext, hjob, hlease, hafter, ?_⟩
  rintro ⟨⟩ claim (hclaiming | hworking)
  · rw [hphase] at hclaiming
    cases hclaiming
  · rw [hphase] at hworking
    cases hworking

end Cluster

end JudgeLoom
