import JudgeLoom.Judge.Transactions
import JudgeLoom.Judge.Transitions
import Mathlib.Data.List.DropRight

/-!
# Claims are exclusive under read-committed isolation

What the claims of one job amount to is a small abstract machine, `ClaimState`: a
job is taken or free, and it counts its claims.  A job can only be claimed while it
is free, and only a requeue or a rejudge frees it.

Every transaction of the services, executed alone on any versions of the tables,
takes each job through the steps of this machine that its events name
(`Gateway.tracks`).  Since the commits of a concurrent run are such executions
(`System.Sound.run_commits`), so does every interleaving.
-/

namespace JudgeLoom

open Transaction KeyedStore

/-! ## The abstract machine -/

/-- A job as far as claims go. -/
structure ClaimState where
  taken : Bool
  claims : ℕ

namespace LeaseEvent

/-- The count of claims starts again. -/
def resets : LeaseEvent → Bool
  | created | rejudged => true
  | _ => false

def isClaim : LeaseEvent → Bool
  | claimed _ => true
  | _ => false

/-- The number of claims since the job was created or last rejudged. -/
def claimsSinceReset (history : List LeaseEvent) : ℕ :=
  (history.rtakeWhile fun event => !event.resets).countP isClaim

end LeaseEvent

namespace ClaimState

/-- What an event does to a job; `none` is a job that does not exist yet. -/
inductive Step : Option ClaimState → LeaseEvent → Option ClaimState → Prop
  | created : Step none .created (some ⟨false, 0⟩)
  | claimed (judge claims : ℕ) :
      Step (some ⟨false, claims⟩) (.claimed judge) (some ⟨true, claims + 1⟩)
  | requeued (taken : Bool) (claims : ℕ) :
      Step (some ⟨taken, claims⟩) .requeued (some ⟨false, claims⟩)
  | rejudged (taken : Bool) (claims : ℕ) : Step (some ⟨taken, claims⟩) .rejudged (some ⟨false, 0⟩)

variable {history : List LeaseEvent} {state : Option ClaimState}

theorem claims_of_run (run : Run Step none history state) :
    ∀ s ∈ state, s.claims = LeaseEvent.claimsSinceReset history := by
  induction run with
  | nil => simp
  | snoc _ hstep ih =>
      intro s hs
      cases hstep with
      | created =>
          obtain rfl := Option.some.inj hs
          rw [LeaseEvent.claimsSinceReset, List.rtakeWhile_concat_neg _ _ _ (by decide)]
          rfl
      | claimed judge claims =>
          obtain rfl := Option.some.inj hs
          have hclaims := ih _ rfl
          rw [LeaseEvent.claimsSinceReset, List.rtakeWhile_concat_pos _ _ _ rfl, List.countP_append]
          exact congrArg (· + 1) hclaims
      | requeued taken claims =>
          obtain rfl := Option.some.inj hs
          have hclaims := ih _ rfl
          rw [LeaseEvent.claimsSinceReset, List.rtakeWhile_concat_pos _ _ _ rfl, List.countP_append]
          exact hclaims
      | rejudged taken claims =>
          obtain rfl := Option.some.inj hs
          rw [LeaseEvent.claimsSinceReset, List.rtakeWhile_concat_neg _ _ _ (by decide)]
          rfl

/-- After a claim that nothing has undone, the job is taken. -/
theorem taken_of_run (run : Run Step none history state) {before after : List LeaseEvent}
    {judge : ℕ} (hhistory : history = before ++ .claimed judge :: after)
    (hrequeued : .requeued ∉ after) (hrejudged : .rejudged ∉ after) :
    ∃ s ∈ state, s.taken = true := by
  induction run generalizing before after with
  | nil => simp at hhistory
  | @snoc labels label middle final run hstep ih =>
      rcases List.eq_nil_or_concat' after with rfl | ⟨earlier, last, rfl⟩
      · obtain rfl := (List.cons.inj (List.append_inj' hhistory rfl).2).1
        cases hstep with
        | claimed judge claims => exact ⟨_, rfl, rfl⟩
      · rw [← List.cons_append, ← List.append_assoc] at hhistory
        obtain ⟨rfl, hlabel⟩ := List.append_inj' hhistory rfl
        obtain rfl := (List.cons.inj hlabel).1
        rw [List.mem_append, not_or] at hrequeued hrejudged
        obtain ⟨s, hs, htaken⟩ := ih rfl hrequeued.1 hrejudged.1
        cases hstep with
        | created => cases hs
        | claimed judge claims => exact ⟨_, rfl, rfl⟩
        | requeued taken claims => exact absurd List.mem_cons_self hrequeued.2
        | rejudged taken claims => exact absurd List.mem_cons_self hrejudged.2

/-- Between two claims of a job there is a requeue or a rejudge. -/
theorem exclusive_of_run (run : Run Step none history state)
    {before between after : List LeaseEvent} {judge judge' : ℕ}
    (hhistory : history = before ++ .claimed judge :: between ++ .claimed judge' :: after) :
    .requeued ∈ between ∨ .rejudged ∈ between := by
  induction run generalizing after with
  | nil => simp at hhistory
  | @snoc labels label middle final run hstep ih =>
      rcases List.eq_nil_or_concat' after with rfl | ⟨earlier, last, rfl⟩
      · obtain ⟨rfl, hlabel⟩ := List.append_inj' hhistory rfl
        obtain rfl := (List.cons.inj hlabel).1
        by_contra hneither
        rw [not_or] at hneither
        obtain ⟨s, hs, htaken⟩ := taken_of_run run rfl hneither.1 hneither.2
        cases hstep with
        | claimed judge claims =>
            obtain rfl := Option.some.inj hs
            cases htaken
      · rw [← List.cons_append, ← List.append_assoc] at hhistory
        exact ih (List.append_inj' hhistory rfl).1

end ClaimState

/-! ## What a statement does to the claims of a job -/

/-- A job row as a state of the abstract machine. -/
def JudgeJob.claimState (job : JudgeJob) : ClaimState where
  taken := job.status ≠ .queued
  claims := job.attempts

/-- The claims of the job of a key. -/
def Database.claims (db : Database) (id : ℕ) : Option ClaimState :=
  (db.jobs.get? id).map JudgeJob.claimState

/-- The events of one job. -/
def eventsOf (id : ℕ) (events : List (ℕ × LeaseEvent)) : List LeaseEvent :=
  (events.filter fun event => event.1 = id).map Prod.snd

/-- Each job goes through the steps that its events name. -/
def Tracks (db : Database) (events : List (ℕ × LeaseEvent)) (db' : Database) : Prop :=
  ∀ id, Run ClaimState.Step (db.claims id) (eventsOf id events) (db'.claims id)

namespace Tracks

variable {db db' db'' : Database} {events more : List (ℕ × LeaseEvent)} {key : RowKey} {id : ℕ}

theorem of_eq (h : ∀ id, db'.claims id = db.claims id) : Tracks db [] db' := by
  intro id
  rw [h id]
  exact Run.nil

theorem refl (db : Database) : Tracks db [] db := of_eq fun _ => rfl

theorem append (first : Tracks db events db') (second : Tracks db' more db'') :
    Tracks db (events ++ more) db'' := by
  intro id
  rw [eventsOf, List.filter_append, List.map_append]
  exact (first id).append (second id)

/-- One event of one job. -/
theorem single {event : LeaseEvent} (hstep : ClaimState.Step (db.claims id) event (db'.claims id))
    (hother : ∀ other, other ≠ id → db'.claims other = db.claims other) :
    Tracks db [(id, event)] db' := by
  intro other
  by_cases h : other = id
  · subst h
    simpa [eventsOf] using Run.single hstep
  · rw [hother other h]
    simpa [eventsOf, Ne.symm h] using Run.nil

theorem of_rewriteJob {f : {job : JudgeJob // job.id = id} → {job : JudgeJob // job.id = id}}
    (events : List LeaseEvent)
    (hf : ∀ row, get? db (RowKey.job id) = some row →
      Run ClaimState.Step (some row.1.claimState) events (some (f row).1.claimState))
    (hnone : get? db (RowKey.job id) = none → events = []) :
    Tracks db (events.map fun event => (id, event)) (rewriteRow db (RowKey.job id) f) := by
  intro other
  have hclaims : ∀ (db : Database) other,
      db.claims other = (get? db (RowKey.job other)).map fun row => row.1.claimState := by
    intro db other
    unfold Database.claims
    rw [← Table.map_val_row?, Option.map_map]
    rfl
  by_cases h : other = id
  · subst h
    have hevents : eventsOf other (events.map fun event => (other, event)) = events := by
      simp [eventsOf, List.filter_map, Function.comp_def]
    rw [hevents, hclaims, hclaims, get?_rewriteRow_self]
    cases hrow : get? db (RowKey.job other) with
    | none =>
        rw [hnone hrow]
        exact Run.nil
    | some row => exact hf row hrow
  · have hevents : eventsOf other (events.map fun event => (id, event)) = [] := by
      simp [eventsOf, List.filter_map, Function.comp_def, Ne.symm h]
    rw [hevents, hclaims, hclaims, get?_rewriteRow_of_ne _ _ fun heq => h (RowKey.job.inj heq)]
    exact Run.nil

end Tracks

/-! ## What a transaction does to the claims of a job -/

namespace DbTransaction

variable {α β : Type} {V : ℕ → Database} {n : ℕ} {start final : Progress Query RowKey.Row}
  {value : α} {id : ℕ}

/-- The transaction does not write to the table of jobs. -/
def KeepsJobs (program : DbTransaction α) : Prop :=
  ∀ ⦃V n start value final⦄, program.Yields V n start value final →
    (final.view (V n)).jobs = (start.view (V n)).jobs

/-- The events that a transaction reports are what it did to the claims. -/
def Reports (program : DbTransaction (List (ℕ × LeaseEvent))) : Prop :=
  ∀ ⦃V n start events final⦄, program.Yields V n start events final →
    Tracks (start.view (V n)) events (final.view (V n))

theorem tracks_of_jobs {db db' : Database} (h : db'.jobs = db.jobs) : Tracks db [] db' :=
  Tracks.of_eq fun id => by rw [Database.claims, Database.claims, h]

namespace KeepsJobs

variable {program : DbTransaction α}

theorem bind {next : α → DbTransaction β} (h : KeepsJobs program)
    (hnext : ∀ value, KeepsJobs (next value)) : KeepsJobs (program >>= next) := by
  intro V n start value final hyields
  obtain ⟨a, middle, hfirst, hsecond⟩ := yields_bind.mp hyields
  exact (hnext a hsecond).trans (h hfirst)

theorem pure (value : α) : KeepsJobs (pure value : DbTransaction α) := by
  rintro V n start _ _ ⟨rfl, rfl⟩
  rfl

theorem abort : KeepsJobs (.abort : DbTransaction α) := fun _ _ _ _ _ hyields => hyields.elim

theorem select (query : Query) (f : Database → α) :
    KeepsJobs (Transaction.select query f : DbTransaction α) := by
  rintro V n start value final ⟨m, hm, rfl, rfl⟩
  rfl

theorem modify (key : RowKey) (hkey : ∀ id, key ≠ .job id) (f : key.Row → key.Row) :
    KeepsJobs (Transaction.modify key f : DbTransaction PUnit) := by
  intro V n start value final hyields
  rw [← yields_modify.mp hyields, Progress.view_update]
  unfold rewriteRow
  cases get? (start.view (V n)) key with
  | none => rfl
  | some row =>
      cases key with
      | job id => exact absurd rfl (hkey id)
      | _ => rfl

theorem create (key : RowKey) (hkey : ∀ id, key ≠ .job id) (row : key.Row) :
    KeepsJobs (Transaction.create key row : DbTransaction PUnit) := by
  intro V n start value final hyields
  obtain ⟨-, rfl⟩ := yields_create.mp hyields
  rw [Progress.view_write]
  cases key with
  | job id => exact absurd rfl (hkey id)
  | _ => rfl

theorem saveSubmission (id : ℕ) (f : Submission → Submission) (hid) :
    KeepsJobs (saveSubmission id f hid) :=
  modify (.submission id) (fun _ => by simp) _

theorem saveTestCases (submission : ℕ) (f : TestCases → TestCases) :
    KeepsJobs (saveTestCases submission f) :=
  modify (.testCases submission) (fun _ => by simp) f

theorem attempt (computation : Except ServiceError α) : KeepsJobs (attempt computation) := by
  cases computation with
  | error error => exact abort
  | ok value => exact pure value

theorem recordEach (P : Python) (manifestCases : List Json) (submission : ℕ)
    (cases : List JudgeCaseIn) : ∀ maxCase,
      KeepsJobs (recordEach P manifestCases submission cases maxCase) := by
  induction cases with
  | nil => exact fun maxCase => pure maxCase
  | cons report rest ih =>
      exact fun maxCase => (attempt _).bind fun recorded =>
        (saveTestCases _ _).bind fun _ => ih recorded.2

theorem queryProblems (participation : ContestParticipation) (problems : List ContestProblem) :
    KeepsJobs (queryProblems participation problems) := by
  induction problems with
  | nil => exact pure _
  | cons contestProblem rest ih => exact (select _ _).bind fun _ => ih.bind fun _ => pure _

theorem participationOf (id : Option ℕ) : KeepsJobs (participationOf id) := by
  cases id with
  | none => exact pure none
  | some id => exact select _ _

theorem refreshContestScore (A : FloatArith) (submission : Submission) :
    KeepsJobs (refreshContestScore A submission) := by
  unfold DbTransaction.refreshContestScore
  cases submission.contestParticipation with
  | none => exact pure _
  | some id =>
      refine (select _ _).bind fun found => ?_
      cases found with
      | none => exact pure _
      | some participation =>
          refine (queryProblems _ _).bind fun answers => ?_
          split
          · exact pure _
          · exact modify (.participation id) (fun _ => by simp) _

end KeepsJobs

/-- A write to a job, as one of the steps of the abstract machine or as none. -/
theorem tracks_saveJob {f : JudgeJob → JudgeJob} {hid : ∀ job, (f job).id = job.id}
    {result : PUnit} (events : List LeaseEvent)
    (h : (saveJob id f hid).Yields V n start result final) {job : JudgeJob}
    (hjob : (start.view (V n)).jobs.get? id = some job)
    (hrun : Run ClaimState.Step (some job.claimState) events (some (f job).claimState)) :
    Tracks (start.view (V n)) (events.map fun event => (id, event)) (final.view (V n)) := by
  have hfound := Table.row?_eq_none.not.mpr (hjob ▸ Option.some_ne_none job)
  rw [← yields_modify.mp h, Progress.view_update]
  refine Tracks.of_rewriteJob events (fun row hrow => ?_) fun hnone => absurd hnone hfound
  have hget : (start.view (V n)).jobs.get? id = some row.1 := Table.row?_eq_some.mp hrow
  rw [hjob] at hget
  obtain rfl := Option.some.inj hget
  exact hrun

theorem tracks_keepJob {f : JudgeJob → JudgeJob} {hid : ∀ job, (f job).id = job.id}
    {result : PUnit} (h : (saveJob id f hid).Yields V n start result final)
    (hkeep : ∀ job, (start.view (V n)).jobs.get? id = some job →
      (f job).claimState = job.claimState) :
    Tracks (start.view (V n)) [] (final.view (V n)) := by
  rw [← yields_modify.mp h, Progress.view_update]
  refine Tracks.of_rewriteJob [] (fun row hrow => ?_) fun _ => rfl
  have hkept := hkeep row.1 (Table.row?_eq_some.mp hrow)
  exact hkept ▸ Run.nil

/-- A job that is taken stays taken. -/
theorem tracks_keepTaken {f : JudgeJob → JudgeJob} {hid : ∀ job, (f job).id = job.id}
    {result : PUnit} (h : (saveJob id f hid).Yields V n start result final) {job : JudgeJob}
    (hjob : (start.view (V n)).jobs.get? id = some job) (hstatus : job.status ≠ .queued)
    (hstatus' : (f job).status ≠ .queued) (hattempts : (f job).attempts = job.attempts) :
    Tracks (start.view (V n)) [] (final.view (V n)) := by
  refine tracks_keepJob h fun job' hjob' => ?_
  rw [hjob] at hjob'
  obtain rfl := Option.some.inj hjob'
  simp [JudgeJob.claimState, hstatus, hstatus', hattempts]

/-! ### The worker callbacks neither take nor free a job -/

theorem ne_queued_of_leased {status : JudgeJobStatus} (h : status.leased = true) :
    status ≠ .queued := by
  rintro rfl
  cases h

theorem reports_start (now : Time) (judge id : ℕ) : Reports (DbTransaction.start now judge id) := by
  intro V n start events final h
  obtain ⟨job, _, hlock, h⟩ := yields_bind.mp h
  obtain ⟨hjob, rfl⟩ := yields_lockJob hlock
  split_ifs at h with hrunning howner hclaimed
  · exact h.elim
  · obtain ⟨_, _, hsave, rfl, rfl⟩ := yields_bind.mp h
    exact tracks_keepJob hsave fun _ _ => rfl
  · obtain ⟨_, _, _, h⟩ := yields_bind.mp h
    exact h.elim
  · obtain ⟨_, _, howned, h⟩ := yields_bind.mp h
    obtain ⟨_, rfl⟩ := yields_attempt.mp howned
    obtain ⟨_, _, hsave, h⟩ := yields_bind.mp h
    obtain ⟨_, _, hsubmission, rfl, rfl⟩ := yields_bind.mp h
    have hclaimed : job.status = .claimed := not_not.mp hclaimed
    have hstarted : Tracks _ [] _ :=
      tracks_keepTaken hsave hjob (by simp [hclaimed]) (by simp [JudgeJob.start]) rfl
    exact hstarted.append (tracks_of_jobs (KeepsJobs.saveSubmission _ _ _ hsubmission))

theorem reports_recordCases (P : Python) (now : Time) (judge id : ℕ) (cases : List JudgeCaseIn) :
    Reports (DbTransaction.recordCases P now judge id cases) := by
  intro V n start events final h
  obtain ⟨job, _, hlock, h⟩ := yields_bind.mp h
  obtain ⟨hjob, rfl⟩ := yields_lockJob hlock
  obtain ⟨_, _, howned, h⟩ := yields_bind.mp h
  obtain ⟨hassert, rfl⟩ := yields_attempt.mp howned
  obtain ⟨submission, _, hselect, h⟩ := yields_bind.mp h
  cases submission with
  | none => exact h.elim
  | some submission =>
      obtain ⟨maxCase, _, hrecord, h⟩ := yields_bind.mp h
      obtain ⟨testCases, _, hrows, h⟩ := yields_bind.mp h
      obtain ⟨_, middle, hsubmission, h⟩ := yields_bind.mp h
      obtain ⟨_, _, hsave, rfl, rfl⟩ := yields_bind.mp h
      have hjobs : (middle.view (V n)).jobs = (start.view (V n)).jobs :=
        calc (middle.view (V n)).jobs
          _ = _ := KeepsJobs.saveSubmission _ _ _ hsubmission
          _ = _ := KeepsJobs.select _ _ hrows
          _ = _ := KeepsJobs.recordEach _ _ _ _ _ hrecord
          _ = _ := KeepsJobs.select _ _ hselect
      have hleased := (JudgeResultService.assertOwned_eq_ok.mp hassert).leased
      have hrunning : ((job.record now).saveProgress job).status ≠ .queued := by
        change (job.record now).status ≠ .queued
        simp [JudgeJob.status_record hleased]
      exact (tracks_of_jobs hjobs).append
        (tracks_keepTaken hsave (hjobs ▸ hjob) (ne_queued_of_leased hleased) hrunning rfl)

/-- The end of `finish` and of `fail` keeps the job taken. -/
theorem tracks_close {job : JudgeJob} {f : JudgeJob → JudgeJob}
    {hid : ∀ job, (f job).id = job.id} {A : FloatArith} {submission : ℕ} {saved : Submission}
    {events : List (ℕ × LeaseEvent)}
    (h : (close A id submission saved f hid).Yields V n start events final)
    (hjob : (start.view (V n)).jobs.get? id = some job) (hleased : job.status.leased = true)
    (hstatus : (f job).status ≠ .queued) (hattempts : (f job).attempts = job.attempts) :
    Tracks (start.view (V n)) events (final.view (V n)) := by
  obtain ⟨_, _, hsubmission, h⟩ := yields_bind.mp h
  obtain ⟨_, middle, hrefresh, h⟩ := yields_bind.mp h
  obtain ⟨_, _, hsave, rfl, rfl⟩ := yields_bind.mp h
  have hjobs : (middle.view (V n)).jobs = (start.view (V n)).jobs :=
    (KeepsJobs.refreshContestScore _ _ hrefresh).trans (KeepsJobs.saveSubmission _ _ _ hsubmission)
  exact (tracks_of_jobs hjobs).append
    (tracks_keepTaken hsave (hjobs ▸ hjob) (ne_queued_of_leased hleased) hstatus hattempts)

theorem reports_finish (P : Python) (now : Time) (judge id : ℕ) (errorMessage : String) :
    Reports (DbTransaction.finish P now judge id errorMessage) := by
  intro V n start events final h
  obtain ⟨job, _, hlock, h⟩ := yields_bind.mp h
  obtain ⟨hjob, rfl⟩ := yields_lockJob hlock
  obtain ⟨submission, _, ⟨_, _, _, rfl⟩, h⟩ := yields_bind.mp h
  cases submission with
  | none => exact h.elim
  | some submission =>
      dsimp only at h
      split_ifs at h with hsucceeded howner hstorable
      · exact h.elim
      · obtain ⟨rfl, rfl⟩ := h
        exact Tracks.refl _
      · obtain ⟨_, _, howned, h⟩ := yields_bind.mp h
        obtain ⟨hassert, rfl⟩ := yields_attempt.mp howned
        obtain ⟨testCases, _, ⟨_, _, _, rfl⟩, h⟩ := yields_bind.mp h
        obtain ⟨result, _, houtcome, h⟩ := yields_bind.mp h
        obtain ⟨_, rfl⟩ := yields_attempt.mp houtcome
        have hleased := (JudgeResultService.assertOwned_eq_ok.mp hassert).leased
        have hclosed := tracks_close h hjob hleased (by simp [JudgeJob.succeed]) rfl
        exact hclosed
      · obtain ⟨_, _, _, h⟩ := yields_bind.mp h
        obtain ⟨_, _, _, h⟩ := yields_bind.mp h
        obtain ⟨_, _, _, h⟩ := yields_bind.mp h
        exact h.elim

theorem reports_fail (P : Python) (now : Time) (judge id : ℕ) (result errorMessage : String) :
    Reports (DbTransaction.fail P now judge id result errorMessage) := by
  intro V n start events final h
  obtain ⟨job, _, hlock, h⟩ := yields_bind.mp h
  obtain ⟨hjob, rfl⟩ := yields_lockJob hlock
  obtain ⟨submission, _, ⟨_, _, _, rfl⟩, h⟩ := yields_bind.mp h
  cases submission with
  | none => exact h.elim
  | some submission =>
      dsimp only at h
      split_ifs at h with hfailed howner hstorable
      · exact h.elim
      · obtain ⟨rfl, rfl⟩ := h
        exact Tracks.refl _
      · obtain ⟨_, _, howned, h⟩ := yields_bind.mp h
        obtain ⟨hassert, rfl⟩ := yields_attempt.mp howned
        have hleased := (JudgeResultService.assertOwned_eq_ok.mp hassert).leased
        have hclosed := tracks_close h hjob hleased (by simp [JudgeJob.fail]) rfl
        exact hclosed
      · obtain ⟨_, _, _, h⟩ := yields_bind.mp h
        exact h.elim

/-! ### Expiry -/

/-- The jobs that `expire_stale_jobs` locked are stale, distinct and current. -/
theorem yields_lockStaleJobs {now : Time} {ids : List ℕ} {jobs : List JudgeJob}
    (h : (lockStaleJobs now ids).Yields V n start jobs final) :
    start = final ∧ (jobs.map JudgeJob.id).Sublist ids ∧ ∀ job ∈ jobs,
      job.stale now = true ∧ (start.view (V n)).jobs.get? job.id = some job := by
  induction ids generalizing jobs final with
  | nil =>
      obtain ⟨rfl, rfl⟩ := h
      exact ⟨rfl, List.Sublist.refl _, fun _ hjob => absurd hjob List.not_mem_nil⟩
  | cons id rest ih =>
      obtain ⟨row, _, hskip, h⟩ := yields_bind.mp h
      obtain ⟨hrow, rfl⟩ := yields_skipLocked.mp hskip
      obtain ⟨locked, _, hlocked, h⟩ := yields_bind.mp h
      obtain ⟨rfl, hsublist, hall⟩ := ih hlocked
      cases row with
      | none =>
          obtain ⟨rfl, rfl⟩ := h
          exact ⟨rfl, hsublist.cons _, hall⟩
      | some row =>
          obtain ⟨rfl, rfl⟩ := h
          split_ifs with hstale
          · have hget : (start.view (V n)).jobs.get? id = some row.1 :=
              Table.row?_eq_some.mp (hrow.resolve_right (by simp))
            refine ⟨rfl, ?_, ?_⟩
            · rw [List.map_cons, row.2]
              exact hsublist.cons_cons _
            · rintro job (_ | ⟨_, hjob⟩)
              · exact ⟨hstale, row.2.symm ▸ hget⟩
              · exact hall job hjob
          · exact ⟨rfl, hsublist.cons _, hall⟩

/-- A write to one job leaves the others as they are. -/
theorem get?_saveJob_of_ne {f : JudgeJob → JudgeJob} {hid : ∀ job, (f job).id = job.id}
    {result : PUnit} (h : (saveJob id f hid).Yields V n start result final) {other : ℕ}
    (hother : other ≠ id) :
    (final.view (V n)).jobs.get? other = (start.view (V n)).jobs.get? other := by
  rw [← Table.map_val_row?, ← Table.map_val_row?]
  refine congrArg (Option.map Subtype.val) ?_
  rw [← yields_modify.mp h, Progress.view_update]
  have hne : RowKey.job other ≠ RowKey.job id := fun heq => hother (RowKey.job.inj heq)
  exact get?_rewriteRow_of_ne (start.view (V n)) _ hne

theorem tracks_expireJobs {now : Time} (jobs : List JudgeJob) :
    ∀ {start events final}, (expireJobs now jobs).Yields V n start events final →
      (jobs.map JudgeJob.id).Nodup → (∀ job ∈ jobs, job.stale now = true ∧
        (start.view (V n)).jobs.get? job.id = some job) →
      Tracks (start.view (V n)) events (final.view (V n)) := by
  induction jobs with
  | nil =>
      rintro start _ _ ⟨rfl, rfl⟩ _ _
      exact Tracks.refl _
  | cons job rest ih =>
      intro start events final h hnodup hall
      rw [List.map_cons, List.nodup_cons] at hnodup
      obtain ⟨hstale, hjob⟩ := hall job List.mem_cons_self
      have htaken : job.status ≠ .queued := by
        rw [JudgeJob.stale, Bool.and_eq_true] at hstale
        exact ne_queued_of_leased hstale.1
      -- the writes for `job` leave the rest of the list as it was locked
      have hrest : ∀ progress : Progress Query RowKey.Row,
          (∀ other, other ≠ job.id →
            (progress.view (V n)).jobs.get? other = (start.view (V n)).jobs.get? other) →
          ∀ other ∈ rest, other.stale now = true ∧
            (progress.view (V n)).jobs.get? other.id = some other := by
        intro progress hsame other hother
        obtain ⟨hstale, hget⟩ := hall other (List.mem_cons_of_mem _ hother)
        refine ⟨hstale, (hsame _ fun heq => hnodup.1 ?_).trans hget⟩
        exact heq ▸ List.mem_map_of_mem hother
      obtain ⟨_, _, hcases, h⟩ := yields_bind.mp h
      have hcleared := KeepsJobs.saveTestCases _ _ hcases
      split_ifs at h with hattempts
      · obtain ⟨_, _, hsave, h⟩ := yields_bind.mp h
        obtain ⟨_, _, hsubmission, h⟩ := yields_bind.mp h
        have hstored := KeepsJobs.saveSubmission _ _ _ hsubmission
        have hexhausted := tracks_keepTaken hsave (hcleared ▸ hjob) htaken
          (by simp [JudgeJob.exhaust, JudgeJob.fail]) rfl
        have hlater := ih h hnodup.2 (hrest _ fun other hother => by
          rw [hstored, get?_saveJob_of_ne hsave hother, hcleared])
        exact (tracks_of_jobs hcleared).append
          (hexhausted.append ((tracks_of_jobs hstored).append hlater))
      · obtain ⟨_, _, hsave, h⟩ := yields_bind.mp h
        obtain ⟨_, _, hsubmission, h⟩ := yields_bind.mp h
        obtain ⟨later, _, hloop, rfl, rfl⟩ := yields_bind.mp h
        have hstored := KeepsJobs.saveSubmission _ _ _ hsubmission
        have hrequeued : Tracks _ [(job.id, .requeued)] _ :=
          tracks_saveJob [.requeued] hsave (hcleared ▸ hjob)
            (Run.single (ClaimState.Step.requeued _ _))
        have hlater := ih hloop hnodup.2 (hrest _ fun other hother => by
          rw [hstored, get?_saveJob_of_ne hsave hother, hcleared])
        exact (tracks_of_jobs hcleared).append
          (hrequeued.append ((tracks_of_jobs hstored).append hlater))

theorem reports_expireStaleJobs (now : Time) :
    Reports (DbTransaction.expireStaleJobs now) := by
  intro V n start events final h
  obtain ⟨ids, _, ⟨m, _, rfl, rfl⟩, h⟩ := yields_bind.mp h
  obtain ⟨jobs, _, hlock, h⟩ := yields_bind.mp h
  obtain ⟨rfl, hsublist, hall⟩ := yields_lockStaleJobs hlock
  have hids : (JudgeGatewayService.staleJobs now (start.view (V m))).Nodup :=
    (start.view (V m)).jobs.nodup_keys.sublist (List.filter_sublist.map _)
  have hexpired := tracks_expireJobs jobs h (hids.sublist hsublist) hall
  exact hexpired

/-! ### Claims and heartbeats -/

theorem tracks_claimFirst {now : Time} {judge : ℕ} {languages : List String} (ids : List ℕ) :
    ∀ {start events final}, (claimFirst now judge languages ids).Yields V n start events final →
      Tracks (start.view (V n)) events (final.view (V n)) := by
  induction ids with
  | nil =>
      rintro start _ _ ⟨rfl, rfl⟩
      exact Tracks.refl _
  | cons id rest ih =>
      intro start events final h
      obtain ⟨row, _, hskip, h⟩ := yields_bind.mp h
      obtain ⟨hrow, rfl⟩ := yields_skipLocked.mp hskip
      cases row with
      | none => exact ih h
      | some row =>
          dsimp only at h
          split_ifs at h with hclaimable
          · obtain ⟨_, _, hsave, rfl, rfl⟩ := yields_bind.mp h
            have hjob : (start.view (V n)).jobs.get? id = some row.1 :=
              Table.row?_eq_some.mp (hrow.resolve_right (by simp))
            have hqueued : row.1.status = .queued := by
              simp only [JudgeJob.claimable, Bool.and_eq_true, decide_eq_true_eq] at hclaimable
              exact hclaimable.1
            refine tracks_saveJob [.claimed judge] hsave hjob ?_
            have hfree : row.1.claimState = ⟨false, row.1.attempts⟩ := by
              simp [JudgeJob.claimState, hqueued]
            rw [hfree]
            exact Run.single (ClaimState.Step.claimed judge row.1.attempts)
          · exact ih h

theorem reports_claimJob (now : Time) (judge : ℕ) (languages : List String) (order : ClaimOrder) :
    Reports (DbTransaction.claimJob now judge languages order) := by
  intro V n start events final h
  obtain ⟨queued, _, ⟨_, _, _, rfl⟩, h⟩ := yields_bind.mp h
  have hclaimed := tracks_claimFirst _ h
  exact hclaimed

theorem tracks_extendLeases {now : Time} {judge : ℕ} (ids : List ℕ) :
    ∀ {start events final}, (extendLeases now judge ids).Yields V n start events final →
      Tracks (start.view (V n)) events (final.view (V n)) := by
  induction ids with
  | nil =>
      rintro start _ _ ⟨rfl, rfl⟩
      exact Tracks.refl _
  | cons id rest ih =>
      intro start events final h
      obtain ⟨_, _, hsave, h⟩ := yields_bind.mp h
      have hkept := tracks_keepJob hsave fun job _ => by
        split <;> rfl
      exact hkept.append (ih h)

theorem reports_heartbeat (now : Time) (judge : ℕ) :
    Reports (DbTransaction.heartbeat now judge) := by
  intro V n start events final h
  obtain ⟨held, _, ⟨_, _, _, rfl⟩, h⟩ := yields_bind.mp h
  have hextended := tracks_extendLeases _ h
  exact hextended

/-! ### Submissions -/

/-- A new job: it is free and has not been claimed. -/
theorem tracks_create {row : {job : JudgeJob // job.id = id}} {result : PUnit}
    (h : (create (RowKey.job id) row : DbTransaction PUnit).Yields V n start result final)
    (hnew : row.1.claimState = ⟨false, 0⟩) :
    Tracks (start.view (V n)) [(id, .created)] (final.view (V n)) := by
  obtain ⟨hnone, rfl⟩ := yields_create.mp h
  rw [Progress.view_write]
  have hsaved : ∀ other, (KeyedStore.set (start.view (V n)) (RowKey.job id) row).claims other =
      if other = id then some ⟨false, 0⟩ else (start.view (V n)).claims other := by
    intro other
    change (((start.view (V n)).jobs.save row.1).get? other).map JudgeJob.claimState = _
    rw [Table.get?_save, row.2]
    split_ifs
    · exact congrArg some hnew
    · rfl
  refine Tracks.single ?_ fun other hother => ?_
  · rw [hsaved, if_pos rfl, Database.claims, Table.row?_eq_none.mp hnone]
    exact ClaimState.Step.created
  · rw [hsaved, if_neg hother]

theorem get?_create {row : {job : JudgeJob // job.id = id}} {result : PUnit}
    (h : (create (RowKey.job id) row : DbTransaction PUnit).Yields V n start result final) :
    (final.view (V n)).jobs.get? id = some row.1 := by
  obtain ⟨-, rfl⟩ := yields_create.mp h
  rw [Progress.view_write]
  exact (Table.get?_save _ _ _).trans (if_pos row.2.symm)

theorem yields_lockJobOf {submission : ℕ} {existing : Option JudgeJob}
    (h : (lockJobOf submission).Yields V n start existing final) :
    final.view (V n) = start.view (V n) ∧
      ∀ job ∈ existing, (start.view (V n)).jobs.get? job.id = some job := by
  obtain ⟨found, _, ⟨_, _, _, rfl⟩, h⟩ := yields_bind.mp h
  cases found with
  | none =>
      obtain ⟨rfl, rfl⟩ := h
      exact ⟨rfl, fun job hjob => absurd hjob (Option.not_mem_none job)⟩
  | some found =>
      obtain ⟨row, _, ⟨hrow, rfl⟩, rfl, rfl⟩ := yields_bind.mp h
      refine ⟨rfl, fun job hjob => ?_⟩
      obtain ⟨hmem, -⟩ := Option.filter_eq_some_iff.mp hjob
      obtain ⟨row, rfl, rfl⟩ := Option.map_eq_some_iff.mp hmem
      have hget : (start.view (V n)).jobs.get? found.id = some row.1 := Table.row?_eq_some.mp hrow
      rw [row.2]
      exact hget

theorem reports_createSubmission (now : Time) (request : SubmissionRequest)
    (submission job : ℕ) :
    Reports (DbTransaction.createSubmission now request submission job) := by
  intro V n start events final h
  obtain ⟨_, _, hvalid, h⟩ := yields_bind.mp h
  obtain ⟨_, rfl⟩ := yields_attempt.mp hvalid
  by_cases hpackage : request.context.activePackage.isNone ∧ request.mode ≠ .run
  · rw [if_pos hpackage] at h
    exact h.elim
  rw [if_neg hpackage] at h
  by_cases htext : storableText request.customInput ∧ storableText request.expectedOutput
  · rw [if_neg (not_not.mpr htext)] at h
    obtain ⟨participation, _, hparticipation, h⟩ := yields_bind.mp h
    by_cases hmissing : request.contestParticipation.isSome ∧ participation.isNone
    · rw [if_pos hmissing] at h
      exact h.elim
    rw [if_neg hmissing] at h
    obtain ⟨_, _, hsubmission, h⟩ := yields_bind.mp h
    obtain ⟨_, _, hjob, rfl, rfl⟩ := yields_bind.mp h
    have hfirst := tracks_of_jobs (KeepsJobs.participationOf _ hparticipation)
    have hsecond := tracks_of_jobs
      (KeepsJobs.create (.submission submission) (fun _ => by simp) _ hsubmission)
    exact hfirst.append (hsecond.append (tracks_create hjob rfl))
  · rw [if_pos htext] at h
    exact h.elim

theorem reports_rejudgeSubmission (now : Time) (id fresh : ℕ) (context : ProblemContext) :
    Reports (DbTransaction.rejudgeSubmission now id fresh context) := by
  intro V n start events final h
  obtain ⟨locked, _, ⟨hlocked, rfl⟩, h⟩ := yields_bind.mp h
  cases locked with
  | none => exact h.elim
  | some locked =>
      obtain ⟨existing, middle, hexisting, h⟩ := yields_bind.mp h
      obtain ⟨hview, hcurrent⟩ := yields_lockJobOf hexisting
      dsimp only at h
      split_ifs at h with hpackage
      · exact h.elim
      · obtain ⟨_, _, hsubmission, h⟩ := yields_bind.mp h
        obtain ⟨_, _, hcases, h⟩ := yields_bind.mp h
        obtain ⟨participation, reset, hparticipation, h⟩ := yields_bind.mp h
        have hjobs : (reset.view (V n)).jobs = (start.view (V n)).jobs :=
          calc (reset.view (V n)).jobs
            _ = _ := KeepsJobs.participationOf _ hparticipation
            _ = _ := KeepsJobs.saveTestCases _ _ hcases
            _ = _ := KeepsJobs.saveSubmission _ _ _ hsubmission
            _ = _ := by rw [hview]
        refine (tracks_of_jobs hjobs).append ?_
        cases existing with
        | some job =>
            obtain ⟨_, _, hsave, rfl, rfl⟩ := yields_bind.mp h
            have hjob := hcurrent job rfl
            exact tracks_saveJob [.rejudged] hsave (hjobs ▸ hjob)
              (Run.single (ClaimState.Step.rejudged _ _))
        | none =>
            obtain ⟨_, created, hcreate, h⟩ := yields_bind.mp h
            obtain ⟨_, _, hsave, rfl, rfl⟩ := yields_bind.mp h
            have hnew : Tracks _ [(fresh, .created)] _ := tracks_create hcreate rfl
            have hreset := tracks_saveJob [.rejudged] hsave (get?_create hcreate)
              (Run.single (ClaimState.Step.rejudged _ _))
            exact hnew.append hreset

end DbTransaction

/-! ## Every interleaving -/

/-- The transactions of the services. -/
inductive Gateway (P : Python) : DbTransaction (List (ℕ × LeaseEvent)) → Prop
  | createSubmission (now : Time) (request : SubmissionRequest) (submission job : ℕ) :
      Gateway P (.createSubmission now request submission job)
  | expireStaleJobs (now : Time) : Gateway P (.expireStaleJobs now)
  | claimJob (now : Time) (judge : ℕ) (languages : List String) (order : ClaimOrder) :
      Gateway P (.claimJob now judge languages order)
  | heartbeat (now : Time) (judge : ℕ) : Gateway P (.heartbeat now judge)
  | start (now : Time) (judge id : ℕ) : Gateway P (.start now judge id)
  | recordCases (now : Time) (judge id : ℕ) (cases : List JudgeCaseIn) :
      Gateway P (.recordCases P now judge id cases)
  | finish (now : Time) (judge id : ℕ) (errorMessage : String) :
      Gateway P (.finish P now judge id errorMessage)
  | fail (now : Time) (judge id : ℕ) (result errorMessage : String) :
      Gateway P (.fail P now judge id result errorMessage)
  | rejudgeSubmission (now : Time) (id fresh : ℕ) (context : ProblemContext) :
      Gateway P (.rejudgeSubmission now id fresh context)

open DbTransaction in
theorem Gateway.reports {P : Python} {program : DbTransaction (List (ℕ × LeaseEvent))}
    (h : Gateway P program) : Reports program := by
  cases h with
  | createSubmission now request submission job =>
      exact reports_createSubmission now request submission job
  | expireStaleJobs now => exact reports_expireStaleJobs now
  | claimJob now judge languages order => exact reports_claimJob now judge languages order
  | heartbeat now judge => exact reports_heartbeat now judge
  | start now judge id => exact reports_start now judge id
  | recordCases now judge id cases => exact reports_recordCases P now judge id cases
  | finish now judge id errorMessage => exact reports_finish P now judge id errorMessage
  | fail now judge id result errorMessage => exact reports_fail P now judge id result errorMessage
  | rejudgeSubmission now id fresh context => exact reports_rejudgeSubmission now id fresh context

namespace JudgeSystem

variable {ι : Type} {P : Python} {db : Database}

/-- What the commits did to the lease of a job, in their order. -/
def leaseHistory (sys : JudgeSystem ι) (id : ℕ) : List LeaseEvent :=
  eventsOf id (sys.commits.flatMap fun commit => commit.value)

theorem run_leaseHistory [DecidableEq ι] {moves : List (Move ι Query Database RowKey.Row _)}
    {sys : JudgeSystem ι} (run : Run (System.Step fun _ program => Gateway P program)
      (System.start db) moves sys) (id : ℕ) :
    Run ClaimState.Step (sys.initial.claims id) (leaseHistory sys id) (sys.store.claims id) := by
  have hcommits := (System.Sound.run run).run_commits (R := Tracks)
    fun i program hprogram V n events final hyields => hprogram.reports hyields
  have htracks : ∀ {labels : List (List (ℕ × LeaseEvent))} {before after : Database},
      Run Tracks before labels after → Tracks before labels.flatten after := by
    intro labels before after hrun
    induction hrun with
    | nil => exact Tracks.refl before
    | snoc _ hlast ih =>
        rw [List.flatten_append, List.flatten_singleton]
        exact ih.append hlast
  have hall := htracks hcommits id
  rwa [← List.flatMap_def] at hall

/-- Under read-committed isolation and from a database without jobs, a job is claimed
again only after a requeue or a rejudge, and its attempts are its claims since it was
created or last rejudged. -/
theorem exclusive_claims [DecidableEq ι] (hnew : db.jobs = ∅)
    {moves : List (Move ι Query Database RowKey.Row (List (ℕ × LeaseEvent)))}
    {sys : JudgeSystem ι} (run : Run (System.Step fun _ program => Gateway P program)
      (System.start db) moves sys) (id : ℕ) :
    (∀ before between after judge judge',
      leaseHistory sys id =
          before ++ .claimed judge :: between ++ .claimed judge' :: after →
        .requeued ∈ between ∨ .rejudged ∈ between) ∧
      ∀ job ∈ sys.store.jobs.get? id,
        job.attempts = LeaseEvent.claimsSinceReset (leaseHistory sys id) := by
  have hrun := run_leaseHistory run id
  have hnone : sys.initial.claims id = none := by
    rw [System.initial_of_run run, Database.claims, hnew, Table.get?_empty, Option.map_none]
  rw [hnone] at hrun
  refine ⟨fun before between after judge judge' => ClaimState.exclusive_of_run hrun, ?_⟩
  intro job hjob
  refine ClaimState.claims_of_run hrun job.claimState ?_
  rw [Database.claims, hjob]
  rfl

/-! ## Two judges and one job -/

/-- Judges 7 and 8 claim at the same time; both queries see the job in the queue, and
judge 8 finds it locked.  Judge 7 dies, the lease expires, and judge 8 claims the job. -/
def contendedMoves : List (Move ℕ Query Database RowKey.Row (List (ℕ × LeaseEvent))) :=
  [.begin 0 (DbTransaction.createSubmission 0 sampleRequest 1 1), .step 0, .step 0, .step 0,
    .begin 1 (DbTransaction.claimJob 1 7 ["python"] .byKey),
    .begin 2 (DbTransaction.claimJob 1 8 ["python"] .byKey),
    .step 1, .step 2, .step 1, .step 2, .step 1, .step 1, .step 2,
    .begin 3 (DbTransaction.expireStaleJobs (62 * second)),
    .step 3, .step 3, .step 3, .step 3, .step 3, .step 3,
    .begin 4 (DbTransaction.claimJob (62 * second) 8 ["python"] .byKey),
    .step 4, .step 4, .step 4, .step 4]

theorem exclusive_claims_contended :
    ∃ sys, (System.start {} : JudgeSystem ℕ).moves contendedMoves = some sys ∧
      leaseHistory sys 1 = [.created, .claimed 7, .requeued, .claimed 8] ∧
        (.requeued ∈ [LeaseEvent.requeued] ∨ .rejudged ∈ [LeaseEvent.requeued]) ∧
          ∀ job ∈ sys.store.jobs.get? 1, job.attempts = 2 := by
  have hmoves : ((System.start {} : JudgeSystem ℕ).moves contendedMoves).map
      (fun sys => leaseHistory sys 1) =
        some [.created, .claimed 7, .requeued, .claimed 8] := by
    decide +kernel
  obtain ⟨sys, hsys, hhistory⟩ := Option.map_eq_some_iff.mp hmoves
  have hrun : Run (System.Step fun _ program => Gateway samplePython program)
      (System.start {}) contendedMoves sys := by
    refine System.run_of_moves hsys fun i program hmem => ?_
    simp only [contendedMoves, List.mem_cons, Move.begin.injEq, reduceCtorEq, false_or,
      or_false, List.not_mem_nil] at hmem
    rcases hmem with ⟨rfl, rfl⟩ | ⟨rfl, rfl⟩ | ⟨rfl, rfl⟩ | ⟨rfl, rfl⟩ | ⟨rfl, rfl⟩ <;>
      constructor
  obtain ⟨hexclusive, hattempts⟩ := exclusive_claims rfl hrun 1
  refine ⟨sys, hsys, hhistory, ?_, ?_⟩
  · exact hexclusive [.created] [.requeued] [] 7 8 hhistory
  · rw [hhistory] at hattempts
    exact hattempts

end JudgeSystem

end JudgeLoom
