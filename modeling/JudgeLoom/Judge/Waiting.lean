import JudgeLoom.Judge.LeaseInvariant
import Mathlib.Data.Prod.Lex
import Mathlib.Data.Set.Finite.Lemmas

/-!
# How long a job waits

A worker that calls `claim_job` gets the first job of the queue that is in a language of
its own.  A job that is lost by its worker goes back to the queue, at its old place, so a
few submissions that crash every worker could keep all later ones waiting.

They cannot for long: each claim of a job uses up one of its attempts, and only a rejudge
gives them back.  While a job waits, every claim in its language is charged to a job that
the queue does not put behind it (`charged_of_serves`), and a job can be charged at most
`max_attempts` times for each time it was queued anew (`count_claims_le`).  Together
these bound how often a waiting job is passed by (`waits_le`).
-/

namespace JudgeLoom

open JudgeGatewayService

namespace Op

/-- The call claims jobs in the language. -/
def serves (language : String) : Op → Bool
  | claimJob _ languages _ => languages.contains language
  | _ => false

/-- The call rejudges the submission. -/
def rejudges (submission : ℕ) : Op → Bool
  | rejudgeSubmission id _ => id = submission
  | _ => false

/-- The job that the call returns. -/
def claimed (world : World) : Op → Option ℕ
  | claimJob judge languages tie =>
      (JudgeGatewayService.claimJob world.now judge languages tie world.db).1.map JudgeJob.id
  | _ => none

end Op

namespace World

/-- The jobs that the claims of a run return, one after the other. -/
def claims (P : Python) : World → List Op → List ℕ
  | _, [] => []
  | world, op :: rest => (op.claimed world).toList ++ claims P (world.step P op) rest

theorem claims_append (P : Python) (world : World) (ops more : List Op) :
    claims P world (ops ++ more) = claims P world ops ++ claims P (world.run P ops) more := by
  induction ops generalizing world with
  | nil => rfl
  | cons op rest ih =>
      rw [List.cons_append, claims, claims, ih, List.append_assoc]
      rfl

end World

/-! ## The attempts of a job -/

namespace Judging

variable {P : Python} {now : Time} {s t : Judging} {event : JobEvent}
  {before after : Option Judging}

/-- The attempts that a job has used up; none before it is created. -/
def attemptsOf (judging : Option Judging) : ℕ := judging.elim 0 fun s => s.job.attempts

theorem attempts_expire (now : Time) (s : Judging) :
    (s.expire now).job.attempts = s.job.attempts := by
  unfold expire
  split <;> rfl

/-- Only claims and rejudges change the attempts. -/
theorem Step.attempts_eq (h : Step P now s event t) (hclaim : ∀ judge, event ≠ .claim judge)
    (hreset : ∀ config, event ≠ .reset config) : t.job.attempts = s.job.attempts := by
  cases h with
  | claim judge => exact absurd rfl (hclaim judge)
  | start judge => rfl
  | extend judge => rfl
  | record judge cases => exact JudgeJob.attempts_record now s.job
  | finish judge errorMessage => rfl
  | fail judge result errorMessage => rfl
  | expire => exact attempts_expire now s
  | reset config => exact absurd rfl (hreset config)

theorem Change.attemptsOf_eq {permits : JobEvent → Prop} (h : Change P now permits before after)
    (hclaim : ∀ judge, ¬ permits (.claim judge)) (hreset : ∀ config, ¬ permits (.reset config)) :
    attemptsOf after = attemptsOf before := by
  cases h with
  | absent => rfl
  | created hnew => exact hnew.attempts
  | events run hpermits =>
      induction run with
      | nil => rfl
      | snoc _ hlast ih =>
          have hevent := hpermits _ (List.mem_append_right _ (List.mem_singleton_self _))
          have hkept := ih fun event hevent => hpermits event (List.mem_append_left _ hevent)
          refine (hlast.attempts_eq ?_ ?_).trans hkept
          · rintro judge rfl
            exact hclaim judge hevent
          · rintro config rfl
            exact hreset config hevent

/-- A job that exists stays, with its work. -/
theorem Change.sameWork {permits : JobEvent → Prop} (h : Change P now permits (some s) after) :
    ∃ t, after = some t ∧ s.SameWork t := by
  cases h with
  | events run => exact ⟨_, rfl, sameWork_of_run run⟩

theorem attemptsOf_expireStaleJobs {db : Database} (hc : db.Consistent) (now : Time) (id : ℕ) :
    attemptsOf ((expireStaleJobs now db).2.judging? id) = attemptsOf (db.judging? id) := by
  rw [judging?_expireStaleJobs hc]
  cases db.judging? id with
  | none => rfl
  | some s =>
      rw [Option.map_some]
      split_ifs
      · exact attempts_expire now s
      · rfl

end Judging

namespace World

variable {P : Python} {world : World} {op : Op} {id submission maxAttempts : ℕ}

open Judging (attemptsOf)

/-- A claim uses up an attempt of the job that it returns. -/
theorem attempts_claimJob (hvalid : world.Valid) (judge : ℕ) (languages : List String) (tie : ℕ) :
    ((Op.claimJob judge languages tie).claimed world).toList.count id +
        attemptsOf (world.db.judging? id) =
      attemptsOf ((claimJob world.now judge languages tie world.db).2.judging? id) := by
  have hexpired := Judging.attemptsOf_expireStaleJobs hvalid.consistent world.now id
  unfold Op.claimed
  dsimp only
  rcases claimJob_cases hvalid.consistent world.now judge languages tie with
    hnone | ⟨s, hs, hqueued, hsome⟩
  · rw [hnone, ← hexpired]
    exact Nat.zero_add _
  · have hconsistent := consistent_expireStaleJobs hvalid.consistent world.now
    have hfits := hconsistent.fits hs (t := { s with job := s.job.claim judge world.now })
      rfl rfl rfl
    rw [hsome, Database.judging?_store hfits]
    change List.count id [s.job.id] + _ = attemptsOf (if id = s.job.id then _ else _)
    by_cases hid : id = s.job.id
    · rw [if_pos hid, ← hexpired, hid, hs, List.count_singleton_self, Nat.add_comm]
      rfl
    · rw [if_neg hid, ← hexpired, List.count_singleton, if_neg (by simpa using Ne.symm hid),
        Nat.zero_add]

/-- A rejudge gives the attempts back to the job of its submission. -/
theorem attempts_rejudgeSubmission (hvalid : world.Valid) {rejudged : ℕ} {context : ProblemContext}
    {db : Database}
    (hok : SubmissionService.rejudgeSubmission world.now rejudged context world.db = .ok db)
    (hjob : ∀ s ∈ world.db.judging? id,
      s.job.attempts ≤ maxAttempts ∧ s.job.submission = submission) :
    attemptsOf (world.db.judging? id) ≤ attemptsOf (db.judging? id) +
      maxAttempts * if rejudged = submission then 1 else 0 := by
  rcases SubmissionService.rejudgeSubmission_eq_ok hvalid.consistent hok with
    ⟨s, config, hs, hrejudged, rfl⟩ | ⟨s, hnew, hfits, hnone, -, rfl⟩
  · have hreset : ∀ t : Judging, t = {
          job := s.job.reset config
          submission := s.submission.unjudged
          testCases := ∅ } → world.db.Fits t := by
      rintro t rfl
      exact hvalid.consistent.fits hs rfl rfl rfl
    rw [Database.judging?_store (hreset _ rfl)]
    change _ ≤ attemptsOf (if id = s.job.id then _ else _) + _
    by_cases hid : id = s.job.id
    · obtain ⟨hattempts, hsubmission⟩ := hjob s (hid ▸ hs)
      have hlinked := Database.linked_of_judging? hs
      have hsame : rejudged = submission := by
        rw [← hrejudged, hlinked, hsubmission]
      rw [if_pos hsame, hid, hs, Nat.mul_one]
      exact le_add_left hattempts
    · rw [if_neg hid]
      exact Nat.le_add_right _ _
  · rw [Database.judging?_store hfits]
    by_cases hid : id = s.job.id
    · rw [if_pos hid, hid, hnone]
      exact Nat.zero_le _
    · rw [if_neg hid]
      exact Nat.le_add_right _ _

/-- What one call does to the attempts of a job. -/
theorem attempts_step (hvalid : world.Valid)
    (hjob : ∀ s ∈ world.db.judging? id,
      s.job.attempts ≤ maxAttempts ∧ s.job.submission = submission) :
    (op.claimed world).toList.count id + attemptsOf (world.db.judging? id) ≤
      attemptsOf ((world.step P op).db.judging? id) +
        maxAttempts * if op.rejudges submission then 1 else 0 := by
  cases hcall : op.perform P world.now world.db with
  | error error =>
      have hnone : op.claimed world = none := by
        cases op with
        | claimJob => cases hcall
        | _ => rfl
      rw [step_of_error hcall, hnone]
      exact (Nat.zero_add _).trans_le (Nat.le_add_right _ _)
  | ok db =>
      rw [step_of_ok hcall]
      obtain ⟨-, hchange⟩ := Op.perform_change hvalid.consistent hcall
      cases op with
      | claimJob judge languages tie =>
          cases hcall
          exact (attempts_claimJob hvalid judge languages tie).trans_le (Nat.le_add_right _ _)
      | rejudgeSubmission rejudged context =>
          refine (Nat.zero_add _).trans_le ?_
          simpa [Op.rejudges] using attempts_rejudgeSubmission hvalid hcall hjob
      | _ =>
          have hsame := (hchange id).attemptsOf_eq (by simp [Op.Permits]) (by simp [Op.Permits])
          rw [hsame]
          exact (Nat.zero_add _).trans_le (Nat.le_add_right _ _)

/-- A job that exists stays, with its work. -/
theorem sameWork_run (hvalid : world.Valid) {s : Judging} (hs : world.db.judging? id = some s)
    (ops : List Op) : ∃ t, (world.run P ops).db.judging? id = some t ∧ s.SameWork t := by
  have hkept : (world.run P ops).Valid ∧
      ∃ t, (world.run P ops).db.judging? id = some t ∧ s.SameWork t := by
    have hstart : world.Valid ∧ ∃ t, world.db.judging? id = some t ∧ s.SameWork t :=
      ⟨hvalid, s, hs, .refl s⟩
    refine @run_invariant P world ops (fun world => world.Valid ∧
      ∃ t, world.db.judging? id = some t ∧ s.SameWork t) hstart ?_
    rintro world op ⟨hvalid, t, ht, hsame⟩
    refine ⟨hvalid.step, step_cases
      (Q := fun world => ∃ t, world.db.judging? id = some t ∧ s.SameWork t) ⟨t, ht, hsame⟩
      fun db hok => ?_⟩
    have hchange := (Op.perform_change hvalid.consistent hok).2 id
    rw [ht] at hchange
    obtain ⟨u, hu, hwork⟩ := hchange.sameWork
    exact ⟨u, hu, hsame.trans hwork⟩
  exact hkept.2

/-- A job is claimed at most as often as it has attempts, for each time it was queued anew. -/
theorem count_claims_le (hvalid : world.Valid) (ops : List Op) {t : Judging}
    (ht : (world.run P ops).db.judging? id = some t) :
    (claims P world ops).count id + attemptsOf (world.db.judging? id) ≤
      t.job.maxAttempts * (1 + ops.countP (Op.rejudges t.job.submission)) := by
  induction ops generalizing world with
  | nil =>
      have hattempts := (hvalid.leases id t ht).attempts
      change (world.db.judging? id) = some t at ht
      simpa [claims, ht, attemptsOf] using hattempts
  | cons op rest ih =>
      have hjob : ∀ s ∈ world.db.judging? id,
          s.job.attempts ≤ t.job.maxAttempts ∧ s.job.submission = t.job.submission := by
        intro s hs
        obtain ⟨u, hu, hwork⟩ := sameWork_run (P := P) hvalid hs (op :: rest)
        obtain rfl : u = t := Option.some.inj (hu.symm.trans ht)
        rw [hwork.maxAttempts, hwork.job_submission]
        exact ⟨(hvalid.leases id s hs).attempts, rfl⟩
      have hstep : (op.claimed world).toList.count id + attemptsOf (world.db.judging? id) ≤
          attemptsOf ((world.step P op).db.judging? id) +
            t.job.maxAttempts * if op.rejudges t.job.submission then 1 else 0 :=
        attempts_step hvalid hjob
      have hrest := ih hvalid.step ht
      rw [claims, List.count_append, List.countP_cons]
      calc (op.claimed world).toList.count id + (claims P (world.step P op) rest).count id +
            attemptsOf (world.db.judging? id)
          ≤ t.job.maxAttempts * (1 + rest.countP (Op.rejudges t.job.submission)) +
              t.job.maxAttempts * if op.rejudges t.job.submission then 1 else 0 := by omega
        _ = _ := by rw [← Nat.mul_add, Nat.add_assoc]

end World

/-! ## The queue -/

namespace JudgeGatewayService

/-- The place of a job in the queue. -/
def place (job : JudgeJob) : ℤ ×ₗ Time := toLex (-job.priority, job.createdAt)

theorem ahead_iff {first second : JudgeJob} :
    first.ahead second = true ↔ place first < place second := by
  unfold JudgeJob.ahead place
  rw [Prod.Lex.toLex_lt_toLex, Bool.or_eq_true, Bool.and_eq_true, decide_eq_true_eq,
    decide_eq_true_eq, decide_eq_true_eq]
  simp only [neg_lt_neg_iff, neg_inj]

/-- The queue has a first job, and no other one is ahead of it. -/
theorem exists_firstJob (tie : ℕ) {eligible : List JudgeJob} (hne : eligible ≠ []) :
    ∃ job, firstJob tie eligible = some job ∧ ∀ other ∈ eligible, other.ahead job = false := by
  have hfirst : ∃ job ∈ eligible, ∀ other ∈ eligible, place job ≤ place other :=
    Set.exists_min_image {job | job ∈ eligible} place (List.finite_toSet eligible)
      (List.exists_mem_of_ne_nil _ hne)
  let tied := eligible.filter fun job => eligible.all fun other => !other.ahead job
  have hnonempty : 0 < tied.length := by
    obtain ⟨job, hjob, hmin⟩ := hfirst
    refine List.length_pos_of_mem (List.mem_filter.mpr ⟨hjob, List.all_eq_true.mpr ?_⟩)
    intro other hother
    rw [Bool.not_eq_true', ← Bool.not_eq_true, ahead_iff, not_lt]
    exact hmin other hother
  have hlt : tie % tied.length < tied.length := Nat.mod_lt _ hnonempty
  refine ⟨tied[tie % tied.length], List.getElem?_eq_getElem hlt, fun other hother => ?_⟩
  have htied := (List.mem_filter.mp (List.getElem_mem hlt)).2
  simpa using List.all_eq_true.mp htied other hother

end JudgeGatewayService

namespace Judging

variable {P : Python} {now : Time} {s t : Judging} {event : JobEvent}

theorem SameWork.language (h : SameWork s t) : t.job.language = s.job.language := by
  simpa [JudgeJob.reset] using congrArg JudgeJob.language (h.job s.job.config)

theorem SameWork.place (h : SameWork s t) :
    JudgeGatewayService.place t.job = JudgeGatewayService.place s.job := by
  simpa [JudgeJob.reset, JudgeGatewayService.place] using
    congrArg JudgeGatewayService.place (h.job s.job.config)

/-- A job leaves the queue by a claim only. -/
theorem Step.queued (h : Step P now s event t) (hqueued : s.job.status = .queued)
    (hclaim : ∀ judge, event ≠ .claim judge) : t.job.status = .queued := by
  have hunleased : s.job.status.leased = true → False := by
    rw [hqueued]
    exact fun h => by cases h
  cases h with
  | claim judge => exact absurd rfl (hclaim judge)
  | start judge howned => exact (hunleased howned.leased).elim
  | extend judge hleased =>
      rw [JudgeJob.leasedBy, Bool.and_eq_true] at hleased
      exact (hunleased hleased.2).elim
  | record judge cases howned => exact (hunleased howned.leased).elim
  | finish judge errorMessage howned => exact (hunleased howned.leased).elim
  | fail judge result errorMessage howned => exact (hunleased howned.leased).elim
  | expire hstale =>
      rw [JudgeJob.stale, Bool.and_eq_true] at hstale
      exact (hunleased hstale.1).elim
  | reset config => rfl

theorem Change.queued {permits : JobEvent → Prop} (h : Change P now permits (some s) (some t))
    (hqueued : s.job.status = .queued) (hclaim : ∀ judge, ¬ permits (.claim judge)) :
    t.job.status = .queued := by
  cases h with
  | events run hpermits =>
      induction run with
      | nil => exact hqueued
      | snoc _ hlast ih =>
          have hevent := hpermits _ (List.mem_append_right _ (List.mem_singleton_self _))
          refine hlast.queued (ih fun event hevent => hpermits event (List.mem_append_left _ hevent))
            ?_
          rintro judge rfl
          exact hclaim judge hevent

end Judging

namespace World

variable {P : Python} {world : World} {op : Op} {id : ℕ} {s : Judging}

/-- Expiry does not touch a job of the queue. -/
theorem judging?_expired_of_queued (hvalid : world.Valid) (hs : world.db.judging? id = some s)
    (hqueued : s.job.status = .queued) :
    (expireStaleJobs world.now world.db).2.judging? id = some s := by
  have hfresh : s.job.stale world.now = false := by
    rw [JudgeJob.stale, hqueued]
    rfl
  rw [judging?_expireStaleJobs hvalid.consistent, hs, Option.map_some, hfresh]
  rfl

/-- A job that is not claimed stays in the queue. -/
theorem queued_step (hvalid : world.Valid) (hs : world.db.judging? id = some s)
    (hqueued : s.job.status = .queued) (hwaits : op.claimed world ≠ some id) :
    ∃ t, (world.step P op).db.judging? id = some t ∧ s.SameWork t ∧ t.job.status = .queued := by
  cases hcall : op.perform P world.now world.db with
  | error error =>
      rw [step_of_error hcall]
      exact ⟨s, hs, .refl s, hqueued⟩
  | ok db =>
      rw [step_of_ok hcall]
      have hchange := (Op.perform_change hvalid.consistent hcall).2 id
      rw [hs] at hchange
      obtain ⟨t, ht, hwork⟩ := hchange.sameWork
      cases op with
      | claimJob judge languages tie =>
          have hexpired := judging?_expired_of_queued hvalid hs hqueued
          cases hcall
          refine ⟨s, ?_, .refl s, hqueued⟩
          unfold Op.claimed at hwaits
          dsimp only at hwaits ⊢
          rcases claimJob_cases hvalid.consistent world.now judge languages tie with
            hnone | ⟨u, hu, -, hsome⟩
          · rw [hnone]
            exact hexpired
          · rw [hsome] at hwaits ⊢
            have hne : id ≠ u.job.id := fun heq => hwaits (congrArg some heq.symm)
            have hfits := (consistent_expireStaleJobs hvalid.consistent world.now).fits hu
              (t := { u with job := u.job.claim judge world.now }) rfl rfl rfl
            rw [Database.judging?_store hfits]
            exact (if_neg hne).trans hexpired
      | _ =>
          rw [ht] at hchange
          exact ⟨t, ht, hwork, hchange.queued hqueued (by simp [Op.Permits])⟩

/-- A claim in the language of a waiting job returns a job that is not behind it. -/
theorem exists_claimed_of_serves (hvalid : world.Valid) (hs : world.db.judging? id = some s)
    (hqueued : s.job.status = .queued) (hserves : op.serves s.job.language = true) :
    ∃ u, op.claimed world = some u.job.id ∧
      (world.step P op).db.judging? u.job.id = some u ∧ place u.job ≤ place s.job := by
  cases op with
  | claimJob judge languages tie =>
      have hconsistent := consistent_expireStaleJobs hvalid.consistent world.now
      have hexpired := judging?_expired_of_queued hvalid hs hqueued
      have heligible : s.job ∈ (expireStaleJobs world.now world.db).2.jobs.rows.filter
          (JudgeJob.claimable languages) := by
        refine List.mem_filter.mpr ⟨Database.job_mem_of_judging? hexpired, ?_⟩
        rw [JudgeJob.claimable, hqueued]
        exact hserves
      obtain ⟨job, hfirst, hmin⟩ := exists_firstJob tie (List.ne_nil_of_mem heligible)
      have hjob := List.mem_of_mem_filter (firstJob_mem hfirst)
      obtain ⟨u, hu, rfl⟩ := hconsistent.judging?_of_mem hjob
      have hclaim : claimJob world.now judge languages tie world.db =
          (some (u.job.claim judge world.now),
            (expireStaleJobs world.now world.db).2.store
              { u with job := u.job.claim judge world.now }) := by
        unfold claimJob
        dsimp only
        rw [hfirst, Database.store_job hu]
      have hfits := hconsistent.fits hu (t := { u with job := u.job.claim judge world.now })
        rfl rfl rfl
      refine ⟨{ u with job := u.job.claim judge world.now }, ?_, ?_, ?_⟩
      · unfold Op.claimed
        dsimp only
        rw [hclaim]
        rfl
      · have hperform : (Op.claimJob judge languages tie).perform P world.now world.db =
            .ok (claimJob world.now judge languages tie world.db).2 := rfl
        rw [step_of_ok hperform, hclaim, Database.judging?_store hfits]
        exact if_pos rfl
      · have hahead := hmin s.job heligible
        rw [← Bool.not_eq_true, ahead_iff, not_lt] at hahead
        exact hahead
  | _ => cases hserves

/-- While a job waits, every claim in its language is charged to a job that is not behind it. -/
theorem charged_of_serves (hvalid : world.Valid) (hs : world.db.judging? id = some s)
    (hqueued : s.job.status = .queued) {ops : List Op} (hwaits : id ∉ claims P world ops)
    {passing : List ℕ} (hpassing : ∀ u : Judging,
      (world.run P ops).db.judging? u.job.id = some u → u.job.id ≠ id →
        place u.job ≤ place s.job → u.job.id ∈ passing) :
    ops.countP (Op.serves s.job.language) ≤ (claims P world ops).countP (· ∈ passing) := by
  induction ops generalizing world s with
  | nil => exact le_rfl
  | cons op rest ih =>
      rw [claims, List.mem_append, not_or, Option.mem_toList] at hwaits
      obtain ⟨t, ht, hwork, hstill⟩ := queued_step (P := P) hvalid hs hqueued hwaits.1
      have hrest := ih hvalid.step ht hstill hwaits.2 fun u hu hne hplace =>
        hpassing u hu hne (hwork.place ▸ hplace)
      rw [hwork.language] at hrest
      rw [claims, List.countP_append, List.countP_cons]
      by_cases hserves : op.serves s.job.language = true
      · obtain ⟨u, hclaimed, hu, hplace⟩ := exists_claimed_of_serves (P := P) hvalid hs hqueued
          hserves
        obtain ⟨v, hv, hkept⟩ := sameWork_run (P := P) hvalid.step hu rest
        have hid : v.job.id = u.job.id := hkept.job_id
        have hmem : u.job.id ∈ passing := by
          rw [← hid]
          refine hpassing v (by rw [hid]; exact hv) ?_ (hkept.place.trans_le hplace)
          rw [hid]
          exact fun heq => hwaits.1 (by rw [hclaimed, heq])
        have hcharged : (op.claimed world).toList.countP (· ∈ passing) = 1 := by
          rw [hclaimed, Option.toList_some, List.countP_singleton, if_pos (decide_eq_true hmem)]
        rw [if_pos hserves, hcharged]
        omega
      · rw [if_neg hserves]
        omega

end World

/-- The elements of a list that are among some keys are as many as their counts add up to. -/
theorem countP_mem_le_sum {keys l : List ℕ} :
    l.countP (· ∈ keys) ≤ (keys.map fun key => l.count key).sum := by
  induction keys with
  | nil => simp
  | cons key rest ih =>
      have hsplit : ∀ l : List ℕ,
          l.countP (· ∈ key :: rest) ≤ l.count key + l.countP (· ∈ rest) := by
        intro l
        induction l with
        | nil => exact Nat.zero_le _
        | cons a l ihl =>
            rw [List.countP_cons, List.countP_cons, List.count_cons]
            have hcases : a ∈ key :: rest → a = key ∨ a ∈ rest := List.mem_cons.mp
            simp only [decide_eq_true_eq, beq_iff_eq]
            split_ifs <;> first | omega | tauto
      rw [List.map_cons, List.sum_cons]
      exact (hsplit l).trans (Nat.add_le_add_left ih _)

namespace World

variable {P : Python} {start : World} {id : ℕ} {s : Judging}

/-- A job of the queue is passed by at most so often: the jobs that are not behind it, each with
its attempts, once for each time that it was queued anew. -/
theorem waits_le (hinitial : start.Initial) (before after : List Op)
    (hs : (start.run P before).db.judging? id = some s) (hqueued : s.job.status = .queued)
    (hwaits : id ∉ claims P (start.run P before) after) :
    after.countP (Op.serves s.job.language) ≤
      (((start.run P (before ++ after)).db.jobs.rows.filter fun job =>
          job.id ≠ id ∧ s.job.ahead job = false).map fun job =>
        (job.maxAttempts : ℕ) * (1 + (before ++ after).countP (Op.rejudges job.submission))).sum := by
  have hvalid : (start.run P (before ++ after)).Valid := hinitial.valid.run _
  let passing := (start.run P (before ++ after)).db.jobs.rows.filter fun job =>
    job.id ≠ id ∧ s.job.ahead job = false
  have hcharged : after.countP (Op.serves s.job.language) ≤
      (claims P (start.run P before) after).countP (· ∈ passing.map JudgeJob.id) := by
    refine charged_of_serves (hinitial.valid.run _) hs hqueued hwaits fun u hu hne hplace => ?_
    rw [← run_append] at hu
    have hbehind : s.job.ahead u.job = false := by
      rw [← Bool.not_eq_true, ahead_iff, not_lt]
      exact hplace
    exact List.mem_map_of_mem (List.mem_filter.mpr ⟨Database.job_mem_of_judging? hu, by
      simp [hne, hbehind]⟩)
  refine hcharged.trans (countP_mem_le_sum.trans ?_)
  rw [List.map_map]
  refine List.sum_le_sum fun job hjob => ?_
  obtain ⟨t, ht, rfl⟩ := hvalid.consistent.judging?_of_mem (List.mem_of_mem_filter hjob)
  calc (claims P (start.run P before) after).count t.job.id
      ≤ (claims P start (before ++ after)).count t.job.id := by
        rw [claims_append, List.count_append]
        exact Nat.le_add_left _ _
    _ ≤ _ := le_of_add_le_left (count_claims_le hinitial.valid _ ht)

def sampleQueue : List Op := [.createSubmission sampleRequest, .createSubmission sampleRequest]

/-- Judge 7 claims the first of two submissions while the second one waits. -/
theorem waits_le_sample :
    claims samplePython (run samplePython {} sampleQueue) [sampleClaim] = [1] ∧
      [sampleClaim].countP (Op.serves "python") ≤ 3 := by
  refine ⟨by decide, ?_⟩
  have hsecond : ∃ s : Judging, (run samplePython {} sampleQueue).db.judging? 2 = some s ∧
      s.job.status = .queued ∧ s.job.language = "python" :=
    ⟨_, rfl, rfl, rfl⟩
  obtain ⟨s, hs, hqueued, hlanguage⟩ := hsecond
  have hbound := waits_le (P := samplePython) (initial_empty 0) sampleQueue [sampleClaim] hs hqueued
    (by decide)
  rw [hlanguage] at hbound
  refine hbound.trans ?_
  obtain rfl := Option.some.inj hs
  decide

end World

end JudgeLoom
