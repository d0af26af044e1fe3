import JudgeLoom.Judge.Shadow

/-!
# The leases of the replays

When the lease of a job is over, `expire_stale_jobs` gives the job up after
`max_attempts` and deletes the reports of the lost attempt.  The replays have the same
columns, but `ShadowJobService.claim_job` requeues them without either: the attempts go
on, and `finish` reads `case_results` whoever left them there.

`disciplined_iff` says which runs are free of both: those in which no claim takes a
replay that has no attempt left, and no `finish` comes before the first batch of its
attempt while reports of an earlier one are there.
-/

namespace JudgeLoom

namespace ShadowJobService

variable {now : Time} {judge id : ℕ} {shadows shadows' : ShadowJobs}

theorem id_requeue (job : ShadowJob) : job.requeue.id = job.id := rfl

/-- The replays, with those requeued whose lease is over. -/
def requeued (now : Time) (shadows : ShadowJobs) : ShadowJobs :=
  shadows.updateWhere (ShadowJob.stale now) ShadowJob.requeue id_requeue

/-- The replay that `claim_job` takes from the queue. -/
def selected (now : Time) (judge : ℕ) (languages : List String) (tie : ℕ)
    (shadows : ShadowJobs) : Option ShadowJob :=
  firstJob tie ((requeued now shadows).rows.filter (ShadowJob.claimable judge languages))

theorem claimJob_snd (languages : List String) (tie : ℕ) :
    (claimJob now judge languages tie shadows).2 =
      (selected now judge languages tie shadows).elim (requeued now shadows) fun job =>
        (requeued now shadows).save (job.claim judge now) := by
  have hselected : firstJob tie ((shadows.updateWhere (ShadowJob.stale now)
      ShadowJob.requeue).rows.filter (ShadowJob.claimable judge languages)) =
        selected now judge languages tie shadows := rfl
  unfold claimJob
  dsimp only
  rw [hselected]
  cases selected now judge languages tie shadows <;> rfl

end ShadowJobService

/-! ## Attempts -/

/-- No replay was claimed more often than it may be. -/
def ShadowJobs.WithinAttempts (shadows : ShadowJobs) : Prop :=
  ∀ job ∈ shadows.rows, job.attempts ≤ job.maxAttempts

namespace ShadowJobs.WithinAttempts

variable {shadows : ShadowJobs}

theorem save (h : WithinAttempts shadows) {job : ShadowJob} (hjob : job.attempts ≤ job.maxAttempts) :
    WithinAttempts (shadows.save job) := by
  intro other hother
  rcases Table.mem_save_iff.mp hother with rfl | ⟨hmem, -⟩
  · exact hjob
  · exact h other hmem

theorem requeue (h : WithinAttempts shadows) (now : Time) :
    WithinAttempts (shadows.updateWhere (ShadowJob.stale now) ShadowJob.requeue) := by
  intro job hjob
  obtain ⟨old, hold, rfl⟩ := List.mem_map.mp hjob
  have hold' := h old hold
  split <;> exact hold'

end ShadowJobs.WithinAttempts

namespace ShadowJobService

variable {now : Time} {judge id : ℕ} {shadows shadows' : ShadowJobs}

/-- A claim counts one more attempt of the replay that it takes. -/
theorem withinAttempts_claimJob_iff (h : shadows.WithinAttempts) {languages : List String}
    {tie : ℕ} : (claimJob now judge languages tie shadows).2.WithinAttempts ↔
      ∀ job ∈ selected now judge languages tie shadows, job.attempts < job.maxAttempts := by
  have hrequeued : (requeued now shadows).WithinAttempts := h.requeue now
  rw [claimJob_snd]
  cases selected now judge languages tie shadows with
  | none => simpa using hrequeued
  | some job =>
      have hcount : (job.claim judge now).attempts ≤ (job.claim judge now).maxAttempts ↔
          job.attempts < job.maxAttempts :=
        Iff.rfl
      have hselected : (∀ taken ∈ some job, taken.attempts < taken.maxAttempts) ↔
          job.attempts < job.maxAttempts := by simp
      rw [hselected, ← hcount]
      constructor
      · exact fun hclaimed => hclaimed _ (Table.mem_save_iff.mpr (Or.inl rfl))
      · exact hrequeued.save

/-- A callback counts no attempt. -/
theorem withinAttempts_callback {write : ShadowJob → Except ServiceError ShadowJob}
    (h : callback now judge id write shadows = .ok shadows')
    (hkeep : ∀ locked written, write locked = .ok written →
      written.attempts = locked.attempts ∧ written.maxAttempts = locked.maxAttempts)
    (hwithin : shadows.WithinAttempts) : shadows'.WithinAttempts := by
  obtain ⟨locked, written, hlocked, -, hwritten, rfl⟩ := callback_eq_ok h
  obtain ⟨hattempts, hmax⟩ := hkeep locked written hwritten
  apply hwithin.save
  rw [hattempts, hmax]
  exact hwithin locked (Table.mem_of_get? hlocked)

theorem withinAttempts_createForSubmission {context : ProblemContext} {target : Option ℕ}
    {db : Database} (h : createForSubmission now id context target db shadows = .ok shadows')
    (hwithin : shadows.WithinAttempts) : shadows'.WithinAttempts := by
  unfold createForSubmission at h
  split at h
  · cases h
  · dsimp only at h
    split_ifs at h
    cases h
    exact hwithin.save (Nat.zero_le 3)

end ShadowJobService

/-- Only a claim counts an attempt. -/
theorem ShadowOp.withinAttempts_perform {A : FloatArith} {now : Time} {db : Database}
    {shadows shadows' : ShadowJobs} {op : ShadowOp} (h : op.perform A now db shadows = .ok shadows')
    (hop : ∀ judge languages tie, op = .claimJob judge languages tie →
      ∀ job ∈ ShadowJobService.selected now judge languages tie shadows,
        job.attempts < job.maxAttempts)
    (hwithin : shadows.WithinAttempts) : shadows'.WithinAttempts := by
  cases op with
  | createForSubmission submission context target =>
      exact ShadowJobService.withinAttempts_createForSubmission h hwithin
  | claimJob judge languages tie =>
      cases h
      exact (ShadowJobService.withinAttempts_claimJob_iff hwithin).mpr (hop judge languages tie rfl)
  | start judge job =>
      refine ShadowJobService.withinAttempts_callback h ?_ hwithin
      rintro locked written ⟨⟩
      exact ⟨rfl, rfl⟩
  | recordCases judge job cases =>
      refine ShadowJobService.withinAttempts_callback h ?_ hwithin
      intro locked written hwritten
      split_ifs at hwritten
      cases hwritten
      exact ⟨rfl, rfl⟩
  | finish judge job payload =>
      refine ShadowJobService.withinAttempts_callback h ?_ hwithin
      intro locked written hwritten
      dsimp only at hwritten
      split_ifs at hwritten
      cases hwritten
      exact ⟨rfl, rfl⟩
  | fail judge job result errorMessage =>
      refine ShadowJobService.withinAttempts_callback h ?_ hwithin
      intro locked written hwritten
      split_ifs at hwritten
      cases hwritten
      exact ⟨rfl, rfl⟩

/-! ## Runs -/

/-- The columns that `finish` stores, computed from the given reports. -/
structure ShadowJob.ComputedFrom (A : FloatArith) (payload : JudgeFinishIn)
    (cases : List JudgeCaseIn) (job : ShadowJob) : Prop where
  result : job.result = verdict cases payload
  totalPoints : job.totalPoints = A.sum (cases.map JudgeCaseIn.points)
  caseTotal : job.caseTotal = cases.length
  casePassed : job.casePassed = accepted cases

section Runs

variable (P : Python) (start : ReplayWorld) (ops : List ReplayOp)

/-- The replays when `n` operations of the run have been made, and the clock. -/
def shadowsAt (n : ℕ) : ShadowJobs := (start.run P (ops.take n)).shadows

def nowAt (n : ℕ) : Time := (start.run P (ops.take n)).now

/-- The batches that a replay received since its last claim, at that moment. -/
def batchesAt (id n : ℕ) : List (List JudgeCaseIn) :=
  (ShadowHistory.run P id start (ops.take n)).batches

/-- Operation `n` is a `finish` that succeeds, with the replays after it. -/
def FinishesAt (n judge id : ℕ) (payload : JudgeFinishIn) (shadows : ShadowJobs) : Prop :=
  ops[n]? = some (.shadow (.finish judge id payload)) ∧
    ShadowJobService.finish P.arith (nowAt P start ops n) judge id payload
      (shadowsAt P start ops n) = .ok shadows

/-- No replay is ever claimed more often than it may be, and what `finish` stores comes
from reports that the replay received since its last claim. -/
structure Disciplined : Prop where
  attempts : ∀ n, (shadowsAt P start ops n).WithinAttempts
  finish : ∀ n judge id payload shadows, FinishesAt P start ops n judge id payload shadows →
    ∃ job ∈ shadows.get? id, ∃ cases ⊆ (batchesAt P start ops id n).flatten,
      job.ComputedFrom P.arith payload cases

/-- No claim takes a replay without an attempt left, and no `finish` finds reports of an
earlier attempt before the first batch of its own. -/
structure Careful : Prop where
  claim : ∀ n judge languages tie,
    ops[n]? = some (.shadow (.claimJob judge languages tie)) →
      ∀ job ∈ ShadowJobService.selected (nowAt P start ops n) judge languages tie
        (shadowsAt P start ops n), job.attempts < job.maxAttempts
  finish : ∀ n judge id payload shadows, FinishesAt P start ops n judge id payload shadows →
    batchesAt P start ops id n ≠ [] ∨
      ∀ job ∈ (shadowsAt P start ops n).get? id, job.caseResults = []

variable {P start ops}

theorem run_take_succ {n : ℕ} {op : ReplayOp} (hop : ops[n]? = some op) :
    start.run P (ops.take (n + 1)) = (start.run P (ops.take n)).step P op := by
  rw [List.take_add_one, hop, Option.toList_some, ReplayWorld.run_append_singleton]

theorem shadowsAt_succ_of_none {n : ℕ} (hop : ops[n]? = none) :
    shadowsAt P start ops (n + 1) = shadowsAt P start ops n := by
  unfold shadowsAt
  rw [List.take_add_one, hop, Option.toList_none, List.append_nil]

theorem Careful.withinAttempts (h : Careful P start ops) (hstart : start.shadows = ∅) (n : ℕ) :
    (shadowsAt P start ops n).WithinAttempts := by
  induction n with
  | zero =>
      intro job hjob
      change job ∈ start.shadows.rows at hjob
      rw [hstart] at hjob
      cases hjob
  | succ n ih =>
      cases hop : ops[n]? with
      | none =>
          rw [shadowsAt_succ_of_none hop]
          exact ih
      | some op =>
          rw [shadowsAt, run_take_succ hop]
          cases op with
          | judging op => exact ih
          | shadow op =>
              unfold ReplayWorld.step
              dsimp only
              split
              · next shadows hperform =>
                  refine ShadowOp.withinAttempts_perform hperform ?_ ih
                  rintro judge languages tie rfl
                  exact h.claim n judge languages tie hop
              · exact ih

/-- What a `finish` stores, and where it found it. -/
theorem FinishesAt.exists_locked {n judge id : ℕ} {payload : JudgeFinishIn} {shadows : ShadowJobs}
    (h : FinishesAt P start ops n judge id payload shadows) :
    ∃ locked job, (shadowsAt P start ops n).get? id = some locked ∧ shadows.get? id = some job ∧
      job.ComputedFrom P.arith payload locked.caseResults := by
  obtain ⟨-, hfinish⟩ := h
  obtain ⟨locked, hlocked, rfl⟩ := ShadowJobService.finish_eq_ok hfinish
  have hid : id = (locked.succeed P.arith (nowAt P start ops n) payload).id :=
    (Table.key_of_get? hlocked).symm
  refine ⟨locked, locked.succeed P.arith (nowAt P start ops n) payload, hlocked, ?_,
    ⟨rfl, rfl, rfl, rfl⟩⟩
  rw [Table.get?_save, if_pos hid]

/-- The reports that a `finish` reads are those of the last batch of its attempt. -/
theorem caseResults_eq_of_batchesAt {n id : ℕ} {locked : ShadowJob}
    (hlocked : (shadowsAt P start ops n).get? id = some locked)
    (hbatches : batchesAt P start ops id n ≠ []) :
    locked.caseResults ∈ batchesAt P start ops id n := by
  have hkept := ShadowHistory.kept_run P id start (ops.take n)
    _ (List.getLast?_eq_some_getLast hbatches)
  rw [ShadowHistory.world_run] at hkept
  change ((shadowsAt P start ops n).get? id).map _ = _ at hkept
  rw [hlocked, Option.map_some, Option.some.injEq] at hkept
  rw [hkept]
  exact List.getLast_mem hbatches

/-- The runs in which the leases of the replays do what they are for. -/
theorem disciplined_iff (P : Python) {start : ReplayWorld} (hstart : start.shadows = ∅)
    (ops : List ReplayOp) : Disciplined P start ops ↔ Careful P start ops := by
  constructor
  · intro h
    constructor
    · intro n judge languages tie hop
      have hnext := h.attempts (n + 1)
      rw [shadowsAt, run_take_succ hop] at hnext
      exact (ShadowJobService.withinAttempts_claimJob_iff (h.attempts n)).mp hnext
    · intro n judge id payload shadows hfinish
      obtain ⟨job, hjob, cases, hsubset, hcomputed⟩ := h.finish n judge id payload shadows hfinish
      obtain ⟨locked, job', hlocked, hjob', hread⟩ := hfinish.exists_locked
      obtain rfl : job' = job := Option.some.inj (hjob'.symm.trans hjob)
      by_cases hbatches : batchesAt P start ops id n = []
      · -- without a batch there are no reports to compute from, so `finish` read none
        rw [hbatches, List.flatten_nil, List.subset_nil] at hsubset
        subst hsubset
        have hlength : locked.caseResults.length = 0 :=
          hread.caseTotal.symm.trans hcomputed.caseTotal
        right
        intro other hother
        obtain rfl : locked = other := Option.some.inj (hlocked.symm.trans hother)
        exact List.eq_nil_of_length_eq_zero hlength
      · exact Or.inl hbatches
  · intro h
    constructor
    · exact h.withinAttempts hstart
    · intro n judge id payload shadows hfinish
      obtain ⟨locked, job, hlocked, hjob, hread⟩ := hfinish.exists_locked
      refine ⟨job, hjob, locked.caseResults, ?_, hread⟩
      rcases h.finish n judge id payload shadows hfinish with hbatches | hnone
      · exact (List.sublist_flatten_of_mem (caseResults_eq_of_batchesAt hlocked hbatches)).subset
      · rw [hnone locked hlocked]
        exact List.nil_subset _

end Runs

/-! ## A replay that is claimed four times -/

/-- Judge 8 takes the replay of a submission. -/
def sampleReplayClaim : ReplayOp := .shadow (.claimJob 8 ["python"] 0)

/-- The judge is silent for longer than a lease. -/
def sampleOutage : ReplayOp := .judging (.advance 61000000)

/-- Judge 8 reports the sample case and finishes. -/
def sampleReplay : List ReplayOp :=
  [.judging (.createSubmission sampleRequest),
    .shadow (.createForSubmission 1 sampleContext none), sampleReplayClaim,
    .shadow (.recordCases 8 1 [sampleAccepted]), .shadow (.finish 8 1 {})]

theorem disciplined_iff_once : Disciplined samplePython {} sampleReplay := by
  refine (disciplined_iff samplePython rfl sampleReplay).mpr ⟨?_, ?_⟩
  · rintro n judge languages tie hop
    match n with
    | 2 =>
        cases hop
        decide +kernel
    | 0 | 1 | 3 | 4 => cases hop
    | n + 5 => cases hop
  · rintro n judge id payload shadows ⟨hop, -⟩
    match n with
    | 4 =>
        cases hop
        exact Or.inl (by decide +kernel)
    | 0 | 1 | 2 | 3 => cases hop
    | n + 5 => cases hop

/-- Judge 8 reports the case in its first attempt, loses four leases and finishes
without another report. -/
def sampleReplayOutages : List ReplayOp :=
  [.judging (.createSubmission sampleRequest),
    .shadow (.createForSubmission 1 sampleContext none), sampleReplayClaim,
    .shadow (.recordCases 8 1 [sampleAccepted]), sampleOutage, sampleReplayClaim, sampleOutage,
    sampleReplayClaim, sampleOutage, sampleReplayClaim, .shadow (.finish 8 1 {})]

/-- The fourth attempt ends with the verdict on the report of the first. -/
theorem replay_without_discipline :
    (∃ job ∈ (shadowsAt samplePython {} sampleReplayOutages 11).get? 1,
      job.status = .succeeded ∧ job.maxAttempts = 3 ∧ job.attempts = 4 ∧ job.result = "AC" ∧
        job.caseTotal = 1 ∧ job.totalPoints = 100) ∧
      batchesAt samplePython {} sampleReplayOutages 1 10 = [] ∧
        ¬ Disciplined samplePython {} sampleReplayOutages := by
  refine ⟨by decide +kernel, by decide +kernel, fun h => ?_⟩
  have hmany : ∃ job ∈ (shadowsAt samplePython {} sampleReplayOutages 11).rows,
      ¬ job.attempts ≤ job.maxAttempts := by decide +kernel
  obtain ⟨job, hjob, hover⟩ := hmany
  exact hover (h.attempts 11 job hjob)

end JudgeLoom
