import JudgeLoom.Judge.Transitions
import JudgeLoom.Judge.Verdict

/-!
# Finalised submissions

What `finish` and `fail` leave of a submission whose job they close: a scored submission
has the points and the subtask scores of its package, all others have neither.
-/

namespace JudgeLoom

namespace JudgeResultService

/-- The submission as `finish` or `fail` returned it when it closed the job, whose package
is one of those given. -/
inductive Finalised (P : Python) (Package : ProblemPackage → Prop) : Submission → Prop
  | finish {now : Time} {judge id : ℕ} {errorMessage : String} {db : Database} {locked : Judging}
      {result : Submission × Database} (hlocked : db.lockJob id = .ok locked)
      (hactive : locked.job.status ≠ .succeeded)
      (hpackage : ∀ package ∈ locked.job.package, Package package)
      (hfinish : finish P now judge id errorMessage db = .ok result) :
      Finalised P Package result.1
  | fail {now : Time} {judge id : ℕ} {code errorMessage : String} {db : Database}
      {locked : Judging} {result : Submission × Database} (hlocked : db.lockJob id = .ok locked)
      (hactive : locked.job.status ≠ .failed)
      (hfail : fail P now judge id code errorMessage db = .ok result) :
      Finalised P Package result.1

/-- The package gives this score for some reported cases. -/
def Gives (P : Python) (package : ProblemPackage) (summary : ScoreSummary) : Prop :=
  ∃ testCases : TestCases,
    ScoringService.score P package (testCases.rows.map casePayload) = .ok summary

/-- The submission has this score. -/
structure HasScore (submission : Submission) (summary : ScoreSummary) : Prop where
  points : submission.points = summary.points
  subtaskScores : submission.subtaskScores = summary.subtaskScores
  result : submission.result = some summary.result

/-- The submission has no score. -/
structure NotScored (submission : Submission) : Prop where
  points : submission.points = 0
  subtaskScores : submission.subtaskScores = ∅
  result : submission.mode = .submit → submission.result ≠ some .AC

variable {P : Python} {Package : ProblemPackage → Prop} {locked : Judging}
  {submission : Submission}

theorem outcome_cases (h : outcome P locked = .ok submission) :
    NotScored submission ∨ ∃ package ∈ locked.job.package, ∃ summary,
      Gives P package summary ∧ HasScore submission summary := by
  unfold outcome at h
  split at h
  · next hmode =>
      cases h
      refine .inl ?_
      unfold runOutcome
      split <;> exact ⟨rfl, rfl, fun hsubmit => by cases hmode.symm.trans hsubmit⟩
  · cases h
  · next package _ hpackage =>
      unfold scoredOutcome at h
      split at h
      · cases h
      · next summary hscore =>
          cases h
          exact .inr ⟨package, hpackage, summary, ⟨_, hscore⟩, rfl, rfl, rfl⟩

theorem Finalised.cases (h : Finalised P Package submission) :
    NotScored submission ∨ ∃ package, Package package ∧ ∃ summary,
      Gives P package summary ∧ HasScore submission summary := by
  cases h with
  | finish hlocked hactive hpackage hfinish =>
      obtain ⟨s, hs, ⟨hsucceeded, -⟩ | ⟨-, scored, houtcome, hclose⟩⟩ := finish_eq_ok hfinish
      · cases hs.symm.trans (lockJob_eq_ok.mp hlocked)
        exact absurd hsucceeded hactive
      · cases hs.symm.trans (lockJob_eq_ok.mp hlocked)
        cases hclose
        rcases outcome_cases houtcome with hnot | ⟨package, hmem, summary, hgives, hscore⟩
        · exact .inl ⟨hnot.points, hnot.subtaskScores, hnot.result⟩
        · exact .inr ⟨package, hpackage package hmem, summary, hgives, hscore.points,
            hscore.subtaskScores, hscore.result⟩
  | fail hlocked hactive hfail =>
      obtain ⟨s, hs, ⟨hfailed, -⟩ | ⟨-, hclose⟩⟩ := fail_eq_ok hfail
      · cases hs.symm.trans (lockJob_eq_ok.mp hlocked)
        exact absurd hfailed hactive
      · cases hclose
        refine .inl ⟨rfl, rfl, fun _ hresult => ?_⟩
        simp only [close, Submission.erroneous, failResult] at hresult
        split_ifs at hresult <;> cases hresult

end JudgeResultService

namespace ScoringService

/-- A package scores at least one subtask. -/
theorem entries_subtaskScores_ne_nil (A : FloatArith) (m : ScoringManifest)
    (cases : List CasePayload) : (scoreManifest A m cases).subtaskScores.entries ≠ [] := by
  have hkeys : (scoreManifest A m cases).subtaskScores.keys = (groupDefs A m).keys := by
    rw [scoreManifest_eq]
    dsimp only
    split_ifs <;> simp [earned]
  obtain ⟨group, hgroup⟩ := List.exists_mem_of_ne_nil _ (groupsOf_ne_nil A m)
  have hmem : group.id ∈ (groupDefs A m).keys :=
    Dict.mem_keys_ofList.mpr (List.mem_map.mpr ⟨_, List.mem_map_of_mem hgroup, rfl⟩)
  rw [← hkeys, Dict.keys] at hmem
  exact fun hnone => by simp [hnone] at hmem

end ScoringService

namespace JudgeResultService

variable {P : Python} {Package : ProblemPackage → Prop} {submission : Submission}

theorem Gives.entries_ne_nil {package : ProblemPackage} {summary : ScoreSummary}
    (h : Gives P package summary) : summary.subtaskScores.entries ≠ [] := by
  obtain ⟨testCases, hscore⟩ := h
  unfold ScoringService.score at hscore
  split at hscore
  · cases hscore
  · cases hscore
    exact ScoringService.entries_subtaskScores_ne_nil _ _ _

/-- Points without subtask scores do not occur. -/
theorem Finalised.points_eq_zero (h : Finalised P Package submission)
    (hnone : submission.subtaskScores.entries = []) : submission.points = 0 := by
  rcases h.cases with hnot | ⟨package, -, summary, hgives, hscore⟩
  · exact hnot.points
  · rw [hscore.subtaskScores] at hnone
    exact absurd hnone hgives.entries_ne_nil

end JudgeResultService

/-! ## A job in progress -/

/-- The job of the submission, which judge 7 runs. -/
def runningJob (package : ProblemPackage) (submission : Submission) : JudgeJob where
  id := 1
  submission := submission.id
  package := some package
  language := submission.language
  status := .running
  claimedBy := some 7
  leaseExpiresAt := some (submission.createdAt + leaseSeconds)
  config :=
    { timeLimit := 1, memoryLimit := 256, shortCircuit := false, partialScore := true,
      mode := submission.mode, customInput := "", expectedOutput := "" }
  createdAt := submission.createdAt

/-- Its cases are reported. -/
def runningDatabase (package : ProblemPackage) (submission : Submission) (testCases : TestCases) :
    Database where
  submissions := (∅ : Table _ Submission.id).save submission
  jobs := (∅ : Table _ JudgeJob.id).save (runningJob package submission)
  testCases _ := testCases

theorem lockJob_runningDatabase (package : ProblemPackage) (submission : Submission)
    (testCases : TestCases) :
    (runningDatabase package submission testCases).lockJob 1 =
      .ok { job := runningJob package submission, submission, testCases } := by
  refine JudgeResultService.lockJob_eq_ok.mpr ?_
  simp [runningDatabase, Database.judging?, runningJob]

namespace JudgeResultService

/-- The submission that `finish` returns for the job in progress. -/
def finished (P : Python) (package : ProblemPackage) (submission : Submission)
    (testCases : TestCases) : Except ServiceError (Submission × Database) :=
  finish P submission.createdAt 7 1 "" (runningDatabase package submission testCases)

/-- The submission that `fail` returns for it. -/
def failed (P : Python) (package : ProblemPackage) (submission : Submission) (code : String) :
    Except ServiceError (Submission × Database) :=
  fail P submission.createdAt 7 1 code "" (runningDatabase package submission ∅)

variable {P : Python} {Package : ProblemPackage → Prop} {package : ProblemPackage}
  {submission : Submission} {testCases : TestCases} {code : String}
  {result : Submission × Database}

theorem finalised_finished (hpackage : Package package)
    (h : finished P package submission testCases = .ok result) :
    Finalised P Package result.1 := by
  refine .finish (lockJob_runningDatabase package submission testCases) (fun hend => by cases hend) ?_ h
  intro other hother
  cases hother
  exact hpackage

theorem finalised_failed (h : failed P package submission code = .ok result) :
    Finalised P Package result.1 :=
  .fail (lockJob_runningDatabase package submission ∅) (fun hend => by cases hend) h

/-- Every score that a package gives is the score of a finalised submission. -/
theorem exists_finalised (submission : Submission) {summary : ScoreSummary}
    (hpackage : Package package)
    (hgives : Gives P package summary) (hmode : submission.mode = .submit) :
    ∃ judged, judged.mode = .submit ∧ Finalised P Package judged ∧ HasScore judged summary := by
  obtain ⟨testCases, hscore⟩ := hgives
  have howned : assertOwned submission.createdAt 7 (runningJob package submission) = .ok () := by
    have hlease : (runningJob package submission).leaseOver submission.createdAt = false := by
      simp [JudgeJob.leaseOver, runningJob, leaseSeconds, second]
    unfold assertOwned
    rw [hlease]
    rfl
  have houtcome : ∃ scored, outcome P ⟨runningJob package submission, submission, testCases⟩ =
      .ok scored ∧ scored.mode = .submit ∧ HasScore scored summary := by
    unfold outcome
    rw [hmode]
    dsimp only [runningJob]
    unfold scoredOutcome
    rw [hscore]
    exact ⟨_, rfl, hmode, rfl, rfl, rfl⟩
  obtain ⟨scored, houtcome, hscored⟩ := houtcome
  have hfinish : finished P package submission testCases = .ok (close P
      (runningDatabase package submission testCases)
      { job := (runningJob package submission).succeed submission.createdAt
        submission := { scored with
          judgedAt := some submission.createdAt, judgedOn := some 7, errorMessage := "" }
        testCases }) := by
    unfold finished finish
    rw [lockJob_runningDatabase]
    simp only [bind, Except.bind, howned, houtcome]
    rfl
  refine ⟨_, ?_, finalised_finished hpackage hfinish, ?_⟩
  · exact hscored.1
  · exact ⟨hscored.2.points, hscored.2.subtaskScores, hscored.2.result⟩

end JudgeResultService

end JudgeLoom
