import JudgeLoom.Contests.Standing
import Mathlib.Data.List.Forall2

/-!
# Live and virtual participation

A format measures time from the start of the participation only, through
`_submission_time_seconds`.  A participation that starts later, with submissions that are
later by as much, is therefore scored alike, down to the stored format data.
-/

namespace JudgeLoom

open ContestFormat

/-- `virtual_start or contest.start_time`. -/
def ContestParticipation.start (participation : ContestParticipation) : Time :=
  participation.virtualStart.getD participation.contest.startTime

/-- The same verdict, later by `delta`. -/
structure Submission.ShiftedBy (delta : Time) (submission shifted : Submission) : Prop where
  createdAt : shifted.createdAt = submission.createdAt + delta
  result : shifted.result = submission.result
  points : shifted.points = submission.points
  subtaskScores : shifted.subtaskScores = submission.subtaskScores

/-- The same contest, begun later by `delta`, with submissions that correspond in order. -/
structure ContestParticipation.ShiftedBy (delta : Time) (rows shiftedRows : List Submission)
    (participation shifted : ContestParticipation) : Prop where
  format : shifted.contest.format = participation.contest.format
  problems : shifted.contest.problems = participation.contest.problems
  start : shifted.start = participation.start + delta
  submissions : ∀ contestProblem ∈ participation.contest.problems,
    List.Forall₂ (Submission.ShiftedBy delta) (submissionView rows participation contestProblem)
      (submissionView shiftedRows shifted contestProblem)

variable {A : FloatArith} {delta : Time} {rows shiftedRows : List Submission}
  {participation shifted : ContestParticipation} {submission shiftedSubmission : Submission}
  {submissions shiftedSubmissions : List Submission}

theorem Submission.ShiftedBy.isAccepted_eq (h : submission.ShiftedBy delta shiftedSubmission) :
    isAccepted shiftedSubmission = isAccepted submission := by
  rw [isAccepted, h.result, isAccepted]

/-- The time that has passed is the same. -/
theorem submissionTimeSeconds_shift (hstart : shifted.start = participation.start + delta)
    (h : submission.ShiftedBy delta shiftedSubmission) :
    submissionTimeSeconds A shifted shiftedSubmission =
      submissionTimeSeconds A participation submission := by
  have hpassed : shiftedSubmission.createdAt - shifted.start =
      submission.createdAt - participation.start := by
    rw [h.createdAt, hstart, add_sub_add_right_eq_sub]
  simp only [submissionTimeSeconds]
  rw [← ContestParticipation.start, hpassed]
  rfl

/-! ## The loops -/

theorem foldl_shift {α : Type*} {step step' : α → Submission → α}
    (hstep : ∀ value submission shifted, Submission.ShiftedBy delta submission shifted →
      step' value shifted = step value submission)
    (h : List.Forall₂ (Submission.ShiftedBy delta) submissions shiftedSubmissions) (value : α) :
    shiftedSubmissions.foldl step' value = submissions.foldl step value := by
  induction h generalizing value with
  | nil => rfl
  | cons hfirst _ ih => rw [List.foldl_cons, List.foldl_cons, hstep _ _ _ hfirst, ih]

theorem any_shift (h : List.Forall₂ (Submission.ShiftedBy delta) submissions shiftedSubmissions) :
    shiftedSubmissions.any isAccepted = submissions.any isAccepted := by
  induction h with
  | nil => rfl
  | cons hfirst _ ih => rw [List.any_cons, List.any_cons, hfirst.isAccepted_eq, ih]

/-- The loop stops at corresponding submissions, after as many attempts. -/
theorem untilAccepted_shift (counts : Submission → Bool)
    (hcounts : ∀ submission shifted, Submission.ShiftedBy delta submission shifted →
      counts shifted = counts submission)
    (h : List.Forall₂ (Submission.ShiftedBy delta) submissions shiftedSubmissions) :
    (untilAccepted counts shiftedSubmissions).1 = (untilAccepted counts submissions).1 ∧
      Option.Rel (Submission.ShiftedBy delta) (untilAccepted counts submissions).2
        (untilAccepted counts shiftedSubmissions).2 := by
  induction h with
  | nil => exact ⟨rfl, Option.Rel.none⟩
  | cons hfirst _ ih =>
      rw [untilAccepted, untilAccepted, hcounts _ _ hfirst, hfirst.isAccepted_eq]
      split_ifs
      · exact ⟨rfl, Option.Rel.some hfirst⟩
      · exact ⟨congrArg (· + 1) ih.1, ih.2⟩
      · exact ih

/-- The minutes of the submission at which the loop stopped. -/
theorem elim_minutes_shift (A : FloatArith) (hstart : shifted.start = participation.start + delta)
    {found shiftedFound : Option Submission}
    (h : Option.Rel (Submission.ShiftedBy delta) found shiftedFound) :
    (shiftedFound.elim 0 fun submission =>
        wholeMinutes (submissionTimeSeconds A shifted submission)) =
      (found.elim 0 fun submission =>
        wholeMinutes (submissionTimeSeconds A participation submission)) ∧
      shiftedFound.isSome = found.isSome := by
  cases h with
  | none => exact ⟨rfl, rfl⟩
  | some hfound => exact ⟨congrArg wholeMinutes (submissionTimeSeconds_shift hstart hfound), rfl⟩

/-! ## The results of a problem -/

section Results

variable (hstart : shifted.start = participation.start + delta)
  (h : List.Forall₂ (Submission.ShiftedBy delta) submissions shiftedSubmissions)

include h

theorem IOIContestFormat.getProblemResult_shift :
    IOIContestFormat.getProblemResult A shiftedSubmissions =
      IOIContestFormat.getProblemResult A submissions := by
  have hbest : shiftedSubmissions.foldl tallySubmission (∅, 0) =
      submissions.foldl tallySubmission (∅, 0) := by
    refine foldl_shift (fun best submission shifted hshift => ?_) h _
    rw [tallySubmission, hshift.subtaskScores, hshift.points, tallySubmission]
  simp only [IOIContestFormat.getProblemResult, hbest, h.length_eq]

theorem ECOOContestFormat.getProblemResult_shift (tries : ℕ+) :
    ECOOContestFormat.getProblemResult tries shiftedSubmissions =
      ECOOContestFormat.getProblemResult tries submissions := by
  have htries := List.forall₂_take (tries : ℕ) h
  simp only [ECOOContestFormat.getProblemResult, any_shift htries, htries.length_eq]

include hstart

theorem DefaultContestFormat.getProblemResult_shift :
    DefaultContestFormat.getProblemResult A shifted shiftedSubmissions =
      DefaultContestFormat.getProblemResult A participation submissions := by
  have hbest : shiftedSubmissions.foldl (fun best submission => max best submission.points) 0 =
      submissions.foldl (fun best submission => max best submission.points) 0 := by
    refine foldl_shift (fun best submission shifted hshift => ?_) h _
    rw [hshift.points]
  have haccepted := List.rel_filter (p := isAccepted) (q := isAccepted)
    (fun _ _ hshift => Bool.eq_iff_iff.mp hshift.isAccepted_eq.symm) h
  have hlatest : (shiftedSubmissions.filter fun submission => isAccepted submission).foldl
      (fun latest submission => max latest (submissionTimeSeconds A shifted submission)) 0 =
        (submissions.filter fun submission => isAccepted submission).foldl
          (fun latest submission =>
            max latest (submissionTimeSeconds A participation submission)) 0 := by
    refine foldl_shift (fun latest submission shifted hshift => ?_) haccepted _
    rw [submissionTimeSeconds_shift hstart hshift]
  simp only [DefaultContestFormat.getProblemResult, hbest, hlatest, h.length_eq]

theorem ICPCContestFormat.getProblemResult_shift (wrongPenaltyMinutes : ℤ) :
    ICPCContestFormat.getProblemResult A wrongPenaltyMinutes shifted shiftedSubmissions =
      ICPCContestFormat.getProblemResult A wrongPenaltyMinutes participation submissions := by
  obtain ⟨hwrong, hfound⟩ := untilAccepted_shift
    (fun submission => !decide (submission.result = some .CE ∨ submission.result = some .IE))
    (fun submission shifted hshift => by rw [hshift.result]) h
  obtain ⟨hminutes, hsolved⟩ := elim_minutes_shift A hstart hfound
  simp only [ICPCContestFormat.getProblemResult, hwrong, hminutes, hsolved]

theorem AtCoderContestFormat.getProblemResult_shift (contestProblem : ContestProblem) :
    AtCoderContestFormat.getProblemResult A shifted contestProblem shiftedSubmissions =
      AtCoderContestFormat.getProblemResult A participation contestProblem submissions := by
  obtain ⟨hwrong, hfound⟩ := untilAccepted_shift (fun _ => true) (fun _ _ _ => rfl) h
  obtain ⟨hminutes, hsolved⟩ := elim_minutes_shift A hstart hfound
  simp only [AtCoderContestFormat.getProblemResult, hwrong, hminutes, hsolved]

end Results

/-! ## The scores -/

/-- The results of the problems decide the scores. -/
theorem map_result_shift {α : Type*} (h : participation.ShiftedBy delta rows shiftedRows shifted)
    (result result' : ContestProblem → List Submission → α)
    (hresult : ∀ contestProblem ∈ participation.contest.problems,
      List.Forall₂ (Submission.ShiftedBy delta) (submissionView rows participation contestProblem)
        (submissionView shiftedRows shifted contestProblem) →
      result' contestProblem (submissionView shiftedRows shifted contestProblem) =
        result contestProblem (submissionView rows participation contestProblem)) :
    (participation.contest.problems.map fun contestProblem =>
        result' contestProblem (submissionView shiftedRows shifted contestProblem)) =
      (participation.contest.problems.map fun contestProblem =>
        result contestProblem (submissionView rows participation contestProblem)) ∧
      (perProblem participation.contest.problems fun contestProblem =>
        result' contestProblem (submissionView shiftedRows shifted contestProblem)) =
      perProblem participation.contest.problems fun contestProblem =>
        result contestProblem (submissionView rows participation contestProblem) := by
  have hboth := fun contestProblem hmem =>
    hresult contestProblem hmem (h.submissions contestProblem hmem)
  exact ⟨List.map_congr_left hboth, perProblem_congr hboth⟩

/-- A participation that starts later, with submissions that are later by as much, gets the
same score, tiebreaker, cumulative time and format data. -/
theorem calculateParticipation_shift
    (h : participation.ShiftedBy delta rows shiftedRows shifted) :
    calculateParticipation A shifted (submissionView shiftedRows shifted) =
      calculateParticipation A participation (submissionView rows participation) := by
  unfold calculateParticipation
  rw [h.format]
  cases participation.contest.format with
  | none => rfl
  | some format =>
      cases format with
      | default =>
          obtain ⟨hmap, hper⟩ := map_result_shift h
            (fun _ => DefaultContestFormat.getProblemResult A participation)
            (fun _ => DefaultContestFormat.getProblemResult A shifted)
            fun _ _ hviews => DefaultContestFormat.getProblemResult_shift h.start hviews
          simp only [DefaultContestFormat.calculateParticipation, h.problems, hmap, hper]
      | icpc config =>
          refine bind_congr fun wrongPenaltyMinutes => ?_
          obtain ⟨hmap, hper⟩ := map_result_shift h
            (fun _ => ICPCContestFormat.getProblemResult A wrongPenaltyMinutes
              participation)
            (fun _ => ICPCContestFormat.getProblemResult A wrongPenaltyMinutes shifted)
            fun _ _ hviews =>
              ICPCContestFormat.getProblemResult_shift h.start hviews wrongPenaltyMinutes
          simp only [ICPCContestFormat.calculateParticipation, h.problems, hmap, hper]
      | ioi =>
          obtain ⟨hmap, hper⟩ := map_result_shift h
            (fun _ => IOIContestFormat.getProblemResult A)
            (fun _ => IOIContestFormat.getProblemResult A)
            fun _ _ hviews => IOIContestFormat.getProblemResult_shift hviews
          simp only [IOIContestFormat.calculateParticipation, h.problems, hmap, hper]
      | atcoder config =>
          refine bind_congr fun penaltyMinutes => ?_
          obtain ⟨hmap, hper⟩ := map_result_shift h
            (fun contestProblem =>
              AtCoderContestFormat.getProblemResult A participation contestProblem)
            (fun contestProblem =>
              AtCoderContestFormat.getProblemResult A shifted contestProblem)
            fun contestProblem _ hviews =>
              AtCoderContestFormat.getProblemResult_shift h.start hviews contestProblem
          obtain ⟨hscored, -⟩ := map_result_shift h
            (fun contestProblem submissions => (contestProblem.points,
              AtCoderContestFormat.getProblemResult A participation contestProblem submissions))
            (fun contestProblem submissions => (contestProblem.points,
              AtCoderContestFormat.getProblemResult A shifted contestProblem submissions))
            fun contestProblem _ hviews => by
              rw [AtCoderContestFormat.getProblemResult_shift h.start hviews contestProblem]
          simp only [AtCoderContestFormat.calculateParticipation, h.problems, hscored, hper]
      | ecoo config =>
          dsimp only [ECOOContestFormat.calculateParticipation]
          rw [h.problems]
          cases hproblems : participation.contest.problems with
          | nil => rfl
          | cons first rest =>
              cases config with
              | none => rfl
              | some tries =>
                  obtain ⟨hmap, hper⟩ := map_result_shift h
                    (fun _ => ECOOContestFormat.getProblemResult tries)
                    (fun _ => ECOOContestFormat.getProblemResult tries)
                    fun _ _ hviews => ECOOContestFormat.getProblemResult_shift hviews tries
                  rw [hproblems] at hmap hper
                  simp only [hmap, hper]

/-- One problem, penalties of twenty minutes. -/
def timedContest : Contest where
  format := some (.icpc (some 20))
  startTime := 0
  problems := [{ problem := 1, label := "C", points := 100 }]

/-- A submission of the live participation, or of the virtual one an hour later. -/
def timedSubmission (id participation : ℕ) (minute : ℤ) (result : SubmissionResult) :
    Submission where
  id
  user := participation
  problem := 1
  language := "cpp"
  result := some result
  status := .completed
  contestParticipation := some participation
  createdAt := minute * (60 * second)

def promptParticipation : ContestParticipation := { id := 1, user := 1, contest := timedContest }

def laterParticipation : ContestParticipation where
  id := 2
  user := 2
  contest := timedContest
  virtualStart := some (60 * (60 * second))

theorem calculateParticipation_shift_hour :
    calculateParticipation .binary64 laterParticipation (submissionView
        [timedSubmission 3 2 75 .AC, timedSubmission 4 2 70 .WA] laterParticipation) =
      calculateParticipation .binary64 promptParticipation (submissionView
        [timedSubmission 1 1 10 .WA, timedSubmission 2 1 15 .AC] promptParticipation) := by
  refine calculateParticipation_shift (?_ : ContestParticipation.ShiftedBy
    (60 * (60 * second)) _ _ _ _)
  refine { format := rfl, problems := rfl, start := rfl, submissions := ?_ }
  intro contestProblem hmem
  rw [List.mem_singleton.mp hmem]
  exact .cons ⟨by decide, rfl, rfl, rfl⟩ (.cons ⟨by decide, rfl, rfl, rfl⟩ .nil)

end JudgeLoom
