import JudgeLoom.Contests.Formats

/-!
# The best subtasks of a contestant

The loop of the IOI format keeps the best value of every subtask and the best points of
the submissions without subtask scores.  Both are maxima over the submissions read so far
(`subtaskBest_tally_lt_iff`, `tally_snd_lt_iff`), so neither can fall.
-/

namespace JudgeLoom

/-- `best_subtasks.get(subtask, 0.0)`. -/
def subtaskBest (subtasks : Dict String ℚ) (subtask : String) : ℚ :=
  (subtasks.get? subtask).getD 0

theorem foldl_max_lt_iff {α : Type*} (value : α → ℚ) (initial bound : ℚ) (xs : List α) :
    xs.foldl (fun best x => max best (value x)) initial < bound ↔
      initial < bound ∧ ∀ x ∈ xs, value x < bound := by
  induction xs generalizing initial with
  | nil => simp
  | cons x rest ih => rw [List.foldl_cons, ih, max_lt_iff, List.forall_mem_cons, and_assoc]

theorem foldl_max_le_iff {α : Type*} (value : α → ℚ) (initial bound : ℚ) (xs : List α) :
    xs.foldl (fun best x => max best (value x)) initial ≤ bound ↔
      initial ≤ bound ∧ ∀ x ∈ xs, value x ≤ bound := by
  induction xs generalizing initial with
  | nil => simp
  | cons x rest ih => rw [List.foldl_cons, ih, max_le_iff, List.forall_mem_cons, and_assoc]

namespace IOIContestFormat

/-- The body of the loop over the subtask scores of one submission. -/
def tallyEntry (subtasks : Dict String ℚ) (entry : String × ℚ) : Dict String ℚ :=
  subtasks.set entry.1 (max (subtaskBest subtasks entry.1) entry.2)

/-- What the loop over the submissions computes. -/
def tally (submissions : List Submission) : Dict String ℚ × ℚ :=
  submissions.foldl tallySubmission (∅, 0)

variable {subtasks : Dict String ℚ} {subtask : String} {submissions : List Submission}
  {submission : Submission}

@[simp] theorem tally_append_singleton (submissions : List Submission) (submission : Submission) :
    tally (submissions ++ [submission]) = tallySubmission (tally submissions) submission := by
  rw [tally, List.foldl_append]
  rfl

theorem points_getProblemResult (A : FloatArith) (submissions : List Submission) :
    (getProblemResult A submissions).points =
      if (tally submissions).1.entries = [] then (tally submissions).2
      else A.sum (tally submissions).1.values :=
  rfl

theorem tallySubmission_fst (best : Dict String ℚ × ℚ) (submission : Submission) :
    (tallySubmission best submission).1 =
      submission.subtaskScores.entries.foldl tallyEntry best.1 := by
  unfold tallySubmission
  split_ifs with hnone
  · rw [hnone, List.foldl_nil]
  · rfl

theorem subtaskBest_tallyEntry (subtasks : Dict String ℚ) (entry : String × ℚ)
    (subtask : String) :
    subtaskBest (tallyEntry subtasks entry) subtask =
      if subtask = entry.1 then max (subtaskBest subtasks subtask) entry.2
      else subtaskBest subtasks subtask := by
  rw [subtaskBest, tallyEntry, Dict.get?_set]
  split_ifs with hsubtask
  · rw [hsubtask, Option.getD_some]
  · rfl

theorem subtaskBest_foldl_lt_iff (entries : List (String × ℚ)) (bound : ℚ) :
    subtaskBest (entries.foldl tallyEntry subtasks) subtask < bound ↔
      subtaskBest subtasks subtask < bound ∧
        ∀ entry ∈ entries, subtask = entry.1 → entry.2 < bound := by
  induction entries generalizing subtasks with
  | nil => simp
  | cons entry rest ih =>
      rw [List.foldl_cons, ih, subtaskBest_tallyEntry, List.forall_mem_cons, ← and_assoc]
      refine and_congr_left fun _ => ?_
      split_ifs with hsubtask
      · simp [hsubtask]
      · simp [hsubtask]

/-- The value of a subtask is the best one of all submissions. -/
theorem subtaskBest_tally_lt_iff (submissions : List Submission) (subtask : String) (bound : ℚ) :
    subtaskBest (tally submissions).1 subtask < bound ↔
      0 < bound ∧ ∀ submission ∈ submissions, ∀ entry ∈ submission.subtaskScores.entries,
        subtask = entry.1 → entry.2 < bound := by
  induction submissions using List.reverseRecOn with
  | nil => simp [tally, subtaskBest]
  | append_singleton rest submission ih =>
      rw [tally_append_singleton, tallySubmission_fst, subtaskBest_foldl_lt_iff, ih, and_assoc]
      refine and_congr_right fun _ => ?_
      simp only [List.mem_append, List.mem_singleton, or_imp, forall_and, forall_eq]

theorem keys_foldl_tallyEntry (entries : List (String × ℚ)) :
    subtask ∈ (entries.foldl tallyEntry subtasks).keys ↔
      subtask ∈ subtasks.keys ∨ subtask ∈ entries.map Prod.fst := by
  induction entries generalizing subtasks with
  | nil => simp
  | cons entry rest ih =>
      rw [List.foldl_cons, ih, tallyEntry, Dict.keys_set, List.map_cons, List.mem_cons]
      split_ifs with hmem
      · constructor
        · exact Or.imp_right Or.inr
        · rintro (h | rfl | h)
          · exact .inl h
          · exact .inl hmem
          · exact .inr h
      · rw [List.mem_append, List.mem_singleton, or_assoc]

/-- The subtasks are those of all submissions. -/
theorem mem_keys_tally (submissions : List Submission) :
    subtask ∈ (tally submissions).1.keys ↔
      ∃ submission ∈ submissions, subtask ∈ submission.subtaskScores.keys := by
  induction submissions using List.reverseRecOn with
  | nil => simp [tally, Dict.keys]
  | append_singleton rest submission ih =>
      rw [tally_append_singleton, tallySubmission_fst, keys_foldl_tallyEntry, ih]
      simp only [List.mem_append, List.mem_singleton, or_and_right, exists_or, exists_eq_left]
      rfl

theorem entries_tally_eq_nil_iff (submissions : List Submission) :
    (tally submissions).1.entries = [] ↔
      ∀ submission ∈ submissions, submission.subtaskScores.entries = [] := by
  have hkeys : ∀ d : Dict String ℚ, d.entries = [] ↔ ∀ subtask, subtask ∉ d.keys := by
    intro d
    rw [← List.eq_nil_iff_forall_not_mem, Dict.keys, List.map_eq_nil_iff]
  simp only [hkeys, mem_keys_tally, not_exists, not_and]
  exact ⟨fun h submission hmem subtask => h subtask submission hmem,
    fun h subtask submission hmem => h submission hmem subtask⟩

/-- The points kept aside are the best of the submissions without subtask scores. -/
theorem tally_snd_lt_iff (submissions : List Submission) (bound : ℚ) :
    (tally submissions).2 < bound ↔
      0 < bound ∧ ∀ submission ∈ submissions, submission.subtaskScores.entries = [] →
        submission.points < bound := by
  induction submissions using List.reverseRecOn with
  | nil => simp [tally]
  | append_singleton rest submission ih =>
      rw [tally_append_singleton]
      simp only [List.mem_append, List.mem_singleton, or_imp, forall_and, forall_eq, ← and_assoc,
        ← ih]
      unfold tallySubmission
      split_ifs with hnone
      · simp [hnone]
      · simp [hnone]

theorem subtaskBest_tally_nonneg (submissions : List Submission) (subtask : String) :
    0 ≤ subtaskBest (tally submissions).1 subtask := by
  by_contra hneg
  rw [not_le, subtaskBest_tally_lt_iff] at hneg
  exact lt_irrefl 0 hneg.1

theorem tally_snd_nonneg (submissions : List Submission) : 0 ≤ (tally submissions).2 := by
  by_contra hneg
  rw [not_le, tally_snd_lt_iff] at hneg
  exact lt_irrefl 0 hneg.1

/-- The best subtasks contain those of each submission. -/
theorem subtaskBest_le_tally (hmem : submission ∈ submissions) (subtask : String) :
    subtaskBest submission.subtaskScores subtask ≤ subtaskBest (tally submissions).1 subtask := by
  by_contra hlt
  rw [not_le, subtaskBest_tally_lt_iff] at hlt
  cases hget : submission.subtaskScores.get? subtask with
  | none =>
      rw [subtaskBest, hget, Option.getD_none] at hlt
      exact lt_irrefl 0 hlt.1
  | some value =>
      rw [subtaskBest, hget, Option.getD_some] at hlt
      exact lt_irrefl value
        (hlt.2 submission hmem (subtask, value) (Dict.get?_eq_some.mp hget) rfl)

end IOIContestFormat

end JudgeLoom
