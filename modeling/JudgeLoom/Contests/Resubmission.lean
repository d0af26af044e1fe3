import JudgeLoom.Contests.BestSubtasks
import JudgeLoom.Contests.Standing

/-!
# Submitting a solved problem again

Four formats do not look past the first accepted submission, or keep the best points.
The default format keeps the best points too, but its tiebreaker is the time of the last
accepted submission: `standing_resubmission_iff`.
-/

namespace JudgeLoom

open ContestFormat

/-- The points and the subtask scores of the submission do not exceed those of `best`. -/
structure Submission.Within (submission best : Submission) : Prop where
  points : submission.points ≤ best.points
  subtaskScores : ∀ entry ∈ submission.subtaskScores.entries,
    entry.2 ≤ subtaskBest best.subtaskScores entry.1
  scored : submission.subtaskScores.entries ≠ [] → best.subtaskScores.entries ≠ []

/-- The submission would be the last accepted one of the participation. -/
def Submission.IsLastAccepted (A : FloatArith) (extra : Submission) (rows : List Submission)
    (participation : ContestParticipation) : Prop :=
  isAccepted extra ∧ 0 < submissionTimeSeconds A participation extra ∧
    ∀ contestProblem ∈ participation.contest.problems,
      ∀ submission ∈ submissionView rows participation contestProblem, isAccepted submission →
        submissionTimeSeconds A participation submission <
          submissionTimeSeconds A participation extra

/-- A later submission to a contest problem that is solved as well as it will be. -/
structure Submission.Resubmits (extra accepted : Submission) (rows : List Submission)
    (participation : ContestParticipation) (contestProblem : ContestProblem) : Prop where
  mem_problems : contestProblem ∈ participation.contest.problems
  mem_view : accepted ∈ submissionView rows participation contestProblem
  solved : isAccepted accepted
  belongs : extra.belongsTo participation contestProblem
  later : ∀ submission ∈ submissionView rows participation contestProblem, ¬ before extra submission
  within : extra.Within accepted

variable {A : FloatArith} {participation : ContestParticipation} {rows : List Submission}
  {contestProblem other : ContestProblem} {extra accepted : Submission}
  {submissions : List Submission}

/-! ## The loops -/

namespace Submission.Resubmits

/-- The formats find the submission after all others, and for this problem only. -/
theorem submissionView_cons_eq (h : extra.Resubmits accepted rows participation contestProblem)
    (other : ContestProblem) :
    submissionView (extra :: rows) participation other = submissionView rows participation other ∨
      accepted ∈ submissionView rows participation other ∧
        submissionView (extra :: rows) participation other =
          submissionView rows participation other ++ [extra] := by
  by_cases hbelongs : extra.belongsTo participation other = true
  · -- the view of a problem depends on its number only
    have hproblem : contestProblem.problem = other.problem := by
      have h₁ := h.belongs
      simp only [belongsTo, Bool.and_eq_true, decide_eq_true_eq] at h₁ hbelongs
      exact h₁.2.symm.trans hbelongs.2
    have hview : submissionView rows participation contestProblem =
        submissionView rows participation other := by
      simp only [submissionView, submissionQueryset, hproblem]
    have hcons := submissionView_cons_of_later (hview ▸ h.later)
    rw [if_pos hbelongs] at hcons
    exact .inr ⟨hview ▸ h.mem_view, hcons⟩
  · rw [Bool.not_eq_true] at hbelongs
    exact .inl (submissionView_cons_of_not hbelongs)

/-- What looks no further than the accepted submission, or keeps the best, stays. -/
theorem result_eq {α : Type*} (h : extra.Resubmits accepted rows participation contestProblem)
    (result : List Submission → α)
    (hresult : ∀ submissions, accepted ∈ submissions →
      result (submissions ++ [extra]) = result submissions) (other : ContestProblem) :
    result (submissionView (extra :: rows) participation other) =
      result (submissionView rows participation other) := by
  rcases h.submissionView_cons_eq other with hsame | ⟨hmem, hcons⟩
  · rw [hsame]
  · rw [hcons, hresult _ hmem]

end Submission.Resubmits

/-- A loop that has stopped does not see what comes later. -/
theorem untilAccepted_append_singleton (counts : Submission → Bool)
    (hmem : accepted ∈ submissions) (haccepted : isAccepted accepted)
    (hcounts : counts accepted) :
    untilAccepted counts (submissions ++ [extra]) = untilAccepted counts submissions := by
  have hfound : (untilAccepted counts submissions).2.isSome := by
    rw [untilAccepted_isSome, List.any_eq_true]
    exact ⟨accepted, hmem, by rw [hcounts, haccepted, Bool.and_true]⟩
  rw [untilAccepted_append, if_pos hfound]

/-- Nor do the tries, once one of the submissions is accepted. -/
theorem any_take_append_singleton (hmem : accepted ∈ submissions)
    (haccepted : isAccepted accepted) (tries : ℕ) :
    ((submissions ++ [extra]).take tries).any isAccepted =
      (submissions.take tries).any isAccepted := by
  rcases Nat.lt_or_ge submissions.length tries with hlength | hlength
  · have hsolved : submissions.any isAccepted := List.any_eq_true.mpr ⟨accepted, hmem, haccepted⟩
    rw [List.take_of_length_le (by rw [List.length_append, List.length_singleton]; omega),
      List.take_of_length_le (by omega), List.any_append, hsolved, Bool.true_or]
  · rw [List.take_append_of_le_length hlength]

namespace IOIContestFormat

/-- Subtask scores that are no better leave the sum of the best. -/
theorem sum_foldl_tallyEntry (A : FloatArith) {subtasks : Dict String ℚ}
    (entries : List (String × ℚ))
    (hentries : ∀ entry ∈ entries, entry.2 ≤ subtaskBest subtasks entry.1)
    (hnonneg : ∀ subtask, 0 ≤ subtaskBest subtasks subtask) :
    A.sum (entries.foldl tallyEntry subtasks).values = A.sum subtasks.values := by
  induction entries generalizing subtasks with
  | nil => rfl
  | cons entry rest ih =>
      rw [List.forall_mem_cons] at hentries
      have hbest : ∀ subtask, subtaskBest (tallyEntry subtasks entry) subtask =
          subtaskBest subtasks subtask := by
        intro subtask
        rw [subtaskBest_tallyEntry]
        split_ifs with hsubtask
        · rw [hsubtask, max_eq_left hentries.1]
        · rfl
      rw [List.foldl_cons, ih (by simpa only [hbest] using hentries.2)
        (by simpa only [hbest] using hnonneg), tallyEntry, max_eq_left hentries.1]
      cases hget : subtasks.get? entry.1 with
      | some value =>
          rw [subtaskBest, hget, Option.getD_some, Dict.set_of_get?_eq_some hget]
      | none =>
          rw [subtaskBest, hget, Option.getD_none, Dict.values_set_of_get?_eq_none hget,
            A.sum_append_zero]

theorem points_append_singleton (hmem : accepted ∈ submissions) (hwithin : extra.Within accepted) :
    (getProblemResult A (submissions ++ [extra])).points =
      (getProblemResult A submissions).points := by
  rw [points_getProblemResult, points_getProblemResult]
  by_cases hextra : extra.subtaskScores.entries = []
  · rw [tally_append_singleton, tallySubmission, if_pos hextra]
    split_ifs with hnone
    · -- neither the submission nor those before it have subtask scores
      have haccepted := (entries_tally_eq_nil_iff submissions).mp hnone accepted hmem
      have hkept : accepted.points ≤ (tally submissions).2 := by
        by_contra hlt
        rw [not_le, tally_snd_lt_iff] at hlt
        exact lt_irrefl _ (hlt.2 accepted hmem haccepted)
      exact max_eq_left (hwithin.points.trans hkept)
    · rfl
  · have hbest : (tally submissions).1.entries ≠ [] := fun hnone =>
      hwithin.scored hextra ((entries_tally_eq_nil_iff submissions).mp hnone accepted hmem)
    have hafter : (tally (submissions ++ [extra])).1.entries ≠ [] := fun hnone =>
      hextra ((entries_tally_eq_nil_iff _).mp hnone extra (by simp))
    rw [if_neg hafter, if_neg hbest, tally_append_singleton, tallySubmission_fst]
    exact sum_foldl_tallyEntry A _ (fun entry hentry =>
      (hwithin.subtaskScores entry hentry).trans (subtaskBest_le_tally hmem entry.1))
      (subtaskBest_tally_nonneg submissions)

end IOIContestFormat

/-! ## The default format -/

namespace DefaultContestFormat

theorem points_append_singleton (hmem : accepted ∈ submissions)
    (hpoints : extra.points ≤ accepted.points) :
    (getProblemResult A participation (submissions ++ [extra])).points =
      (getProblemResult A participation submissions).points := by
  have hkept : accepted.points ≤ (getProblemResult A participation submissions).points := by
    by_contra hlt
    rw [not_le] at hlt
    exact lt_irrefl _ (((foldl_max_lt_iff Submission.points 0 _ submissions).mp hlt).2 accepted hmem)
  have hstep : (getProblemResult A participation (submissions ++ [extra])).points =
      max (getProblemResult A participation submissions).points extra.points :=
    List.foldl_append
  rw [hstep, max_eq_left (hpoints.trans hkept)]

theorem acSeconds_lt_iff (submissions : List Submission) (bound : ℚ) :
    (getProblemResult A participation submissions).acSeconds < bound ↔
      0 < bound ∧ ∀ submission ∈ submissions, isAccepted submission →
        submissionTimeSeconds A participation submission < bound := by
  refine (foldl_max_lt_iff _ 0 bound _).trans (and_congr_right fun _ => ?_)
  simp only [List.mem_filter, and_imp]

/-- The tiebreaker is the time of the last accepted submission of all. -/
theorem lastAcSeconds_lt_iff (rows : List Submission) (bound : ℚ) :
    participation.contest.problems.foldl (fun latest contestProblem => max latest
        (getProblemResult A participation
          (submissionView rows participation contestProblem)).acSeconds) 0 < bound ↔
      0 < bound ∧ ∀ contestProblem ∈ participation.contest.problems,
        ∀ submission ∈ submissionView rows participation contestProblem, isAccepted submission →
          submissionTimeSeconds A participation submission < bound := by
  rw [foldl_max_lt_iff]
  refine and_congr_right fun hbound => forall₂_congr fun contestProblem _ => ?_
  rw [acSeconds_lt_iff, and_iff_right hbound]

end DefaultContestFormat

theorem standing_default_resubmission_iff
    (h : extra.Resubmits accepted rows participation contestProblem)
    (hformat : participation.contest.format = some .default) :
    standing A participation (extra :: rows) = standing A participation rows ↔
      ¬ extra.IsLastAccepted A rows participation := by
  have hpoints := h.result_eq
    (fun submissions => (DefaultContestFormat.getProblemResult A participation submissions).points)
    fun submissions hmem => DefaultContestFormat.points_append_singleton hmem h.within.points
  rw [standing_default hformat, standing_default hformat]
  simp only [hpoints]
  rw [Option.some_inj, Prod.mk.injEq, and_iff_right rfl]
  set last := participation.contest.problems.foldl (fun latest contestProblem => max latest
    (DefaultContestFormat.getProblemResult A participation
      (submissionView rows participation contestProblem)).acSeconds) 0 with hlast
  set last' := participation.contest.problems.foldl (fun latest contestProblem => max latest
    (DefaultContestFormat.getProblemResult A participation
      (submissionView (extra :: rows) participation contestProblem)).acSeconds) 0 with hlast'
  -- the tiebreaker now also counts the submission
  have hboth : ∀ bound, last' < bound ↔ last < bound ∧
      (isAccepted extra → submissionTimeSeconds A participation extra < bound) := by
    intro bound
    rw [hlast, hlast', DefaultContestFormat.lastAcSeconds_lt_iff,
      DefaultContestFormat.lastAcSeconds_lt_iff, and_assoc]
    simp only [mem_submissionView, List.mem_cons]
    refine and_congr_right fun _ => ⟨fun hall => ⟨fun other hother submission hmem =>
      hall other hother submission ⟨.inr hmem.1, hmem.2⟩,
      hall contestProblem h.mem_problems extra ⟨.inl rfl, h.belongs⟩⟩, ?_⟩
    rintro ⟨hall, hextra⟩ other hother submission ⟨rfl | hmem, hbelongs⟩
    · exact hextra
    · exact hall other hother submission ⟨hmem, hbelongs⟩
  have hovertakes : extra.IsLastAccepted A rows participation ↔
      isAccepted extra ∧ last < submissionTimeSeconds A participation extra := by
    rw [hlast, DefaultContestFormat.lastAcSeconds_lt_iff]
    rfl
  rw [hovertakes, not_and]
  constructor
  · intro hsame haccepted hlt
    exact lt_irrefl _ (((hboth _).mp (hsame.trans_lt hlt)).2 haccepted)
  · intro hnot
    refine eq_of_forall_gt_iff fun bound => ?_
    rw [hboth]
    exact and_iff_left_of_imp fun hlt haccepted => (not_lt.mp (hnot haccepted)).trans_lt hlt

/-- Submitting a solved problem again, no better, leaves the score and the tiebreaker, except
in the default format, where a submission that is accepted and the last one moves the
tiebreaker. -/
theorem standing_resubmission_iff
    (h : extra.Resubmits accepted rows participation contestProblem) :
    standing A participation (extra :: rows) = standing A participation rows ↔
      participation.contest.format = some .default →
        ¬ extra.IsLastAccepted A rows participation := by
  cases hformat : participation.contest.format with
  | none => simp [standing, calculateParticipation, hformat]
  | some format =>
      cases format with
      | default => simpa using standing_default_resubmission_iff h hformat
      | ioi =>
          refine iff_of_true ?_ (by simp)
          have hpoints := h.result_eq
            (fun submissions => (IOIContestFormat.getProblemResult A submissions).points)
            fun submissions hmem => IOIContestFormat.points_append_singleton hmem h.within
          rw [standing_ioi hformat, standing_ioi hformat]
          simp only [hpoints]
      | icpc config =>
          refine iff_of_true ?_ (by simp)
          cases config with
          | none => simp [standing, calculateParticipation, hformat]
          | some wrongPenaltyMinutes =>
              have hresult := h.result_eq
                (ICPCContestFormat.getProblemResult A wrongPenaltyMinutes participation)
                fun submissions hmem => by
                  have haccepted := h.solved
                  rw [isAccepted, decide_eq_true_eq] at haccepted
                  simp only [ICPCContestFormat.getProblemResult,
                    untilAccepted_append_singleton (fun submission =>
                        !decide (submission.result = some .CE ∨ submission.result = some .IE))
                      hmem h.solved (by simp [haccepted])]
              rw [standing_icpc hformat, standing_icpc hformat]
              simp only [hresult]
      | atcoder config =>
          refine iff_of_true ?_ (by simp)
          cases config with
          | none => simp [standing, calculateParticipation, hformat]
          | some penaltyMinutes =>
              have hresult := fun contestProblem : ContestProblem => h.result_eq
                (AtCoderContestFormat.getProblemResult A participation contestProblem)
                fun submissions hmem => by
                  simp only [AtCoderContestFormat.getProblemResult,
                    untilAccepted_append_singleton (fun _ => true) hmem h.solved rfl]
              rw [standing_atcoder hformat, standing_atcoder hformat]
              simp only [hresult]
      | ecoo config =>
          refine iff_of_true ?_ (by simp)
          cases config with
          | none => exact standing_ecoo_none hformat _ _
          | some tries =>
              have hsolved := h.result_eq
                (fun submissions => (submissions.take tries).any isAccepted)
                fun submissions hmem => any_take_append_singleton hmem h.solved tries
              rw [standing_ecoo hformat, standing_ecoo hformat]
              simp only [hsolved]

/-- One problem, scored by the best points. -/
def bestContest : Contest where
  format := some .default
  startTime := 0
  problems := [{ problem := 1, label := "B", points := 100 }]

def bestParticipation : ContestParticipation where
  id := 1
  user := 1
  contest := bestContest

/-- A submission with full points, so many minutes after the start. -/
def solvedAt (id : ℕ) (minute : ℤ) (result : SubmissionResult) : Submission where
  id
  user := 1
  problem := 1
  language := "cpp"
  points := if result = .AC then 100 else 0
  result := some result
  status := .completed
  subtaskScores := Dict.ofList [("default", if result = .AC then 100 else 0)]
  contestParticipation := some 1
  createdAt := minute * (60 * second)

theorem resubmits_solvedAt (result : SubmissionResult) :
    (solvedAt 2 20 result).Resubmits (solvedAt 1 10 .AC) [solvedAt 1 10 .AC] bestParticipation
      { problem := 1, label := "B", points := 100 } where
  mem_problems := List.mem_singleton_self _
  mem_view := mem_submissionView.mpr ⟨List.mem_singleton_self _, rfl⟩
  solved := rfl
  belongs := rfl
  later := by
    intro submission hmem
    rw [List.mem_singleton.mp (mem_submissionView.mp hmem).1]
    cases result <;> decide
  within := by
    cases result <;> exact ⟨by decide +kernel, by decide +kernel, fun _ => by decide +kernel⟩

theorem standing_resubmission_iff_wrong :
    standing .binary64 bestParticipation [solvedAt 2 20 .WA, solvedAt 1 10 .AC] =
        standing .binary64 bestParticipation [solvedAt 1 10 .AC] ↔
      bestParticipation.contest.format = some .default →
        ¬ (solvedAt 2 20 .WA).IsLastAccepted .binary64 [solvedAt 1 10 .AC] bestParticipation :=
  standing_resubmission_iff (resubmits_solvedAt .WA)

/-- Accepted once more, ten minutes later. -/
theorem standing_acceptedAgain :
    (solvedAt 2 20 .AC).Resubmits (solvedAt 1 10 .AC) [solvedAt 1 10 .AC] bestParticipation
        { problem := 1, label := "B", points := 100 } ∧
      (solvedAt 1 10 .AC).Within (solvedAt 1 10 .AC) ∧
        standing .binary64 bestParticipation [solvedAt 1 10 .AC] = some (100, 600) ∧
          standing .binary64 bestParticipation [solvedAt 2 20 .AC, solvedAt 1 10 .AC] =
            some (100, 1200) :=
  ⟨resubmits_solvedAt .AC, ⟨le_rfl, by decide +kernel, fun h => h⟩, by decide +kernel,
    by decide +kernel⟩

end JudgeLoom
