import JudgeLoom.Contests.Formats
import Mathlib.Data.List.TakeWhile
import Mathlib.Data.Prod.Lex

/-!
# One more submission in a contest

A format reads the submissions of a contest problem in the order of their creation.  One
more submission is inserted there, between those before it and those after it
(`submissionView_cons`), and the loops of the formats see it at that place only:
`untilAccepted_insert` for the two that stop at the first accepted submission,
`any_take_insert` for the one that takes a number of tries.
-/

namespace JudgeLoom

open ContestFormat

/-- The score and the tiebreaker that `calculate_participation` computes. -/
def standing (A : FloatArith) (participation : ContestParticipation) (rows : List Submission) :
    Option (ℚ × ℚ) :=
  (calculateParticipation A participation (submissionView rows participation)).map fun scores =>
    (scores.score, scores.tiebreaker)

/-- The submission is one of the participation to the contest problem. -/
def Submission.belongsTo (submission : Submission) (participation : ContestParticipation)
    (contestProblem : ContestProblem) : Bool :=
  decide (submission.contestParticipation = some participation.id) &&
    decide (submission.user = participation.user) &&
      decide (submission.problem = contestProblem.problem)

section View

variable {rows : List Submission} {participation : ContestParticipation}
  {contestProblem : ContestProblem} {extra submission : Submission}

theorem before_iff (first second : Submission) :
    before first second ↔
      toLex (first.createdAt, first.id) ≤ toLex (second.createdAt, second.id) := by
  rw [Prod.Lex.toLex_le_toLex]
  rfl

theorem before_total (first second : Submission) : before first second ∨ before second first := by
  simp only [before_iff]
  exact le_total _ _

theorem before_trans {first second third : Submission} (h : before first second)
    (h' : before second third) : before first third := by
  rw [before_iff] at *
  exact h.trans h'

instance : Std.Total before := ⟨before_total⟩

instance : IsTrans Submission before := ⟨fun _ _ _ => before_trans⟩

theorem submissionView_eq (rows : List Submission) (participation : ContestParticipation)
    (contestProblem : ContestProblem) :
    submissionView rows participation contestProblem =
      (rows.filter fun submission =>
        submission.belongsTo participation contestProblem).insertionSort before := by
  unfold submissionView submissionQueryset
  dsimp only
  congr 1
  refine List.filter_congr fun submission _ => ?_
  simp [Submission.belongsTo, Bool.and_assoc]

theorem mem_submissionView : submission ∈ submissionView rows participation contestProblem ↔
    submission ∈ rows ∧ submission.belongsTo participation contestProblem := by
  rw [submissionView_eq, List.mem_insertionSort, List.mem_filter]

theorem pairwise_submissionView (rows : List Submission) (participation : ContestParticipation)
    (contestProblem : ContestProblem) :
    (submissionView rows participation contestProblem).Pairwise before := by
  rw [submissionView_eq]
  exact List.pairwise_insertionSort before _

theorem submissionView_cons_of_not (h : extra.belongsTo participation contestProblem = false) :
    submissionView (extra :: rows) participation contestProblem =
      submissionView rows participation contestProblem := by
  rw [submissionView_eq, submissionView_eq, List.filter_cons_of_neg (by rw [h]; decide)]

/-- A submission stands after those that were created before it. -/
theorem submissionView_cons (rows : List Submission)
    (h : extra.belongsTo participation contestProblem) :
    ∃ earlier later, submissionView rows participation contestProblem = earlier ++ later ∧
      submissionView (extra :: rows) participation contestProblem = earlier ++ extra :: later ∧
        (∀ submission ∈ earlier, ¬ before extra submission) ∧
          ∀ submission ∈ later, before extra submission := by
  have hinsert : submissionView (extra :: rows) participation contestProblem =
      (submissionView rows participation contestProblem).orderedInsert before extra := by
    rw [submissionView_eq, submissionView_eq, List.filter_cons, if_pos h]
    rfl
  refine ⟨_, _, (List.takeWhile_append_dropWhile (p := fun submission =>
    !decide (before extra submission))).symm, ?_, fun submission hmem => ?_, ?_⟩
  · rw [hinsert, List.orderedInsert_eq_take_drop]
    simp
  · simpa using List.mem_takeWhile_imp hmem
  · -- the list is sorted, so nothing is created earlier after the first one that is not
    have hsorted := pairwise_submissionView rows participation contestProblem
    have hdrop := hsorted.sublist (List.dropWhile_sublist fun submission =>
      !decide (before extra submission))
    intro submission hmem
    cases hlater : (submissionView rows participation contestProblem).dropWhile fun submission =>
        !decide (before extra submission) with
    | nil =>
        rw [hlater] at hmem
        exact absurd hmem List.not_mem_nil
    | cons first rest =>
        have hfirst : before extra first := by
          have hhead := List.head_dropWhile_not (fun submission =>
            !decide (before extra submission)) (w := by rw [hlater]; exact List.cons_ne_nil first rest)
          simpa [hlater] using hhead
        rw [hlater] at hmem hdrop
        rcases List.mem_cons.mp hmem with rfl | hrest
        · exact hfirst
        · exact before_trans hfirst ((List.pairwise_cons.mp hdrop).1 submission hrest)

/-- A submission that comes after all others stands last. -/
theorem submissionView_cons_of_later
    (hlater : ∀ submission ∈ submissionView rows participation contestProblem,
      ¬ before extra submission) :
    submissionView (extra :: rows) participation contestProblem =
      submissionView rows participation contestProblem ++
        if extra.belongsTo participation contestProblem then [extra] else [] := by
  split_ifs with hbelongs
  · obtain ⟨earlier, later, hview, hcons, -, hbefore⟩ := submissionView_cons rows hbelongs
    have hnone : later = [] := by
      refine List.eq_nil_iff_forall_not_mem.mpr fun submission hmem => ?_
      refine hlater submission ?_ (hbefore submission hmem)
      rw [hview]
      exact List.mem_append_right earlier hmem
    rw [hcons, hview, hnone, List.append_nil]
  · rw [Bool.not_eq_true] at hbelongs
    rw [submissionView_cons_of_not hbelongs, List.append_nil]

/-- A submission that a loop passes over leaves what the loop computes. -/
theorem foldl_submissionView_cons {α : Type*} {step : α → Submission → α} {initial : α}
    (Reached : α → Prop) (hinitial : Reached initial)
    (hstep : ∀ value submission, Reached value → Reached (step value submission))
    (hextra : ∀ value, Reached value → step value extra = value) :
    (submissionView (extra :: rows) participation contestProblem).foldl step initial =
      (submissionView rows participation contestProblem).foldl step initial := by
  by_cases hbelongs : extra.belongsTo participation contestProblem = true
  · obtain ⟨earlier, later, hview, hcons, -, -⟩ := submissionView_cons rows hbelongs
    have hreached : Reached (earlier.foldl step initial) :=
      List.foldlRecOn earlier step hinitial fun value hvalue submission _ =>
        hstep value submission hvalue
    rw [hview, hcons, List.foldl_append, List.foldl_append, List.foldl_cons, hextra _ hreached]
  · rw [Bool.not_eq_true] at hbelongs
    rw [submissionView_cons_of_not hbelongs]

end View

/-! ## The loops -/

section Loops

variable {counts : Submission → Bool} {earlier later : List Submission} {extra : Submission}

theorem untilAccepted_append (counts : Submission → Bool) (earlier later : List Submission) :
    untilAccepted counts (earlier ++ later) =
      if (untilAccepted counts earlier).2.isSome then untilAccepted counts earlier
      else ((untilAccepted counts earlier).1 + (untilAccepted counts later).1,
        (untilAccepted counts later).2) := by
  induction earlier with
  | nil => simp [untilAccepted]
  | cons submission rest ih =>
      rw [List.cons_append, untilAccepted, untilAccepted]
      cases hcounts : counts submission with
      | false => simpa using ih
      | true =>
          cases haccepted : isAccepted submission with
          | true => simp
          | false =>
              rw [ih]
              by_cases hfound : (untilAccepted counts rest).2.isSome
              · simp [hfound]
              · simp [hfound, Nat.add_right_comm]

/-- The loop finds an accepted submission exactly if one of those that count is. -/
theorem untilAccepted_isSome (counts : Submission → Bool) (submissions : List Submission) :
    (untilAccepted counts submissions).2.isSome =
      submissions.any fun submission => counts submission && isAccepted submission := by
  induction submissions with
  | nil => rfl
  | cons submission rest ih =>
      rw [untilAccepted, List.any_cons]
      cases hcounts : counts submission <;> cases haccepted : isAccepted submission <;> simp [ih]

/-- A submission that is not accepted is one more attempt if it counts and comes before
the accepted one. -/
theorem untilAccepted_insert (hextra : isAccepted extra = false) :
    untilAccepted counts (earlier ++ extra :: later) =
      ((untilAccepted counts (earlier ++ later)).1 +
        (if counts extra ∧ (untilAccepted counts earlier).2 = none then 1 else 0),
        (untilAccepted counts (earlier ++ later)).2) := by
  rw [untilAccepted_append, untilAccepted_append, untilAccepted]
  cases hfound : (untilAccepted counts earlier).2 with
  | some submission => simp
  | none => by_cases hcounts : counts extra = true <;> simp [hcounts, hextra, Nat.add_assoc]

/-- A submission that is not accepted takes the place of the last try, if it comes before
it. -/
theorem any_take_insert {tries : ℕ} (hextra : isAccepted extra = false) :
    ((earlier ++ extra :: later).take (tries + 1)).any isAccepted =
      ((earlier ++ later).take (if earlier.length ≤ tries then tries else tries + 1)).any
        isAccepted := by
  split_ifs with hlength
  · have hdrop : tries + 1 - earlier.length = tries - earlier.length + 1 := by omega
    have hall : earlier.take (tries + 1) = earlier.take tries := by
      rw [List.take_of_length_le hlength, List.take_of_length_le (by omega)]
    rw [List.take_append, List.take_append, hall, hdrop, List.take_succ_cons, List.any_append,
      List.any_append, List.any_cons, hextra, Bool.false_or]
  · rw [List.take_append_of_le_length (by omega), List.take_append_of_le_length (by omega)]

end Loops

/-! ## The standing in each format -/

/-- The standing from a penalty, which has to fit into a `timedelta` and a float. -/
def penaltyStanding (A : FloatArith) (score : ℚ) (penaltyMinutes : ℤ) : Option (ℚ × ℚ) := do
  let tiebreaker ← floatOfInt A penaltyMinutes
  let _ ← timedeltaMinutes penaltyMinutes
  return (score, tiebreaker)

/-- A penalty that fits is a float and can be read off the standing. -/
theorem penaltyStanding_eq_iff {A : FloatArith} (hA : A.ExactIntegers) {score : ℚ}
    {penaltyMinutes penaltyMinutes' : ℤ} (h : (penaltyStanding A score penaltyMinutes).isSome) :
    penaltyStanding A score penaltyMinutes' = penaltyStanding A score penaltyMinutes ↔
      penaltyMinutes' = penaltyMinutes := by
  -- a `timedelta` of minutes holds less than 53 bits
  have hread : ∀ {minutes : ℤ} {place : ℚ × ℚ}, penaltyStanding A score minutes = some place →
      place = (score, (minutes : ℚ)) := by
    intro minutes place hplace
    simp only [penaltyStanding, floatOfInt, timedeltaMinutes, second, Option.bind_eq_bind,
      Option.bind_eq_some_iff, Option.ite_none_left_eq_some, Option.ite_none_right_eq_some,
      Option.pure_def, Option.some.injEq] at hplace
    obtain ⟨_, ⟨-, rfl⟩, _, ⟨⟨hlow, hhigh⟩, -⟩, rfl⟩ := hplace
    have hlow : (-999999999 * (86400 * 1000000) : ℤ) ≤ minutes * (60 * 1000000) := hlow
    have hhigh : minutes * (60 * 1000000) < (1000000000 * (86400 * 1000000) : ℤ) := hhigh
    rw [hA minutes (abs_le.mpr (by omega))]
  refine ⟨fun heq => ?_, fun heq => by rw [heq]⟩
  obtain ⟨place, hplace⟩ := Option.isSome_iff_exists.mp h
  have hboth := (hread (heq.trans hplace)).symm.trans (hread hplace)
  exact_mod_cast (Prod.mk.inj hboth).2

theorem fst_penaltyStanding {A : FloatArith} {score : ℚ} {penaltyMinutes : ℤ} {place : ℚ × ℚ}
    (h : penaltyStanding A score penaltyMinutes = some place) : place.1 = score := by
  simp only [penaltyStanding, Option.bind_eq_bind, Option.bind_eq_some_iff, Option.pure_def,
    Option.some.injEq] at h
  obtain ⟨_, -, _, -, rfl⟩ := h
  rfl

section Formats

variable {A : FloatArith} {participation : ContestParticipation} {rows : List Submission}

theorem standing_default (hformat : participation.contest.format = some .default) :
    let result := fun contestProblem => DefaultContestFormat.getProblemResult A participation
      (submissionView rows participation contestProblem)
    standing A participation rows =
      some (A.accumulate (participation.contest.problems.map fun contestProblem =>
          (result contestProblem).points),
        participation.contest.problems.foldl
          (fun latest contestProblem => max latest (result contestProblem).acSeconds) 0) := by
  simp [standing, calculateParticipation, hformat, DefaultContestFormat.calculateParticipation,
    List.map_map, List.foldl_map, Function.comp_def]

theorem standing_icpc {wrongPenaltyMinutes : ℤ}
    (hformat : participation.contest.format = some (.icpc (some wrongPenaltyMinutes))) :
    let result := fun contestProblem => ICPCContestFormat.getProblemResult A wrongPenaltyMinutes
      participation (submissionView rows participation contestProblem)
    standing A participation rows =
      penaltyStanding A
        (A.fl (participation.contest.problems.countP fun contestProblem =>
          (result contestProblem).solved : ℕ))
        (participation.contest.problems.map fun contestProblem =>
          (result contestProblem).penaltyMinutes).sum := by
  intro result
  simp [standing, calculateParticipation, hformat, ICPCContestFormat.calculateParticipation,
    penaltyStanding, List.map_map, Function.comp_def, List.filter_map, List.countP_eq_length_filter,
    Option.map_bind, result]

theorem standing_ioi (hformat : participation.contest.format = some .ioi) :
    standing A participation rows =
      some (A.accumulate (participation.contest.problems.map fun contestProblem =>
        (IOIContestFormat.getProblemResult A
          (submissionView rows participation contestProblem)).points), 0) := by
  simp [standing, calculateParticipation, hformat, IOIContestFormat.calculateParticipation,
    List.map_map, Function.comp_def]

theorem standing_atcoder {penaltyMinutes : ℕ}
    (hformat : participation.contest.format = some (.atcoder (some penaltyMinutes))) :
    let result := fun contestProblem => AtCoderContestFormat.getProblemResult A participation
      contestProblem (submissionView rows participation contestProblem)
    let solved := participation.contest.problems.filter fun contestProblem =>
      (result contestProblem).solved
    standing A participation rows =
      penaltyStanding A (A.accumulate (solved.map ContestProblem.points))
        (solved.foldl (fun latest contestProblem =>
            max latest (result contestProblem).acMinutes) 0 +
          ((solved.map fun contestProblem => (result contestProblem).wrongAttempts).sum *
            penaltyMinutes : ℕ)) := by
  intro result solved
  simp [standing, calculateParticipation, hformat, AtCoderContestFormat.calculateParticipation,
    penaltyStanding, List.map_map, List.foldl_map, Function.comp_def, List.filter_map,
    Option.map_bind, result, solved]

theorem standing_ecoo {tries : ℕ+}
    (hformat : participation.contest.format = some (.ecoo (some tries))) :
    standing A participation rows =
      some (A.fl (participation.contest.problems.countP fun contestProblem =>
        ((submissionView rows participation contestProblem).take tries).any isAccepted : ℕ), 0) := by
  unfold standing calculateParticipation
  rw [hformat]
  dsimp only [ECOOContestFormat.calculateParticipation]
  cases participation.contest.problems with
  | nil => simp [A.fl_zero]
  | cons first rest =>
      dsimp only [Option.map_some]
      rw [List.countP_eq_length_filter, List.filter_map, List.length_map]
      rfl

/-- Without a valid configuration the format fails, or has no problem to look at. -/
theorem standing_ecoo_none (hformat : participation.contest.format = some (.ecoo none))
    (rows rows' : List Submission) :
    standing A participation rows = standing A participation rows' := by
  unfold standing calculateParticipation
  rw [hformat]
  dsimp only [ECOOContestFormat.calculateParticipation]
  cases participation.contest.problems <;> rfl

end Formats

end JudgeLoom
