import JudgeLoom.Contests.Standing

/-!
# Submissions without a score

A submission that is still to be judged, or whose job failed, has no points.  The
formats that look for the best points do not see it.  The formats that count do:
ICPC skips `CE` and `IE` but counts a submission that has no verdict yet, AtCoder counts
both, and for both of ECOO a try is used up.  `standing_cons_iff` says exactly when the
standing of a participation changes.
-/

namespace JudgeLoom

open ContestFormat

/-- No verdict yet. -/
def Submission.Pending (submission : Submission) : Prop :=
  submission.result = none ∧
    (submission.status = .queued ∨ submission.status = .compiling ∨ submission.status = .judging)

/-- The end of a job that failed or whose lease expired. -/
def Submission.Failed (submission : Submission) : Prop :=
  submission.status = .error ∧ (submission.result = some .CE ∨ submission.result = some .IE)

instance (submission : Submission) : Decidable submission.Failed :=
  inferInstanceAs (Decidable (_ ∧ _))

/-- A submission that was not scored, as the services leave it. -/
structure Submission.Unscored (submission : Submission) : Prop where
  verdict : submission.Pending ∨ submission.Failed
  points : submission.points = 0
  subtaskScores : submission.subtaskScores = ∅

/-- The problem is solved, and the submission was created before it was. -/
def Submission.Delays (extra : Submission) (rows : List Submission)
    (participation : ContestParticipation) (contestProblem : ContestProblem) : Prop :=
  extra.belongsTo participation contestProblem ∧
    (∃ submission ∈ submissionView rows participation contestProblem, isAccepted submission) ∧
      ∀ submission ∈ submissionView rows participation contestProblem,
        isAccepted submission → before extra submission

/-- The problem is solved with the last try, and the submission was created before that. -/
def Submission.Displaces (extra : Submission) (tries : ℕ+) (rows : List Submission)
    (participation : ContestParticipation) (contestProblem : ContestProblem) : Prop :=
  extra.belongsTo participation contestProblem ∧
    (∃ last ∈ (submissionView rows participation contestProblem)[(tries : ℕ) - 1]?,
      isAccepted last ∧ before extra last) ∧
      ∀ submission ∈ (submissionView rows participation contestProblem).take ((tries : ℕ) - 1),
        isAccepted submission = false

section

variable (extra : Submission) (rows : List Submission) (participation : ContestParticipation)
  (contestProblem : ContestProblem)

instance : Decidable (extra.Delays rows participation contestProblem) :=
  inferInstanceAs (Decidable (_ ∧ _ ∧ _))

instance (tries : ℕ+) : Decidable (extra.Displaces tries rows participation contestProblem) :=
  inferInstanceAs (Decidable (_ ∧ (∃ last, last ∈ _ ∧ _) ∧ _))

end

/-- The format does not see the submission, or not where it would count. -/
def Submission.Harmless (extra : Submission) (rows : List Submission)
    (participation : ContestParticipation) : Prop :=
  match participation.contest.format with
  | some (.icpc (some wrongPenaltyMinutes)) =>
      wrongPenaltyMinutes = 0 ∨ extra.Failed ∨
        ∀ contestProblem ∈ participation.contest.problems,
          ¬ extra.Delays rows participation contestProblem
  | some (.atcoder (some penaltyMinutes)) =>
      penaltyMinutes = 0 ∨ ∀ contestProblem ∈ participation.contest.problems,
        ¬ extra.Delays rows participation contestProblem
  | some (.ecoo (some tries)) =>
      ∀ contestProblem ∈ participation.contest.problems,
        ¬ extra.Displaces tries rows participation contestProblem
  | _ => True

variable {A : FloatArith} {participation : ContestParticipation} {rows : List Submission}
  {contestProblem : ContestProblem} {extra : Submission}

namespace Submission.Unscored

theorem not_accepted (h : extra.Unscored) : isAccepted extra = false := by
  rcases h.verdict with ⟨hresult, -⟩ | ⟨-, hresult | hresult⟩ <;>
    simp [isAccepted, hresult]

/-- ICPC counts a submission without a score if it has no verdict. -/
theorem failed_iff (h : extra.Unscored) :
    extra.Failed ↔ extra.result = some .CE ∨ extra.result = some .IE := by
  refine ⟨fun hfailed => hfailed.2, fun hresult => ?_⟩
  rcases h.verdict with ⟨hnone, -⟩ | hfailed
  · simp [hnone] at hresult
  · exact hfailed

/-- What the loops see of the submission: one more attempt, if it counts and delays. -/
theorem untilAccepted_cons (h : extra.Unscored) (rows : List Submission)
    (participation : ContestParticipation) (contestProblem : ContestProblem)
    (counts : Submission → Bool) (hcounts : ∀ submission, isAccepted submission → counts submission) :
    let before := untilAccepted counts (submissionView rows participation contestProblem)
    let after := untilAccepted counts (submissionView (extra :: rows) participation contestProblem)
    after.2 = before.2 ∧ (extra.Delays rows participation contestProblem → before.2.isSome) ∧
      (before.2.isSome → after.1 = before.1 +
        if counts extra ∧ extra.Delays rows participation contestProblem then 1 else 0) := by
  intro before after
  have hfound : ∀ submissions : List Submission, (untilAccepted counts submissions).2.isSome =
      submissions.any isAccepted := by
    intro submissions
    rw [untilAccepted_isSome]
    refine congrArg submissions.any (funext fun submission => ?_)
    by_cases haccepted : isAccepted submission = true
    · rw [haccepted, hcounts submission haccepted, Bool.true_and]
    · rw [Bool.not_eq_true] at haccepted
      rw [haccepted, Bool.and_false]
  by_cases hbelongs : extra.belongsTo participation contestProblem = true
  · obtain ⟨earlier, later, hview, hcons, hearlier, hlater⟩ :=
      submissionView_cons rows hbelongs
    have hinsert : after = (before.1 +
        (if counts extra ∧ (untilAccepted counts earlier).2 = none then 1 else 0), before.2) := by
      simp only [after, before, hview, hcons]
      exact untilAccepted_insert h.not_accepted
    refine ⟨by rw [hinsert], fun hdelays => ?_, fun hsome => ?_⟩
    · simp only [before, hfound, List.any_eq_true]
      exact hdelays.2.1
    -- nothing before it is accepted exactly if everything accepted comes after it
    have hdelays : (untilAccepted counts earlier).2 = none ↔
        extra.Delays rows participation contestProblem := by
      have hsolved : ∃ submission ∈ submissionView rows participation contestProblem,
          isAccepted submission := by
        simpa [before, hfound] using hsome
      rw [← Option.isNone_iff_eq_none, ← Option.not_isSome, Bool.not_eq_true', hfound,
        List.any_eq_false]
      refine ⟨fun hnone => ⟨hbelongs, hsolved, fun submission hmem haccepted => ?_⟩, ?_⟩
      · rw [hview, List.mem_append] at hmem
        exact hlater submission
          (hmem.resolve_left fun hmem => hnone submission hmem haccepted)
      · intro hdelays submission hmem haccepted
        refine hearlier submission hmem (hdelays.2.2 submission ?_ haccepted)
        rw [hview]
        exact List.mem_append_left later hmem
    rw [hinsert, if_congr (and_congr_right fun _ => hdelays) rfl rfl]
  · rw [Bool.not_eq_true] at hbelongs
    have hsame : after = before := by
      simp only [after, before, submissionView_cons_of_not hbelongs]
    have hnot : ¬ extra.Delays rows participation contestProblem :=
      fun hdelays => Bool.false_ne_true (hbelongs.symm.trans hdelays.1)
    refine ⟨by rw [hsame], fun hdelays => absurd hdelays hnot, fun _ => ?_⟩
    rw [hsame, if_neg fun hboth => hnot hboth.2, Nat.add_zero]

/-- The tries hold a solution unless the submission displaces it. -/
theorem any_take (h : extra.Unscored) (tries : ℕ+) :
    ((submissionView (extra :: rows) participation contestProblem).take tries).any isAccepted =
      (((submissionView rows participation contestProblem).take tries).any isAccepted &&
        !decide (extra.Displaces tries rows participation contestProblem)) := by
  by_cases hbelongs : extra.belongsTo participation contestProblem = true
  · obtain ⟨earlier, later, hview, hcons, hearlier, hlater⟩ :=
      submissionView_cons rows hbelongs
    obtain ⟨last, hlast⟩ := Nat.exists_eq_add_one.mpr tries.pos
    have hdisplaces : extra.Displaces tries rows participation contestProblem ↔
        (∃ submission ∈ (earlier ++ later)[last]?, isAccepted submission ∧
          before extra submission) ∧
          ((earlier ++ later).take last).any isAccepted = false := by
      simp [Submission.Displaces, hbelongs, hview, hlast]
    rw [hcons, hview, hlast, any_take_insert h.not_accepted]
    by_cases hplace : earlier.length ≤ last
    · -- what is tried last is created after the submission
      have hlast_later : ∀ submission ∈ (earlier ++ later)[last]?, before extra submission := by
        intro submission hget
        rw [List.getElem?_append_right hplace] at hget
        exact hlater submission (List.mem_of_getElem? hget)
      rw [if_pos hplace, List.take_add_one, List.any_append]
      cases hbefore : ((earlier ++ later).take last).any isAccepted with
      | true =>
          have hnot : ¬ extra.Displaces tries rows participation contestProblem := by
            rw [hdisplaces, hbefore]
            exact fun hdisplaces => Bool.false_ne_true hdisplaces.2.symm
          rw [decide_eq_false hnot]
          rfl
      | false =>
          have hlastTry : extra.Displaces tries rows participation contestProblem ↔
              (earlier ++ later)[last]?.toList.any isAccepted := by
            rw [hdisplaces, and_iff_left hbefore, List.any_eq_true]
            simp only [Option.mem_toList]
            exact exists_congr fun submission => and_congr_right fun hget =>
              and_iff_left (hlast_later submission hget)
          simp [hlastTry]
    · have hnot : ¬ extra.Displaces tries rows participation contestProblem := by
        rw [hdisplaces]
        rintro ⟨⟨submission, hget, -, hbefore⟩, -⟩
        rw [List.getElem?_append_left (by omega)] at hget
        exact hearlier submission (List.mem_of_getElem? hget) hbefore
      rw [if_neg hplace, decide_eq_false hnot, Bool.not_false, Bool.and_true]
  · rw [Bool.not_eq_true] at hbelongs
    have hnot : ¬ extra.Displaces tries rows participation contestProblem :=
      fun hdisplaces => Bool.false_ne_true (hbelongs.symm.trans hdisplaces.1)
    rw [submissionView_cons_of_not hbelongs, decide_eq_false hnot, Bool.not_false, Bool.and_true]

end Submission.Unscored

section Formats

/-- The attempts of an accepted submission, one more for each problem it delays. -/
theorem sum_map_add_ite {α : Type*} [CommSemiring α] (value : ContestProblem → α) (extra : α)
    (Delayed : ContestProblem → Prop) [DecidablePred Delayed] (problems : List ContestProblem) :
    (problems.map fun contestProblem =>
        value contestProblem + if Delayed contestProblem then extra else 0).sum =
      (problems.map value).sum + problems.countP (fun contestProblem =>
        decide (Delayed contestProblem)) * extra := by
  induction problems with
  | nil => simp
  | cons contestProblem rest ih =>
      rw [List.map_cons, List.sum_cons, ih, List.map_cons, List.sum_cons, List.countP_cons]
      by_cases hdelayed : Delayed contestProblem
      · simp only [hdelayed, if_true, decide_true, Nat.cast_add, Nat.cast_one]
        ring
      · simp only [hdelayed, if_false, decide_false, Bool.false_eq_true, add_zero]
        ring

theorem standing_default_cons (hextra : extra.Unscored)
    (hformat : participation.contest.format = some .default) :
    standing A participation (extra :: rows) = standing A participation rows := by
  have hpoints : ∀ contestProblem, (DefaultContestFormat.getProblemResult A participation
      (submissionView (extra :: rows) participation contestProblem)).points =
        (DefaultContestFormat.getProblemResult A participation
          (submissionView rows participation contestProblem)).points := by
    intro contestProblem
    refine foldl_submissionView_cons (fun best => 0 ≤ best) le_rfl
      (fun best submission hbest => le_max_of_le_left hbest) fun best hbest => ?_
    rw [hextra.points, max_eq_left hbest]
  have hseconds : ∀ contestProblem, (DefaultContestFormat.getProblemResult A participation
      (submissionView (extra :: rows) participation contestProblem)).acSeconds =
        (DefaultContestFormat.getProblemResult A participation
          (submissionView rows participation contestProblem)).acSeconds := by
    intro contestProblem
    simp only [DefaultContestFormat.getProblemResult, List.foldl_filter]
    refine foldl_submissionView_cons (fun _ => True) trivial (fun _ _ _ => trivial) fun latest _ => ?_
    rw [if_neg (by rw [hextra.not_accepted]; exact Bool.false_ne_true)]
  rw [standing_default hformat, standing_default hformat]
  simp only [hpoints, hseconds]

theorem standing_ioi_cons (hextra : extra.Unscored)
    (hformat : participation.contest.format = some .ioi) :
    standing A participation (extra :: rows) = standing A participation rows := by
  have hresult : ∀ contestProblem, (IOIContestFormat.getProblemResult A
      (submissionView (extra :: rows) participation contestProblem)).points =
        (IOIContestFormat.getProblemResult A
          (submissionView rows participation contestProblem)).points := by
    intro contestProblem
    have hbest : (submissionView (extra :: rows) participation contestProblem).foldl
        IOIContestFormat.tallySubmission (∅, 0) =
          (submissionView rows participation contestProblem).foldl
            IOIContestFormat.tallySubmission (∅, 0) := by
      refine foldl_submissionView_cons (fun best => 0 ≤ best.2) le_rfl ?_ ?_
      · intro best submission hbest
        unfold IOIContestFormat.tallySubmission
        split_ifs
        · exact le_max_of_le_left hbest
        · exact hbest
      · intro best hbest
        rw [IOIContestFormat.tallySubmission, hextra.subtaskScores,
          if_pos (show (∅ : Dict String ℚ).entries = [] from rfl), hextra.points,
          max_eq_left hbest]
    simp only [IOIContestFormat.getProblemResult, hbest]
  rw [standing_ioi hformat, standing_ioi hformat]
  simp only [hresult]

theorem standing_icpc_cons_iff (hA : A.ExactIntegers) (hextra : extra.Unscored)
    {wrongPenaltyMinutes : ℤ}
    (hformat : participation.contest.format = some (.icpc (some wrongPenaltyMinutes)))
    (hscored : (standing A participation rows).isSome) :
    standing A participation (extra :: rows) = standing A participation rows ↔
      wrongPenaltyMinutes = 0 ∨ extra.Failed ∨ ∀ contestProblem ∈ participation.contest.problems,
        ¬ extra.Delays rows participation contestProblem := by
  have hloop := fun contestProblem => hextra.untilAccepted_cons rows participation contestProblem
    (fun submission => !decide (submission.result = some .CE ∨ submission.result = some .IE))
    (by intro submission haccepted
        rw [isAccepted, decide_eq_true_eq] at haccepted
        simp [haccepted])
  have hcounts : (!decide (extra.result = some .CE ∨ extra.result = some .IE)) = true ↔
      ¬ extra.Failed := by
    simp [hextra.failed_iff]
  have hsolved : ∀ contestProblem, (ICPCContestFormat.getProblemResult A wrongPenaltyMinutes
      participation (submissionView (extra :: rows) participation contestProblem)).solved =
        (ICPCContestFormat.getProblemResult A wrongPenaltyMinutes
          participation (submissionView rows participation contestProblem)).solved := by
    intro contestProblem
    simp only [ICPCContestFormat.getProblemResult, (hloop contestProblem).1]
  have hpenalty : ∀ contestProblem, (ICPCContestFormat.getProblemResult A wrongPenaltyMinutes
      participation (submissionView (extra :: rows) participation contestProblem)).penaltyMinutes =
        (ICPCContestFormat.getProblemResult A wrongPenaltyMinutes
          participation (submissionView rows participation contestProblem)).penaltyMinutes +
          if ¬ extra.Failed ∧ extra.Delays rows participation contestProblem
            then wrongPenaltyMinutes else 0 := by
    intro contestProblem
    obtain ⟨hfound, hsome, hattempts⟩ := hloop contestProblem
    simp only [ICPCContestFormat.getProblemResult, hfound]
    by_cases hsolved : (untilAccepted (fun submission =>
        !decide (submission.result = some .CE ∨ submission.result = some .IE))
          (submissionView rows participation contestProblem)).2.isSome = true
    · simp only [hattempts hsolved, hsolved, if_true, hcounts]
      split_ifs <;> push_cast <;> ring
    · rw [if_neg hsolved, if_neg hsolved, if_neg fun hboth => hsolved (hsome hboth.2), add_zero]
  rw [standing_icpc hformat] at hscored
  rw [standing_icpc hformat, standing_icpc hformat]
  simp only [hsolved, hpenalty, sum_map_add_ite]
  rw [penaltyStanding_eq_iff hA hscored, add_eq_left, mul_eq_zero, Nat.cast_eq_zero,
    List.countP_eq_zero, or_comm]
  simp only [decide_eq_true_eq, not_and]
  by_cases hfailed : extra.Failed <;> simp [hfailed]

theorem standing_atcoder_cons_iff (hA : A.ExactIntegers) (hextra : extra.Unscored)
    {penaltyMinutes : ℕ}
    (hformat : participation.contest.format = some (.atcoder (some penaltyMinutes)))
    (hscored : (standing A participation rows).isSome) :
    standing A participation (extra :: rows) = standing A participation rows ↔
      penaltyMinutes = 0 ∨ ∀ contestProblem ∈ participation.contest.problems,
        ¬ extra.Delays rows participation contestProblem := by
  have hloop := fun contestProblem => hextra.untilAccepted_cons rows participation contestProblem
    (fun _ => true) fun _ _ => rfl
  have hsolved : ∀ contestProblem, (AtCoderContestFormat.getProblemResult A participation
      contestProblem (submissionView (extra :: rows) participation contestProblem)).solved =
        (AtCoderContestFormat.getProblemResult A participation contestProblem
          (submissionView rows participation contestProblem)).solved := by
    intro contestProblem
    simp only [AtCoderContestFormat.getProblemResult, (hloop contestProblem).1]
  have hminutes : ∀ contestProblem, (AtCoderContestFormat.getProblemResult A participation
      contestProblem (submissionView (extra :: rows) participation contestProblem)).acMinutes =
        (AtCoderContestFormat.getProblemResult A participation contestProblem
          (submissionView rows participation contestProblem)).acMinutes := by
    intro contestProblem
    simp only [AtCoderContestFormat.getProblemResult, (hloop contestProblem).1]
  have hwrong : ∀ contestProblem ∈ participation.contest.problems.filter fun contestProblem =>
      (AtCoderContestFormat.getProblemResult A participation contestProblem
        (submissionView rows participation contestProblem)).solved,
      (AtCoderContestFormat.getProblemResult A participation contestProblem
        (submissionView (extra :: rows) participation contestProblem)).wrongAttempts =
          (AtCoderContestFormat.getProblemResult A participation contestProblem
            (submissionView rows participation contestProblem)).wrongAttempts +
            if extra.Delays rows participation contestProblem then 1 else 0 := by
    intro contestProblem hmem
    have hmore := (hloop contestProblem).2.2 (List.mem_filter.mp hmem).2
    simpa only [AtCoderContestFormat.getProblemResult, true_and] using hmore
  rw [standing_atcoder hformat] at hscored
  rw [standing_atcoder hformat, standing_atcoder hformat]
  simp only [hsolved, hminutes]
  rw [List.map_congr_left hwrong, sum_map_add_ite, penaltyStanding_eq_iff hA hscored,
    add_right_inj, Nat.cast_inj, mul_one, Nat.cast_id, Nat.add_mul, Nat.add_eq_left, mul_eq_zero,
    List.countP_eq_zero, or_comm]
  refine or_congr_right ⟨fun hnone contestProblem hmem hdelays => ?_,
    fun hnone contestProblem hmem => by
      simpa using hnone contestProblem (List.mem_filter.mp hmem).1⟩
  -- a problem that is delayed is solved
  have hfound := (hloop contestProblem).2.1 hdelays
  exact hnone contestProblem (List.mem_filter.mpr ⟨hmem, hfound⟩) (decide_eq_true hdelays)

/-- A displaced solution was one within the tries. -/
theorem Submission.Displaces.any_take {tries : ℕ+}
    (h : extra.Displaces tries rows participation contestProblem) :
    ((submissionView rows participation contestProblem).take tries).any isAccepted := by
  obtain ⟨-, ⟨last, hget, haccepted, -⟩, -⟩ := h
  obtain ⟨hlength, rfl⟩ := List.getElem?_eq_some_iff.mp hget
  refine List.any_eq_true.mpr ⟨_, List.mem_take_iff_getElem.mpr ⟨_, ?_, rfl⟩, haccepted⟩
  have htries := tries.pos
  omega

theorem standing_ecoo_cons_iff (hA : A.ExactIntegers) (hextra : extra.Unscored) {tries : ℕ+}
    (hproblems : participation.contest.problems.length ≤ 2 ^ 53)
    (hformat : participation.contest.format = some (.ecoo (some tries))) :
    standing A participation (extra :: rows) = standing A participation rows ↔
      ∀ contestProblem ∈ participation.contest.problems,
        ¬ extra.Displaces tries rows participation contestProblem := by
  have hadd : ∀ problems : List ContestProblem,
      problems.countP (fun contestProblem =>
          ((submissionView (extra :: rows) participation contestProblem).take tries).any
            isAccepted) +
        problems.countP (fun contestProblem =>
          decide (extra.Displaces tries rows participation contestProblem)) =
        problems.countP fun contestProblem =>
          ((submissionView rows participation contestProblem).take tries).any isAccepted := by
    intro problems
    induction problems with
    | nil => rfl
    | cons contestProblem rest ih =>
        rw [List.countP_cons, List.countP_cons, List.countP_cons, ← ih, hextra.any_take]
        by_cases hdisplaces : extra.Displaces tries rows participation contestProblem
        · simp only [hdisplaces.any_take, hdisplaces, decide_true, Bool.not_true, Bool.and_false,
            Bool.false_eq_true, if_false, if_true]
          omega
        · simp only [hdisplaces, decide_false, Bool.not_false, Bool.and_true, Bool.false_eq_true,
            if_false, add_zero]
          rw [Nat.add_right_comm]
  have hfloat : ∀ solves : ContestProblem → Bool,
      A.fl (participation.contest.problems.countP solves : ℕ) =
        (participation.contest.problems.countP solves : ℕ) := by
    intro solves
    have hcount := List.countP_le_length (p := solves) (l := participation.contest.problems)
    have hexact := hA (participation.contest.problems.countP solves : ℕ)
      (by rw [abs_of_nonneg (Int.natCast_nonneg _)]; omega)
    exact_mod_cast hexact
  rw [standing_ecoo hformat, standing_ecoo hformat, hfloat, hfloat, Option.some_inj, Prod.mk.injEq,
    and_iff_left rfl, Nat.cast_inj, ← hadd participation.contest.problems, Nat.left_eq_add,
    List.countP_eq_zero]
  simp only [decide_eq_true_eq]

end Formats

/-! ## When the standing stays -/

/-- Adding a submission without a score leaves the score and the tiebreaker exactly if the
format does not count it. -/
theorem standing_cons_iff (hA : A.ExactIntegers) (hextra : extra.Unscored)
    (hproblems : participation.contest.problems.length ≤ 2 ^ 53)
    (hscored : (standing A participation rows).isSome) :
    standing A participation (extra :: rows) = standing A participation rows ↔
      extra.Harmless rows participation := by
  unfold Submission.Harmless
  cases hformat : participation.contest.format with
  | none => simp [standing, calculateParticipation, hformat] at hscored
  | some format =>
      cases format with
      | default => exact iff_of_true (standing_default_cons hextra hformat) trivial
      | ioi => exact iff_of_true (standing_ioi_cons hextra hformat) trivial
      | icpc config =>
          cases config with
          | none => simp [standing, calculateParticipation, hformat] at hscored
          | some wrongPenaltyMinutes =>
              exact standing_icpc_cons_iff hA hextra hformat hscored
      | atcoder config =>
          cases config with
          | none => simp [standing, calculateParticipation, hformat] at hscored
          | some penaltyMinutes => exact standing_atcoder_cons_iff hA hextra hformat hscored
      | ecoo config =>
          cases config with
          | none => exact iff_of_true (standing_ecoo_none hformat _ _) trivial
          | some tries => exact standing_ecoo_cons_iff hA hextra hproblems hformat

/-- One problem, five minutes for each wrong attempt. -/
def attemptContest : Contest where
  format := some (.atcoder (some 5))
  startTime := 0
  problems := [{ problem := 1, label := "D", points := 100 }]

def attemptParticipation : ContestParticipation where
  id := 1
  user := 1
  contest := attemptContest

/-- Accepted after ten minutes. -/
def acceptedAttempt : Submission where
  id := 2
  user := 1
  problem := 1
  language := "cpp"
  points := 100
  result := some .AC
  status := .completed
  contestParticipation := some 1
  createdAt := 600 * second

/-- A compile error one minute after the start. -/
def failedAttempt : Submission where
  id := 1
  user := 1
  problem := 1
  language := "cpp"
  result := some .CE
  status := .error
  contestParticipation := some 1
  createdAt := 60 * second

theorem failedAttempt_unscored : failedAttempt.Unscored where
  verdict := .inr ⟨rfl, .inl rfl⟩
  points := rfl
  subtaskScores := rfl

/-- Sent again after fifteen minutes, and still queued. -/
def queuedAttempt : Submission where
  id := 3
  user := 1
  problem := 1
  language := "cpp"
  contestParticipation := some 1
  createdAt := 900 * second

theorem standing_cons_iff_queued :
    standing .binary64 attemptParticipation [queuedAttempt, acceptedAttempt] =
        standing .binary64 attemptParticipation [acceptedAttempt] ↔
      queuedAttempt.Harmless [acceptedAttempt] attemptParticipation :=
  standing_cons_iff FloatArith.exactIntegers_binary64
    { verdict := .inl ⟨rfl, .inl rfl⟩, points := rfl, subtaskScores := rfl } (by decide)
    (by decide +kernel)

/-- The compile error costs five minutes. -/
theorem standing_failedAttempt :
    failedAttempt.Unscored ∧
      standing .binary64 attemptParticipation [failedAttempt, acceptedAttempt] = some (100, 15) ∧
        standing .binary64 attemptParticipation [acceptedAttempt] = some (100, 10) :=
  ⟨failedAttempt_unscored, by decide +kernel, by decide +kernel⟩

end JudgeLoom
