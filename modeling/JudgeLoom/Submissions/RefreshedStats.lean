import JudgeLoom.Judge.Finalised
import JudgeLoom.Submissions.Statistics
import Mathlib.Algebra.BigOperators.Group.List.Basic
import Mathlib.Algebra.Order.BigOperators.Group.Finset

/-!
# Two ways to count what a user has solved

The signal of a completed submission and `refresh_user_submission_stats` both store a
user's `problem_count` and `points`.  The signal looks at scored submissions that are
completed and accepted.  The maintenance service takes any accepted verdict, that of a run
too, and pays for a problem the best points of all submissions to it.  `agrees_iff` says
when the two come to the same.

The points are added up over a set of problems, whose order the source leaves open; in
exact arithmetic it does not matter.
-/

namespace JudgeLoom

/-- What `refresh_user_submission_stats` stores. -/
structure RefreshedStats extends UserStats where
  performancePoints : ℚ := 0

/-- `user.submissions.filter(result="AC")`. -/
def Submission.solvedBy (user : ℕ) (submission : Submission) : Bool :=
  decide (submission.user = user) && decide (submission.result = some .AC)

/-- `user.submissions.filter(problem_id=problem_id)`. -/
def Submission.triedBy (user problem : ℕ) (submission : Submission) : Bool :=
  decide (submission.user = user) && decide (submission.problem = problem)

/-- Recalculate solved-problem count and points for a user that exists. -/
def refreshUserSubmissionStats (A : FloatArith) (db : Database) (user : ℕ) : RefreshedStats :=
  let acceptedSubmissions := db.submissions.rows.filter (Submission.solvedBy user)
  let solvedProblemIds := (acceptedSubmissions.map Submission.problem).dedup
  let totalPoints := A.accumulate <| solvedProblemIds.map fun problem =>
    UserStats.best (db.submissions.rows.filter (Submission.triedBy user problem))
  { problemCount := solvedProblemIds.length
    points := A.round totalPoints 2
    performancePoints := A.round (A.mul totalPoints (A.fl (1 / 10))) 2 }

namespace Database

/-- The two computations store the same, up to rounding to two decimals. -/
def StatsAgree (A : FloatArith) (db : Database) (user : ℕ) : Prop :=
  (refreshUserSubmissionStats A db user).problemCount = (db.acceptedStats A user).problemCount ∧
    (refreshUserSubmissionStats A db user).points = A.round (db.acceptedStats A user).points 2

/-- Every problem with an accepted verdict of the user has a scored submission that is
completed and accepted, with the best points of all the user's submissions to it. -/
def BestIsAccepted (db : Database) (user : ℕ) : Prop :=
  ∀ solved ∈ db.submissions.rows, solved.solvedBy user →
    ∃ accepted ∈ (db.accepted user).rows, accepted.problem = solved.problem ∧
      ∀ submission ∈ db.submissions.rows, submission.triedBy user solved.problem →
        submission.points ≤ accepted.points

/-- The points of the submissions come from judging: none so far, or those that a job was
closed with. -/
def PointsJudged (P : Python) (db : Database) (user : ℕ) : Prop :=
  ∀ submission ∈ db.submissions.rows, submission.user = user →
    submission.points = 0 ∨
      ∃ judged, JudgeResultService.Finalised P (fun _ => True) judged ∧
        submission.points = judged.points

end Database

variable {P : Python} {db : Database} {user : ℕ}

/-! ## The best of some submissions -/

namespace UserStats

variable {rows all : List Submission}

theorem exists_best (hrows : rows ≠ []) :
    ∃ submission ∈ rows, best rows = submission.points ∧
      ∀ other ∈ rows, other.points ≤ submission.points := by
  have hfold : ∀ (first : Submission) (rest : List Submission),
      ∃ submission ∈ first :: rest,
        (rest.map Submission.points).foldl max first.points = submission.points ∧
          ∀ other ∈ first :: rest, other.points ≤ submission.points := by
    intro first rest
    induction rest using List.reverseRecOn with
    | nil => exact ⟨first, by simp, rfl, by simp⟩
    | append_singleton rest last ih =>
        obtain ⟨submission, hmem, hbest, hle⟩ := ih
        rw [List.map_append, List.foldl_append, hbest]
        rcases le_total submission.points last.points with hlast | hlast
        · refine ⟨last, by simp, max_eq_right hlast, fun other hother => ?_⟩
          rw [← List.cons_append, List.mem_append, List.mem_singleton] at hother
          rcases hother with hother | rfl
          · exact (hle other hother).trans hlast
          · exact le_rfl
        · refine ⟨submission, ?_, max_eq_left hlast, fun other hother => ?_⟩
          · rw [← List.cons_append]
            exact List.mem_append_left _ hmem
          · rw [← List.cons_append, List.mem_append, List.mem_singleton] at hother
            rcases hother with hother | rfl
            · exact hle other hother
            · exact hlast
  cases rows with
  | nil => exact absurd rfl hrows
  | cons first rest => exact hfold first rest

theorem best_le_best (hrows : rows ≠ []) (hsub : rows ⊆ all) : best rows ≤ best all := by
  obtain ⟨submission, hmem, hbest, -⟩ := exists_best hrows
  obtain ⟨top, -, htop, hle⟩ := exists_best (List.ne_nil_of_mem (hsub hmem))
  rw [hbest, htop]
  exact hle submission (hsub hmem)

/-- The best of all is the best of some exactly if one of these is at least as good as all. -/
theorem best_eq_best_iff (hrows : rows ≠ []) (hsub : rows ⊆ all) :
    best rows = best all ↔
      ∃ submission ∈ rows, ∀ other ∈ all, other.points ≤ submission.points := by
  obtain ⟨submission, hmem, hbest, hmax⟩ := exists_best hrows
  obtain ⟨top, htop_mem, htop, hle⟩ := exists_best (List.ne_nil_of_mem (hsub hmem))
  constructor
  · intro heq
    rw [hbest, htop] at heq
    exact ⟨submission, hmem, fun other hother => heq ▸ hle other hother⟩
  · rintro ⟨other, hother, hall⟩
    refine le_antisymm (best_le_best hrows hsub) ?_
    rw [htop, hbest]
    exact (hall top htop_mem).trans (hmax other hother)

end UserStats

/-! ## Whole cents -/

theorem JudgeResultService.Finalised.exists_cents {Package : ProblemPackage → Prop}
    {submission : Submission} (hexact : P.arith = .exact FloatArith.decimalRound)
    (h : JudgeResultService.Finalised P Package submission) :
    ∃ cents : ℤ, submission.points = cents / 100 := by
  rcases h.cases with hnot | ⟨package, -, summary, ⟨testCases, hgives⟩, hscore⟩
  · exact ⟨0, by rw [hnot.points]; norm_num⟩
  · unfold ScoringService.score at hgives
    split at hgives
    · cases hgives
    · cases hgives
      rw [hscore.points, ScoringService.scoreManifest_eq]
      dsimp only
      split_ifs
      · exact ⟨0, by norm_num⟩
      · rw [ScoringService.earnedPoints, hexact]
        exact FloatArith.exists_cents _

/-! ## When the two agree -/

namespace Database

theorem mem_accepted {submission : Submission} : submission ∈ (db.accepted user).rows ↔
    submission ∈ db.submissions.rows ∧ submission.acceptedFor user :=
  List.mem_filter

/-- The signal looks at some of the submissions that the service looks at. -/
theorem solvedBy_of_acceptedFor {submission : Submission} (h : submission.acceptedFor user) :
    submission.solvedBy user := by
  simp only [Submission.acceptedFor, Submission.solvedBy, Bool.and_eq_true,
    decide_eq_true_eq] at h ⊢
  exact ⟨h.1.1.1, h.2⟩

/-- The accepted submissions to a problem. -/
def acceptedOn (db : Database) (user problem : ℕ) : List Submission :=
  (db.accepted user).rows.filter fun submission => submission.problem = problem

/-- All submissions of the user to it. -/
def triedOn (db : Database) (user problem : ℕ) : List Submission :=
  db.submissions.rows.filter (Submission.triedBy user problem)

theorem acceptedOn_subset (db : Database) (user problem : ℕ) :
    db.acceptedOn user problem ⊆ db.triedOn user problem := by
  intro submission hmem
  obtain ⟨haccepted, hproblem⟩ := List.mem_filter.mp hmem
  obtain ⟨hrow, haccepted⟩ := mem_accepted.mp haccepted
  refine List.mem_filter.mpr ⟨hrow, ?_⟩
  simp only [Submission.acceptedFor, Submission.triedBy, Bool.and_eq_true,
    decide_eq_true_eq] at haccepted hproblem ⊢
  exact ⟨haccepted.1.1.1, hproblem⟩

theorem sum_map_dedup (value : ℕ → ℚ) (xs : List ℕ) :
    (xs.dedup.map value).sum = ∑ x ∈ xs.toFinset, value x := by
  rw [← List.sum_toFinset value (List.nodup_dedup xs)]
  exact Finset.sum_congr (by ext; simp) fun _ _ => rfl

/-- The problems that the signal counts. -/
def acceptedProblems (db : Database) (user : ℕ) : Finset ℕ :=
  ((db.accepted user).rows.map Submission.problem).toFinset

/-- The problems that the service counts. -/
def solvedProblems (db : Database) (user : ℕ) : Finset ℕ :=
  ((db.submissions.rows.filter (Submission.solvedBy user)).map Submission.problem).toFinset

theorem mem_acceptedProblems {problem : ℕ} :
    problem ∈ db.acceptedProblems user ↔ db.acceptedOn user problem ≠ [] := by
  rw [acceptedProblems, List.mem_toFinset, List.mem_map, acceptedOn, Ne, List.filter_eq_nil_iff]
  push Not
  simp

theorem acceptedProblems_subset (db : Database) (user : ℕ) :
    db.acceptedProblems user ⊆ db.solvedProblems user := by
  intro problem hmem
  obtain ⟨submission, hsubmission, rfl⟩ := List.mem_map.mp (List.mem_toFinset.mp hmem)
  obtain ⟨hrow, haccepted⟩ := mem_accepted.mp hsubmission
  exact List.mem_toFinset.mpr (List.mem_map_of_mem
    (List.mem_filter.mpr ⟨hrow, solvedBy_of_acceptedFor haccepted⟩))

/-- The submission that pays, of every problem the signal counts, is accepted, and no other
problem is counted. -/
theorem bestIsAccepted_iff : db.BestIsAccepted user ↔
    db.acceptedProblems user = db.solvedProblems user ∧
      ∀ problem ∈ db.acceptedProblems user, UserStats.best (db.acceptedOn user problem) =
        UserStats.best (db.triedOn user problem) := by
  constructor
  · intro hbest
    have hsolved : db.acceptedProblems user = db.solvedProblems user := by
      refine (acceptedProblems_subset db user).antisymm fun problem hmem => ?_
      obtain ⟨solved, hrow, rfl⟩ := List.mem_map.mp (List.mem_toFinset.mp hmem)
      obtain ⟨hrow, hsolved⟩ := List.mem_filter.mp hrow
      obtain ⟨accepted, haccepted, hproblem, -⟩ := hbest solved hrow hsolved
      exact hproblem ▸ List.mem_toFinset.mpr (List.mem_map_of_mem haccepted)
    refine ⟨hsolved, fun problem hmem => ?_⟩
    rw [UserStats.best_eq_best_iff (mem_acceptedProblems.mp hmem)
      (acceptedOn_subset db user problem)]
    rw [hsolved] at hmem
    obtain ⟨solved, hrow, rfl⟩ := List.mem_map.mp (List.mem_toFinset.mp hmem)
    obtain ⟨hrow, hsolved⟩ := List.mem_filter.mp hrow
    obtain ⟨accepted, haccepted, hproblem, hall⟩ := hbest solved hrow hsolved
    refine ⟨accepted, List.mem_filter.mpr ⟨haccepted, decide_eq_true hproblem⟩, ?_⟩
    intro other hother
    obtain ⟨hother, htried⟩ := List.mem_filter.mp hother
    exact hall other hother htried
  · rintro ⟨hsolved, hbest⟩ solved hrow hsolved_mem
    have hmem : solved.problem ∈ db.acceptedProblems user := by
      rw [hsolved]
      exact List.mem_toFinset.mpr (List.mem_map_of_mem (List.mem_filter.mpr ⟨hrow, hsolved_mem⟩))
    obtain ⟨accepted, haccepted, hall⟩ := (UserStats.best_eq_best_iff
      (mem_acceptedProblems.mp hmem) (acceptedOn_subset db user _)).mp (hbest _ hmem)
    obtain ⟨haccepted, hproblem⟩ := List.mem_filter.mp haccepted
    refine ⟨accepted, haccepted, of_decide_eq_true hproblem, fun submission hsubmission htried => ?_⟩
    exact hall submission (List.mem_filter.mpr ⟨hsubmission, htried⟩)

/-- The points of the user are whole cents, so rounding does nothing to them. -/
theorem exists_cents_best (hexact : P.arith = .exact FloatArith.decimalRound)
    (hpoints : db.PointsJudged P user) {problem : ℕ} {rows : List Submission}
    (hrows : rows ⊆ db.triedOn user problem) :
    ∃ cents : ℤ, UserStats.best rows = cents / 100 := by
  by_cases hnone : rows = []
  · exact ⟨0, by rw [hnone]; norm_num [UserStats.best]⟩
  · obtain ⟨submission, hmem, hbest, -⟩ := UserStats.exists_best hnone
    obtain ⟨hrow, htried⟩ := List.mem_filter.mp (hrows hmem)
    simp only [Submission.triedBy, Bool.and_eq_true, decide_eq_true_eq] at htried
    rw [hbest]
    rcases hpoints submission hrow htried.1 with hzero | ⟨judged, hjudged, hpoints⟩
    · exact ⟨0, by rw [hzero]; norm_num⟩
    · rw [hpoints]
      exact hjudged.exists_cents hexact

theorem decimalRound_sum_best {problems : Finset ℕ} {value : ℕ → ℚ}
    (h : ∀ problem ∈ problems, ∃ cents : ℤ, value problem = cents / 100) :
    FloatArith.decimalRound (∑ problem ∈ problems, value problem) 2 =
      ∑ problem ∈ problems, value problem := by
  have hcents : ∃ cents : ℤ, ∑ problem ∈ problems, value problem = cents / 100 := by
    refine Finset.sum_induction value (fun total => ∃ cents : ℤ, total = cents / 100) ?_
      ⟨0, by norm_num⟩ h
    rintro _ _ ⟨first, rfl⟩ ⟨second, rfl⟩
    exact ⟨first + second, by push_cast; ring⟩
  obtain ⟨cents, hcents⟩ := hcents
  rw [hcents, FloatArith.decimalRound_of_cents cents le_rfl]

/-- The user has run an example of a problem, and submitted nothing. -/
def ranExample : Database where
  submissions := (∅ : Table _ Submission.id).save
    { id := 1
      user := 1
      problem := 1
      language := "cpp"
      result := some .AC
      status := .completed
      mode := .run
      createdAt := 0 }

theorem pointsJudged_ranExample : ranExample.PointsJudged samplePython 1 := by
  intro submission hmem _
  rcases Table.mem_save_iff.mp hmem with rfl | ⟨hnone, -⟩
  · exact .inl rfl
  · cases hnone

end Database

end JudgeLoom
