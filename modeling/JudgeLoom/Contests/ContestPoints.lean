import JudgeLoom.Contests.LaterSubmission
import JudgeLoom.Judge.ScoreBounds
import Mathlib.Algebra.BigOperators.Group.List.Basic
import Mathlib.Algebra.Order.BigOperators.Group.Finset

/-!
# The points of a contest problem

A contest gives each of its problems points, and a package has points of its own.  AtCoder
pays the former.  The default format and IOI pay the latter: the points of a contest are
handed to the job and read by nobody.  `respectsPoints_iff` says when the two agree.
-/

namespace JudgeLoom

open ContestFormat JudgeResultService

/-- The points of `get_problem_result` in the formats that pay points. -/
def problemPoints (A : FloatArith) (participation : ContestParticipation)
    (contestProblem : ContestProblem) (submissions : List Submission) : Option ℚ :=
  match participation.contest.format with
  | some .default =>
      some (DefaultContestFormat.getProblemResult A participation submissions).points
  | some .ioi => some (IOIContestFormat.getProblemResult A submissions).points
  | some (.atcoder _) =>
      some (AtCoderContestFormat.getProblemResult A participation contestProblem submissions).points
  | _ => none

/-- No more than the points of the contest problem, and exactly these once it is solved. -/
def RespectsPoints (A : FloatArith) (participation : ContestParticipation)
    (contestProblem : ContestProblem) (submissions : List Submission) : Prop :=
  ∀ points ∈ problemPoints A participation contestProblem submissions,
    0 ≤ points ∧ points ≤ contestProblem.points ∧
      ((∃ submission ∈ submissions, isAccepted submission) → points = contestProblem.points)

/-- Every score that one of the packages gives is at most `total`, and an accepted one is
exactly that. -/
def PaysPoints (P : Python) (Package : ProblemPackage → Prop) (total : ℚ) : Prop :=
  ∀ package, Package package → ∀ summary, Gives P package summary →
    summary.points ≤ total ∧ (summary.result = .AC → max 0 summary.points = total)

/-- The values that the packages give to different subtasks add up to at most `total`,
whichever submissions they come from, and those of an accepted submission to exactly
that. -/
def PaysSubtasks (P : Python) (Package : ProblemPackage → Prop) (total : ℚ) : Prop :=
  (∀ choice : Dict String ℚ,
    (∀ subtask value, choice.get? subtask = some value →
      ∃ package, Package package ∧ ∃ summary, Gives P package summary ∧
        summary.subtaskScores.get? subtask = some value) →
    (choice.values.map fun value => max 0 value).sum ≤ total) ∧
  ∀ package, Package package → ∀ summary, Gives P package summary → summary.result = .AC →
    (summary.subtaskScores.values.map fun value => max 0 value).sum = total

/-- The packages agree with the points of the contest problem, as the format pays them. -/
def PaysContestPoints (P : Python) (Package : ProblemPackage → Prop)
    (contestProblem : ContestProblem) : ContestFormat → Prop
  | .default => PaysPoints P Package contestProblem.points
  | .ioi => PaysSubtasks P Package contestProblem.points
  | _ => True

variable {P : Python} {Package : ProblemPackage → Prop} {participation : ContestParticipation}
  {contestProblem : ContestProblem} {submissions : List Submission} {submission : Submission}

/-- A submission of a contest, judged with one of the packages. -/
def JudgedWith (P : Python) (Package : ProblemPackage → Prop) (submission : Submission) : Prop :=
  submission.mode = .submit ∧ Finalised P Package submission

/-- An accepted submission has the score of a package. -/
theorem JudgedWith.exists_score (h : JudgedWith P Package submission)
    (haccepted : isAccepted submission) :
    ∃ package, Package package ∧ ∃ summary, Gives P package summary ∧
      HasScore submission summary ∧ summary.result = .AC := by
  rw [isAccepted, decide_eq_true_eq] at haccepted
  rcases h.2.cases with hnot | ⟨package, hpackage, summary, hgives, hscore⟩
  · exact absurd haccepted (hnot.result h.1)
  · exact ⟨package, hpackage, summary, hgives, hscore,
      Option.some_inj.mp (hscore.result.symm.trans haccepted)⟩

/-- Every score of a package is that of a submission. -/
theorem exists_judgedWith {package : ProblemPackage} {summary : ScoreSummary}
    (hpackage : Package package) (hgives : Gives P package summary) :
    ∃ submission, JudgedWith P Package submission ∧ HasScore submission summary := by
  obtain ⟨submission, hmode, hfinalised, hscore⟩ := exists_finalised
    { id := 1, user := 1, problem := 1, language := "", createdAt := 0 } hpackage hgives rfl
  exact ⟨submission, ⟨hmode, hfinalised⟩, hscore⟩

theorem isAccepted_of_hasScore {summary : ScoreSummary} (hscore : HasScore submission summary)
    (hresult : summary.result = .AC) : isAccepted submission := by
  rw [isAccepted, hscore.result, hresult]
  rfl

/-! ## The default format -/

theorem respectsPoints_default_iff (A : FloatArith)
    (hformat : participation.contest.format = some .default) (hpoints : 0 ≤ contestProblem.points) :
    (∀ submissions, (∀ submission ∈ submissions, JudgedWith P Package submission) →
        RespectsPoints A participation contestProblem submissions) ↔
      PaysPoints P Package contestProblem.points := by
  have hbest : ∀ submissions bound,
      (DefaultContestFormat.getProblemResult A participation submissions).points ≤ bound ↔
        0 ≤ bound ∧ ∀ submission ∈ submissions, submission.points ≤ bound :=
    fun submissions bound => foldl_max_le_iff Submission.points 0 bound submissions
  have hpaid : ∀ submissions, problemPoints A participation contestProblem submissions =
      some (DefaultContestFormat.getProblemResult A participation submissions).points := by
    intro submissions
    rw [problemPoints, hformat]
  constructor
  · intro hall package hpackage summary hgives
    obtain ⟨submission, hjudged, hscore⟩ := exists_judgedWith hpackage hgives
    obtain ⟨-, hle, hexact⟩ := hall [submission]
      (fun other hother => List.mem_singleton.mp hother ▸ hjudged) _ (hpaid _)
    have hpoints_eq : (DefaultContestFormat.getProblemResult A participation
        [submission]).points = max 0 summary.points := by
      rw [← hscore.points]
      rfl
    rw [hpoints_eq] at hle hexact
    refine ⟨(le_max_right 0 _).trans hle, fun hresult => hexact ⟨submission, ?_, ?_⟩⟩
    · exact List.mem_singleton_self submission
    · exact isAccepted_of_hasScore hscore hresult
  · intro hpays submissions hjudged points hmem
    rw [hpaid, Option.mem_some_iff] at hmem
    subst hmem
    have hle : (DefaultContestFormat.getProblemResult A participation submissions).points ≤
        contestProblem.points := by
      refine (hbest submissions _).mpr ⟨hpoints, fun submission hsubmission => ?_⟩
      rcases (hjudged submission hsubmission).2.cases with
        hnot | ⟨package, hpackage, summary, hgives, hscore⟩
      · rw [hnot.points]
        exact hpoints
      · rw [hscore.points]
        exact (hpays package hpackage summary hgives).1
    obtain ⟨hnonneg, hmax⟩ := (hbest submissions _).mp le_rfl
    refine ⟨hnonneg, hle, ?_⟩
    rintro ⟨submission, hsubmission, haccepted⟩
    obtain ⟨package, hpackage, summary, hgives, hscore, hresult⟩ :=
      (hjudged submission hsubmission).exists_score haccepted
    refine le_antisymm hle ?_
    rw [← (hpays package hpackage summary hgives).2 hresult, ← hscore.points]
    exact max_le hnonneg (hmax submission hsubmission)

/-! ## Packages with whole cents -/

theorem exists_cents_sum {values : List ℚ} (h : ∀ value ∈ values, ∃ cents : ℤ, value = cents / 100) :
    ∃ cents : ℤ, values.sum = cents / 100 := by
  induction values with
  | nil => exact ⟨0, by simp⟩
  | cons value rest ih =>
      rw [List.forall_mem_cons] at h
      obtain ⟨first, hfirst⟩ := h.1
      obtain ⟨cents, hcents⟩ := ih h.2
      refine ⟨first + cents, ?_⟩
      rw [List.sum_cons, hfirst, hcents]
      push_cast
      ring

/-- In exact arithmetic an imported package whose groups are worth whole cents pays their
total. -/
theorem gives_total {package : ProblemPackage} {imported : PackageImportService.Imported}
    {m : ScoringManifest} {summary : ScoreSummary} (hexact : P.arith = .exact FloatArith.decimalRound)
    (himported : package.ImportedAs P imported)
    (hm : ScoringManifest.ofJson P package.manifest = some m)
    (hcents : ∀ group ∈ m.groups, ∃ cents : ℤ, group.points = cents / 100)
    (hgives : Gives P package summary) :
    summary.points ≤ (m.groups.map ScoringGroup.points).sum ∧
      (summary.result = .AC →
        max 0 summary.points = (m.groups.map ScoringGroup.points).sum) := by
  obtain ⟨testCases, hscore⟩ := hgives
  have hdistinct : ((testCases.rows.map casePayload).map CasePayload.caseNumber).Nodup := by
    rw [List.map_map]
    refine (testCases.sorted.map _ fun first second hlt => ?_ : List.Pairwise _ _)
    exact (Int.ofNat_lt.mpr hlt).ne
  obtain ⟨m', summary', hm', hscore', -, -, hle, -⟩ :=
    ScoringService.score_bounds P hexact monotoneRounding_decimalRound himported hdistinct
  cases hm.symm.trans hm'
  cases hscore.symm.trans hscore'
  -- rounding to four and to two decimals does nothing
  have hgroups : (m.groups.map fun group => FloatArith.decimalRound group.points 4) =
      m.groups.map ScoringGroup.points := by
    refine List.map_congr_left fun group hgroup => ?_
    obtain ⟨cents, hvalue⟩ := hcents group hgroup
    rw [hvalue, FloatArith.decimalRound_of_cents cents (by norm_num)]
  obtain ⟨cents, htotal⟩ := exists_cents_sum (List.forall_mem_map.mpr hcents)
  rw [hgroups, htotal, FloatArith.decimalRound_of_cents cents le_rfl, ← htotal] at hle
  refine ⟨hle, fun hresult => ?_⟩
  obtain ⟨m', hm', hsound⟩ := himported.exists_sound hexact monotoneRounding_decimalRound
  cases hm.symm.trans hm'
  cases hscore.symm.trans (ScoringService.score_of_ofJson hm _)
  have hverdict := ScoringService.result_eq_AC_iff.mp hresult
  have hreached := ((ScoringService.verdict_eq_AC_iff hsound.cases_ne_nil).mp hverdict).2.2
  have hpossible : ScoringService.totalPossible P.arith m =
      (m.groups.map ScoringGroup.points).sum := by
    rw [ScoringService.totalPossible, ScoringService.groupsOf_of_ne_nil hsound.groups_ne_nil,
      hexact, FloatArith.exact_sum]
  have hearned : (ScoringService.scoreManifest P.arith m
      (testCases.rows.map casePayload)).points =
        ScoringService.earnedPoints P.arith m (testCases.rows.map casePayload) := by
    rw [ScoringService.scoreManifest_eq]
    exact if_neg fun hzeroed => hzeroed.2.1 hverdict
  rw [hpossible, ← hearned] at hreached
  have hnonneg : 0 ≤ (m.groups.map ScoringGroup.points).sum :=
    List.sum_nonneg (List.forall_mem_map.mpr hsound.groups)
  refine le_antisymm (max_le hnonneg hle) ?_
  rcases hreached with hzero | hreached
  · exact hzero.trans (le_max_left 0 _)
  · exact hreached.trans (le_max_right 0 _)

/-- Such packages agree with a contest problem of the default format that has their total. -/
theorem paysPoints_of_total (hexact : P.arith = .exact FloatArith.decimalRound) {total : ℚ}
    (hpackages : ∀ package, Package package → ∃ imported m, package.ImportedAs P imported ∧
      ScoringManifest.ofJson P package.manifest = some m ∧
        (∀ group ∈ m.groups, ∃ cents : ℤ, group.points = cents / 100) ∧
          (m.groups.map ScoringGroup.points).sum = total) :
    PaysPoints P Package total := by
  intro package hpackage summary hgives
  obtain ⟨imported, m, himported, hm, hcents, htotal⟩ := hpackages package hpackage
  have hpaid := gives_total hexact himported hm hcents hgives
  rwa [htotal] at hpaid

/-! ## IOI -/

theorem sum_map_values {κ α : Type*} [DecidableEq κ] (d : Dict κ α) (f : α → ℚ) :
    (d.values.map f).sum = ∑ key ∈ d.keys.toFinset, (d.get? key).elim 0 f := by
  rw [List.sum_toFinset _ (show d.keys.Nodup from d.nodup), Dict.keys, List.map_map, Dict.values,
    List.map_map]
  refine congrArg List.sum (List.map_congr_left fun entry hentry => ?_)
  rw [Function.comp_apply, Function.comp_apply, Dict.get?_eq_some.mpr hentry, Option.elim_some]

namespace IOIContestFormat

/-- The sum of the best values. -/
theorem sum_tally (submissions : List Submission) :
    (tally submissions).1.values.sum =
      ∑ subtask ∈ (tally submissions).1.keys.toFinset,
        subtaskBest (tally submissions).1 subtask := by
  have hsum := sum_map_values (tally submissions).1 id
  rw [List.map_id] at hsum
  rw [hsum]
  refine Finset.sum_congr rfl fun subtask _ => ?_
  rw [subtaskBest]
  cases (tally submissions).1.get? subtask <;> rfl

/-- Values of different subtasks, each the value of some submission, are no more than the
best. -/
theorem sum_le_sum_tally {choice : Dict String ℚ}
    (hchoice : ∀ subtask value, choice.get? subtask = some value →
      ∃ submission ∈ submissions, submission.subtaskScores.get? subtask = some value) :
    (choice.values.map fun value => max 0 value).sum ≤ (tally submissions).1.values.sum := by
  rw [sum_map_values, sum_tally]
  refine (Finset.sum_le_sum fun subtask hsubtask => ?_).trans
    (Finset.sum_le_sum_of_subset_of_nonneg (fun subtask hsubtask => ?_)
      fun subtask _ _ => subtaskBest_tally_nonneg submissions subtask)
  all_goals
    obtain ⟨value, hvalue⟩ := Dict.mem_keys_iff.mp (List.mem_toFinset.mp hsubtask)
    obtain ⟨submission, hmem, hget⟩ := hchoice subtask value hvalue
  · rw [hvalue, Option.elim_some]
    have hle := subtaskBest_le_tally hmem subtask
    rw [subtaskBest, hget, Option.getD_some] at hle
    exact max_le (subtaskBest_tally_nonneg submissions subtask) hle
  · exact List.mem_toFinset.mpr ((mem_keys_tally submissions).mpr
      ⟨submission, hmem, Dict.mem_keys_iff.mpr ⟨value, hget⟩⟩)

/-- The best values are values of submissions. -/
theorem exists_choice (submissions : List Submission) :
    ∃ choice : Dict String ℚ,
      (∀ subtask value, choice.get? subtask = some value →
        ∃ submission ∈ submissions, submission.subtaskScores.get? subtask = some value) ∧
      choice.values.map (fun value => max 0 value) = (tally submissions).1.values := by
  have hattained : ∀ subtask ∈ (tally submissions).1.keys, ∃ value,
      (∃ submission ∈ submissions, submission.subtaskScores.get? subtask = some value) ∧
        max 0 value = subtaskBest (tally submissions).1 subtask := by
    intro subtask hsubtask
    by_contra hnone
    push Not at hnone
    -- otherwise the best value is less than itself
    have hbelow : ∀ submission ∈ submissions, ∀ value,
        submission.subtaskScores.get? subtask = some value →
          max 0 value < subtaskBest (tally submissions).1 subtask := by
      intro submission hmem value hget
      refine lt_of_le_of_ne ?_ (hnone value ⟨submission, hmem, hget⟩)
      have hle := subtaskBest_le_tally hmem subtask
      rw [subtaskBest, hget, Option.getD_some] at hle
      exact max_le (subtaskBest_tally_nonneg submissions subtask) hle
    obtain ⟨submission, hmem, hkey⟩ := (mem_keys_tally submissions).mp hsubtask
    obtain ⟨value, hvalue⟩ := Dict.mem_keys_iff.mp hkey
    refine lt_irrefl _ ((subtaskBest_tally_lt_iff submissions subtask _).mpr ⟨?_, ?_⟩)
    · exact (le_max_left 0 value).trans_lt (hbelow submission hmem value hvalue)
    · rintro other hother entry hentry rfl
      exact (le_max_right 0 entry.2).trans_lt
        (hbelow other hother entry.2 (Dict.get?_eq_some.mpr hentry))
  choose! value hvalue using hattained
  refine ⟨(tally submissions).1.mapEntries fun subtask _ => value subtask, ?_, ?_⟩
  · intro subtask chosen hchosen
    rw [Dict.get?_mapEntries, Option.map_eq_some_iff] at hchosen
    obtain ⟨best, hbest, rfl⟩ := hchosen
    exact (hvalue subtask (Dict.mem_keys_iff.mpr ⟨best, hbest⟩)).1
  · rw [Dict.values_mapEntries, List.map_map, Dict.values]
    refine List.map_congr_left fun entry hentry => ?_
    have hget := Dict.get?_eq_some.mpr hentry
    rw [Function.comp_apply, (hvalue entry.1 (Dict.mem_keys_iff.mpr ⟨_, hget⟩)).2, subtaskBest,
      hget, Option.getD_some]

theorem sum_tally_singleton (submission : Submission) :
    (tally [submission]).1.values.sum =
      (submission.subtaskScores.values.map fun value => max 0 value).sum := by
  rw [sum_tally, sum_map_values]
  have hkeys : (tally [submission]).1.keys.toFinset = submission.subtaskScores.keys.toFinset := by
    ext subtask
    simp [mem_keys_tally]
  refine Finset.sum_congr hkeys fun subtask hsubtask => ?_
  obtain ⟨value, hvalue⟩ := Dict.mem_keys_iff.mp (List.mem_toFinset.mp hsubtask)
  rw [hvalue, Option.elim_some]
  refine le_antisymm (le_of_forall_gt fun bound hbound => ?_) (max_le ?_ ?_)
  · refine (subtaskBest_tally_lt_iff _ _ _).mpr ⟨(le_max_left 0 value).trans_lt hbound, ?_⟩
    rintro other hother entry hentry rfl
    rw [List.mem_singleton.mp hother, ← Dict.get?_eq_some, hvalue, Option.some_inj] at hentry
    exact hentry ▸ (le_max_right 0 value).trans_lt hbound
  · exact subtaskBest_tally_nonneg _ subtask
  · have hle := subtaskBest_le_tally (List.mem_singleton_self submission) subtask
    rwa [subtaskBest, hvalue, Option.getD_some] at hle

/-- In exact arithmetic the points of judged submissions are the sum of the best values. -/
theorem points_eq_sum_tally (rounding : ℚ → ℕ → ℚ)
    (hjudged : ∀ submission ∈ submissions, JudgedWith P Package submission) :
    (getProblemResult (.exact rounding) submissions).points =
      (tally submissions).1.values.sum := by
  rw [points_getProblemResult]
  split_ifs with hnone
  · rw [tally_snd_eq_zero fun submission hmem => (hjudged submission hmem).2.points_eq_zero,
      Dict.values, hnone]
    rfl
  · exact FloatArith.exact_sum rounding _

end IOIContestFormat

theorem respectsPoints_ioi_iff (rounding : ℚ → ℕ → ℚ)
    (hformat : participation.contest.format = some .ioi) :
    (∀ submissions, (∀ submission ∈ submissions, JudgedWith P Package submission) →
        RespectsPoints (.exact rounding) participation contestProblem submissions) ↔
      PaysSubtasks P Package contestProblem.points := by
  have hpaid : ∀ submissions, (∀ submission ∈ submissions, JudgedWith P Package submission) →
      problemPoints (.exact rounding) participation contestProblem submissions =
        some (IOIContestFormat.tally submissions).1.values.sum := by
    intro submissions hjudged
    rw [problemPoints, hformat]
    exact congrArg some (IOIContestFormat.points_eq_sum_tally rounding hjudged)
  constructor
  · intro hall
    refine ⟨fun choice hchoice => ?_, fun package hpackage summary hgives hresult => ?_⟩
    · -- one submission for each of the chosen values
      have hsubmission : ∀ entry ∈ choice.entries, ∃ submission, JudgedWith P Package submission ∧
          submission.subtaskScores.get? entry.1 = some entry.2 := by
        intro entry hentry
        obtain ⟨package, hpackage, summary, hgives, hget⟩ :=
          hchoice entry.1 entry.2 (Dict.get?_eq_some.mpr hentry)
        obtain ⟨submission, hjudged, hscore⟩ := exists_judgedWith hpackage hgives
        exact ⟨submission, hjudged, by rw [hscore.subtaskScores, hget]⟩
      have : Nonempty Submission :=
        ⟨{ id := 0, user := 0, problem := 0, language := "", createdAt := 0 }⟩
      choose! pick hjudged hpick using hsubmission
      have hmem : ∀ submission ∈ choice.entries.map pick, JudgedWith P Package submission := by
        intro submission hmem
        obtain ⟨entry, hentry, rfl⟩ := List.mem_map.mp hmem
        exact hjudged entry hentry
      obtain ⟨-, hle, -⟩ := hall _ hmem _ (hpaid _ hmem)
      refine (IOIContestFormat.sum_le_sum_tally fun subtask value hget => ?_).trans hle
      have hentry := Dict.get?_eq_some.mp hget
      exact ⟨pick (subtask, value), List.mem_map_of_mem hentry, hpick _ hentry⟩
    · obtain ⟨submission, hjudged, hscore⟩ := exists_judgedWith hpackage hgives
      have hmem : ∀ other ∈ [submission], JudgedWith P Package other :=
        fun other hother => List.mem_singleton.mp hother ▸ hjudged
      obtain ⟨-, -, hexact⟩ := hall _ hmem _ (hpaid _ hmem)
      rw [← hscore.subtaskScores, ← IOIContestFormat.sum_tally_singleton]
      exact hexact ⟨submission, List.mem_singleton_self submission,
        isAccepted_of_hasScore hscore hresult⟩
  · rintro ⟨hle, hexact⟩ submissions hjudged points hmem
    rw [hpaid submissions hjudged, Option.mem_some_iff] at hmem
    subst hmem
    have hscored : ∀ submission ∈ submissions, ∀ subtask value,
        submission.subtaskScores.get? subtask = some value → ∃ package, Package package ∧
          ∃ summary, Gives P package summary ∧ summary.subtaskScores.get? subtask = some value := by
      intro submission hsubmission subtask value hget
      rcases (hjudged submission hsubmission).2.cases with
        hnot | ⟨package, hpackage, summary, hgives, hscore⟩
      · rw [hnot.subtaskScores] at hget
        cases hget
      · exact ⟨package, hpackage, summary, hgives, by rw [← hscore.subtaskScores, hget]⟩
    obtain ⟨choice, hchoice, hvalues⟩ := IOIContestFormat.exists_choice submissions
    have hupper : (IOIContestFormat.tally submissions).1.values.sum ≤ contestProblem.points := by
      rw [← hvalues]
      refine hle choice fun subtask value hget => ?_
      obtain ⟨submission, hsubmission, hvalue⟩ := hchoice subtask value hget
      exact hscored submission hsubmission subtask value hvalue
    refine ⟨?_, hupper, ?_⟩
    · exact List.sum_nonneg (IOIContestFormat.values_nonneg
        (IOIContestFormat.subtaskBest_tally_nonneg submissions))
    · rintro ⟨submission, hsubmission, haccepted⟩
      obtain ⟨package, hpackage, summary, hgives, hscore, hresult⟩ :=
        (hjudged submission hsubmission).exists_score haccepted
      refine le_antisymm hupper ?_
      rw [← hexact package hpackage summary hgives hresult, ← hscore.subtaskScores]
      exact IOIContestFormat.sum_le_sum_tally fun subtask value hget =>
        ⟨submission, hsubmission, hget⟩

/-! ## The three formats -/

/-- The first attempt is worth 100 points, whatever the contest problem is worth. -/
def pointsParticipation (format : ContestFormat) : ContestParticipation where
  id := 1
  user := 1
  contest :=
    { format := some format
      startTime := 0
      problems := [{ problem := 1, label := "A", points := 50 }] }

end JudgeLoom
