import JudgeLoom.Judge.ScoreBounds
import JudgeLoom.Problems.DefaultPoints

/-!
# A submission that passes every case

Import checks the points of cases and those of groups one by one, and scoring compares the
points of a submission with those of all groups.  Nothing in between makes sure that the
cases of a group are worth what the group is worth, or that rounding the points does not
take them below the total.  `ScoringManifest.Solvable` says of which packages both hold;
on them, and on no others, a submission that passes every case is accepted with full
points (`fullMarks_iff`).
-/

namespace JudgeLoom

open PackageImportService

/-- The reports on cases that are all accepted: one for each, with its points. -/
structure AllAccepted (cases : List (ArchiveCase ℚ)) (reports : List CasePayload) : Prop where
  numbers : reports.map CasePayload.caseNumber = (List.range' 1 cases.length).map Nat.cast
  accepted : List.Forall₂ (fun testCase report =>
    report.status = some SubmissionResult.AC.value ∧ report.points = some testCase.points ∧
      report.totalPoints = some testCase.points) cases reports

namespace ScoringService

/-- The scores of the cases of a group, if all are accepted. -/
def fullScores (A : FloatArith) (m : ScoringManifest) (groupId : String) : List ℚ :=
  (m.cases.filter fun manifestCase =>
      resolveGroup (groupDefs A m) manifestCase.group = groupId).map fun manifestCase =>
    A.round (A.mul manifestCase.points 1) 4

end ScoringService

open ScoringService

/-- Rounding the total of the groups' points does not lower it, and what the cases of each
group are worth, up to the points of the group, adds up to the same. -/
structure ScoringManifest.Solvable (A : FloatArith) (m : ScoringManifest) : Prop where
  total : totalPossible A m ≤ 0 ∨ totalPossible A m ≤ A.round (totalPossible A m) 2
  worth : A.round (A.sum (m.groups.map fun group =>
    groupScore A group (fullScores A m group.id))) 2 = A.round (totalPossible A m) 2

/-- The package is solvable, to the scoring service. -/
def ProblemPackage.Solvable (P : Python) (package : ProblemPackage) : Prop :=
  ∃ m, ScoringManifest.ofJson P package.manifest = some m ∧ m.Solvable P.arith

/-- The reports are accepted and completed, with the rounded sum of the groups' points. -/
def FullMarks (P : Python) (package : ProblemPackage) (reports : List CasePayload) : Prop :=
  ∃ m summary, ScoringManifest.ofJson P package.manifest = some m ∧
    score P package reports = .ok summary ∧ summary.result = .AC ∧
      summary.status = .completed ∧
        summary.points = P.arith.round (P.arith.sum (m.groups.map ScoringGroup.points)) 2

namespace ScoringService

variable {A : FloatArith} {m : ScoringManifest} {reports : List CasePayload}

/-- An accepted case is worth its points. -/
theorem caseScore_accepted (A : FloatArith) (points : ℚ) :
    caseScore A points .AC points (orElse points points) = A.round (A.mul points 1) 4 := by
  have horElse : orElse points points = points := by
    unfold orElse
    split_ifs <;> rfl
  unfold caseScore
  rw [horElse]
  by_cases hpositive : 0 < points
  · have hdiv : A.div points points = 1 := by
      rw [FloatArith.div, div_self hpositive.ne', A.fl_one]
    simp [hpositive, hpositive.not_ge, hdiv]
  · simp [hpositive]

/-- The reports are accepted, as scoring reads them. -/
def Accepted (manifestCases : List ScoringCase) (reports : List CasePayload) : Prop :=
  List.Forall₂ (fun manifestCase report =>
    report.status = some SubmissionResult.AC.value ∧ report.points = some manifestCase.points ∧
      report.totalPoints = some manifestCase.points) manifestCases reports

theorem Accepted.caseStatus_eq {manifestCases : List ScoringCase}
    (h : Accepted manifestCases reports) : ∀ report ∈ reports, caseStatus report = .AC := by
  induction h with
  | nil => exact List.forall_mem_nil _
  | cons hreport _ ih =>
      refine List.forall_mem_cons.mpr ⟨?_, ih⟩
      rw [caseStatus, hreport.1, Option.getD_some, SubmissionResult.ofReport_value]

theorem Accepted.reportScores_eq {manifestCases : List ScoringCase}
    (h : Accepted manifestCases reports) (A : FloatArith) (defs : Dict String ScoringGroup) :
    reportScores A defs manifestCases reports = manifestCases.map fun manifestCase =>
      (resolveGroup defs manifestCase.group, A.round (A.mul manifestCase.points 1) 4) := by
  unfold reportScores
  induction h with
  | nil => rfl
  | cons hreport _ ih =>
      obtain ⟨hstatus, hpoints, htotal⟩ := hreport
      rw [List.zip_cons_cons, List.map_cons, List.map_cons, ih, reportScore, caseStatus, hstatus,
        hpoints, htotal, Option.getD_some, Option.getD_some, Option.getD_some,
        SubmissionResult.ofReport_value, caseScore_accepted]

/-- What a group earns on accepted reports. -/
theorem groupPoints_accepted (h : Accepted m.cases reports) (group : String × ScoringGroup) :
    groupPoints A m reports group = groupScore A group.2 (fullScores A m group.1) := by
  unfold groupPoints fullScores
  rw [h.reportScores_eq, List.filter_map, List.map_map]
  rfl

/-- The points of accepted reports, before the verdict. -/
theorem awarded_accepted (h : Accepted m.cases reports) (hnonempty : m.groups ≠ [])
    (hids : (m.groups.map ScoringGroup.id).Nodup) :
    awarded A m reports = A.round (A.sum (m.groups.map fun group =>
      groupScore A group (fullScores A m group.id))) 2 := by
  unfold awarded
  rw [entries_groupDefs hnonempty hids, List.map_map]
  simp only [Function.comp_def, groupPoints_accepted h]

/-- The verdict on accepted reports. -/
theorem result_accepted (hcovers : Covers m reports) (h : Accepted m.cases reports)
    (hcases : m.cases ≠ []) :
    (scoreManifest A m reports).result = .AC ↔
      totalPossible A m ≤ 0 ∨ totalPossible A m ≤ awarded A m reports := by
  have hall := h.caseStatus_eq
  have hsevere : SubmissionResult.severest (reports.map caseStatus) = none :=
    SubmissionResult.severest_eq_none_of_forall (List.forall_mem_map.mpr hall)
  rw [hcovers.result_scoreManifest hcases, hsevere, Option.getD_none, pointsVerdict]
  split_ifs with haccepted hpartial
  · exact iff_of_true rfl haccepted.2
  · exact iff_of_false (by decide) fun hreached => haccepted ⟨hall, hreached⟩
  · exact iff_of_false (by decide) fun hreached => haccepted ⟨hall, hreached⟩

/-- An accepted summary is completed and keeps the points. -/
theorem summary_of_accepted (hcovers : Covers m reports)
    (h : (scoreManifest A m reports).result = .AC) :
    (scoreManifest A m reports).status = .completed ∧
      (scoreManifest A m reports).points = awarded A m reports := by
  have hverdict := result_eq_AC_iff.mp h
  have hkept : ¬ Zeroed A m reports := fun hzeroed => hzeroed.2.1 hverdict
  have hfinal : finalVerdict A m reports = .AC := by
    rw [scoreManifest_eq] at h
    exact h
  rw [scoreManifest_eq]
  dsimp only
  rw [hfinal, if_neg hkept, hcovers.earnedPoints_eq]
  exact ⟨if_neg (by decide), rfl⟩

end ScoringService

/-- A submission that passes every case of an imported package is accepted with full points
exactly if the package is solvable. -/
theorem fullMarks_iff (P : Python) {package : ProblemPackage} {imported : Imported}
    (himported : package.ImportedAs P imported) {reports : List CasePayload}
    (hreports : AllAccepted imported.cases reports) :
    FullMarks P package reports ↔ package.Solvable P := by
  obtain ⟨⟨problem, hread⟩, -, hmanifest⟩ := himported
  obtain ⟨defs, hgroups⟩ := exists_archiveGroups hread
  obtain ⟨m, hm, hreads⟩ := exists_scoring hread hgroups hmanifest
  have haccepted : Accepted m.cases reports := by
    rw [hreads.cases]
    exact List.forall₂_map_left_iff.mpr hreports.accepted
  have hcovers : Covers m reports := by
    rw [Covers, hreports.numbers, hreads.cases, List.length_map]
  have hawarded := awarded_accepted (A := P.arith) haccepted hreads.groups_ne_nil hreads.ids_nodup
  have htotal : P.arith.sum (m.groups.map ScoringGroup.points) = totalPossible P.arith m := by
    rw [totalPossible, groupsOf_of_ne_nil hreads.groups_ne_nil]
  have hresult := result_accepted (A := P.arith) hcovers haccepted hreads.cases_ne_nil
  constructor
  · rintro ⟨m', summary, hm', hscore, hAC, -, hpoints⟩
    obtain rfl : m = m' := Option.some.inj (hm.symm.trans hm')
    rw [score_of_ofJson hm] at hscore
    cases hscore
    have hkept := (summary_of_accepted hcovers hAC).2
    rw [hpoints, htotal] at hkept
    have hworth : awarded P.arith m reports = P.arith.round (totalPossible P.arith m) 2 :=
      hkept.symm
    refine ⟨m, hm, ?_, hawarded.symm.trans hworth⟩
    rw [← hworth]
    exact hresult.mp hAC
  · rintro ⟨m', hm', hsolvable⟩
    obtain rfl : m = m' := Option.some.inj (hm.symm.trans hm')
    have hworth : awarded P.arith m reports = P.arith.round (totalPossible P.arith m) 2 :=
      hawarded.trans hsolvable.worth
    have hAC : (scoreManifest P.arith m reports).result = .AC := by
      rw [hresult, hworth]
      exact hsolvable.total
    obtain ⟨hstatus, hpoints⟩ := summary_of_accepted hcovers hAC
    refine ⟨m, _, hm, score_of_ofJson hm reports, hAC, hstatus, ?_⟩
    rw [hpoints, hworth, htotal]

/-- A sum of numbers with two decimals has two decimals. -/
theorem exists_hundredfold_sum {l : List ℚ} (h : ∀ q ∈ l, ∃ z : ℤ, q * 100 = z) :
    ∃ z : ℤ, l.sum * 100 = z := by
  induction l with
  | nil => exact ⟨0, by simp⟩
  | cons q rest ih =>
      obtain ⟨⟨first, hfirst⟩, hrest⟩ := List.forall_mem_cons.mp h
      obtain ⟨others, hothers⟩ := ih hrest
      refine ⟨first + others, ?_⟩
      rw [List.sum_cons, add_mul, hfirst, hothers, Int.cast_add]

/-- Two decimals survive a rounding to four. -/
theorem decimalRound_four {q : ℚ} {z : ℤ} (h : q * 100 = z) : FloatArith.decimalRound q 4 = q := by
  have hpow : q * 10 ^ 4 = ((z * 100 : ℤ) : ℚ) := by
    push_cast
    rw [← h]
    ring
  rw [FloatArith.decimalRound, hpow, FloatArith.roundHalfEven_intCast, ← hpow]
  exact mul_div_cancel_right₀ q (by norm_num)

/-- In exact arithmetic a package is solvable if the points of its groups have two decimals
and the cases of each group are worth as much. -/
theorem ScoringManifest.solvable_of_forall {m : ScoringManifest}
    (hnonempty : m.groups ≠ []) (hdecimals : ∀ group ∈ m.groups, ∃ z : ℤ, group.points * 100 = z)
    (hnonneg : ∀ group ∈ m.groups, 0 ≤ group.points)
    (hworth : ∀ group ∈ m.groups, group.points ≤
      groupTotal group (fullScores (.exact FloatArith.decimalRound) m group.id)) :
    m.Solvable (.exact FloatArith.decimalRound) := by
  have htotal : totalPossible (.exact FloatArith.decimalRound) m =
      (m.groups.map ScoringGroup.points).sum := by
    rw [totalPossible, groupsOf_of_ne_nil hnonempty, FloatArith.exact_sum]
  have hround : FloatArith.decimalRound (m.groups.map ScoringGroup.points).sum 2 =
      (m.groups.map ScoringGroup.points).sum := by
    rw [decimalRound_two_iff]
    exact exists_hundredfold_sum (List.forall_mem_map.mpr hdecimals)
  have hscores : m.groups.map (fun group => groupScore (.exact FloatArith.decimalRound) group
      (fullScores (.exact FloatArith.decimalRound) m group.id)) =
        m.groups.map ScoringGroup.points := by
    refine List.map_congr_left fun group hgroup => ?_
    rw [groupScore_exact, max_eq_right (hnonneg group hgroup), min_eq_right (hworth group hgroup)]
    obtain ⟨z, hz⟩ := hdecimals group hgroup
    exact decimalRound_four hz
  refine ⟨?_, ?_⟩
  · rw [htotal, FloatArith.exact_round, hround]
    exact Or.inr le_rfl
  · rw [hscores, FloatArith.exact_sum, htotal]

/-- The reports on the package with two groups, if both cases are accepted. -/
def bothPassed : List CasePayload := [reportOf 1 "AC" 50, reportOf 2 "AC" 50]

theorem fullMarks_iff_bothPassed :
    FullMarks (manifestPython (twoGroups "g2")) (twoGroupsPackage "g2") bothPassed ↔
      (twoGroupsPackage "g2").Solvable (manifestPython (twoGroups "g2")) :=
  fullMarks_iff _ importedAs_twoGroups
    ⟨by decide +kernel, .cons (by decide +kernel) (.cons (by decide +kernel) .nil)⟩

/-- A case and a group that are worth the given points. -/
def oneGroup (casePoints groupPoints : ℚ) : Python :=
  { manifestPython (.obj [
      ("cases", .arr [.obj [("input", .str "1.in"), ("answer", .str "1.out"),
        ("points", .float (.finite casePoints))]]),
      ("groups", .arr [.obj [("id", .str "default"),
        ("points", .float (.finite groupPoints))]])]) with
    arith := .binary64 }

def oneGroupImport (casePoints groupPoints : ℚ) : Imported :=
  ((readArchive (oneGroup casePoints groupPoints) twoGroupsProblem []).toOption).getD ⟨[], []⟩

def oneGroupPackage (casePoints groupPoints : ℚ) : ProblemPackage where
  id := 1
  problem := 1
  version := 1
  sha256 := ""
  manifest := .obj (oneGroupImport casePoints groupPoints).manifest

def onePassed (points : ℚ) : List CasePayload :=
  [{ caseNumber := 1, status := some "AC", points := some points, totalPoints := some points }]

/-- A group that is worth more than its case, and points with three decimals. -/
def unsolvablePoints : List (ℚ × ℚ) := [(50, 100), (1 / 8, 1 / 8)]

theorem cases_oneGroupImport : ∀ points ∈ unsolvablePoints,
    (oneGroupImport points.1 points.2).cases = [{
      input := "1.in"
      answer := "1.out"
      group := "default"
      points := points.1
      inputSha256 := ""
      answerSha256 := "" }] := by
  decide +kernel

theorem importedAs_oneGroup : ∀ points ∈ unsolvablePoints,
    (oneGroupPackage points.1 points.2).ImportedAs (oneGroup points.1 points.2)
      (oneGroupImport points.1 points.2) := by
  have hread : ∀ points ∈ unsolvablePoints, (readArchive (oneGroup points.1 points.2)
      twoGroupsProblem []).isOk = true := by decide +kernel
  have hstorable : ∀ points ∈ unsolvablePoints,
      (oneGroupImport points.1 points.2).storable = true := by decide +kernel
  exact fun points hpoints => ⟨⟨twoGroupsProblem, Except.eq_ok_getD (hread points hpoints) _⟩,
    hstorable points hpoints, rfl⟩

theorem not_fullMarks_of_unsolvable : ∀ points ∈ unsolvablePoints,
    AllAccepted (oneGroupImport points.1 points.2).cases (onePassed points.1) ∧
      ¬ FullMarks (oneGroup points.1 points.2) (oneGroupPackage points.1 points.2)
        (onePassed points.1) := by
  have hresult : ∀ points ∈ unsolvablePoints, ((score (oneGroup points.1 points.2)
      (oneGroupPackage points.1 points.2) (onePassed points.1)).toOption.any fun summary =>
        summary.result = .AC) = false := by
    decide +kernel
  intro points hpoints
  refine ⟨?_, ?_⟩
  · rw [cases_oneGroupImport points hpoints]
    exact ⟨rfl, .cons ⟨rfl, rfl, rfl⟩ .nil⟩
  · rintro ⟨m, summary, -, hscore, hAC, -⟩
    have hrefused := hresult points hpoints
    rw [hscore] at hrefused
    simp [Except.toOption, hAC] at hrefused

theorem oneGroup_not_fullMarks :
    (oneGroupPackage 50 100).ImportedAs (oneGroup 50 100) (oneGroupImport 50 100) ∧
      (AllAccepted (oneGroupImport 50 100).cases (onePassed 50) ∧
        ¬ FullMarks (oneGroup 50 100) (oneGroupPackage 50 100) (onePassed 50)) ∧
      (oneGroupPackage (1 / 8) (1 / 8)).ImportedAs (oneGroup (1 / 8) (1 / 8))
        (oneGroupImport (1 / 8) (1 / 8)) ∧
      AllAccepted (oneGroupImport (1 / 8) (1 / 8)).cases (onePassed (1 / 8)) ∧
        ¬ FullMarks (oneGroup (1 / 8) (1 / 8)) (oneGroupPackage (1 / 8) (1 / 8))
          (onePassed (1 / 8)) := by
  have hworth : ((50 : ℚ), (100 : ℚ)) ∈ unsolvablePoints := List.mem_cons_self
  have hthree : ((1 / 8 : ℚ), (1 / 8 : ℚ)) ∈ unsolvablePoints :=
    List.mem_cons_of_mem _ List.mem_cons_self
  exact ⟨importedAs_oneGroup (50, 100) hworth, not_fullMarks_of_unsolvable (50, 100) hworth,
    importedAs_oneGroup (1 / 8, 1 / 8) hthree, not_fullMarks_of_unsolvable (1 / 8, 1 / 8) hthree⟩

end JudgeLoom
