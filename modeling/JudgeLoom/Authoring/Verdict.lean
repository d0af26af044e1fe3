import JudgeLoom.Authoring.ImportedBuild
import JudgeLoom.Authoring.ModelSolution
import JudgeLoom.Judge.AllAccepted
import JudgeLoom.Judge.Outcome
import JudgeLoom.Worker.Report

/-!
# The verdict on the solution of a built package

The builder makes a package of a spec, the server imports it, a worker executes a submission
of the solution of the spec, and the server scores what the worker reports.  Each of them
reads the numbers of the spec anew, and computes with them.

The solution gets an accepted verdict with the points of all groups exactly if the spec is
solvable: the points of the cases of each group, rounded as the server rounds them, reach
the points of the group (`solution_graded`).  No other step of the way can spoil it, however
the reports of the worker are split or repeated, and whatever happened to earlier attempts.
-/

namespace JudgeLoom.Authoring

open Interaction.Fallible
open Go (Machine)
open PackageImportService JudgeResultService ScoringService

variable {C : Type} {T : Toolchain Go.PackageManifest} {P : Python} {spec s : Spec}

/-! ## What scoring reads of a spec -/

def GroupSpec.scoring (group : GroupSpec) : ScoringGroup where
  id := group.id
  mode := group.mode
  points := group.points

def CaseSpec.scoring (testCase : CaseSpec) : ScoringCase where
  points := testCase.points.getD 0
  group := testCase.group

/-- The points of all groups. -/
def Spec.totalPoints (A : FloatArith) (s : Spec) : ℚ := A.sum (s.groups.map GroupSpec.points)

/-- The scores of the cases of a group, if all are accepted. -/
def Spec.fullScores (A : FloatArith) (s : Spec) (groupId : String) : List ℚ :=
  (s.cases.filter fun testCase => testCase.group = groupId).map fun testCase =>
    A.round (A.mul testCase.scoring.points 1) 4

/-- The cases of each group are worth the group, up to rounding. -/
structure Spec.Solvable (A : FloatArith) (s : Spec) : Prop where
  total : s.totalPoints A ≤ 0 ∨ s.totalPoints A ≤ A.round (s.totalPoints A) 2
  worth : A.round (A.sum (s.groups.map fun group =>
    groupScore A group.scoring (s.fullScores A group.id))) 2 = A.round (s.totalPoints A) 2

/-- What scoring reads of the manifest of a package of the spec. -/
structure ScoresSpec (s : Spec) (m : ScoringManifest) : Prop where
  cases : m.cases = s.cases.map CaseSpec.scoring
  groups : m.groups = s.groups.map GroupSpec.scoring

theorem scoringGroup_tree {group : GroupSpec} (hvalid : group.Valid)
    (hreadable : Readable P.arith group.points) :
    ScoringGroup.ofJson P group.tree = some group.scoring := by
  have hmode : group.mode ≠ "" := by
    rcases hvalid.mode with heq | heq <;> rw [heq] <;> decide
  have hmembers : ∃ members, group.tree = .obj members ∧
      Json.lookup members "id" = some (.str group.id) ∧
      Json.lookup members "points" = some (numberTree group.points) ∧
      Json.lookup members "mode" = some (.str group.mode) := by
    refine ⟨_, rfl, ?_, ?_, ?_⟩ <;> rw [if_neg hmode] <;> rfl
  obtain ⟨members, htree, hid, hpoints, hmodeValue⟩ := hmembers
  have hread : pointsOf P (.obj members) = some group.points := by
    unfold pointsOf Json.get?
    dsimp only
    rw [hpoints, Option.getD_some, orDefault_numberTree, toFloat_numberTree hreadable]
  rw [htree, ScoringGroup.ofJson, hread]
  simp only [Option.map_some, Json.get?, hid, hmodeValue, Option.getD_some, Json.toStr_str]
  rfl

/-- Scoring reads the points of the spec. -/
theorem exists_scoresSpec (package : BuiltPackage T s) (hvalid : s.Valid) (hne : s.groups ≠ [])
    (hgroups : ∀ group ∈ s.groups, Readable P.arith group.points) (problem : Problem) :
    ∃ m, ScoringManifest.ofJson P (.obj (package.imported P problem).manifest) = some m ∧
      ScoresSpec s m := by
  have hcases : (JudgeLoom.manifestCases (.obj (package.imported P problem).manifest)).mapM
      (ScoringCase.ofJson P) = some (s.cases.map CaseSpec.scoring) := by
    rw [JudgeLoom.manifestCases, Json.get?, BuiltPackage.imported, lookup_cases_buildManifest]
    refine (mapM_scoringCase P _).trans (congrArg some ?_)
    rw [BuiltPackage.archiveCases, ← package.specs, List.map_map]
    refine List.ext_getElem (by simp) fun index hindex _ => ?_
    simp [BuiltCase.archiveCase, CaseSpec.scoring]
  have htrees : manifestGroups (.obj (package.imported P problem).manifest) =
      s.groups.map GroupSpec.tree := by
    obtain ⟨-, hlookup, -⟩ := lookup_manifest package.manifest
    have hstored : Json.lookup (package.imported P problem).manifest "groups" =
        some (.arr (s.groups.map GroupSpec.tree)) := by
      rw [BuiltPackage.imported, lookup_groups_buildManifest, hlookup]
      have hgiven : package.manifest.groups = s.groups := rfl
      rw [hgiven]
      exact if_pos (by simpa [Json.truthy] using hne)
    unfold manifestGroups Json.get?
    dsimp only
    rw [hstored]
  have hread : (s.groups.map GroupSpec.tree).mapM (ScoringGroup.ofJson P) =
      some (s.groups.map GroupSpec.scoring) := by
    rw [List.mapM_map]
    refine List.mapM_eq_some_map fun group hgroup => ?_
    exact scoringGroup_tree (hvalid.validGroups group hgroup) (hgroups group hgroup)
  let m : ScoringManifest := {
    cases := s.cases.map CaseSpec.scoring
    groups := s.groups.map GroupSpec.scoring
    partialScore := (((Json.obj (package.imported P problem).manifest).get?
      "partial_score").getD (.bool false)).truthy }
  refine ⟨m, ?_, rfl, rfl⟩
  unfold ScoringManifest.ofJson
  rw [hcases, htrees, hread]
  rfl

namespace ScoresSpec

variable {A : FloatArith} {m : ScoringManifest} (h : ScoresSpec s m)

include h

theorem ids : m.groups.map ScoringGroup.id = s.groups.map GroupSpec.id := by
  rw [h.groups, List.map_map]
  rfl

theorem groups_ne_nil (hne : s.groups ≠ []) : m.groups ≠ [] := by
  rw [h.groups, ne_eq, List.map_eq_nil_iff]
  exact hne

theorem totalPossible_eq (hne : s.groups ≠ []) : totalPossible A m = s.totalPoints A := by
  rw [totalPossible, groupsOf_of_ne_nil (h.groups_ne_nil hne), h.groups, List.map_map]
  rfl

/-- Every case is scored in its own group. -/
theorem resolveGroup_eq (hvalid : s.Valid) (hne : s.groups ≠ []) {testCase : CaseSpec}
    (hcase : testCase ∈ s.cases) :
    resolveGroup (groupDefs A m) testCase.scoring.group = testCase.group := by
  refine resolveGroup_of_contains (Dict.contains_iff.mpr ?_)
  have hgroup := (hvalid.validCases testCase hcase).group
  rw [← h.ids] at hgroup
  have hkeys : (groupDefs A m).keys = m.groups.map ScoringGroup.id := by
    have hnodup : (m.groups.map ScoringGroup.id).Nodup := h.ids ▸ hvalid.groupIds
    rw [Dict.keys, entries_groupDefs (h.groups_ne_nil hne) hnodup, List.map_map]
    rfl
  rw [hkeys]
  exact hgroup

theorem fullScores_eq (hvalid : s.Valid) (hne : s.groups ≠ []) (groupId : String) :
    fullScores A m groupId = s.fullScores A groupId := by
  unfold ScoringService.fullScores Spec.fullScores
  rw [h.cases, List.filter_map, List.map_map]
  refine congrArg (List.map _) (List.filter_congr fun testCase hcase => ?_)
  simp only [Function.comp_apply]
  rw [h.resolveGroup_eq hvalid hne hcase]

/-- The package is solvable exactly if the spec is. -/
theorem solvable_iff (hvalid : s.Valid) (hne : s.groups ≠ []) : m.Solvable A ↔ s.Solvable A := by
  have hworth : (m.groups.map fun group => groupScore A group (fullScores A m group.id)) =
      s.groups.map fun group => groupScore A group.scoring (s.fullScores A group.id) := by
    rw [h.groups, List.map_map]
    refine List.map_congr_left fun group _ => ?_
    simp only [Function.comp_apply]
    rw [h.fullScores_eq hvalid hne]
    rfl
  constructor
  · rintro ⟨htotal, hsum⟩
    rw [h.totalPossible_eq hne] at htotal hsum
    exact ⟨htotal, hworth ▸ hsum⟩
  · rintro ⟨htotal, hsum⟩
    rw [← h.totalPossible_eq hne] at htotal hsum
    exact ⟨htotal, hworth.symm ▸ hsum⟩

end ScoresSpec

/-! ## What the worker reports -/

section Reports

variable {results : List Go.CaseResult} {manifestCases : List Json} {A : FloatArith}
  {m : ScoringManifest}

/-- The rows of results that are posted in order. -/
theorem rows_posted
    (hnumbers : results.map Go.CaseResult.caseNumber = List.range' 1 results.length) :
    ((results.map Go.posted).foldl (upsertCase P manifestCases) ∅).rows =
      results.map fun result => reportRow P manifestCases (Go.posted result) := by
  have hpositive : ∀ result ∈ results, 0 < result.caseNumber := by
    intro result hresult
    have hmem : result.caseNumber ∈ List.range' 1 results.length :=
      hnumbers ▸ List.mem_map_of_mem hresult
    exact (List.mem_range'_1.mp hmem).1
  have hkeys : (results.map fun result =>
      (reportRow P manifestCases (Go.posted result)).caseNumber) =
        results.map Go.CaseResult.caseNumber :=
    List.map_congr_left fun result _ => Int.toNat_natCast _
  have hsorted : (results.map fun result =>
      reportRow P manifestCases (Go.posted result)).Pairwise
        fun first second => first.caseNumber < second.caseNumber := by
    rw [← List.pairwise_map (f := SubmissionTestCase.caseNumber), List.map_map]
    change List.Pairwise _ (results.map fun result =>
      (reportRow P manifestCases (Go.posted result)).caseNumber)
    rw [hkeys, hnumbers]
    exact List.pairwise_lt_range'
  rw [Go.foldl_upsertCase_posted hpositive]
  exact Table.rows_foldl_save hsorted fun row hrow => by cases hrow

/-- A row, as it is scored. -/
def payloadOf (P : Python) (manifestCases : List Json) (result : Go.CaseResult) : CasePayload :=
  casePayload (reportRow P manifestCases (Go.posted result))

/-- The server reads the full marks. -/
theorem accepted_of_fullMarks (hscores : ScoresSpec s m)
    (h : List.Forall₂ FullMarks s.cases results) :
    Accepted m.cases (results.map (payloadOf P manifestCases)) := by
  unfold Accepted
  rw [hscores.cases, List.forall₂_map_left_iff, List.forall₂_map_right_iff]
  refine h.imp fun testCase result hmarks => ?_
  obtain ⟨hstatus, hpoints, htotal⟩ := hmarks
  have hscoring : testCase.scoring.points = result.points := by
    rw [CaseSpec.scoring, ← hpoints]
    rfl
  refine ⟨?_, congrArg some hscoring.symm, ?_⟩
  · change some (SubmissionResult.ofReport result.status.code).value = _
    rw [hstatus]
    rfl
  · rw [hscoring]
    rw [← hpoints] at htotal
    exact htotal

theorem covers_of_fullMarks (hscores : ScoresSpec s m)
    (h : List.Forall₂ FullMarks s.cases results)
    (hnumbers : results.map Go.CaseResult.caseNumber = List.range' 1 results.length) :
    Covers m (results.map (payloadOf P manifestCases)) := by
  unfold Covers
  rw [hscores.cases, List.length_map, h.length_eq, ← hnumbers, List.map_map, List.map_map]
  refine List.map_congr_left fun result _ => ?_
  change ((Go.posted result).caseNumber.toNat : ℤ) = _
  exact Int.toNat_of_nonneg (Int.natCast_nonneg _)

/-- Accepted, with the points of all groups. -/
structure FullyGraded (A : FloatArith) (s : Spec) (status : SubmissionStatus)
    (result : Option SubmissionResult) (points : ℚ) : Prop where
  status : status = .completed
  result : result = some .AC
  points : points = A.round (s.totalPoints A) 2

/-- Full marks are scored as such exactly if the spec is solvable. -/
theorem fullyGraded_scoreManifest_iff (hvalid : s.Valid) (hne : s.groups ≠ [])
    (hscores : ScoresSpec s m) (hmarks : List.Forall₂ FullMarks s.cases results)
    (hnumbers : results.map Go.CaseResult.caseNumber = List.range' 1 results.length)
    {summary : ScoreSummary}
    (hsummary : summary = scoreManifest A m (results.map (payloadOf P manifestCases))) :
    FullyGraded A s summary.status (some summary.result) summary.points ↔ s.Solvable A := by
  have hids : (m.groups.map ScoringGroup.id).Nodup := hscores.ids ▸ hvalid.groupIds
  have hcases : m.cases ≠ [] := by
    rw [hscores.cases, ne_eq, List.map_eq_nil_iff]
    exact hvalid.cases.1
  have haccepted : Accepted m.cases (results.map (payloadOf P manifestCases)) :=
    accepted_of_fullMarks hscores hmarks
  have hcovers : Covers m (results.map (payloadOf P manifestCases)) :=
    covers_of_fullMarks hscores hmarks hnumbers
  have hresult := result_accepted (A := A) hcovers haccepted hcases
  have hawarded := awarded_accepted (A := A) haccepted (hscores.groups_ne_nil hne) hids
  have htotal := hscores.totalPossible_eq (A := A) hne
  rw [← hscores.solvable_iff hvalid hne, hsummary]
  constructor
  · rintro ⟨-, hAC, hpoints⟩
    have hverdict := Option.some.inj hAC
    have hkept := (summary_of_accepted hcovers hverdict).2
    rw [hpoints, ← htotal] at hkept
    refine ⟨?_, hawarded.symm.trans hkept.symm⟩
    rw [hkept]
    exact hresult.mp hverdict
  · rintro ⟨hreached, hworth⟩
    have hpoints := hawarded.trans hworth
    have hAC := hresult.mpr (by rwa [hpoints])
    obtain ⟨hstatus, hkept⟩ := summary_of_accepted hcovers hAC
    exact ⟨hstatus, congrArg some hAC, by rw [hkept, hpoints, htotal]⟩

end Reports

/-! ## The way of the solution -/

/-- The server reads the text of the manifest of a package of the spec. -/
def LoadsManifests (P : Python) (T : Toolchain Go.PackageManifest) (s : Spec) : Prop :=
  ∀ package : BuiltPackage T s, P.loads package.text = .ok (manifestTree package.manifest)

section Result

variable {machine : Machine C} {contents contents' : String → C} {quote : String → String}
  {transcript : List (Interaction.Entry Answer)} {assembled : List (String × Go.Bytes) × ℕ}
  {files : List String → Except Go.Bytes Go.Bytes} {job : Go.Job} {stored : ProblemPackage}
  {imported : Imported} {answers : List Go.Entry}
  {outcome : Except Go.JobError (List Go.CaseResult)} {id : ℕ}

/-- The server grades full marks of the worker. -/
theorem fullyGraded_iff_of_reports (hvalid : s.Valid) (hne : s.groups ≠ [])
    {m : ScoringManifest} (hm : ScoringManifest.ofJson P stored.manifest = some m)
    (hscores : ScoresSpec s m) {results : List Go.CaseResult}
    (hmarks : List.Forall₂ FullMarks s.cases results)
    (hnumbers : results.map Go.CaseResult.caseNumber = List.range' 1 results.length)
    (graded : FinishedRun P id) (hmode : graded.before.submission.mode = .submit)
    (hpackage : graded.before.job.package = some stored)
    (hreports : ∀ caseNumber, 0 < caseNumber →
      lastReport graded.reports caseNumber = lastReport (results.map Go.posted) caseNumber) :
    FullyGraded P.arith s graded.after.submission.status graded.after.submission.result
      graded.after.submission.points ↔ s.Solvable P.arith := by
  obtain ⟨hrows, package, scored, hgiven, hscored, hsame⟩ := graded.after_spec hmode
  obtain rfl : package = stored := Option.some.inj (hgiven.symm.trans hpackage)
  rw [foldl_upsertCase_congr hreports] at hrows
  unfold scoredOutcome at hscored
  rw [hrows, rows_posted hnumbers, List.map_map, score_of_ofJson hm] at hscored
  cases hscored
  rw [hsame.status, hsame.result, hsame.points]
  exact fullyGraded_scoreManifest_iff hvalid hne hscores hmarks hnumbers rfl

end Result

/-! ## The sample -/

def gradingPython : Python :=
  { Python.plain acceptingToolchain.arith with
    openZip := fun _ => .ok (sampleEntries.map zipEntry)
    loads := fun _ => .ok (manifestTree sampleBuilt.manifest) }

def gradingImport : Imported := sampleBuilt.imported gradingPython sampleProblem

def gradingStored : ProblemPackage where
  id := 1
  problem := 1
  version := 1
  sha256 := ""
  manifest := .obj gradingImport.manifest

theorem validate_acceptingToolchain : (sampleSpec.applyDefaults acceptingToolchain.arith).validate
    acceptingToolchain.quote acceptingToolchain.arith = .ok completeSpec := by
  decide +kernel

theorem importedAs_grading : gradingStored.ImportedAs gradingPython gradingImport := by
  have himportable : Importable sampleBuilt := {
    size := by decide
    checker := fun h => absurd h (by decide)
    validator := fun _ h => by cases h }
  have hread : readArchive gradingPython sampleProblem sampleBuilt.archive = .ok gradingImport ↔
      Importable sampleBuilt ∧ gradingImport = sampleBuilt.imported gradingPython sampleProblem :=
    readArchive_iff (P := gradingPython) sampleBuilt
      (valid_of_validate validate_acceptingToolchain).1
      (groups_ne_nil validate_acceptingToolchain)
      (readable_points rfl (fun _ _ _ _ => rfl) validate_acceptingToolchain)
      (readable_groups rfl (fun _ _ => rfl) validate_acceptingToolchain) rfl rfl
  exact ⟨⟨sampleProblem, hread.mpr ⟨himportable, rfl⟩⟩, by decide +kernel, rfl⟩

def servedFiles (path : List String) : Except Go.Bytes Go.Bytes :=
  if path = ["c", "d", "manifest.json"] then .ok [10] else .ok []

def servingAnswers : ∀ question, Go.Answer question
  | .ensure .. => .ok ()
  | .readFile _ path => servedFiles path
  | .post .. => accepted

/-- What the worker reports on the solution. -/
def sampleMarks : Go.CaseResult where
  caseNumber := 1
  status := .AC
  points := 1
  totalPoints := 1

def sampleAnswers : Option (List Go.Entry × Except Go.JobError (List Go.CaseResult)) :=
  (Go.execute acceptingToolchain.toRuntime sampleSubmission).run.replay
    (List.replicate 5 servingAnswers)

theorem initial_grading : World.Initial {} := World.initial_empty 0

/-- The server is told so. -/
def sampleGraded : FinishedRun gradingPython 1 where
  start := {}
  ops := [
    .createSubmission { sampleRequest with
      context := { problem := sampleProblem, activePackage := some gradingStored } },
    sampleClaim, .recordCases 7 1 [Go.posted sampleMarks]]
  judge := 7
  errorMessage := ""
  before := Option.get _ rfl
  after := Option.get _ rfl
  initial := initial_grading
  before_eq := (Option.some_get _).symm
  after_eq := (Option.some_get _).symm
  unfinished := by decide
  finished := by decide +kernel

theorem loadsManifests_sample : LoadsManifests gradingPython acceptingToolchain completeSpec := by
  intro package
  rw [manifest_sample package]
  rfl

theorem serves_servingAnswers (entry : Go.Entry) (h : entry.2 = servingAnswers entry.1) :
    Go.Serves acceptingMachine (fun _ => ()) servedFiles entry := by
  obtain ⟨question, answer⟩ := entry
  dsimp only at h
  subst h
  obtain _ | _ | ⟨call, commands⟩ := question
  · rfl
  · rfl
  · match commands with
    | [] => trivial
    | [command] => rfl
    | _ :: _ :: _ => trivial

theorem solvable_sample : completeSpec.Solvable acceptingToolchain.arith :=
  ⟨Or.inr (by decide +kernel), by decide +kernel⟩

end JudgeLoom.Authoring
