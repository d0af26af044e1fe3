import JudgeLoom.Authoring.Builder
import JudgeLoom.Worker.Unmarshal

/-!
# The manifest that the builder writes

`manifestTree` is the syntax tree of the text that `json.MarshalIndent` makes of a
manifest, with the names of the struct tags.  The encoder writes a float without fraction
and exponent if it is an integer of at most 21 digits, so that a reader takes it for an
`int`; and it writes a source that is not UTF-8 as its decoded text.

The manifest has more members than the worker reads, and two of them are left out if they
are empty.  `decodeManifest_manifestTree` says that the worker reads back the cases, the
checker and the validator as they were given.
-/

namespace JudgeLoom.Authoring

/-! ## The tree -/

/-- A float, as a reader of its text sees it. -/
def numberTree (q : ℚ) : Json :=
  if q.den = 1 ∧ |q| < 10 ^ 21 then .int q.num else .float (.finite q)

def ManifestChecker.tree (checker : ManifestChecker) : Json :=
  .obj (("type", .str checker.type) ::
    if checker.source = [] then [] else [("source", .str (Utf8.decode checker.source))])

def ManifestCase.tree (c : ManifestCase) : Json :=
  .obj [
    ("id", .str c.id),
    ("input", .str c.input),
    ("answer", .str c.answer),
    ("input_sha256", .str c.inputSHA256),
    ("answer_sha256", .str c.answerSHA256),
    ("points", numberTree c.points),
    ("group", .str c.group)]

def GeneratorCase.tree (c : GeneratorCase) : Json :=
  .obj (("id", .str c.id) :: if c.args = [] then [] else [("args", .arr (c.args.map .str))])

def GroupSpec.tree (group : GroupSpec) : Json :=
  .obj ([("id", .str group.id), ("points", numberTree group.points)] ++
    if group.mode = "" then [] else [("mode", .str group.mode)])

/-- The members of the text, in the order of the fields. -/
def manifestMembers (m : PackageManifest) : List (String × Json) :=
  [("schema", .int m.schema),
    ("problem_code", .str m.problemCode),
    ("time_limit", numberTree m.timeLimit),
    ("memory_limit", .int m.memoryLimit),
    ("partial_score", .bool m.partialScore),
    ("short_circuit", .bool m.shortCircuit),
    ("checker", m.checker.tree)] ++
  (m.validator.map fun validator => ("validator", validator.tree)).toList ++
  [("generator", .obj ([
      ("language", .str m.generator.1),
      ("source_sha256", .str m.generator.2.1)] ++
      if m.generator.2.2 = [] then []
      else [("cases", .arr (m.generator.2.2.map GeneratorCase.tree))])),
    ("solution", .obj [
      ("language", .str m.solution.1),
      ("source_sha256", .str m.solution.2)]),
    ("cases", .arr (m.cases.map ManifestCase.tree)),
    ("groups", .arr (m.groups.map GroupSpec.tree)),
    ("authoring", .obj [("tool", .str m.tool)])]

def manifestTree (m : PackageManifest) : Json := .obj (manifestMembers m)

/-! ## Reading it back -/

/-- The case, as the worker reads it. -/
def ManifestCase.packageCase (c : ManifestCase) : Go.PackageCase where
  id := c.id
  input := c.input
  answer := c.answer
  inputSHA256 := c.inputSHA256
  answerSHA256 := c.answerSHA256
  points := c.points
  group := c.group

/-- The checker or the validator, as the worker reads it. -/
def ManifestChecker.checkerSpec (checker : ManifestChecker) : Go.CheckerSpec where
  type := checker.type
  source := Utf8.decode checker.source

variable {A : FloatArith}

/-- A float that has a text. -/
def Readable (A : FloatArith) (q : ℚ) : Prop := A.IsFloat q ∧ A.overflows q = false

theorem number?_numberTree {q : ℚ} (h : Readable A q) : Go.number? A (numberTree q) = some q := by
  unfold numberTree
  split
  · next hinteger =>
      have hq : (q.num : ℚ) = q := Rat.coe_int_num_of_den_eq_one hinteger.1
      rw [Go.number?, hq, h.2, if_neg Bool.false_ne_true, h.1]
  · rfl

/-- The names of the manifest are compared as they are. -/
theorem foldName_field : ∀ name ∈ ["schema", "problem_code", "time_limit", "memory_limit",
    "partial_score", "short_circuit", "checker", "validator", "generator", "solution", "cases",
    "groups", "authoring", "id", "input", "answer", "input_sha256", "answer_sha256", "points",
    "group", "type", "source"], Go.foldName name = name := by
  decide

/-- What is read of a case of the manifest. -/
theorem decodeCase_tree {c : ManifestCase} (h : Readable A c.points) :
    Go.decodeCase A (Go.members c.tree) = c.packageCase := by
  have hfold := foldName_field
  simp only [List.forall_mem_cons] at hfold
  simp [ManifestCase.tree, Go.members, Go.decodeCase, ManifestCase.packageCase, Go.fieldValues,
    hfold, Go.decodeText, Go.decodeNumber, Go.text?, number?_numberTree h]

theorem isCase_tree {c : ManifestCase} (h : Readable A c.points) : Go.isCase A c.tree = true := by
  have hfold := foldName_field
  simp only [List.forall_mem_cons] at hfold
  have hnumber : Go.isNumber A (numberTree c.points) = true := by
    unfold Go.isNumber
    split
    · rfl
    · rw [number?_numberTree h]
      rfl
  simp [ManifestCase.tree, Go.isCase, Go.fieldValues, hfold, Go.isText, hnumber]

theorem decodeChecker_tree (checker : ManifestChecker) :
    Go.decodeChecker [checker.tree] = checker.checkerSpec := by
  have hfold := foldName_field
  simp only [List.forall_mem_cons] at hfold
  by_cases hsource : checker.source = []
  · simp [ManifestChecker.tree, ManifestChecker.checkerSpec, hsource, Go.members,
      Go.decodeChecker, Go.fieldValues, hfold, Go.decodeText, Go.text?]
    rfl
  · simp [ManifestChecker.tree, ManifestChecker.checkerSpec, hsource, Go.members,
      Go.decodeChecker, Go.fieldValues, hfold, Go.decodeText, Go.text?]

theorem isChecker_tree (checker : ManifestChecker) : Go.isChecker checker.tree = true := by
  have hfold := foldName_field
  simp only [List.forall_mem_cons] at hfold
  by_cases hsource : checker.source = []
  · simp [ManifestChecker.tree, hsource, Go.isChecker, Go.fieldValues, hfold, Go.isText]
  · simp [ManifestChecker.tree, hsource, Go.isChecker, Go.fieldValues, hfold, Go.isText]

/-- The values of the fields of the manifest that the worker reads. -/
theorem fieldValues_manifest (m : PackageManifest) :
    Go.fieldValues (manifestMembers m) "cases" = [.arr (m.cases.map ManifestCase.tree)] ∧
      Go.fieldValues (manifestMembers m) "checker" = [m.checker.tree] ∧
      Go.fieldValues (manifestMembers m) "validator" =
        (m.validator.map ManifestChecker.tree).toList := by
  have hfold := foldName_field
  simp only [List.forall_mem_cons] at hfold
  cases hvalidator : m.validator <;>
    simp [manifestMembers, hvalidator, Go.fieldValues, hfold]

/-- What the worker reads of a manifest that the builder wrote. -/
theorem decodeManifest_manifestTree {m : PackageManifest}
    (hpoints : ∀ c ∈ m.cases, Readable A c.points) :
    Go.isManifest A (manifestTree m) = true ∧
      Go.decodeManifest A (manifestTree m) = {
        cases := m.cases.map ManifestCase.packageCase
        checker := m.checker.checkerSpec
        validator := (m.validator.map ManifestChecker.checkerSpec).getD {} } := by
  obtain ⟨hcases, hchecker, hvalidator⟩ := fieldValues_manifest m
  constructor
  · rw [manifestTree, Go.isManifest, hcases, hchecker, hvalidator]
    simp only [List.all_cons, List.all_nil, Bool.and_true, Bool.and_eq_true, isChecker_tree,
      true_and, Go.isCases, List.all_eq_true, List.forall_mem_map]
    refine ⟨fun c hc => isCase_tree (hpoints c hc), fun value hvalue => ?_⟩
    obtain ⟨validator, -, rfl⟩ := Option.map_eq_some_iff.mp (Option.mem_toList.mp hvalue)
    exact isChecker_tree validator
  · have hitems : (m.cases.map ManifestCase.tree).map Go.members =
        m.cases.map fun c => Go.members c.tree := List.map_map
    rw [Go.decodeManifest, manifestTree, Go.members, hcases, hchecker, hvalidator,
      Go.decodeItems_singleton, hitems, List.map_map, decodeChecker_tree]
    congr 1
    · exact List.map_congr_left fun c hc => decodeCase_tree (hpoints c hc)
    · cases m.validator with
      | none => rfl
      | some validator => exact decodeChecker_tree validator

end JudgeLoom.Authoring
