import JudgeLoom.Worker.Sandbox

/-!
# The spec of a generated package

The builder of packages reads a spec and fills in what it leaves out.  The model has
the fields of the spec and `applyDefaults`; sources of programs are bytes, since they may
come from a file, and the other texts come from JSON.  The points of a spec are finite
floats: JSON has no others.
-/

namespace JudgeLoom.Authoring

structure CheckerSpec where
  type : String := ""
  source : Go.Bytes := []
  sourceFile : String := ""
  deriving DecidableEq

structure ValidatorSpec where
  type : String := ""
  source : Go.Bytes := []
  sourceFile : String := ""
  deriving DecidableEq

structure ProgramSpec where
  language : String
  source : Go.Bytes := []
  sourceFile : String := ""
  deriving DecidableEq

structure CaseSpec where
  id : String := ""
  args : List String := []
  points : Option ℚ := none
  group : String := ""
  deriving DecidableEq

structure GroupSpec where
  id : String
  points : ℚ
  mode : String := ""
  deriving DecidableEq

structure Spec where
  schema : ℤ := 0
  problemCode : String
  points : ℚ := 0
  timeLimit : ℚ := 0
  memoryLimit : ℤ := 0
  partialScore : Bool := false
  shortCircuit : Bool := false
  checker : CheckerSpec := {}
  validator : Option ValidatorSpec := none
  generator : ProgramSpec
  solution : ProgramSpec
  cases : List CaseSpec
  groups : List GroupSpec := []
  deriving DecidableEq

/-- `math.Round`: the nearest integer, halves away from zero. -/
def roundAway (value : ℚ) : ℤ :=
  if 0 ≤ value then ⌊value + 1 / 2⌋ else -⌊-value + 1 / 2⌋

theorem roundAway_intCast (z : ℤ) : roundAway z = z := by
  have hhalf : ⌊(1 / 2 : ℚ)⌋ = 0 := by norm_num
  unfold roundAway
  rw [← Int.cast_neg, Int.floor_intCast_add, Int.floor_intCast_add, hhalf]
  split_ifs <;> omega

def round2 (A : FloatArith) (value : ℚ) : ℚ := A.div (roundAway (A.mul value 100)) 100

/-- `strings.ToLower(strings.TrimSpace(text))`, for comparing with a word of ASCII letters. -/
def normalize (text : String) : String :=
  String.ofList (((text.toList.dropWhile Go.isSpace).rdropWhile Go.isSpace).map Go.toLower)

/-- `strings.TrimSpace(text) == ""`. -/
def isBlank (text : Go.Bytes) : Bool := Go.trimSpace text = []

def ValidatorSpec.applyDefaults (validator : ValidatorSpec) : ValidatorSpec :=
  let type :=
    if validator.type = "" then
      if isBlank validator.source ∧ isBlank (Utf8.encode validator.sourceFile) then "none"
      else "testlib"
    else validator.type
  { validator with type := normalize type }

/-- `fmt.Sprintf("%02d", number)`. -/
def twoDigits (number : ℕ) : String :=
  if number < 10 then "0" ++ toString number else toString number

/-- One round of the loop over the cases of a spec with `count` cases. -/
def CaseSpec.applyDefaults (A : FloatArith) (points : ℚ) (count index : ℕ) (testCase : CaseSpec) :
    CaseSpec where
  id := if testCase.id = "" then twoDigits (index + 1) else testCase.id
  args := testCase.args
  points := some (testCase.points.getD (round2 A (A.div points count)))
  group := if testCase.group = "" then "default" else testCase.group

def GroupSpec.applyDefaults (group : GroupSpec) : GroupSpec :=
  { group with mode := if group.mode = "" then "sum" else group.mode }

namespace Spec

def applyDefaults (A : FloatArith) (s : Spec) : Spec :=
  let points := if s.points ≤ 0 then 100 else s.points
  let checkerType := if s.checker.type = "" then "exact" else s.checker.type
  let cases := s.cases.mapIdx (CaseSpec.applyDefaults A points s.cases.length)
  let groups := s.groups.map GroupSpec.applyDefaults
  { s with
    schema := if s.schema = 0 then 1 else s.schema
    points
    timeLimit := if s.timeLimit ≤ 0 then 2 else s.timeLimit
    memoryLimit := if s.memoryLimit ≤ 0 then 262144 else s.memoryLimit
    checker := { s.checker with type := normalize checkerType }
    validator := s.validator.map ValidatorSpec.applyDefaults
    cases
    groups :=
      if groups = [] then
        [{ id := "default", points := round2 A (A.accumulate (cases.filterMap CaseSpec.points)),
           mode := "sum" }]
      else groups }

/-- A spec is worth something. -/
theorem points_applyDefaults_pos (A : FloatArith) (s : Spec) : 0 < (s.applyDefaults A).points := by
  unfold applyDefaults
  dsimp only
  split_ifs with h
  · norm_num
  · exact not_le.mp h

/-- Every case has points afterwards, and a group. -/
theorem exists_points_applyDefaults (A : FloatArith) (s : Spec) :
    ∀ testCase ∈ (s.applyDefaults A).cases, testCase.points.isSome ∧ testCase.group ≠ "" := by
  intro testCase hcase
  obtain ⟨index, hlt, rfl⟩ := List.mem_mapIdx.mp hcase
  refine ⟨rfl, ?_⟩
  unfold CaseSpec.applyDefaults
  dsimp only
  split_ifs with h
  · decide
  · exact h

theorem groups_applyDefaults_ne_nil (A : FloatArith) (s : Spec) :
    (s.applyDefaults A).groups ≠ [] := by
  unfold applyDefaults
  dsimp only
  by_cases h : s.groups.map GroupSpec.applyDefaults = []
  · rw [if_pos h]
    exact List.cons_ne_nil _ _
  · rw [if_neg h]
    exact h

/-- The points of cases that are given none. -/
theorem map_points_applyDefaults (A : FloatArith) (s : Spec)
    (hmissing : ∀ testCase ∈ s.cases, testCase.points = none) :
    (s.applyDefaults A).cases.filterMap CaseSpec.points =
      List.replicate s.cases.length
        (round2 A (A.div (s.applyDefaults A).points s.cases.length)) := by
  have hpoints : ∀ testCase ∈ (s.applyDefaults A).cases, testCase.points =
      some (round2 A (A.div (s.applyDefaults A).points s.cases.length)) := by
    intro testCase hcase
    obtain ⟨index, hlt, rfl⟩ := List.mem_mapIdx.mp hcase
    show some (Option.getD _ _) = some _
    rw [hmissing _ (List.getElem_mem hlt)]
    rfl
  have hlength : (s.applyDefaults A).cases.length = s.cases.length := List.length_mapIdx
  rw [List.filterMap_congr hpoints]
  apply List.eq_replicate_iff.mpr
  simp [hlength]

end Spec

end JudgeLoom.Authoring
