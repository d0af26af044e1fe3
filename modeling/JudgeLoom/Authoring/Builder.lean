import JudgeLoom.Authoring.Spec
import JudgeLoom.Library.Effects
import JudgeLoom.Library.FileSystem
import JudgeLoom.Library.SlashPath
import JudgeLoom.Worker.Checker
import JudgeLoom.Worker.Execute
import JudgeLoom.Worker.Store

/-!
# Building a package

`Builder.Build` compiles the programs of a spec, generates the input and the answer of
each case in the sandbox, and writes them with a manifest into a ZIP archive, which is
published by a rename.  It is a program over the questions of the worker to the sandbox
and over the calls of package `os` that write the archive.

The sandbox sees a source as JSON carries it, so a source that is not UTF-8 is handed to
the checker and the validator as its decoded text.
-/

namespace JudgeLoom.Authoring

open Go (RunSpec RunResult)
open Utf8 (encode)

/-! ## Validation -/

section Validation

variable (quote : String → String)

/-- A letter or digit of ASCII. -/
def isAlphanumeric (c : Char) : Bool :=
  ('0' ≤ c && c ≤ '9') || ('A' ≤ c && c ≤ 'Z') || ('a' ≤ c && c ≤ 'z')

/-- `[A-Za-z0-9][A-Za-z0-9…]*`, where `extra` are the other letters that may follow, in a text
of at most `limit` bytes. -/
def matchesName (extra : List Char) (limit : ℕ) (text : String) : Bool :=
  match text.toList with
  | [] => false
  | first :: rest =>
      isAlphanumeric first && (rest.all fun c => isAlphanumeric c || extra.contains c) &&
        (encode text).length ≤ limit

/-- `language.Get`: the key of the profile. -/
def languageKey (key : String) : Option String :=
  match String.ofList ((Utf8.decode (Go.trimSpace (encode key))).toList.map Char.toUpper) with
  | "PY3" | "PYTHON3" | "PYTHON" => some "PY3"
  | "CPP17" | "CPP" | "C++17" => some "CPP17"
  | _ => none

def maxSourceBytes : ℕ := 262144

/-- `MaxManifestPoints`. -/
def validPoints (points : ℚ) : Prop := 0 ≤ points ∧ points ≤ 1000000

instance : DecidablePred validPoints := fun points =>
  inferInstanceAs (Decidable (0 ≤ points ∧ points ≤ 1000000))

/-- `fmt.Errorf` of a text. -/
def failure (text : String) : Except Go.Bytes Unit := .error (encode text)

def CheckerSpec.validate (checker : CheckerSpec) : Except Go.Bytes Unit :=
  match checker.type with
  | "exact" | "none" =>
      if isBlank checker.source then .ok ()
      else failure "checker: source is only valid for testlib"
  | "testlib" =>
      if isBlank checker.source then
        failure "checker: testlib requires inline source or source_file"
      else if maxSourceBytes < checker.source.length then
        failure "checker: source exceeds 262144 bytes"
      else .ok ()
  | "interactive" =>
      failure "checker: interactive packages need static answers; use exact, testlib, or none"
  | type => failure ("checker: unsupported type " ++ quote type)

def ValidatorSpec.validate (validator : ValidatorSpec) : Except Go.Bytes Unit :=
  match validator.type with
  | "none" =>
      if isBlank validator.source then .ok ()
      else failure "validator: source is only valid for testlib"
  | "testlib" =>
      if isBlank validator.source then
        failure "validator: testlib requires inline source or source_file"
      else if maxSourceBytes < validator.source.length then
        failure "validator: source exceeds 262144 bytes"
      else .ok ()
  | type => failure ("validator: unsupported type " ++ quote type)

/-- `validateProgram`, which replaces the language by its key. -/
def validateProgram (program : ProgramSpec) (field : String) : Except Go.Bytes ProgramSpec :=
  if isBlank program.source then .error (encode (field ++ ": source is required"))
  else if maxSourceBytes < program.source.length then
    .error (encode (field ++ ": source exceeds 262144 bytes"))
  else
    match languageKey program.language with
    | none => .error (encode (field ++ ": unsupported language " ++ quote program.language))
    | some language => .ok { program with language }

/-- The loop over the groups, after those with the ids `seen`. -/
def validateGroups (seen : List String) : List GroupSpec → Except Go.Bytes Unit
  | [] => .ok ()
  | group :: rest =>
      if ¬ matchesName ['_', '-'] 32 group.id then
        failure ("groups: invalid id " ++ quote group.id)
      else if group.id ∈ seen then failure ("groups: duplicate id " ++ quote group.id)
      else if ¬ validPoints group.points then
        failure ("groups: " ++ group.id ++ " points must be finite and in [0, 1000000]")
      else if group.mode ≠ "sum" ∧ group.mode ≠ "min" then
        failure ("groups: unsupported mode " ++ quote group.mode)
      else validateGroups (group.id :: seen) rest

/-- An argument that a case may have. -/
def validArg (arg : String) : Prop := (encode arg).length ≤ 256 ∧ Char.ofNat 0 ∉ arg.toList

instance : DecidablePred validArg := fun arg =>
  inferInstanceAs (Decidable ((encode arg).length ≤ 256 ∧ Char.ofNat 0 ∉ arg.toList))

/-- The loop over the cases, after those with the ids `seen`. -/
def validateCases (groups seen : List String) : List CaseSpec → Except Go.Bytes Unit
  | [] => .ok ()
  | testCase :: rest =>
      if ¬ matchesName ['_', '.', '-'] 64 testCase.id then
        failure ("cases: invalid id " ++ quote testCase.id)
      else if testCase.id ∈ seen then failure ("cases: duplicate id " ++ quote testCase.id)
      else if testCase.group ∉ groups then
        failure ("cases: " ++ testCase.id ++ " references unknown group " ++ quote testCase.group)
      else if 32 < testCase.args.length then
        failure ("cases: " ++ testCase.id ++ " has more than 32 args")
      else if ¬ ∀ arg ∈ testCase.args, validArg arg then
        failure ("cases: " ++ testCase.id ++ " has an invalid arg")
      else if ¬ ∃ points ∈ testCase.points, validPoints points then
        failure ("cases: " ++ testCase.id ++ " points must be finite and in [0, 1000000]")
      else validateCases groups (testCase.id :: seen) rest

/-- The checks of the fields that stand alone. -/
def Spec.validateFields (A : FloatArith) (s : Spec) : Except Go.Bytes Unit :=
  if s.schema ≠ 1 then failure ("unsupported schema " ++ toString s.schema)
  else if ¬ matchesName ['_', '-'] 32 s.problemCode then
    failure "problem_code must match [A-Za-z0-9][A-Za-z0-9_-]* and be at most 32 bytes"
  else if s.points ≤ 0 ∨ 1000000 < s.points then
    failure "points must be finite and in (0, 1000000]"
  else if s.timeLimit < A.fl (1 / 10) ∨ 60 < s.timeLimit then
    failure "time_limit must be between 0.1 and 60 seconds"
  else if s.memoryLimit < 1024 ∨ 1048576 < s.memoryLimit then
    failure "memory_limit must be between 1024 and 1048576 KiB"
  else if s.cases.length = 0 ∨ 200 < s.cases.length then
    failure "cases must contain between 1 and 200 entries"
  else .ok ()

def Spec.validate (A : FloatArith) (s : Spec) : Except Go.Bytes Spec := do
  s.validateFields A
  s.checker.validate quote
  match s.validator with
  | none => pure ()
  | some validator => validator.validate quote
  let generator ← validateProgram quote s.generator "generator"
  let solution ← validateProgram quote s.solution "solution"
  validateGroups quote [] s.groups
  validateCases quote (s.groups.map GroupSpec.id) [] s.cases
  return { s with generator, solution }

end Validation

/-! ## The manifest -/

structure ManifestChecker where
  type : String
  source : Go.Bytes

structure ManifestCase where
  id : String
  input : String
  answer : String
  inputSHA256 : String
  answerSHA256 : String
  points : ℚ
  group : String

/-- `generatorCaseMeta`. -/
structure GeneratorCase where
  id : String
  args : List String

/-- `packageManifest`; the language and the hash of the source of the programs. -/
structure PackageManifest where
  schema : ℤ
  problemCode : String
  timeLimit : ℚ
  memoryLimit : ℤ
  partialScore : Bool
  shortCircuit : Bool
  checker : ManifestChecker
  validator : Option ManifestChecker
  generator : String × String × List GeneratorCase
  solution : String × String
  cases : List ManifestCase
  groups : List GroupSpec
  tool : String

/-- What the builder uses of the standard library, besides what the worker does. -/
structure Toolchain (Manifest : Type) extends Go.Runtime Manifest where
  /-- `json.MarshalIndent`. -/
  marshalIndent : PackageManifest → Except Go.Bytes Go.Bytes
  /-- What `zip.Writer` makes of the entries. -/
  zip : List (String × Go.Bytes) → Go.Bytes

/-! ## Questions -/

/-- The questions of the worker, and the calls of the builder.  `closeWriter` writes the
end of the archive whose entries were added, `discard` that of one that is given up;
`readFile` stands for opening a file and copying it. -/
inductive Question
  | worker (question : Go.Question)
  | mkdirAll (path : Go.Bytes)
  | createTemp (dir pattern : Go.Bytes)
  | add (temp : Go.Bytes) (entry : String × Go.Bytes)
  | closeWriter (temp : Go.Bytes) (entries : List (String × Go.Bytes))
  | discard (temp : Go.Bytes)
  | close (temp : Go.Bytes)
  | rename (oldPath newPath : Go.Bytes)
  | remove (path : Go.Bytes)
  | readFile (path : Go.Bytes)
  | stat (path : Go.Bytes)

/-- `createTemp` answers with the name of the file, `stat` with a size. -/
abbrev Answer : Question → Type
  | .worker question => Go.Answer question
  | .createTemp .. => Except Go.Bytes Go.Bytes
  | .readFile _ => Except Go.Bytes Go.Bytes
  | .stat _ => Except Go.Bytes ℤ
  | _ => Except Go.Bytes Unit

abbrev Program := Interaction Question Answer

abbrev Task := Interaction.Fallible Question Answer Go.Bytes

def query (question : Question) : Task (Answer question) :=
  monadLift (Interaction.query question : Program (Answer question))

/-- A part whose failure is looked at. -/
def attempt {α : Type} (task : Task α) : Task (Except Go.Bytes α) :=
  monadLift (task.run : Program (Except Go.Bytes α))

/-- A part of the worker. -/
def sandbox {α : Type} (program : Go.Program α) : Program α :=
  program.embed Question.worker fun _ answer => answer

/-- `fmt.Errorf("…: %w", err)` for the error of a part of the worker. -/
def sandboxed {α : Type} (context : String) (action : Go.Action α) : Task α := do
  liftExcept ((← (sandbox action.run : Program (Except Go.JobError α))).mapError fun error =>
    encode context ++ error.message)

section Build

variable {Manifest : Type} (T : Toolchain Manifest)

/-! ## The cases -/

/-- `PrepareWithFiles`. -/
def prepareWithFiles (caseNumber : ℕ) (language : String) (source : Go.Bytes) (memoryLimit : ℤ)
    (extraFiles : List (String × Go.Bytes)) : Go.Action RunSpec :=
  match Go.getLanguage language with
  | none => throw (.other (encode "unsupported language"))
  | some profile =>
      let runSpec := { profile.run with env := Go.Runner.environment }
      let copyIn := (profile.sourceName, source) :: extraFiles
      match profile.compile with
      | none => pure { runSpec with copyIn }
      | some compile => do
          let result ← Go.GoJudge.run { purpose := .compile, caseNumber }
            { compile with
              env := Go.Runner.environment
              copyIn
              cpuTime := 10 * Go.second
              clockTime := 20 * Go.second
              memoryBytes := memoryLimit
              procLimit := 64 }
          let fileID ← liftExcept (Go.Runner.compiled result)
          return { runSpec with copyInCached := [("main", fileID)] }

/-- `Prepare` is `PrepareWithFiles` without files. -/
theorem prepareWithFiles_nil (caseNumber : ℕ) (language source : String) (memoryLimit : ℤ) :
    prepareWithFiles caseNumber language (encode source) memoryLimit [] =
      Go.Runner.prepare caseNumber language source memoryLimit := by
  unfold prepareWithFiles Go.Runner.prepare
  cases Go.getLanguage language with
  | none => rfl
  | some profile =>
      dsimp only
      cases profile.compile with
      | none => rfl
      | some compile => rfl

/-- `RunPrepared`. -/
def runPrepared (caseNumber : ℕ) (prepared : RunSpec) (input : Go.Bytes) (args : List String)
    (timeLimit memoryLimit : ℤ) : Go.Program RunResult :=
  Go.GoJudge.run { purpose := .run, caseNumber }
    { Go.Runner.preparedSpec prepared input timeLimit memoryLimit with
      args := prepared.args ++ args }

def validatorTimeLimit (caseLimit : ℤ) : ℤ :=
  if caseLimit < 2 * Go.second then 2 * Go.second else caseLimit

/-- The beginning of the error of a case. -/
def caseError (testCase : CaseSpec) (text : String) : Go.Bytes :=
  encode ("case " ++ testCase.id ++ ": " ++ text)

def runFailure (testCase : CaseSpec) (stage : String) (result : RunResult) : Go.Bytes :=
  let stderr := Go.trimSpace result.stderr
  let message :=
    if stderr ≠ [] then stderr
    else if result.error ≠ [] then result.error
    else encode result.status.code
  caseError testCase (stage ++ " failed (" ++ result.status.code ++ "): ") ++ message

/-- What the loop over the cases uses. -/
structure Plan where
  generator : RunSpec
  solution : RunSpec
  validator : Option String
  checker : Go.CheckerSpec
  timeLimit : ℤ
  memory : ℤ
  compileMemory : ℤ

/-- What the loop has so far; `kept` is the binary of the checker. -/
structure Built where
  inputs : List Go.Bytes := []
  answers : List Go.Bytes := []
  manifestCases : List ManifestCase := []
  generatorCases : List GeneratorCase := []
  totalBytes : ℤ := 0
  kept : Option String := none

def generatorCPUTime : ℤ := 30 * Go.second

def generatorMemoryBytes : ℤ := 1073741824

/-- Generate the input of a case, and validate it. -/
def generateInput (plan : Plan) (caseNumber : ℕ) (testCase : CaseSpec) : Task Go.Bytes := do
  let generated ← (sandbox (runPrepared caseNumber plan.generator [] testCase.args
    generatorCPUTime generatorMemoryBytes) : Program RunResult)
  if generated.status ≠ .AC then throw (runFailure testCase "generator" generated)
  else if 16777216 < generated.stdout.length then
    throw (caseError testCase "generated input exceeds 16777216 bytes")
  else
    match plan.validator with
    | none => return generated.stdout
    | some fileID =>
        let validated ← (sandbox (Go.Checker.validate caseNumber fileID generated.stdout
          (validatorTimeLimit plan.timeLimit) plan.compileMemory) : Program Go.CheckResult)
        if validated.status ≠ .AC then
          throw (caseError testCase ("validator rejected generated input (" ++
            validated.status.code ++ "): ") ++ validated.message)
        else return generated.stdout

/-- Run the solution for its answer. -/
def solve (plan : Plan) (caseNumber : ℕ) (testCase : CaseSpec) (input : Go.Bytes) :
    Task Go.Bytes := do
  let solved ← (sandbox (runPrepared caseNumber plan.solution input [] plan.timeLimit
    plan.memory) : Program RunResult)
  if solved.status ≠ .AC then throw (runFailure testCase "solution" solved)
  else if 16777216 < solved.stdout.length then
    throw (caseError testCase "generated answer exceeds 16777216 bytes")
  else return solved.stdout

/-- `checkerImpl.Check` of the answer against itself, if there is a checker. -/
def runChecker (plan : Plan) (caseNumber : ℕ) (kept : Option String) (input answer : Go.Bytes) :
    Program (Go.CheckResult × Option String) :=
  match plan.checker.type with
  | "exact" => pure (Go.Checker.exact answer answer, kept)
  | "testlib" => sandbox (Go.Checker.check T.toRuntime caseNumber plan.checker kept input answer
      answer plan.timeLimit plan.memory)
  | _ => pure ({ status := .AC }, kept)

/-- Let the checker judge the answer by itself. -/
def checkAnswer (plan : Plan) (caseNumber : ℕ) (testCase : CaseSpec) (kept : Option String)
    (input answer : Go.Bytes) : Task (Option String) := do
  let checked ← runChecker T plan caseNumber kept input answer
  if checked.1.status ≠ .AC then
    throw (caseError testCase ("checker rejected model answer (" ++ checked.1.status.code ++
      "): ") ++ checked.1.message)
  else return checked.2

/-- The body of the loop over the cases. -/
def buildCase (plan : Plan) (built : Built) (testCase : CaseSpec) : Task Built := do
  let number := built.inputs.length + 1
  let input ← generateInput plan number testCase
  let answer ← solve plan number testCase input
  let totalBytes := built.totalBytes + (input.length + answer.length)
  if 267386880 < totalBytes then throw (encode "generated test data exceeds 267386880 bytes")
  else
    let kept ← checkAnswer T plan number testCase built.kept input answer
    return {
      inputs := built.inputs ++ [input]
      answers := built.answers ++ [answer]
      manifestCases := built.manifestCases ++ [{
        id := testCase.id
        input := "data/" ++ twoDigits number ++ ".in"
        answer := "data/" ++ twoDigits number ++ ".ans"
        inputSHA256 := T.sha256 input
        answerSHA256 := T.sha256 answer
        points := testCase.points.getD 0
        group := testCase.group }]
      generatorCases := built.generatorCases ++ [{ id := testCase.id, args := testCase.args }]
      totalBytes
      kept }

def buildCases (plan : Plan) : Built → List CaseSpec → Task Built
  | built, [] => pure built
  | built, testCase :: rest => do
      let built ← buildCase T plan built testCase
      buildCases plan built rest

/-! ## The archive -/

def manifest (s : Spec) (built : Built) : PackageManifest where
  schema := 1
  problemCode := s.problemCode
  timeLimit := s.timeLimit
  memoryLimit := s.memoryLimit
  partialScore := s.partialScore
  shortCircuit := s.shortCircuit
  checker := { type := s.checker.type, source := s.checker.source }
  validator := (s.validator.filter (·.type = "testlib")).map fun validator =>
    { type := "testlib", source := validator.source }
  generator := (s.generator.language, T.sha256 s.generator.source, built.generatorCases)
  solution := (s.solution.language, T.sha256 s.solution.source)
  cases := built.manifestCases
  groups := s.groups
  tool := "judgeloom-package"

/-- The data files, in the order in which they are added. -/
def dataEntries (number : ℕ) : List Go.Bytes → List Go.Bytes → List (String × Go.Bytes)
  | input :: inputs, answer :: answers =>
      ("data/" ++ twoDigits number ++ ".in", input) ::
        ("data/" ++ twoDigits number ++ ".ans", answer) :: dataEntries (number + 1) inputs answers
  | _, _ => []

/-- The binary of the validator, if the spec has one. -/
def prepareValidator (s : Spec) (compileMemory : ℤ) : Task (Option String) :=
  match s.validator.filter (·.type = "testlib") with
  | none => pure none
  | some validator => do
      let fileID ← sandboxed "compile validator: " (Go.Checker.newValidator T.toRuntime
        { type := "testlib", source := Utf8.decode validator.source } compileMemory)
      return some fileID

/-- The switch that chooses the checker. -/
def checkCheckerType (type : String) : Except Go.Bytes Unit :=
  match type with
  | "exact" | "testlib" | "none" => .ok ()
  | type => .error (encode ("unsupported checker type " ++ T.quote type))

/-- What `Build` does in the sandbox: the entries of the archive, and the number of cases. -/
def assemble (s : Spec) : Task (List (String × Go.Bytes) × ℕ) := do
  let memory := s.memoryLimit * 1024
  let compileMemory := max memory 268435456
  let headers := if s.generator.language = "CPP17" then Go.Checker.testlibHeaders T.toRuntime
    else []
  let generator ← sandboxed "compile generator: "
    (prepareWithFiles 0 s.generator.language s.generator.source generatorMemoryBytes headers)
  let solution ← sandboxed "compile solution: "
    (prepareWithFiles 0 s.solution.language s.solution.source compileMemory [])
  let validator ← prepareValidator T s compileMemory
  liftExcept (checkCheckerType T s.checker.type)
  let plan : Plan := {
    generator
    solution
    validator
    checker := { type := s.checker.type, source := Utf8.decode s.checker.source }
    timeLimit := Go.truncateFloat (T.arith.mul s.timeLimit Go.second)
    memory
    compileMemory }
  let built ← buildCases T plan {} s.cases
  let data ← liftExcept (T.marshalIndent (manifest T s built))
  return (("manifest.json", data ++ [10]) :: dataEntries 1 built.inputs built.answers,
    built.inputs.length)

/-- `add` for each entry; if one fails, both writers are closed. -/
def addEntries (temp : Go.Bytes) : List (String × Go.Bytes) → Task Unit
  | [] => pure ()
  | entry :: rest => do
      match ← query (.add temp entry) with
      | .ok _ => addEntries temp rest
      | .error error =>
          let _ ← query (.discard temp)
          let _ ← query (.close temp)
          throw error

/-- `writePackage` from the new writer on, without the deferred removal. -/
def writeEntries (temp path : Go.Bytes) (entries : List (String × Go.Bytes)) : Task Unit := do
  addEntries temp entries
  match ← query (.closeWriter temp entries) with
  | .error error =>
      let _ ← query (.close temp)
      throw error
  | .ok _ =>
      liftExcept (← query (.close temp))
      match ← query (.rename temp path) with
      | .ok _ => return ()
      | .error error =>
          match ← query (.remove path) with
          | .error _ => throw (encode "publish output archive: " ++ error)
          | .ok _ =>
              liftExcept ((← query (.rename temp path)).mapError
                (encode "publish output archive: " ++ ·))

def writePackage (path : Go.Bytes) (entries : List (String × Go.Bytes)) : Task Unit := do
  let directory := SlashPath.dir path
  liftExcept ((← query (.mkdirAll directory)).mapError (encode "create output directory: " ++ ·))
  let temp ← liftExcept ((← query (.createTemp directory
    (encode ".judgeloom-package-*.zip"))).mapError (encode "create output archive: " ++ ·))
  match ← attempt (writeEntries temp path entries) with
  | .ok _ => return ()
  | .error error =>
      -- the deferred removal, whose error is dropped
      let _ ← query (.remove temp)
      throw error

structure Result where
  path : Go.Bytes
  sha256 : String
  sizeBytes : ℤ
  cases : ℕ

/-- `MaxArchiveBytes`. -/
def maxArchiveBytes : ℤ := 67108864

/-- `Build`, for a builder that has its executor and its runner or not. -/
def build (configured : Bool) (spec : Spec) (outPath : Go.Bytes) : Task Result :=
  if configured = false then throw (encode "go-judge executor and runner are required")
  else do
    let spec ← liftExcept ((spec.applyDefaults T.arith).validate T.quote T.arith)
    if isBlank outPath then throw (encode "output path is required")
    else
      let (entries, cases) ← assemble T spec
      writePackage outPath entries
      let content ← liftExcept (← query (.readFile outPath))
      let size ← liftExcept (← query (.stat outPath))
      if maxArchiveBytes < size then
        let _ ← query (.remove outPath)
        throw (encode "package archive exceeds 67108864 bytes")
      else return { path := outPath, sha256 := T.sha256 content, sizeBytes := size, cases }

end Build

end JudgeLoom.Authoring
