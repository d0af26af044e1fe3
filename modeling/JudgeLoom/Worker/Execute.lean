import JudgeLoom.Worker.Checker

/-!
# Executing a job

`JobExecutor.Execute` as `main` configures it, and what the worker reports to the
server: the results of the cases, or the failure of the job with a verdict that
`failJob` reads off the error.
-/

namespace JudgeLoom.Go

open Utf8 (encode)

/-- `packageCase`. -/
structure PackageCase where
  id : String
  input : String
  answer : String
  inputSHA256 : String := ""
  answerSHA256 : String := ""
  points : ℚ := 0
  group : String := ""

/-- `packageManifest`. -/
structure PackageManifest where
  cases : List PackageCase := []
  checker : CheckerSpec := {}
  validator : CheckerSpec := {}

/-- The fields of `api.Job` that the executor reads; the limits are in seconds and in
kibibytes. -/
structure Job where
  language : String
  source : String
  mode : String
  customInput : String := ""
  expectedOutput : String := ""
  time : ℚ
  memory : ℤ
  shortCircuit : Bool := false
  problemID : ℤ
  digest : String
  checker : CheckerSpec := {}
  cases : List PackageCase := []

/-- `api.CaseResult`. -/
structure CaseResult where
  caseNumber : ℕ
  status : Verdict
  timeUsed : ℚ := 0
  memoryUsed : ℤ := 0
  points : ℚ := 0
  totalPoints : ℚ := 0
  feedback : Bytes := []
  output : Bytes := []
  deriving DecidableEq

variable (G : Runtime PackageManifest)

/-! ## Limits and files -/

/-- A conversion of a float to an integer drops the fraction. -/
def truncateFloat (q : ℚ) : ℤ := if 0 ≤ q then ⌊q⌋ else ⌈q⌉

def Job.timeLimit (job : Job) : ℤ :=
  let limit := truncateFloat (G.arith.mul job.time second)
  if limit ≤ 0 then 2 * second else limit

def Job.memoryBytes (job : Job) : ℤ :=
  if job.memory * 1024 ≤ 0 then 256 * 1024 * 1024 else job.memory * 1024

/-- `truncate(data, 4096)`. -/
def truncateOutput (data : Bytes) : Bytes := data.take 4096

/-- `float64(run.Time) / float64(time.Second)`. -/
def seconds (A : FloatArith) (time : ℤ) : ℚ := A.div (A.fl time) second

/-- `filepath.Clean` of an absolute path that goes on with `element`. -/
def pathStep (path : List String) (element : String) : List String :=
  if element = "" ∨ element = "." then path
  else if element = ".." then path.dropLast
  else path ++ [element]

/-- `filepath.Clean(filepath.Join(root, relative))`. -/
def resolvePath (root : List String) (relative : String) : List String :=
  ((relative.toList.splitOn '/').map String.ofList).foldl pathStep root

def readPackageFile (caseNumber : ℕ) (root : List String) (relative : String) : Action Bytes :=
  let target := resolvePath root relative
  if root.isPrefixOf target then do
    liftExcept ((← ask (.readFile caseNumber target)).mapError JobError.other)
  else throw (.other (encode ("package file escapes root: " ++ G.quote relative)))

def verifyFileHash (data : Bytes) (expected : String) : Except JobError Unit :=
  if expected = "" ∨ G.sha256 data = expected then .ok ()
  else .error (.other (encode "package file hash mismatch"))

/-- `Store.Ensure`: the directory of a package. -/
def ensure (job : Job) : Action (List String) := do
  liftExcept ((← ask (.ensure job.problemID job.digest)).mapError JobError.other)
  return G.cacheRoot ++ [job.digest]

def loadManifest (root : List String) : Action PackageManifest := do
  let payload ← liftExcept
    ((← ask (.readFile 0 (root ++ ["manifest.json"]))).mapError JobError.other)
  liftExcept ((G.unmarshalManifest payload).mapError JobError.other)

/-! ## One case -/

/-- What is the same for every case of a job. -/
structure Plan where
  job : Job
  root : List String
  checker : CheckerSpec
  /-- The binary of the validator, if there is one. -/
  validator : Option String

/-- The validator's part of a case. -/
def validateInput (plan : Plan) (caseNumber : ℕ) (testCase : PackageCase) (input : Bytes) :
    Action Unit :=
  match plan.validator with
  | none => pure ()
  | some fileID => do
      let validated ← Checker.validate caseNumber fileID input (plan.job.timeLimit G)
        plan.job.memoryBytes
      if validated.status ≠ .AC then
        throw (.other (encode ("test data validator rejected " ++ testCase.input ++ ": ") ++
          validated.message))
      else pure ()

/-- The result of a case with a verdict. -/
def CaseResult.checked (result : CaseResult) (testCase : PackageCase) (checked : CheckResult) :
    CaseResult :=
  { result with
    status := checked.status
    feedback := checked.message
    points :=
      match checked.status with
      | .AC => testCase.points
      | .PT => if checked.points < testCase.points then checked.points else testCase.points
      | _ => result.points }

/-- The result of a case whose run was not accepted, or before the output is checked. -/
def CaseResult.ran (A : FloatArith) (caseNumber : ℕ) (testCase : PackageCase) (run : RunResult) :
    CaseResult where
  caseNumber
  status := run.status
  timeUsed := seconds A run.time
  memoryUsed := run.memory.tdiv 1024
  totalPoints := testCase.points
  feedback := run.error

/-- `checkerImpl.Check`, with the binary that a testlib checker keeps. -/
def checkOutput (plan : Plan) (caseNumber : ℕ) (kept : Option String)
    (input answer output : Bytes) : Program (CheckResult × Option String) :=
  match plan.checker.type with
  | "testlib" =>
      Checker.check G caseNumber plan.checker kept input answer output (plan.job.timeLimit G)
        plan.job.memoryBytes
  | "none" => pure ({ status := .AC }, kept)
  | _ => pure (Checker.exact answer output, kept)

/-- The body of the loop over the cases. -/
def executeCase (plan : Plan) (caseNumber : ℕ) (testCase : PackageCase) (kept : Option String) :
    Action (CaseResult × Option String) := do
  let input ← readPackageFile G caseNumber plan.root testCase.input
  let answer ← readPackageFile G caseNumber plan.root testCase.answer
  liftExcept (verifyFileHash G input testCase.inputSHA256)
  liftExcept (verifyFileHash G answer testCase.answerSHA256)
  validateInput G plan caseNumber testCase input
  let run ← Runner.compileAndRun caseNumber plan.job.language plan.job.source input
    (plan.job.timeLimit G) plan.job.memoryBytes
  let result := CaseResult.ran G.arith caseNumber testCase run
  if run.status ≠ .AC then return (result, kept)
  else
    let (checked, kept) ← checkOutput G plan caseNumber kept input answer run.stdout
    return ({ result.checked testCase checked with output := truncateOutput run.stdout }, kept)

/-- The body of the loop of `executeInteractive`, which keeps no binary. -/
def interactiveCase (plan : Plan) (caseNumber : ℕ) (testCase : PackageCase)
    (kept : Option String) : Action (CaseResult × Option String) := do
  let input ← readPackageFile G caseNumber plan.root testCase.input
  liftExcept (verifyFileHash G input testCase.inputSHA256)
  validateInput G plan caseNumber testCase input
  let checked ← Checker.checkInteractive G caseNumber plan.checker plan.job.language
    plan.job.source input (plan.job.timeLimit G) plan.job.memoryBytes
  let result := { caseNumber, status := checked.status, totalPoints := testCase.points }
  return (CaseResult.checked result testCase checked, kept)

/-! ## All cases -/

/-- The loop over the cases, with the binary a testlib checker keeps; a job that is
short-circuited ends with the first case that is not accepted. -/
def executeCases (shortCircuit : Bool)
    (body : ℕ → PackageCase → Option String → Action (CaseResult × Option String)) :
    ℕ → List PackageCase → Option String → Action (List CaseResult)
  | _, [], _ => pure []
  | index, testCase :: rest, kept => do
      let (result, kept) ← body (index + 1) testCase kept
      if shortCircuit ∧ result.status ≠ .AC then return [result]
      else return result :: (← executeCases shortCircuit body (index + 1) rest kept)

/-- A run with custom input. -/
def executeRun (job : Job) : Action (List CaseResult) := do
  let run ← Runner.compileAndRun 1 job.language job.source (encode job.customInput)
    (job.timeLimit G) job.memoryBytes
  let result : CaseResult := {
    caseNumber := 1
    status := run.status
    timeUsed := seconds G.arith run.time
    memoryUsed := run.memory.tdiv 1024
    feedback := run.error
    output := truncateOutput run.stdout }
  if job.expectedOutput ≠ "" ∧ run.status = .AC then
    let checked := Checker.exact (encode job.expectedOutput) run.stdout
    return [{ result with status := checked.status, feedback := checked.message }]
  else return [result]

/-- The cases of a package, or those that the job lists. -/
def packageCases (job : Job) (manifest : PackageManifest) : List PackageCase :=
  if manifest.cases = [] then
    job.cases.map fun item => { item with inputSHA256 := "", answerSHA256 := "" }
  else manifest.cases

/-- The checker of a package, or that of the job. -/
def checkerSpec (job : Job) (manifest : PackageManifest) : CheckerSpec :=
  if manifest.checker.type = "" then job.checker else manifest.checker

/-- The binary of the validator of a package. -/
def prepareValidator (job : Job) (manifest : PackageManifest) : Action (Option String) :=
  if manifest.validator.type = "testlib" then
    some <$> Checker.newValidator G manifest.validator job.memoryBytes
  else pure none

/-- A scored submission. -/
def executeSubmission (job : Job) : Action (List CaseResult) := do
  let root ← ensure G job
  let manifest ← loadManifest G root
  let cases := packageCases job manifest
  if cases = [] then throw (.other (encode "package contains no test cases"))
  else
    let validator ← prepareValidator G job manifest
    let plan : Plan := { job, root, checker := checkerSpec job manifest, validator }
    if plan.checker.type = "interactive" then
      executeCases job.shortCircuit (interactiveCase G plan) 0 cases none
    else executeCases job.shortCircuit (executeCase G plan) 0 cases none

/-- `JobExecutor.Execute`. -/
def execute (job : Job) : Action (List CaseResult) :=
  if job.mode = "run" then executeRun G job else executeSubmission G job

/-! ## The report -/

/-- What the worker reports of a job. -/
inductive Report
  | cases (results : List CaseResult)
  | failed (result : String) (errorMessage : Bytes)

/-- `failJob`, unless the job was executed. -/
def report : Except JobError (List CaseResult) → Report
  | .ok results => .cases results
  | .error (.compile message) => .failed "CE" (JobError.compile message).message
  | .error (.other message) => .failed "IE" message

end JudgeLoom.Go
