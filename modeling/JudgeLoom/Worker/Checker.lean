import JudgeLoom.Worker.Runner
import Mathlib.Data.List.SplitOn

/-!
# Checkers, interactors and validators

The programs that judge a participant's output: the built-in comparison, and the
trusted programs of a package that run in the sandbox.  A checker and an interactor
give their verdict by the exit status of testlib (`testlibVerdict`), whatever the
sandbox calls the end of their run.
-/

namespace JudgeLoom.Go

open Utf8 (encode)

/-- `api.Checker`. -/
structure CheckerSpec where
  type : String := ""
  language : String := ""
  source : String := ""
  deriving DecidableEq

/-- `checker.Result`. -/
structure CheckResult where
  status : Verdict
  points : ℚ := 0
  message : Bytes := []
  deriving DecidableEq

namespace Checker

/-! ## The built-in comparison -/

/-- `strings.ReplaceAll(text, "\r\n", "\n")`. -/
def unixLines : Bytes → Bytes
  | 13 :: 10 :: rest => 10 :: unixLines rest
  | byte :: rest => byte :: unixLines rest
  | [] => []

def normalize (data : Bytes) : Bytes :=
  let lines := ((unixLines data).splitOn 10).map fun line =>
    line.rdropWhile fun byte => byte = 32 ∨ byte = 9
  ([10].intercalate lines).rdropWhile (· = 10)

/-- `ExactChecker.Check`. -/
def exact (answer output : Bytes) : CheckResult :=
  if normalize answer = normalize output then { status := .AC }
  else { status := .WA, message := encode "output differs" }

/-! ## Messages and points -/

def checkerMessage (result : RunResult) : Bytes :=
  let message := trimSpace result.stderr
  if message ≠ [] then message
  else if result.error ≠ [] then result.error
  else encode result.status.code

/-- The rest of a text after a letter of the pattern, in either case; `s` also stands
for the long s. -/
def skipLetter (letter : Char) : List Char → Option (List Char)
  | c :: rest =>
      if c.toLower = letter ∨ (letter = 's' ∧ c.toNat = 0x17f) then some rest else none
  | [] => none

/-- The white space of a regular expression. -/
def patternSpace (c : Char) : Bool :=
  c = '\t' ∨ c = '\n' ∨ c = '\x0c' ∨ c = '\r' ∨ c = ' '

/-- The number that a text starts with. -/
def leadingNumber (text : List Char) : Option ℚ :=
  let value := fun digits : List Char =>
    digits.foldl (fun number digit => 10 * number + ((digit.toNat - 48 : ℕ) : ℚ)) 0
  let whole := text.takeWhile Char.isDigit
  if whole = [] then none
  else
    match text.dropWhile Char.isDigit with
    | '.' :: rest =>
        let fraction := rest.takeWhile Char.isDigit
        some (value (whole ++ fraction) / 10 ^ fraction.length)
    | _ => some (value whole)

/-- A match of `(?i)points?\s+([0-9]+(?:\.[0-9]+)?)` at the start of a text. -/
def pointsHere (text : List Char) : Option ℚ := do
  let rest ← ['p', 'o', 'i', 'n', 't'].foldlM (fun rest letter => skipLetter letter rest) text
  let rest := (skipLetter 's' rest).getD rest
  if rest.head?.any patternSpace then leadingNumber (rest.dropWhile patternSpace) else none

/-- The first match of `pointsPattern`. -/
def findPoints : List Char → Option ℚ
  | [] => none
  | c :: rest => (pointsHere (c :: rest)).or (findPoints rest)

/-- The points of a checker's message; a number without a float counts as 0. -/
def parsePoints (A : FloatArith) (stderr : Bytes) : ℚ :=
  match findPoints (Utf8.decode stderr).toList with
  | none => 0
  | some points => if A.overflows points then 0 else A.fl points

/-! ## Programs of a package -/

def compileMemoryLimit (memoryLimit : ℤ) : ℤ := max (256 * 1024 * 1024) memoryLimit

def checkerTimeLimit (limit : ℤ) : ℤ := max (2 * second) limit

/-- The command that compiles a program of the package. -/
def compileSpec (name source : String) (headers : List (String × Bytes)) (memoryLimit : ℤ) :
    RunSpec where
  args := ["g++", "-O2", "-std=c++17", "-o", name, name ++ ".cpp"]
  env := Runner.environment
  copyIn := (name ++ ".cpp", encode source) :: headers
  copyOutCached := [name]
  cpuTime := 10 * second
  clockTime := 20 * second
  memoryBytes := compileMemoryLimit memoryLimit
  procLimit := 64

/-- The binary that a compiler run produced, or what went wrong. -/
def compiledBinary (name : String) (failed : RunResult → Bytes) (result : RunResult) :
    Except Bytes String :=
  if result.status ≠ .AC then .error (failed result)
  else
    let fileID := (result.fileIDs.get? name).getD ""
    if fileID = "" then .error (encode (name ++ " binary was not produced")) else .ok fileID

/-- The command that runs a program of the package. -/
def programSpec (name fileID : String) (args : List String) (stdIn : Bytes)
    (copyIn : List (String × Bytes)) (limit memoryLimit : ℤ) : RunSpec where
  args := ("/w/" ++ name) :: args
  stdIn
  copyIn
  copyInCached := [(name, fileID)]
  cpuTime := limit
  clockTime := 2 * limit
  memoryBytes := compileMemoryLimit memoryLimit
  procLimit := 64

/-- The sandbox ended the run, or failed to run it. -/
def Stopped (status : Verdict) : Prop := status ∈ [Verdict.TLE, .MLE, .OLE, .IE]

instance : DecidablePred Stopped := fun status => inferInstanceAs (Decidable (status ∈ _))

/-- The verdict of a checker or an interactor that ran. -/
def testlibVerdict (A : FloatArith) (ran : RunResult) : CheckResult :=
  if Stopped ran.status then { status := ran.status, message := checkerMessage ran }
  else
    match ran.exitStatus with
    | 0 => { status := .AC }
    | 1 => { status := .WA, message := checkerMessage ran }
    | 2 => { status := .PE, message := checkerMessage ran }
    | 5 => { status := .PT, points := parsePoints A ran.stderr, message := checkerMessage ran }
    | _ => { status := .IE, message := checkerMessage ran }

def internalError (message : Bytes) : CheckResult := { status := .IE, message }

variable {Manifest : Type} (G : Runtime Manifest)

/-! ## Testlib checkers -/

/-- The headers that testlib programs are compiled with. -/
def testlibHeaders : List (String × Bytes) := [("testlib.h", G.testlibHeader)]

/-- `TestlibChecker.compiled`; the checker keeps the binary it once compiled. -/
def compiled (caseNumber : ℕ) (spec : CheckerSpec) (memoryLimit : ℤ) :
    Option String → Program (Except Bytes String)
  | some fileID => pure (.ok fileID)
  | none => do
      let result ← GoJudge.run { purpose := .checkerCompile, caseNumber }
        (compileSpec "checker" spec.source (testlibHeaders G) memoryLimit)
      return compiledBinary "checker" checkerMessage result

/-- The command of `TestlibChecker.Check`. -/
def checkSpec (fileID : String) (input answer output : Bytes) (timeLimit memoryLimit : ℤ) :
    RunSpec :=
  programSpec "checker" fileID ["/w/input.txt", "/w/output.txt", "/w/answer.txt"] []
    [("input.txt", input), ("answer.txt", answer), ("output.txt", output)]
    (checkerTimeLimit timeLimit) memoryLimit

/-- `TestlibChecker.Check`, with the binary that the checker keeps afterwards. -/
def check (caseNumber : ℕ) (spec : CheckerSpec) (kept : Option String)
    (input answer output : Bytes) (timeLimit memoryLimit : ℤ) :
    Program (CheckResult × Option String) :=
  if spec.source = "" then
    pure (internalError (encode "testlib checker source is missing"), kept)
  else do
    match ← compiled G caseNumber spec memoryLimit kept with
    | .error message => return (internalError message, kept)
    | .ok fileID =>
        let ran ← GoJudge.run { purpose := .check, caseNumber }
          (checkSpec fileID input answer output timeLimit memoryLimit)
        return (testlibVerdict G.arith ran, some fileID)

/-! ## Interactors -/

/-- The command of a participant that talks to an interactor. -/
def participantSpec (prepared : RunSpec) (timeLimit memoryLimit : ℤ) : RunSpec :=
  Runner.preparedSpec prepared prepared.stdIn timeLimit memoryLimit

/-- The command of an interactor. -/
def interactorSpec (fileID : String) (input : Bytes) (timeLimit memoryLimit : ℤ) : RunSpec :=
  programSpec "interactor" fileID ["/w/input.txt"] [] [("input.txt", input)]
    (checkerTimeLimit (2 * timeLimit)) memoryLimit

/-- The verdict of an interaction: that of the participant's run unless it was accepted. -/
def interactiveVerdict (A : FloatArith) : Except Bytes GoJudge.InteractiveResult → CheckResult
  | .error message => internalError message
  | .ok result =>
      if result.participant.status ≠ .AC then
        let message := trimSpace result.participant.stderr
        { status := result.participant.status
          message := if message = [] then result.participant.error else message }
      else testlibVerdict A result.interactor

/-- `InteractiveChecker.Check`. -/
def checkInteractive (caseNumber : ℕ) (spec : CheckerSpec) (language source : String)
    (input : Bytes) (timeLimit memoryLimit : ℤ) : Action CheckResult :=
  if spec.source = "" then
    pure (internalError (encode "interactive checker source is missing"))
  else do
    let result ← GoJudge.run { purpose := .interactorCompile, caseNumber }
      (compileSpec "interactor" spec.source [] memoryLimit)
    match compiledBinary "interactor" checkerMessage result with
    | .error message => return internalError message
    | .ok fileID =>
        let prepared ← Runner.prepare caseNumber language source memoryLimit
        let result ← GoJudge.runInteractive { purpose := .interact, caseNumber }
          (participantSpec prepared timeLimit memoryLimit)
          (interactorSpec fileID input timeLimit memoryLimit)
        return interactiveVerdict G.arith result

/-! ## Validators -/

/-- `NewTestlibValidator`: the binary of the validator. -/
def newValidator (spec : CheckerSpec) (memoryLimit : ℤ) : Action String :=
  if spec.source = "" then throw (.other (encode "validator source is missing"))
  else do
    let result ← GoJudge.run { purpose := .validatorCompile, caseNumber := 0 }
      (compileSpec "validator" spec.source (testlibHeaders G) memoryLimit)
    let failed := fun result => encode "validator compile failed: " ++ checkerMessage result
    liftExcept ((compiledBinary "validator" failed result).mapError JobError.other)

/-- What `TestlibValidator.Validate` makes of the run of the validator. -/
def validatorVerdict (ran : RunResult) : CheckResult :=
  if Stopped ran.status then { status := ran.status, message := checkerMessage ran }
  else if ran.exitStatus = 0 then { status := .AC }
  else internalError (checkerMessage ran)

/-- `TestlibValidator.Validate`. -/
def validate (caseNumber : ℕ) (fileID : String) (input : Bytes) (timeLimit memoryLimit : ℤ) :
    Program CheckResult := do
  let ran ← GoJudge.run { purpose := .validate, caseNumber }
    (programSpec "validator" fileID [] input [] (checkerTimeLimit timeLimit) memoryLimit)
  return validatorVerdict ran

end Checker

end JudgeLoom.Go
