import JudgeLoom.Library.Dict
import JudgeLoom.Library.FloatArith
import JudgeLoom.Library.Interaction
import JudgeLoom.Library.Utf8
import Mathlib.Data.List.DropRight

/-!
# The worker and its sandbox

The Go worker asks its environment three kinds of questions: to have the package of
a job in its cache, to read a file of it, and to run commands in go-judge.  A worker
program is an `Interaction` with these questions, so what is proved of its runs
holds for every sequence of go-judge replies and transport failures.

A Go string is its bytes.  What was decoded from JSON is valid UTF-8 and stays a
`String`; texts of the environment, such as the error of a connection, need not be.
A question also says for which case it is asked, and a request to the sandbox which call
of the worker makes it (`Call`); the worker never looks at that.
-/

namespace JudgeLoom.Go

open Utf8 (encode)

abbrev Bytes := List UInt8

/-- What the worker uses of the language's standard library, its vendored files and
its configuration. -/
structure Runtime (Manifest : Type) where
  arith : FloatArith
  /-- `hex.EncodeToString` of `sha256.Sum256`. -/
  sha256 : Bytes → String
  /-- `json.Unmarshal` into a `packageManifest`. -/
  unmarshalManifest : Bytes → Except Bytes Manifest
  /-- The verb `%q`. -/
  quote : String → String
  /-- `testlib.Header`. -/
  testlibHeader : Bytes
  /-- The elements of the absolute path of the package cache. -/
  cacheRoot : List String

/-! ## Texts -/

/-- `unicode.IsSpace`. -/
def isSpace (c : Char) : Bool :=
  let n := c.toNat
  (9 ≤ n && n ≤ 13) || n = 32 || n = 0x85 || n = 0xa0 || n = 0x1680 ||
    (0x2000 ≤ n && n ≤ 0x200a) || n = 0x2028 || n = 0x2029 || n = 0x202f || n = 0x205f ||
    n = 0x3000

/-- `strings.TrimSpace`. -/
def trimSpace (text : Bytes) : Bytes :=
  let blank := fun rune : Utf8.Rune => isSpace rune.toChar
  (((Utf8.runes text).dropWhile blank).rdropWhile blank).flatMap Utf8.Rune.bytes

/-- `strings.ToLower` for comparing with a word of ASCII letters: besides the ASCII
letters only two characters have an ASCII letter as their lower case. -/
def toLower (c : Char) : Char :=
  if c.toNat = 0x130 then 'i' else if c.toNat = 0x212a then 'k' else c.toLower

/-! ## Verdicts -/

/-- The status codes of the worker. -/
inductive Verdict
  | AC
  | WA
  | PE
  | PT
  | TLE
  | MLE
  | OLE
  | RTE
  | IE
  deriving DecidableEq, Repr

/-- The code that the worker writes for a verdict. -/
def Verdict.code : Verdict → String
  | AC => "AC"
  | WA => "WA"
  | PE => "PE"
  | PT => "PT"
  | TLE => "TLE"
  | MLE => "MLE"
  | OLE => "OLE"
  | RTE => "RTE"
  | IE => "IE"

/-- A status of go-judge without underscores and blanks, in lower case. -/
def foldStatus (status : String) : String :=
  String.ofList ((status.toList.filter fun c => c ≠ '_' ∧ c ≠ ' ').map toLower)

def normalizeStatus (status : String) : Verdict :=
  match foldStatus status with
  | "accepted" | "ok" => .AC
  | "wronganswer" => .WA
  | "partiallycorrect" => .PT
  | "timelimitexceeded" => .TLE
  | "memorylimitexceeded" => .MLE
  | "outputlimitexceeded" => .OLE
  | "nonzeroexitstatus" | "signalled" => .RTE
  | _ => .IE

/-! ## Commands -/

/-- `executor.RunSpec`; durations are in nanoseconds. -/
structure RunSpec where
  args : List String
  env : List String := []
  stdIn : Bytes := []
  copyIn : List (String × Bytes) := []
  copyInCached : List (String × String) := []
  copyOutCached : List String := []
  cpuTime : ℤ := 0
  clockTime : ℤ := 0
  memoryBytes : ℤ := 0
  procLimit : ℤ := 0
  deriving DecidableEq

/-- A file of a command: a content, which JSON carries as text, or a cached file. -/
inductive CmdFile
  | content (text : String)
  | fileID (id : String)
  deriving DecidableEq

/-- One command of a request; a command without standard input is piped. -/
structure CmdSpec where
  args : List String
  env : List String
  stdIn : Option CmdFile
  cpuLimit : ℤ
  clockLimit : ℤ
  memoryLimit : ℤ
  procLimit : ℤ
  copyIn : List (String × CmdFile)
  copyOutCached : List String
  deriving DecidableEq

/-- `maxDuration`, `maxInt64` and `maxInt`. -/
def maxOr (value fallback : ℤ) : ℤ := if 0 < value then value else fallback

/-- The content of a file, which `json.Marshal` makes valid UTF-8. -/
def memoryInput (content : Bytes) : CmdFile := .content (Utf8.decode content)

def copyInFiles (files : List (String × Bytes)) (cached : List (String × String)) :
    List (String × CmdFile) :=
  files.map (fun file => (file.1, memoryInput file.2)) ++
    cached.map fun file => (file.1, .fileID file.2)

def runCommand (spec : RunSpec) (stdIn : Option CmdFile) : CmdSpec where
  args := spec.args
  env := spec.env
  stdIn
  cpuLimit := maxOr spec.cpuTime 0
  clockLimit := maxOr spec.clockTime (spec.cpuTime * 2)
  memoryLimit := maxOr spec.memoryBytes 0
  procLimit := maxOr spec.procLimit 1
  copyIn := copyInFiles spec.copyIn spec.copyInCached
  copyOutCached := spec.copyOutCached

/-! ## Replies -/

/-- One result of go-judge, as JSON carries it. -/
structure RawResult where
  status : String
  exitStatus : ℤ := 0
  error : String := ""
  time : UInt64 := 0
  memory : UInt64 := 0
  files : Dict String String := ∅
  fileIds : Dict String String := ∅

/-- What one request to go-judge comes to: a transport error, or a response with what
`json.Unmarshal` makes of its body. -/
inductive Reply
  | failed (error : Bytes)
  | response (statusCode : ℕ) (body : Bytes) (decoded : Except Bytes (List RawResult))

/-- What the calls of `doRunWithRetry` come to: the first reply, the error of the context
if that ends during the delay, and the second reply. -/
structure Exchange where
  first : Reply
  cancelled : Option Bytes := none
  second : Reply := .failed []

/-- `executor.RunResult`. -/
structure RunResult where
  status : Verdict
  exitStatus : ℤ := 0
  time : ℤ := 0
  memory : ℤ := 0
  stdout : Bytes := []
  stderr : Bytes := []
  fileIDs : Dict String String := ∅
  error : Bytes := []

namespace GoJudge

def doRun : Reply → Except Bytes (List RawResult)
  | .failed error => .error error
  | .response statusCode body decoded =>
      if statusCode < 200 ∨ 300 ≤ statusCode then
        .error (encode ("go-judge " ++ toString statusCode ++ ": ") ++ trimSpace body)
      else decoded

def doRunWithRetry (exchange : Exchange) : Except Bytes (List RawResult) :=
  match doRun exchange.first with
  | .ok results => .ok results
  | .error _ =>
      match exchange.cancelled with
      | some error => .error error
      | none => doRun exchange.second

/-- `int64` of a `uint64`. -/
def toInt64 (value : UInt64) : ℤ := value.toBitVec.toInt

def toRunResult (result : RawResult) (stdoutKey stderrKey : String) : RunResult where
  status := normalizeStatus result.status
  exitStatus := result.exitStatus
  time := toInt64 result.time
  memory := toInt64 result.memory
  stdout := encode ((result.files.get? stdoutKey).getD "")
  stderr := encode ((result.files.get? stderrKey).getD "")
  fileIDs := result.fileIds
  error := encode result.error

/-- What `Run` returns; it never fails. -/
def runResult (exchange : Exchange) : RunResult :=
  match doRunWithRetry exchange with
  | .error error => { status := .IE, error }
  | .ok [] => { status := .IE, error := encode "go-judge returned no results" }
  | .ok (result :: _) => toRunResult result "stdout" "stderr"

/-- `executor.InteractiveResult`. -/
structure InteractiveResult where
  participant : RunResult
  interactor : RunResult

/-- What `RunInteractive` returns. -/
def interactiveResult (exchange : Exchange) : Except Bytes InteractiveResult :=
  match doRunWithRetry exchange with
  | .error error => .error error
  | .ok (interactor :: participant :: _) =>
      .ok {
        interactor := toRunResult interactor "stdout" "interactor_stderr"
        participant := toRunResult participant "stdout" "participant_stderr" }
  | .ok _ => .error (encode "go-judge returned fewer than two interactive results")

end GoJudge

/-! ## Questions -/

/-- What a request to the sandbox is for. -/
inductive Purpose
  | compile
  | run
  | checkerCompile
  | check
  | interactorCompile
  | interact
  | validatorCompile
  | validate
  deriving DecidableEq, Repr

/-- The call of the worker that asks the sandbox; case 0 is the job as a whole. -/
structure Call where
  purpose : Purpose
  caseNumber : ℕ
  deriving DecidableEq

inductive Question
  /-- `Store.Ensure`. -/
  | ensure (problemID : ℤ) (digest : String)
  /-- `os.ReadFile` of an absolute path, for a case. -/
  | readFile (caseNumber : ℕ) (path : List String)
  /-- The request of one `doRunWithRetry`. -/
  | post (call : Call) (commands : List CmdSpec)

abbrev Answer : Question → Type
  | .ensure .. => Except Bytes Unit
  | .readFile .. => Except Bytes Bytes
  | .post .. => Exchange

/-- A part of the worker that always returns. -/
abbrev Program := Interaction Question Answer

/-- The errors of the worker: a `CompileError`, or one that is only a text. -/
inductive JobError
  | compile (message : Bytes)
  | other (message : Bytes)
  deriving DecidableEq

/-- `err.Error()`. -/
def JobError.message : JobError → Bytes
  | compile [] => encode "compile failed"
  | compile message => encode "compile failed: " ++ message
  | other message => message

/-- A part of the worker that can fail. -/
abbrev Action := Interaction.Fallible Question Answer JobError

/-- A question of the worker with its answer. -/
abbrev Entry := Interaction.Entry Answer

def ask (question : Question) : Program (Answer question) := Interaction.query question

namespace GoJudge

def run (call : Call) (spec : RunSpec) : Program RunResult := do
  let exchange ← ask (.post call [runCommand spec (some (memoryInput spec.stdIn))])
  return runResult exchange

/-- The interactor is the first command, the participant the second. -/
def runInteractive (call : Call) (participant interactor : RunSpec) :
    Program (Except Bytes InteractiveResult) := do
  let exchange ← ask (.post call [runCommand interactor none, runCommand participant none])
  return interactiveResult exchange

end GoJudge

end JudgeLoom.Go
