import JudgeLoom.Worker.Sandbox

/-!
# Compiling and running a program

`language.Get` and the `Runner`: a source is compiled in the sandbox if its language
asks for it, and what is then run is the compiled file or the source itself.
-/

namespace JudgeLoom.Go

open Utf8 (encode)

/-- One second, in nanoseconds. -/
abbrev second : ℤ := 1000000000

/-! ## Languages -/

/-- `language.Profile`. -/
structure Profile where
  sourceName : String
  compile : Option RunSpec
  run : RunSpec

/-- `language.Get`; the keys have no letter that a character outside ASCII becomes in
upper case. -/
def getLanguage (key : String) : Option Profile :=
  match String.ofList ((Utf8.decode (trimSpace (encode key))).toList.map Char.toUpper) with
  | "PY3" | "PYTHON3" | "PYTHON" =>
      some {
        sourceName := "main.py"
        compile := none
        run := { args := ["python3", "main.py"] } }
  | "CPP17" | "CPP" | "C++17" =>
      some {
        sourceName := "main.cpp"
        compile := some {
          args := ["g++", "-O2", "-std=c++17", "-o", "main", "main.cpp"]
          copyOutCached := ["main"] }
        run := { args := ["/w/main"] } }
  | _ => none

namespace Runner

/-- The environment variables of every program. -/
def environment : List String := ["PATH=/usr/local/bin:/usr/bin:/bin", "LANG=C.UTF-8"]

/-- The command that compiles `source`. -/
def compileSpec (profile : Profile) (compile : RunSpec) (source : String) (memoryLimit : ℤ) :
    RunSpec :=
  { compile with
    env := environment
    copyIn := [(profile.sourceName, encode source)]
    cpuTime := 10 * second
    clockTime := 20 * second
    memoryBytes := memoryLimit
    procLimit := 64 }

/-- What `Prepare` makes of the run of the compiler: the cached binary. -/
def compiled (result : RunResult) : Except JobError String :=
  if result.status ≠ .AC then
    let message := trimSpace result.stderr
    .error (.compile (if message = [] then encode ("compiler status " ++ result.status.code)
      else message))
  else
    let fileID := (result.fileIDs.get? "main").getD ""
    if fileID = "" then .error (.compile (encode "compiler did not produce a binary"))
    else .ok fileID

/-- `Prepare`, for the source of a participant: the command that runs it. -/
def prepare (caseNumber : ℕ) (language source : String) (memoryLimit : ℤ) : Action RunSpec :=
  match getLanguage language with
  | none => throw (.other (encode "unsupported language"))
  | some profile =>
      let runSpec := { profile.run with env := environment }
      match profile.compile with
      | none => pure { runSpec with copyIn := [(profile.sourceName, encode source)] }
      | some compile => do
          let result ← GoJudge.run { purpose := .compile, caseNumber }
            (compileSpec profile compile source memoryLimit)
          let fileID ← liftExcept (compiled result)
          return { runSpec with copyInCached := [("main", fileID)] }

/-- The command of `RunPrepared`. -/
def preparedSpec (prepared : RunSpec) (input : Bytes) (timeLimit memoryLimit : ℤ) : RunSpec :=
  { prepared with
    stdIn := input
    cpuTime := timeLimit
    clockTime := 2 * timeLimit
    memoryBytes := memoryLimit
    procLimit := 64 }

def compileAndRun (caseNumber : ℕ) (language source : String) (input : Bytes)
    (timeLimit memoryLimit : ℤ) : Action RunResult := do
  let runSpec ← prepare caseNumber language source memoryLimit
  GoJudge.run { purpose := .run, caseNumber } (preparedSpec runSpec input timeLimit memoryLimit)

end Runner

end JudgeLoom.Go
