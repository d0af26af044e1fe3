import JudgeLoom.Library.Dict
import JudgeLoom.Library.Table
import Mathlib.Data.Rat.Defs

/-!
# Submissions and their test-case rows

The enumerations and rows of `apps/submissions`.  A submission's test cases are
listed in the order of their numbers, the default ordering of the model, and
`unique_together = (submission, case_number)` is the key of the `Table`.

Columns that no modelled function reads (`is_public`, `share_token`,
`is_pretested`, `locked_after`, `batch_number`) are left out.
-/

namespace JudgeLoom

/-- A moment of the server's clock, in microseconds. -/
abbrev Time := ℤ

/-- One second of the server's clock. -/
abbrev second : Time := 1000000

/-- Whether a judge request is a scored submission or an ephemeral run. -/
inductive SubmissionMode
  | submit
  | run
  deriving DecidableEq, Repr

/-- Lifecycle states for a submission in the judging pipeline. -/
inductive SubmissionStatus
  | queued
  | compiling
  | judging
  | completed
  | error
  deriving DecidableEq, Repr

/-- Verdict codes returned by the judge. -/
inductive SubmissionResult
  | AC
  | WA
  | TLE
  | MLE
  | RTE
  | CE
  | IR
  | OLE
  | IE
  | PARTIAL
  deriving DecidableEq, Repr

namespace SubmissionResult

/-- The stored code of a verdict. -/
def value : SubmissionResult → String
  | AC => "AC"
  | WA => "WA"
  | TLE => "TLE"
  | MLE => "MLE"
  | RTE => "RTE"
  | CE => "CE"
  | IR => "IR"
  | OLE => "OLE"
  | IE => "IE"
  | PARTIAL => "PT"

/-- `SubmissionResult.values`, with the verdicts they belong to. -/
def all : List SubmissionResult := [AC, WA, TLE, MLE, RTE, CE, IR, OLE, IE, PARTIAL]

/-- The verdict of a code in `SubmissionResult.values`. -/
def ofValue? (code : String) : Option SubmissionResult := all.find? fun result => result.value = code

@[simp] theorem ofValue?_value (result : SubmissionResult) : ofValue? result.value = some result := by
  cases result <;> decide

/-- `status if status in SubmissionResult.values else SubmissionResult.IR`. -/
def ofReport (code : String) : SubmissionResult := (ofValue? code).getD IR

@[simp] theorem ofReport_value (result : SubmissionResult) : ofReport result.value = result := by
  rw [ofReport, ofValue?_value, Option.getD_some]

end SubmissionResult

/-- A single code submission sent for judging. -/
structure Submission where
  id : ℕ
  user : ℕ
  problem : ℕ
  language : String
  timeUsed : ℚ := 0
  memoryUsed : ℤ := 0
  points : ℚ := 0
  result : Option SubmissionResult := none
  status : SubmissionStatus := .queued
  subtaskScores : Dict String ℚ := ∅
  caseTotal : ℕ := 0
  casePassed : ℕ := 0
  currentTestcase : ℕ := 0
  errorMessage : String := ""
  contestParticipation : Option ℕ := none
  mode : SubmissionMode := .submit
  customInput : String := ""
  customExpectedOutput : String := ""
  judgedOn : Option ℕ := none
  judgedAt : Option Time := none
  createdAt : Time

/-- Per-test-case execution result for a submission. -/
structure SubmissionTestCase where
  caseNumber : ℕ
  status : SubmissionResult := .IR
  timeUsed : ℚ := 0
  memoryUsed : ℤ := 0
  points : ℚ := 0
  totalPoints : ℚ := 0
  group : String := "default"
  feedback : String := ""
  output : String := ""
  deriving DecidableEq

/-- The test-case rows of one submission. -/
abbrev TestCases := Table SubmissionTestCase SubmissionTestCase.caseNumber

/-- The largest value of a PostgreSQL `integer` column. -/
def maxInteger : ℤ := 2147483647

/-- A text that PostgreSQL can store: it has no NUL character. -/
def storableText (text : String) : Bool := !text.toList.contains (Char.ofNat 0)

/-- The column constraints of a test-case row: positive integers in range, a
group of at most 32 characters, and no NUL character in a text. -/
def SubmissionTestCase.storable (row : SubmissionTestCase) : Bool :=
  decide ((row.caseNumber : ℤ) ≤ maxInteger) && decide (0 ≤ row.memoryUsed) &&
    decide (row.memoryUsed ≤ maxInteger) && decide (row.group.length ≤ 32) &&
    storableText row.group && storableText row.feedback && storableText row.output

end JudgeLoom
