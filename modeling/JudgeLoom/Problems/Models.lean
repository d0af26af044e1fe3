import JudgeLoom.Python.Json
import JudgeLoom.Submissions.Models

/-!
# Problems and their packages

A package is immutable once imported: its manifest is the JSON column that
`PackageImportService` wrote, and every service reads it with the dictionary
accessors of `Json`.  The accessors that several services share are here.
-/

namespace JudgeLoom

/-- Exceptions that end an operation and roll its transaction back. -/
inductive ServiceError
  | permissionDenied (message : String)
  | judgeJobConflict (message : String)
  | validation (message : String)
  | submission (message : String)
  | doesNotExist
  /-- The database rejects a row. -/
  | database
  | python (error : PyError)
  deriving DecidableEq

/-- The problem fields that importing and judging read. -/
structure Problem where
  id : ℕ
  code : String
  points : ℚ
  timeLimit : ℚ
  memoryLimit : ℤ
  partialScore : Bool
  shortCircuit : Bool

/-- The limits of a language that override those of a problem. -/
structure LanguageLimit where
  timeLimit : ℚ
  memoryLimit : ℤ

/-- An immutable, content-addressed set of test data for a problem. -/
structure ProblemPackage where
  id : ℕ
  problem : ℕ
  version : ℕ
  sha256 : String
  manifest : Json
  /-- The uploaded archive, byte for byte. -/
  archive : Bytes := []
  isActive : Bool := false

/-- A case of a package, as the database lists it. -/
structure ProblemTestCase where
  order : ℕ
  inputFile : String
  outputFile : String
  inputSha256 : String
  outputSha256 : String
  points : ℚ
  group : String
  deriving DecidableEq

/-- The column constraints of a test-case row: paths of at most 255 characters, a
group of at most 32, and no NUL character in a text. -/
def ProblemTestCase.storable (row : ProblemTestCase) : Bool :=
  decide (row.inputFile.length ≤ 255) && decide (row.outputFile.length ≤ 255) &&
    decide (row.group.length ≤ 32) && storableText row.inputFile &&
    storableText row.outputFile && storableText row.group

mutual

/-- What a JSON column holds: a text without NUL characters and finite numbers. -/
def Json.storable : Json → Bool
  | .float (.finite _) => true
  | .float _ => false
  | .str s => storableText s
  | .arr items => Json.storableItems items
  | .obj members => Json.storableMembers members
  | _ => true

def Json.storableItems : List Json → Bool
  | [] => true
  | item :: rest => Json.storable item && Json.storableItems rest

def Json.storableMembers : List (String × Json) → Bool
  | [] => true
  | (key, value) :: rest =>
      -- a later member of the key replaces this one
      (rest.any (fun member => member.1 = key) || storableText key && Json.storable value) &&
        Json.storableMembers rest

end

/-- `(manifest or {}).get("cases") or []`, as the list it has to be. -/
def manifestCases (manifest : Json) : List Json :=
  match manifest.get? "cases" with
  | some (.arr items) => items
  | _ => []

/-- `(manifest or {}).get("groups") or []`, as the list it has to be. -/
def manifestGroups (manifest : Json) : List Json :=
  match manifest.get? "groups" with
  | some (.arr items) => items
  | _ => []

/-- `str(manifest_case.get("group", "default"))`. -/
def caseGroup (P : Python) (manifestCase : Json) : String :=
  ((manifestCase.get? "group").map (Json.toStr P)).getD "default"

end JudgeLoom
