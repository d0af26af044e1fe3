import JudgeLoom.Library.Except
import JudgeLoom.Library.SortBy
import JudgeLoom.Problems.Models
import Mathlib.Data.List.Dedup
import Mathlib.Data.String.Basic

/-!
# Importing a package

`PackageImportService` as far as it computes: from the bytes of an archive to the
manifest and the test cases that `import_zip` stores.  `readArchive` is everything
between the look-up of the digest and the first write.

A dictionary is the list of its members, as in `Json`; a case keeps its points in
the type: `none` before `applyDefaultPoints`, a number afterwards.  Paths are split
over their characters, the way `PurePosixPath` does it.
-/

namespace JudgeLoom

/-- A case while its archive is read. -/
structure ArchiveCase (π : Type) where
  input : String
  answer : String
  group : String
  points : π
  inputSha256 : String
  answerSha256 : String
  deriving DecidableEq

/-- A validated group of a manifest. -/
structure GroupDef where
  id : String
  mode : String
  points : ℚ
  deriving DecidableEq

/-! ## `PurePosixPath` -/

namespace PurePosixPath

/-- `path.parts` of a relative path. -/
def parts (path : String) : List String :=
  ((path.toList.splitOn '/').map String.ofList).filter fun part => part ≠ "" ∧ part ≠ "."

/-- `path.is_absolute()`. -/
def isAbsolute (path : String) : Bool := path.toList.head? = some '/'

/-- `path.name`. -/
def name (path : String) : String := (parts path).getLast?.getD ""

/-- The position of the last dot of a name, if it starts a suffix. -/
def suffixIndex (name : List Char) : Option ℕ :=
  let extension := name.reverse.takeWhile fun character => character ≠ '.'
  if extension ≠ [] ∧ extension.length + 1 < name.length then
    some (name.length - extension.length - 1)
  else none

/-- `path.stem`. -/
def stem (path : String) : String :=
  (suffixIndex (name path).toList).elim (name path) fun index =>
    String.ofList ((name path).toList.take index)

/-- `path.suffix`. -/
def suffix (path : String) : String :=
  (suffixIndex (name path).toList).elim "" fun index =>
    String.ofList ((name path).toList.drop index)

end PurePosixPath

namespace PackageImportService

def maxTestCases : ℕ := 200

def maxArchiveBytes : ℕ := 64 * 1024 * 1024

def maxUncompressedBytes : ℕ := 256 * 1024 * 1024

def maxValidatorSourceBytes : ℕ := 256 * 1024

def maxManifestPoints : ℚ := 1000000

/-- `zf.read(name)`: of several entries with one name, the last. -/
def readEntry (entries : List ZipEntry) (name : String) : Except ServiceError Bytes :=
  match entries.reverse.find? fun entry => entry.name = name with
  | some entry => entry.content.mapError .python
  | none => .error (.python .keyError)

/-- `name.replace("\\", "/")`. -/
def normalizeName (name : String) : String :=
  String.ofList (name.toList.map fun character => if character = '\\' then '/' else character)

/-- The names of the files of an archive; a directory and what macOS adds is no file. -/
def safeFileNames : List String → Except ServiceError (List String)
  | [] => .ok []
  | name :: rest =>
      let normalized := normalizeName name
      let parts := PurePosixPath.parts normalized
      if PurePosixPath.isAbsolute normalized ∨ ".." ∈ parts ∨
          (parts.head?.any fun part => part.toList.getLast? = some ':') then
        .error (.validation ("Invalid file path in archive: " ++ name))
      else do
        let names ← safeFileNames rest
        if name.toList.getLast? = some '/' ∨ "__MACOSX".toList.isPrefixOf name.toList then
          return names
        return normalized :: names

/-- The members of `manifest.json`. -/
def readManifest (P : Python) (entries : List ZipEntry) (fileNames : List String) :
    Except ServiceError (List (String × Json)) :=
  if "manifest.json" ∉ fileNames then .ok []
  else
    let manifest := do
      let payload ← readEntry entries "manifest.json"
      (P.loads payload).mapError ServiceError.python
    match manifest with
    | .error (.python .decodeError) => .error (.validation "Invalid manifest.json.")
    | .error error => .error error
    | .ok (.obj members) => .ok members
    | .ok _ => .error (.validation "manifest.json must be an object.")

/-- `value.get(key)`, where `None` counts as absent. -/
def getNotNone (members : List (String × Json)) (key : String) : Option Json :=
  match Json.lookup members key with
  | some .null => none
  | value => value

/-- The check of an inline source that `_validate_checker` and `_validate_validator`
share. -/
def validateSource (members : List (String × Json)) (required tooLarge : String) :
    Except ServiceError Unit :=
  match Json.lookup members "source" with
  | some (.str source) =>
      if strip source = "" then .error (.validation required)
      else if maxValidatorSourceBytes < source.utf8ByteSize then .error (.validation tooLarge)
      else .ok ()
  | _ => .error (.validation required)

/-- `str(value.get("type", default)).lower()`. -/
def typeOf (P : Python) (members : List (String × Json)) (default : String) : String :=
  lower (((Json.lookup members "type").map (Json.toStr P)).getD default)

/-- Validate optional inline checker metadata. -/
def validateChecker (P : Python) (manifest : List (String × Json)) : Except ServiceError Unit :=
  match getNotNone manifest "checker" with
  | none => .ok ()
  | some (.obj checker) =>
      let checkerType := typeOf P checker "exact"
      if checkerType ∉ ["exact", "testlib", "interactive", "none"] then
        .error (.validation ("Unsupported manifest checker type: " ++ checkerType))
      else if checkerType ∈ ["testlib", "interactive"] then
        validateSource checker ("A " ++ checkerType ++ " checker requires inline source.")
          "Checker source exceeds the maximum allowed size."
      else .ok ()
  | some _ => .error (.validation "manifest checker must be an object.")

/-- Validate optional inline Testlib validator metadata. -/
def validateValidator (P : Python) (manifest : List (String × Json)) : Except ServiceError Unit :=
  match getNotNone manifest "validator" with
  | none => .ok ()
  | some (.obj validator) =>
      let validatorType := typeOf P validator "none"
      if validatorType ∉ ["none", "testlib"] then
        .error (.validation ("Unsupported manifest validator type: " ++ validatorType))
      else if validatorType = "testlib" then
        validateSource validator "A Testlib validator requires inline source."
          "Validator source exceeds the maximum allowed size."
      else .ok ()
  | some _ => .error (.validation "manifest validator must be an object.")

/-- `float(value)`, finite and within `[0, MAX_MANIFEST_POINTS]`; a value that is no
number is reported by `notNumeric`. -/
def parsePoints (P : Python) (value : Json) (notNumeric outOfRange : String) :
    Except ServiceError ℚ :=
  match value.toFloat P with
  | .error .typeError | .error .valueError => .error (.validation notNumeric)
  | .error error => .error (.python error)
  | .ok (.finite points) =>
      if points < 0 ∨ maxManifestPoints < points then .error (.validation outOfRange)
      else .ok points
  | .ok _ => .error (.validation outOfRange)

/-- One item of the manifest's case list. -/
def manifestCase (P : Python) (entries : List ZipEntry) (fileNames : List String) (item : Json) :
    Except ServiceError (ArchiveCase (Option ℚ)) :=
  match item with
  | .obj members => do
      let text := fun (value : Option Json) => (value.map (Json.toStr P)).getD ""
      let input := text (Json.lookup members "input")
      let answer := text ((Json.lookup members "answer").or (Json.lookup members "output"))
      if input = "" ∨ answer = "" then
        .error (.validation "Manifest cases require input and answer paths.")
      else if input ∉ fileNames ∨ answer ∉ fileNames then
        .error (.validation
          ("Manifest case references a missing file: " ++ input ++ ", " ++ answer))
      else do
        let points ← match getNotNone members "points" with
          | none => .ok none
          | some points =>
              (parsePoints P points ("Manifest case points must be numeric: " ++ points.repr P)
                "Manifest case points must be finite and within the allowed range.").map some
        let inputBytes ← readEntry entries input
        let answerBytes ← readEntry entries answer
        return {
          input
          answer
          group :=
            (((Json.lookup members "group").getD .null).orDefault (.str "default")).toStr P
          points
          inputSha256 := P.sha256 inputBytes
          answerSha256 := P.sha256 answerBytes }
  | _ => .error (.validation "Each manifest case must be an object.")

/-- Cases without points share the points of the problem. -/
def applyDefaultPoints (A : FloatArith) (problem : Problem) (cases : List (ArchiveCase (Option ℚ))) :
    List (ArchiveCase ℚ) :=
  let defaultPoints :=
    if 0 < problem.points then A.round (A.div problem.points cases.length) 2 else 0
  cases.map fun testCase => { testCase with points := testCase.points.getD defaultPoints }

/-- The cases that the manifest lists; `none` if it lists none. -/
def manifestCases (P : Python) (entries : List ZipEntry) (fileNames : List String)
    (manifest : List (String × Json)) (problem : Problem) :
    Except ServiceError (Option (List (ArchiveCase ℚ))) :=
  match Json.lookup manifest "cases" with
  | some (.arr (item :: rest)) => do
      let cases ← (item :: rest).mapM (manifestCase P entries fileNames)
      return some (applyDefaultPoints P.arith problem cases)
  | _ => .ok none

/-- The files of one stem. -/
structure StemFiles where
  input : Option String := none
  answer : Option String := none

/-- One step of the loop of `_file_cases` that pairs files by their stem. -/
def pairFile (pairs : Dict String StemFiles) (filename : String) :
    Except ServiceError (Dict String StemFiles) :=
  let stem := PurePosixPath.stem filename
  let extension := lower (PurePosixPath.suffix filename)
  let files := (pairs.get? stem).getD {}
  if extension = ".in" then
    if files.input.isSome then
      .error (.validation ("Duplicate testcase stem detected: " ++ stem))
    else .ok (pairs.set stem { files with input := some filename })
  else if extension = ".out" ∨ extension = ".ans" then
    if files.answer.isSome then
      .error (.validation ("Duplicate testcase stem detected: " ++ stem))
    else .ok (pairs.set stem { files with answer := some filename })
  else .ok pairs

/-- `sys.get_int_max_str_digits()`. -/
def maxStrDigits : ℕ := 4300

/-- `int(digits) if digits else 0` for the digits of a stem. -/
def stemNumber (P : Python) (stem : String) : Except ServiceError ℕ :=
  let digits := stem.toList.filter P.isDigit
  if maxStrDigits < digits.length then .error (.python .valueError)
  else
    match digits.mapM P.decimal with
    | some values => .ok (values.foldl (fun number value => 10 * number + value) 0)
    | none => .error (.python .valueError)

/-- A complete pair with its sort key. -/
structure FilePair where
  number : ℕ
  stem : String
  input : String
  answer : String

/-- The complete pairs in the order of their dictionary. -/
def validCases (P : Python) : List (String × StemFiles) → Except ServiceError (List FilePair)
  | [] => .ok []
  | (stem, { input := some input, answer := some answer }) :: rest => do
      let number ← stemNumber P stem
      let pairs ← validCases P rest
      return { number, stem, input, answer } :: pairs
  | _ :: rest => validCases P rest

/-- The case of a pair of files. -/
def fileCase (P : Python) (entries : List ZipEntry) (pair : FilePair) :
    Except ServiceError (ArchiveCase (Option ℚ)) := do
  let inputBytes ← readEntry entries pair.input
  let answerBytes ← readEntry entries pair.answer
  return {
    input := pair.input
    answer := pair.answer
    group := "default"
    points := none
    inputSha256 := P.sha256 inputBytes
    answerSha256 := P.sha256 answerBytes }

def noMatchingFiles : String := "Archive must contain matching .in and .out/.ans files."

def tooManyCases : String :=
  "Archive exceeds maximum allowed test cases (" ++ toString maxTestCases ++ ")."

/-- The cases of an archive whose manifest lists none. -/
def fileCases (P : Python) (entries : List ZipEntry) (fileNames : List String)
    (problem : Problem) : Except ServiceError (List (ArchiveCase ℚ)) := do
  let pairs ← fileNames.foldlM pairFile ∅
  let valid ← validCases P pairs.entries
  if valid = [] then .error (.validation noMatchingFiles)
  else if maxTestCases < valid.length then .error (.validation tooManyCases)
  else do
    let sorted := valid.sortBy fun pair => toLex (pair.number, pair.stem)
    let cases ← sorted.mapM (fileCase P entries)
    return applyDefaultPoints P.arith problem cases

/-- One item of the manifest's group list, after the groups `defs`. -/
def validateGroup (P : Python) (defs : List GroupDef) (item : Json) :
    Except ServiceError (List GroupDef) :=
  match item with
  | .obj members => do
      let id := strip (((Json.lookup members "id").map (Json.toStr P)).getD "")
      if id = "" then .error (.validation "Manifest group id is required.")
      else if id ∈ defs.map GroupDef.id then
        .error (.validation ("Duplicate manifest group id: " ++ id))
      else do
        let mode := ((Json.lookup members "mode").map (Json.toStr P)).getD "sum"
        if mode ∉ ["sum", "min"] then
          .error (.validation ("Unsupported manifest group mode: " ++ mode))
        else do
          let value := ((Json.lookup members "points").getD (.int 0)).orDefault (.int 0)
          let points ← parsePoints P value ("Manifest group points must be numeric: " ++ id)
            ("Manifest group points must be finite and within range: " ++ id)
          return defs ++ [{ id, mode, points }]
  | _ => .error (.validation "Each manifest group must be an object.")

/-- The groups of the manifest, which have to include those of the cases. -/
def validateGroups (P : Python) (manifest : List (String × Json)) (cases : List (ArchiveCase ℚ)) :
    Except ServiceError (List GroupDef) := do
  let rawGroups ← match getNotNone manifest "groups" with
    | none => .ok []
    | some (.arr items) => .ok items
    | some _ => .error (.validation "manifest groups must be a list.")
  let defs ← rawGroups.foldlM (validateGroup P) []
  let caseGroups := cases.map ArchiveCase.group
  if defs ≠ [] then
    let unknown := (caseGroups.filter fun group => group ∉ defs.map GroupDef.id).dedup
    if unknown ≠ [] then
      .error (.validation ("Manifest cases reference unknown groups: " ++
        String.intercalate ", " (unknown.sortBy id)))
    else .ok defs
  else if caseGroups.any fun group => group ≠ "default" then
    .error (.validation
      "Manifest cases use custom groups but no group definitions were provided.")
  else .ok []

/-- `result.setdefault(key, value)`. -/
def setDefault (members : List (String × Json)) (key : String) (value : Json) :
    List (String × Json) :=
  if (Json.lookup members key).isSome then members else members ++ [(key, value)]

/-- A case of the stored manifest. -/
def caseJson (index : ℕ) (testCase : ArchiveCase ℚ) : Json :=
  .obj [
    ("id", .str (toString index)),
    ("input", .str testCase.input),
    ("answer", .str testCase.answer),
    ("input_sha256", .str testCase.inputSha256),
    ("answer_sha256", .str testCase.answerSha256),
    ("points", .float (.finite testCase.points)),
    ("group", .str testCase.group)]

/-- The manifest that is stored: the one of the archive, completed. -/
def buildManifest (A : FloatArith) (problem : Problem) (manifest : List (String × Json))
    (cases : List (ArchiveCase ℚ)) : List (String × Json) :=
  let result := setDefault manifest "schema" (.int 1)
  let result := setDefault result "problem_code" (.str problem.code)
  let result := setDefault result "time_limit" (.float (.finite problem.timeLimit))
  let result := setDefault result "memory_limit" (.int problem.memoryLimit)
  let result := setDefault result "checker" (.obj [("type", .str "exact")])
  let result := setDefault result "partial_score" (.bool problem.partialScore)
  let result := setDefault result "short_circuit" (.bool problem.shortCircuit)
  let result := result ++ [("cases", .arr (cases.mapIdx fun index => caseJson (index + 1)))]
  if ((Json.lookup result "groups").getD .null).truthy then result
  else
    result ++ [("groups", .arr [.obj [
      ("id", .str "default"),
      ("points", .float (.finite (A.round (A.sum (cases.map ArchiveCase.points)) 2))),
      ("mode", .str "sum")]])]

/-- What `import_zip` stores of an archive besides the archive itself. -/
structure Imported where
  manifest : List (String × Json)
  cases : List (ArchiveCase ℚ)

/-- `except zipfile.BadZipFile`. -/
def catchBadZipFile {α : Type} : Except ServiceError α → Except ServiceError α
  | .error (.python .badZipFile) => .error (.validation "Invalid ZIP archive.")
  | result => result

/-- The manifest and the cases of an archive, as they stand there. -/
def readZip (P : Python) (problem : Problem) (payload : Bytes) :
    Except ServiceError (List (String × Json) × List (ArchiveCase ℚ)) := do
  let entries ← (P.openZip payload).mapError ServiceError.python
  let fileNames ← safeFileNames (entries.map ZipEntry.name)
  if maxUncompressedBytes < (entries.map ZipEntry.fileSize).sum then
    .error (.validation ("Archive exceeds maximum uncompressed size (" ++
      toString maxUncompressedBytes ++ " bytes)."))
  else do
    let manifest ← readManifest P entries fileNames
    validateChecker P manifest
    validateValidator P manifest
    let cases ← manifestCases P entries fileNames manifest problem
    match cases with
    | some cases => return (manifest, cases)
    | none => return (manifest, ← fileCases P entries fileNames problem)

/-- `import_zip` from the open archive to its first write. -/
def readArchive (P : Python) (problem : Problem) (payload : Bytes) :
    Except ServiceError Imported := do
  let (manifest, cases) ← catchBadZipFile (readZip P problem payload)
  if cases = [] then .error (.validation noMatchingFiles)
  else if maxTestCases < cases.length then .error (.validation tooManyCases)
  else do
    let _ ← validateGroups P manifest cases
    return { manifest := buildManifest P.arith problem manifest cases, cases }

/-- The checks of the uploaded file before its digest is looked up. -/
def validateUpload (archiveName : String) (payload : Bytes) : Except ServiceError Unit :=
  if ¬ ".zip".toList.isSuffixOf (lower archiveName).toList then
    .error (.validation "Test data must be a ZIP archive.")
  else if maxArchiveBytes < payload.length then
    .error (.validation ("Archive exceeds maximum allowed size (" ++
      toString maxArchiveBytes ++ " bytes)."))
  else .ok ()

/-- The test-case rows of a package. -/
def testCaseRows (cases : List (ArchiveCase ℚ)) : List ProblemTestCase :=
  cases.mapIdx fun index testCase =>
    { order := index + 1
      inputFile := testCase.input
      outputFile := testCase.answer
      inputSha256 := testCase.inputSha256
      outputSha256 := testCase.answerSha256
      points := testCase.points
      group := testCase.group }

/-- The database accepts the rows of an imported package. -/
def Imported.storable (imported : Imported) : Bool :=
  Json.storableMembers imported.manifest &&
    (testCaseRows imported.cases).all ProblemTestCase.storable

end PackageImportService

end JudgeLoom
