import JudgeLoom.Library.Effects
import JudgeLoom.Library.FileSystem
import JudgeLoom.Library.SlashPath
import JudgeLoom.Worker.Sandbox

/-!
# The package cache

`Store.Ensure` downloads the archive of a package, checks it and extracts it into a
directory of the cache that is named by the archive's digest; `Store.Cleanup` removes
directories that have grown old; and the executor reads files of such a directory.
These are programs over the calls of package `os` (`Call`), which answer as they like.
`effect` says what each call does to the file system.

Paths are byte strings, as the names of archive entries are.  The store holds its lock
for the whole of `Ensure` and `Cleanup`, so that these run one after another.
-/

namespace JudgeLoom.Go

open Utf8 (encode)
open SlashPath (clean join dir isAbs locate)

instance : PathSyntax UInt8 where
  sep := 47
  dot := 46
  sep_ne_dot := by decide

abbrev Location := List Bytes

/-- The files of the machine. -/
abbrev Files := FileSystem Bytes Bytes

namespace PackageStore

/-! ## Archives -/

/-- What the store reads of a `zip.File`: its header, and what opening it and then reading
it to its end comes to. -/
structure ZipFile where
  name : Bytes
  isDir : Bool := false
  isSymlink : Bool := false
  uncompressedSize64 : UInt64 := 0
  opened : Except Bytes (Except Bytes Bytes) := .ok (.ok [])

/-- What the store uses of the standard library. -/
structure Lib where
  /-- `hex.EncodeToString` of `sha256.Sum256`. -/
  sha256 : Bytes → Bytes
  /-- `zip.NewReader`. -/
  readZip : Bytes → Except Bytes (List ZipFile)
  /-- The verb `%q`. -/
  quote : Bytes → Bytes

/-- `Store`. -/
structure Store where
  root : Bytes
  hasClient : Bool := true
  maxArchiveBytes : Int64 := 0
  maxUncompressedBytes : Int64 := 0
  maxFiles : Int64 := 0

variable (L : Lib) (s : Store)

/-! ### Limits -/

def Store.archiveLimit : Int64 := if 0 < s.maxArchiveBytes then s.maxArchiveBytes else 67108864

def Store.uncompressedLimit : Int64 :=
  if 0 < s.maxUncompressedBytes then s.maxUncompressedBytes else 268435456

def Store.fileLimit : Int64 := if 0 < s.maxFiles then s.maxFiles else 1000

def checkCount (files : List ZipFile) : Except Bytes Unit :=
  if s.fileLimit.toInt < files.length then .error (encode "package contains too many files")
  else .ok ()

/-- The running total of the declared sizes, a `uint64`. -/
def totalSize (files : List ZipFile) : UInt64 :=
  files.foldl (fun total file => total + file.uncompressedSize64) 0

def checkSize (files : List ZipFile) : Except Bytes Unit :=
  if s.uncompressedLimit.toUInt64 < totalSize files then
    .error (encode ("package exceeds " ++ toString s.uncompressedLimit ++ " uncompressed bytes"))
  else .ok ()

/-! ### Names of entries -/

def hasDrivePrefix (name : Bytes) : Bool := name[1]? = some 58

/-- `strings.ReplaceAll(name, "\\", "/")`. -/
def slashed (name : Bytes) : Bytes := name.map fun byte => if byte = 92 then 47 else byte

/-- The cleaned name of an entry. -/
def ZipFile.normalized (file : ZipFile) : Bytes := clean (slashed file.name)

/-- The test of the name. -/
def Refused (normalized : Bytes) : Prop :=
  normalized = [46] ∨ normalized = [46, 46] ∨ [46, 46, 47] <+: normalized ∨
    isAbs normalized = true ∨ hasDrivePrefix normalized = true

instance : DecidablePred Refused := fun normalized =>
  inferInstanceAs (Decidable (normalized = [46] ∨ normalized = [46, 46] ∨
    [46, 46, 47] <+: normalized ∨ isAbs normalized = true ∨ hasDrivePrefix normalized = true))

/-- The path is the root or begins with it and a slash. -/
def Within (cleanRoot target : Bytes) : Prop := target = cleanRoot ∨ cleanRoot ++ [47] <+: target

instance (cleanRoot target : Bytes) : Decidable (Within cleanRoot target) :=
  inferInstanceAs (Decidable (target = cleanRoot ∨ cleanRoot ++ [47] <+: target))

/-- Where `extract` puts an entry. -/
def entryTarget (root : Bytes) (file : ZipFile) : Except Bytes Bytes :=
  if Refused file.normalized then
    .error (encode "invalid package path: " ++ L.quote file.name)
  else
    let target := join root file.normalized
    if Within (clean root) target then .ok target
    else .error (encode "package path escapes root: " ++ L.quote file.name)

/-! ## Calls -/

/-- The calls that answer with nothing or an error. -/
inductive FileOp
  | stat (path : Bytes)
  | mkdirAll (path : Bytes)
  | openFile (path : Bytes)
  /-- `io.Copy` into the file that was opened at a path. -/
  | copy (path : Bytes) (source : Except Bytes Bytes)
  | close (path : Bytes)
  | rename (oldPath newPath : Bytes)
  | removeAll (path : Bytes)

/-- An entry of a directory: whether it is one, and whether it is known to be older than
the cutoff. -/
structure DirEntry where
  name : Bytes
  isDir : Bool
  expired : Bool

inductive Call
  | op (op : FileOp)
  | download (problemID : ℤ) (digest : Bytes)
  | mkdirTemp (dir pattern : Bytes)
  | readDir (path : Bytes)
  | readFile (path : Bytes)

/-- The answer to `mkdirTemp` is the random part of the name; a missing directory has no
error text for `readDir`. -/
abbrev Answer : Call → Type
  | .op _ => Except Bytes Unit
  | .download .. => Except Bytes Bytes
  | .mkdirTemp .. => Except Bytes Bytes
  | .readDir _ => Except (Option Bytes) (List DirEntry)
  | .readFile _ => Except Bytes Bytes

abbrev Program := Interaction Call Answer

abbrev Task := Interaction.Fallible Call Answer Bytes

/-- A call whose answer is looked at. -/
def query (question : Call) : Task (Answer question) :=
  monadLift (Interaction.query question : Program (Answer question))

/-- A part whose failure is looked at. -/
def attempt {α : Type} (task : Task α) : Task (Except Bytes α) :=
  monadLift (task.run : Program (Except Bytes α))

/-- A call whose error is returned. -/
def run (op : FileOp) : Task Unit := do
  liftExcept (← query (.op op))

/-! ## Extracting -/

def writeZipFile (target : Bytes) (file : ZipFile) : Task Unit := do
  let source ← liftExcept file.opened
  run (.openFile target)
  let copied ← query (.op (.copy target source))
  let closed ← query (.op (.close target))
  liftExcept copied
  liftExcept closed

/-- The body of the loop over the entries. -/
def extractFile (root : Bytes) (file : ZipFile) : Task Unit := do
  let target ← liftExcept (entryTarget L root file)
  if file.isDir then run (.mkdirAll target)
  else if file.isSymlink then
    throw (encode "package contains a symlink: " ++ L.quote file.name)
  else do
    run (.mkdirAll (dir target))
    writeZipFile target file

def extractFiles (root : Bytes) : List ZipFile → Task Unit
  | [] => pure ()
  | file :: rest => do
      extractFile L root file
      extractFiles root rest

def extract (root payload : Bytes) : Task Unit := do
  let files ← liftExcept ((L.readZip payload).mapError (encode "open package archive: " ++ ·))
  liftExcept (checkCount s files)
  liftExcept (checkSize s files)
  extractFiles L root files

/-! ## `Ensure` and `Cleanup` -/

def isHexDigit (byte : UInt8) : Bool :=
  (48 ≤ byte && byte ≤ 57) || (97 ≤ byte && byte ≤ 102) || (65 ≤ byte && byte ≤ 70)

/-- The test of the digest. -/
def IsDigest (digest : Bytes) : Prop := digest.length = 64 ∧ ∀ byte ∈ digest, isHexDigit byte = true

instance : DecidablePred IsDigest := fun digest =>
  inferInstanceAs (Decidable (digest.length = 64 ∧ ∀ byte ∈ digest, isHexDigit byte = true))

def manifestName : Bytes := encode "manifest.json"

/-- The directory of a package. -/
def Store.target (digest : Bytes) : Bytes := join s.root digest

def tempPattern (digest : Bytes) : Bytes := digest ++ encode ".tmp-"

/-- The path that `os.MkdirTemp` returns. -/
def tempPath (dir pattern random : Bytes) : Bytes :=
  if dir.getLast? = some 47 then dir ++ (pattern ++ random) else dir ++ 47 :: (pattern ++ random)

/-- What `Ensure` does with its temporary directory. -/
def install (temp target payload : Bytes) : Task Bytes := do
  extract L s temp payload
  match ← query (.op (.rename temp target)) with
  | .ok _ => return target
  | .error error =>
      match ← query (.op (.stat (join target manifestName))) with
      | .ok _ => return target
      | .error _ => throw (encode "publish package dir: " ++ error)

/-- What `Ensure` does for a package that is not in the cache. -/
def fetch (problemID : ℤ) (digest : Bytes) : Task Bytes := do
  let payload ← liftExcept (← query (.download problemID digest))
  if L.sha256 payload ≠ digest then throw (encode "package hash mismatch")
  else if s.archiveLimit.toInt < payload.length then
    throw (encode ("package archive exceeds " ++ toString s.archiveLimit ++ " bytes"))
  else do
    let random ← liftExcept ((← query (.mkdirTemp s.root (tempPattern digest))).mapError
      (encode "create temp package dir: " ++ ·))
    let temp := tempPath s.root (tempPattern digest) random
    let outcome ← attempt (install L s temp (s.target digest) payload)
    -- the deferred removal, whose error is dropped
    let _ ← query (.op (.removeAll temp))
    liftExcept outcome

/-- `Store.Ensure`. -/
def ensure (problemID : ℤ) (digest : Bytes) : Task Bytes :=
  if s.root = [] then throw (encode "package cache root is required")
  else if s.hasClient = false then throw (encode "package downloader is required")
  else if ¬ IsDigest digest then throw (encode "invalid package digest")
  else do
    liftExcept ((← query (.op (.mkdirAll s.root))).mapError (encode "create cache root: " ++ ·))
    match ← query (.op (.stat (join (s.target digest) manifestName))) with
    | .ok _ => return s.target digest
    | .error _ => fetch L s problemID digest

/-- The loop of `Cleanup`. -/
def removeExpired : List DirEntry → Task Unit
  | [] => pure ()
  | entry :: rest => do
      if entry.isDir && entry.expired then run (.removeAll (join s.root entry.name)) else pure ()
      removeExpired rest

/-- `Store.Cleanup`. -/
def cleanup : Task Unit :=
  if s.root = [] then pure ()
  else do
    match ← query (.readDir s.root) with
    | .error none => pure ()
    | .error (some error) => throw error
    | .ok entries => removeExpired s entries

/-! ## Reading a file of a package -/

/-- The path that `readPackageFile` reads. -/
def packagePath (root relative : Bytes) : Except Bytes Bytes :=
  let target := clean (join root relative)
  if Within (clean root) target then .ok target
  else .error (encode "package file escapes root: " ++ L.quote relative)

/-- `readPackageFile`, of which `JudgeLoom.Go.readPackageFile` is the view of a job. -/
def readPackageFile (root relative : Bytes) : Task Bytes := do
  let target ← liftExcept (packagePath L root relative)
  liftExcept (← query (.readFile target))

/-! ## What the calls do -/

/-- What a call that answers with nothing or an error does. -/
def FileOp.effect (cwd : Location) (succeeded : Prop) (fs fs' : Files) : FileOp → Prop
  | stat path => fs' = fs ∧
      (fs.Plain (locate cwd path) → (succeeded ↔ fs (locate cwd path) ≠ none))
  | mkdirAll path => fs.Plain (locate cwd path) → fs.MakesAll (locate cwd path) succeeded fs'
  | openFile path => fs.Plain (locate cwd path) → fs.Opens (locate cwd path) succeeded fs'
  | copy path source => fs.Plain (locate cwd path) → ∃ content,
      fs.Writes (locate cwd path) content succeeded fs' ∧ (succeeded → source = .ok content)
  | close _ => fs' = fs
  | rename oldPath newPath =>
      fs.Plain (locate cwd oldPath) → fs.Plain (locate cwd newPath) →
        fs.Renames (locate cwd oldPath) (locate cwd newPath) succeeded fs'
  | removeAll path => fs.Plain (locate cwd path) → fs.Removes (locate cwd path) succeeded fs'

/-- What a call does, seen from the working directory `cwd`. -/
def effect (cwd : Location) : Interaction.Effect Answer Files
  | .op op, answer, fs, fs' => op.effect cwd (answer = .ok ()) fs fs'
  | .download .., _, fs, fs' => fs' = fs
  | .mkdirTemp _ _, .error _, fs, fs' => fs' = fs
  | .mkdirTemp dir pattern, .ok random, fs, fs' =>
      (∀ byte ∈ random, 48 ≤ byte ∧ byte ≤ 57) ∧
        (fs.Plain (locate cwd dir) →
          fs.MakesTemporary (locate cwd dir ++ [pattern ++ random]) fs')
  | .readDir path, answer, fs, fs' => fs' = fs ∧
      ∀ entries, answer = .ok entries → fs.Plain (locate cwd path) → ∀ entry ∈ entries,
        SlashPath.Ordinary entry.name ∧ PathSyntax.sep ∉ entry.name ∧
          (entry.isDir = true ↔ fs (locate cwd path ++ [entry.name]) = some .directory)
  | .readFile path, answer, fs, fs' => fs' = fs ∧
      ∀ content, answer = .ok content → fs.Plain (locate cwd path) →
        fs (locate cwd path) = some (.file content)

end PackageStore

end JudgeLoom.Go
