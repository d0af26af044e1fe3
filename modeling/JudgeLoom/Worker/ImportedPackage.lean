import JudgeLoom.Problems.Manifest
import JudgeLoom.Worker.Attribution
import JudgeLoom.Worker.FaultFree
import JudgeLoom.Worker.Unmarshal

/-!
# An imported package, as the worker reads it

The importer and the worker read the same archive, each with a ZIP reader and a JSON
parser of its own, and by rules of its own.  `Agrees` says that in an environment without
faults the worker ensures a package, loads its manifest and runs the cases that the
importer stored, with the checker that the importer validated.

The importer accepts more than the worker does: archives without a manifest, with more
entries, links or names that lead nowhere, and manifests with values of other types, with
answers under `output`, without points, and with checkers in another spelling.
`Portable` says what an archive must be besides: `agrees_iff_portable` shows that nothing
else stands in the way.
-/

namespace JudgeLoom

/-- The kinds of checkers. -/
inductive CheckerKind
  | exact
  | testlib
  | interactive
  | none
  deriving DecidableEq, Repr

/-- The kind that a type names; the worker compares exactly if it does not know the type. -/
def CheckerKind.ofType : String → CheckerKind
  | "testlib" => .testlib
  | "interactive" => .interactive
  | "none" => .none
  | _ => .exact

namespace PackageImportService

/-- The kind of the checker that `_validate_checker` sees. -/
def checkerKind (P : Python) (manifest : List (String × Json)) : CheckerKind :=
  match getNotNone manifest "checker" with
  | some (.obj checker) => .ofType (typeOf P checker "exact")
  | _ => .exact

/-- The content of a file of the archive, as the importer reads it. -/
def readFile (P : Python) (payload : Bytes) (name : String) : Except ServiceError Bytes := do
  let entries ← (P.openZip payload).mapError ServiceError.python
  readEntry entries name

end PackageImportService

/-- `manifest.get("checker") or {"type": "exact"}` of `claim_payload`. -/
def claimedChecker (manifest : Json) : Json :=
  ((manifest.get? "checker").getD .null).orDefault (.obj [("type", .str "exact")])

namespace Go

open Utf8 (encode)
open PackageStore
open SlashPath (join locate)
open Interaction (Runs)
open Interaction.Fallible (Returns)

/-- The job was claimed for the package: the checker and the cases are those of the stored
manifest.  An `api.Case` has no hashes. -/
structure Job.ClaimedFor (job : Job) (A : FloatArith) (package : ProblemPackage) : Prop where
  typed : isChecker (claimedChecker package.manifest) = true
  checker : job.checker = decodeChecker [claimedChecker package.manifest]
  cases : job.cases = (decodeItems [.arr (manifestCases package.manifest)]).map fun members =>
    { decodeCase A members with inputSHA256 := "", answerSHA256 := "" }

namespace PackageStore

/-- `loadManifest`, of which `JudgeLoom.Go.loadManifest` is the view of a job. -/
def loadManifest (A : FloatArith) (J : JsonReader) (root : Bytes) : Task PackageManifest := do
  let payload ← liftExcept (← query (.readFile (join root manifestName)))
  liftExcept (J.unmarshalManifest A payload)

/-- `Store.Ensure` followed by `loadManifest`. -/
def loadPackage (A : FloatArith) (J : JsonReader) (L : Lib) (s : Store) (problemID : ℤ)
    (digest : Bytes) : Task PackageManifest := do
  let root ← ensure L s problemID digest
  loadManifest A J root

end PackageStore

section

variable (P : Python) (G : Runtime PackageManifest) (J : JsonReader) (L : Lib) (s : Store)
  (cwd : Location) (payload : Bytes)

/-- For a path of a case `Execute` reads the content. -/
def ReadsAs (fs : Files) (path : String) (content : Bytes) : Prop :=
  Returns (faultless cwd payload)
    (PackageStore.readPackageFile L (s.target (L.sha256 payload)) (encode path)) fs
    fun found _ => found = content

/-- A case that `Execute` runs is a stored case: the same bytes, which pass the check of
their hash, and the same points.  The answers of an interactive problem are not checked. -/
structure SameCase (fs : Files) (kind : CheckerKind) (testCase : PackageCase)
    (stored : ArchiveCase ℚ) : Prop where
  points : testCase.points = stored.points
  input : ∃ content, PackageImportService.readFile P payload stored.input = .ok content ∧
    ReadsAs L s cwd payload fs testCase.input content ∧
      verifyFileHash G content testCase.inputSHA256 = .ok ()
  answer : ∃ content, PackageImportService.readFile P payload stored.answer = .ok content ∧
    ReadsAs L s cwd payload fs testCase.answer content ∧
      (kind ≠ .interactive → verifyFileHash G content testCase.answerSHA256 = .ok ())

/-- Without faults the worker loads the package from the archive, and `Execute` then runs
the stored cases in their order, with the checker that was validated. -/
def Agrees (start : Files) (imported : PackageImportService.Imported) (job : Job) : Prop :=
  Returns (faultless cwd payload)
    (loadPackage G.arith J L s job.problemID (L.sha256 payload)) start fun manifest fs =>
      List.Forall₂ (SameCase P G L s cwd payload fs (.ofType (checkerSpec job manifest).type))
          (packageCases job manifest) imported.cases ∧
        CheckerKind.ofType (checkerSpec job manifest).type =
          PackageImportService.checkerKind P imported.manifest

/-! ## The condition -/

/-- A path of the manifest leads to a file of the archive. -/
def LeadsTo (files : List ZipFile) (path : String) (content : Bytes) : Prop :=
  ∃ target names, packagePath L (s.target (L.sha256 payload)) (encode path) = .ok target ∧
    locate cwd target = locate cwd (s.target (L.sha256 payload)) ++ names ∧
      fileAt files names = some content

/-- Both readers find the same content: the importer under the first path, the worker under
the second. -/
def SameFile (files : List ZipFile) (stored path : String) (content : Bytes) : Prop :=
  PackageImportService.readFile P payload stored = .ok content ∧
    LeadsTo L s cwd payload files path content

/-- A hash that a manifest gives is left out or right. -/
def HashHolds (content : Bytes) (hash : String) : Prop := hash = "" ∨ hash = G.sha256 content

/-- The members of a case spell a stored case out: the paths of its files, its points, and
no wrong hash. -/
structure SpellsOut (files : List ZipFile) (kind : CheckerKind) (members : List (String × Json))
    (stored : ArchiveCase ℚ) : Prop where
  points : decodeNumber G.arith (fieldValues members "points") = stored.points
  input : ∃ content, SameFile P L s cwd payload files stored.input
      (decodeText (fieldValues members "input")) content ∧
    HashHolds G content (decodeText (fieldValues members "input_sha256"))
  answer : ∃ content, SameFile P L s cwd payload files stored.answer
      (decodeText (fieldValues members "answer")) content ∧
    (kind ≠ .interactive → HashHolds G content (decodeText (fieldValues members "answer_sha256")))

/-- The stored paths lead to the same files. -/
def PathsLead (files : List ZipFile) (stored : ArchiveCase ℚ) : Prop :=
  (∃ content, SameFile P L s cwd payload files stored.input stored.input content) ∧
    ∃ content, SameFile P L s cwd payload files stored.answer stored.answer content

end

/-- The type of the checker: that of the manifest, or else that of the stored manifest. -/
def workerType (package : ProblemPackage) (tree : Json) : String :=
  let spelled := fun checker => decodeText (fieldValues (members checker) "type")
  let type := decodeText (fieldValues
    ((fieldValues (members tree) "checker").flatMap members) "type")
  if type = "" then spelled (claimedChecker package.manifest) else type

/-- The archive is one that the worker reads as the importer did: it is extracted, it has a
manifest whose values have the types that the worker wants, the cases in it, if there are
any, spell the stored ones out, and its checker has the kind that was validated. -/
structure Portable (P : Python) (G : Runtime PackageManifest) (J : JsonReader) (L : Lib)
    (s : Store) (cwd : Location) (package : ProblemPackage)
    (imported : PackageImportService.Imported) (files : List ZipFile) (text : Bytes)
    (tree : Json) : Prop where
  archive : Accepts L s package.archive files
  manifest : fileAt files [manifestName] = some text
  parsed : J.parse text = .ok tree
  typed : isManifest G.arith tree = true
  cases :
    decodeItems (fieldValues (members tree) "cases") = [] ∧
        (∀ stored ∈ imported.cases, PathsLead P L s cwd package.archive files stored) ∨
      decodeItems (fieldValues (members tree) "cases") ≠ [] ∧
        List.Forall₂ (SpellsOut P G L s cwd package.archive files
          (.ofType (workerType package tree)))
          (decodeItems (fieldValues (members tree) "cases")) imported.cases
  checker : CheckerKind.ofType (workerType package tree) =
    PackageImportService.checkerKind P imported.manifest

/-! ## Reading -/

section Reading

variable {P : Python} {G : Runtime PackageManifest} {J : JsonReader} {L : Lib} {s : Store}
  {cwd : Location} {payload : Bytes} {fs fs' : Files} {files : List ZipFile}

open Interaction.Fallible

/-- What the worker reads is what the archive has there. -/
theorem readsAs_iff (hroot : s.root ≠ []) (hdigest : IsDigest (L.sha256 payload))
    (hholds : Holds (locate cwd s.root) (L.sha256 payload) files fs) {path : String}
    {content : Bytes} :
    ReadsAs L s cwd payload fs path content ↔ LeadsTo L s cwd payload files path content := by
  have htarget : locate cwd (s.target (L.sha256 payload)) =
      locate cwd s.root ++ [L.sha256 payload] := Store.locate_target hdigest
  have hplain : ∀ place, locate cwd s.root ++ [L.sha256 payload] <+: place → fs.Plain place :=
    fun place hplace => hholds.links.plain ((List.prefix_append _ _).trans hplace)
  have hnode : ∀ names, fs (locate cwd s.root ++ [L.sha256 payload] ++ names) =
      unpacked files names := congrFun hholds.content
  constructor
  · intro h
    obtain ⟨outcome, t, hrun⟩ := h.exists_run
    obtain ⟨found, rfl, rfl⟩ := h.runs outcome t hrun
    obtain ⟨target, _, hlift, hrun⟩ := runs_bind_ok.mp hrun
    obtain ⟨hpath, rfl⟩ := runs_liftExcept.mp hlift
    obtain ⟨answer, u, ⟨⟨-, hread⟩, -⟩, hrun⟩ := runs_ask_bind.mp hrun
    obtain ⟨rfl, rfl⟩ := runs_liftExcept.mp hrun
    obtain ⟨-, hbelow⟩ : _ ∧ locate cwd (s.target (L.sha256 payload)) <+: locate cwd target :=
      locate_packagePath hroot hdigest hpath
    obtain ⟨names, hnames⟩ := hbelow
    refine ⟨target, names, hpath, hnames.symm, ?_⟩
    rw [htarget] at hnames
    rw [← unpacked_eq_file, ← hnode, hnames]
    exact hread found rfl (hplain _ (hnames ▸ List.prefix_append _ _))
  · rintro ⟨target, names, hpath, hlocate, hfile⟩
    rw [htarget] at hlocate
    have hthere : fs (locate cwd target) = some (.file content) := by
      rw [hlocate, hnode]
      exact unpacked_eq_file.mpr hfile
    refine Returns.bind (returns_liftExcept hpath (P := fun found t => found = target ∧ t = fs)
      ⟨rfl, rfl⟩) ?_
    rintro found t ⟨rfl, rfl⟩
    refine returns_lift_bind (Interaction.achieves_query (P := fun answer _ =>
      answer = .ok content) ?_ ?_) ?_
    · refine ⟨.ok content, t, ⟨rfl, fun other hother _ => ?_⟩, fun other hother => ?_⟩
      · rw [hthere, Except.ok.inj hother]
      · rw [hthere] at hother
        cases hother
        rfl
    · exact fun answer u hanswer => hanswer.2 content hthere
    · rintro answer u rfl
      exact returns_liftExcept rfl rfl

variable {A : FloatArith} {digest : Bytes}

/-- A manifest that can be decoded is loaded. -/
theorem returns_loadManifest (hdigest : IsDigest digest)
    (hholds : Holds (locate cwd s.root) digest files fs) {text : Bytes} {tree : Json}
    (htext : fileAt files [manifestName] = some text) (hparsed : J.parse text = .ok tree)
    (htyped : isManifest A tree = true) :
    Returns (faultless cwd payload) (PackageStore.loadManifest A J (s.target digest)) fs
      fun manifest t => manifest = decodeManifest A tree ∧ t = fs := by
  have hthere : fs (locate cwd (join (s.target digest) manifestName)) = some (.file text) := by
    rw [locate_marker hdigest]
    exact (congrFun hholds.content [manifestName]).trans (unpacked_eq_file.mpr htext)
  refine returns_lift_bind (Interaction.achieves_query (P := fun answer t =>
    answer = .ok text ∧ t = fs) ?_ ?_) ?_
  · refine ⟨.ok text, fs, ⟨rfl, fun other hother _ => ?_⟩, fun other hother => ?_⟩
    · rw [hthere, Except.ok.inj hother]
    · rw [hthere] at hother
      cases hother
      rfl
  · exact fun answer t hanswer => ⟨hanswer.2 text hthere, hanswer.1.1⟩
  · rintro answer t ⟨rfl, rfl⟩
    refine Returns.bind (returns_liftExcept rfl (P := fun found u => found = text ∧ u = t)
      ⟨rfl, rfl⟩) ?_
    rintro found u ⟨rfl, rfl⟩
    exact returns_liftExcept (unmarshalManifest_eq_ok.mpr ⟨tree, hparsed, htyped, rfl⟩) ⟨rfl, rfl⟩

/-- Only a manifest that can be decoded is loaded. -/
theorem of_runs_loadManifest (hdigest : IsDigest digest)
    (hholds : Holds (locate cwd s.root) digest files fs) {manifest : PackageManifest}
    (hrun : Runs (faultless cwd payload)
      (PackageStore.loadManifest A J (s.target digest)).run fs (.ok manifest) fs') :
    fs' = fs ∧ ∃ text tree, fileAt files [manifestName] = some text ∧
      J.parse text = .ok tree ∧ isManifest A tree = true ∧ manifest = decodeManifest A tree := by
  obtain ⟨answer, t, ⟨⟨rfl, hread⟩, -⟩, hrest⟩ := runs_ask_bind.mp hrun
  obtain ⟨text, _, hlift, hrun⟩ := runs_bind_ok.mp hrest
  obtain ⟨rfl, rfl⟩ := runs_liftExcept.mp hlift
  obtain ⟨hmanifest, rfl⟩ := runs_liftExcept.mp hrun
  obtain ⟨tree, hparsed, htyped, rfl⟩ := unmarshalManifest_eq_ok.mp hmanifest
  rw [locate_marker hdigest] at hread
  have hplain : t.Plain (locate cwd s.root ++ [digest] ++ [manifestName]) := by
    rw [List.append_assoc]
    exact hholds.links.plain (List.prefix_append _ _)
  refine ⟨rfl, text, tree, ?_, hparsed, htyped, rfl⟩
  exact unpacked_eq_file.mp ((congrFun hholds.content [manifestName]).symm.trans
    (hread text rfl hplain))

end Reading

/-! ## Cases -/

section Cases

variable {P : Python} {G : Runtime PackageManifest} {L : Lib} {s : Store} {cwd : Location}
  {payload : Bytes} {fs : Files} {files : List ZipFile} {kind : CheckerKind} {job : Job}
  {package : ProblemPackage} {tree : Json}

theorem verifyFileHash_eq_ok_iff {content : Bytes} {hash : String} :
    verifyFileHash G content hash = .ok () ↔ HashHolds G content hash := by
  unfold verifyFileHash HashHolds
  rw [eq_comm (a := hash) (b := G.sha256 content)]
  split
  · next h => exact iff_of_true rfl h
  · next h => exact iff_of_false (fun hok => by cases hok) h

theorem workerType_eq (hjob : job.ClaimedFor G.arith package) :
    (checkerSpec job (decodeManifest G.arith tree)).type = workerType package tree := by
  have hstored : (decodeChecker [claimedChecker package.manifest]).type =
      decodeText (fieldValues (members (claimedChecker package.manifest)) "type") := by
    rw [decodeChecker, List.flatMap_singleton]
  unfold checkerSpec workerType
  by_cases htype : (decodeManifest G.arith tree).checker.type = ""
  · rw [if_pos htype, hjob.checker, hstored]
    exact (if_pos htype).symm
  · rw [if_neg htype]
    exact (if_neg htype).symm

/-- A case of the manifest is the stored one if its members spell that out. -/
theorem sameCase_decodeCase (hroot : s.root ≠ []) (hdigest : IsDigest (L.sha256 payload))
    (hholds : Holds (locate cwd s.root) (L.sha256 payload) files fs)
    {members : List (String × Json)} {stored : ArchiveCase ℚ} :
    SameCase P G L s cwd payload fs kind (decodeCase G.arith members) stored ↔
      SpellsOut P G L s cwd payload files kind members stored := by
  constructor
  · rintro ⟨hpoints, ⟨input, hinput, hreads, hhash⟩, answer, hanswer, hreads', hhash'⟩
    rw [readsAs_iff hroot hdigest hholds] at hreads hreads'
    exact ⟨hpoints, ⟨input, ⟨hinput, hreads⟩, verifyFileHash_eq_ok_iff.mp hhash⟩, answer,
      ⟨hanswer, hreads'⟩, fun hkind => verifyFileHash_eq_ok_iff.mp (hhash' hkind)⟩
  · rintro ⟨hpoints, ⟨input, ⟨hinput, hleads⟩, hhash⟩, answer, ⟨hanswer, hleads'⟩, hhash'⟩
    rw [← readsAs_iff hroot hdigest hholds] at hleads hleads'
    exact ⟨hpoints, ⟨input, hinput, hleads, verifyFileHash_eq_ok_iff.mpr hhash⟩, answer, hanswer,
      hleads', fun hkind => verifyFileHash_eq_ok_iff.mpr (hhash' hkind)⟩

/-- What a job lists of a stored case. -/
def claimedCase (index : ℕ) (stored : ArchiveCase ℚ) : PackageCase where
  id := toString index
  input := stored.input
  answer := stored.answer
  points := stored.points
  group := stored.group

theorem decodeCase_caseJson (A : FloatArith) (index : ℕ) (stored : ArchiveCase ℚ) :
    ({ decodeCase A (members (PackageImportService.caseJson index stored)) with
      inputSHA256 := "", answerSHA256 := "" } : PackageCase) = claimedCase index stored := by
  have hfold : ∀ field ∈ ["id", "input", "answer", "input_sha256", "answer_sha256", "points",
      "group"], foldName field = field := by decide
  simp only [List.forall_mem_cons] at hfold
  simp [PackageImportService.caseJson, members, decodeCase, claimedCase, fieldValues, hfold,
    decodeText, decodeNumber, text?, number?]

/-- The cases of a job are the stored ones. -/
theorem cases_of_claimedFor (hjob : job.ClaimedFor G.arith package)
    {imported : PackageImportService.Imported} (himported : package.ImportedAs P imported) :
    job.cases = imported.cases.mapIdx fun index => claimedCase (index + 1) := by
  rw [hjob.cases, himported.manifestCases_eq, decodeItems_singleton, List.map_map]
  refine List.ext_getElem (by simp) fun index hleft hright => ?_
  rw [List.getElem_map, List.getElem_mapIdx, List.getElem_mapIdx]
  exact decodeCase_caseJson _ _ _

/-- A relation between what is made of each element and the element, at any place. -/
theorem forall₂_mapIdx_self {α β : Type*} {R : β → α → Prop} {q : α → Prop}
    {f : ℕ → α → β} (h : ∀ index a, R (f index a) a ↔ q a) (l : List α) :
    List.Forall₂ R (l.mapIdx f) l ↔ ∀ a ∈ l, q a := by
  induction l generalizing f with
  | nil => simp
  | cons a rest ih =>
      rw [List.mapIdx_cons, List.forall₂_cons, h, ih fun index => h (index + 1),
        List.forall_mem_cons]

/-- A case that the job lists is the stored one if the stored paths lead to its files. -/
theorem sameCase_claimedCase (hroot : s.root ≠ []) (hdigest : IsDigest (L.sha256 payload))
    (hholds : Holds (locate cwd s.root) (L.sha256 payload) files fs) (index : ℕ)
    (stored : ArchiveCase ℚ) :
    SameCase P G L s cwd payload fs kind
        { claimedCase index stored with inputSHA256 := "", answerSHA256 := "" } stored ↔
      PathsLead P L s cwd payload files stored := by
  have hhash : ∀ content : Bytes, verifyFileHash G content "" = .ok () :=
    fun content => verifyFileHash_eq_ok_iff.mpr (Or.inl rfl)
  constructor
  · rintro ⟨-, ⟨input, hinput, hreads, -⟩, answer, hanswer, hreads', -⟩
    exact ⟨⟨input, hinput, (readsAs_iff hroot hdigest hholds).mp hreads⟩, answer, hanswer,
      (readsAs_iff hroot hdigest hholds).mp hreads'⟩
  · rintro ⟨⟨input, hinput, hleads⟩, answer, hanswer, hleads'⟩
    exact ⟨rfl, ⟨input, hinput, (readsAs_iff hroot hdigest hholds).mpr hleads, hhash input⟩,
      answer, hanswer, (readsAs_iff hroot hdigest hholds).mpr hleads', fun _ => hhash answer⟩

/-- The cases that `Execute` runs are the stored ones. -/
theorem forall₂_sameCase_iff (hroot : s.root ≠ []) (hdigest : IsDigest (L.sha256 payload))
    (hholds : Holds (locate cwd s.root) (L.sha256 payload) files fs)
    (hjob : job.ClaimedFor G.arith package) {imported : PackageImportService.Imported}
    (himported : package.ImportedAs P imported) :
    List.Forall₂ (SameCase P G L s cwd payload fs kind)
        (packageCases job (decodeManifest G.arith tree)) imported.cases ↔
      decodeItems (fieldValues (members tree) "cases") = [] ∧
          (∀ stored ∈ imported.cases, PathsLead P L s cwd payload files stored) ∨
        decodeItems (fieldValues (members tree) "cases") ≠ [] ∧
          List.Forall₂ (SpellsOut P G L s cwd payload files kind)
            (decodeItems (fieldValues (members tree) "cases")) imported.cases := by
  have hcases : (decodeManifest G.arith tree).cases =
      (decodeItems (fieldValues (members tree) "cases")).map (decodeCase G.arith) := rfl
  have hempty : (decodeManifest G.arith tree).cases = [] ↔
      decodeItems (fieldValues (members tree) "cases") = [] := by
    rw [hcases, List.map_eq_nil_iff]
  unfold packageCases
  by_cases hnil : decodeItems (fieldValues (members tree) "cases") = []
  · have hclaimed := forall₂_mapIdx_self
      (R := fun (item : PackageCase) stored => SameCase P G L s cwd payload fs kind
        { item with inputSHA256 := "", answerSHA256 := "" } stored)
      (fun index stored => sameCase_claimedCase hroot hdigest hholds (index + 1) stored)
      imported.cases
    rw [if_pos (hempty.mpr hnil), cases_of_claimedFor hjob himported, List.forall₂_map_left_iff,
      hclaimed]
    simp [hnil]
  · rw [if_neg (hempty.not.mpr hnil), hcases, List.forall₂_map_left_iff]
    simp only [sameCase_decodeCase hroot hdigest hholds]
    simp [hnil]

end Cases

/-! ## Agreement -/

section Agreement

variable {P : Python} {G : Runtime PackageManifest} {J : JsonReader} {L : Lib} {s : Store}
  {cwd : Location} {start : Files} {package : ProblemPackage}
  {imported : PackageImportService.Imported} {job : Job} {files : List ZipFile} {text : Bytes}
  {tree : Json}

theorem portable_of_agrees (hroot : s.root ≠ []) (hclient : s.hasClient = true)
    (hdigest : IsDigest (L.sha256 package.archive))
    (hlimit : (package.archive.length : ℤ) ≤ s.archiveLimit.toInt)
    (himported : package.ImportedAs P imported) (hjob : job.ClaimedFor G.arith package)
    (hstart : Awaits (locate cwd s.root) (L.sha256 package.archive) start)
    (h : Agrees P G J L s cwd package.archive start imported job) :
    ∃ files text tree, Portable P G J L s cwd package imported files text tree := by
  obtain ⟨outcome, t, hrun⟩ := h.exists_run
  obtain ⟨manifest, rfl, hcases, hchecker⟩ := h.runs outcome t hrun
  obtain ⟨path, u, hensure, hload⟩ := Interaction.Fallible.runs_bind_ok.mp hrun
  obtain ⟨files, haccepts⟩ := accepts_of_runs_ensure hstart hensure
  have hreturns : Returns (faultless cwd package.archive)
      (PackageStore.ensure L s job.problemID (L.sha256 package.archive)) start fun found t =>
        found = s.target (L.sha256 package.archive) ∧
          Holds (locate cwd s.root) (L.sha256 package.archive) files t :=
    returns_ensure hroot hclient hdigest rfl hlimit haccepts hstart
  obtain ⟨_, hpath, rfl, hholds⟩ := hreturns.runs _ _ hensure
  cases hpath
  obtain ⟨rfl, text, tree, htext, hparsed, htyped, rfl⟩ :=
    of_runs_loadManifest hdigest hholds hload
  rw [workerType_eq hjob] at hcases hchecker
  exact ⟨files, text, tree, haccepts, htext, hparsed, htyped,
    (forall₂_sameCase_iff hroot hdigest hholds hjob himported).mp hcases, hchecker⟩

theorem agrees_of_portable (hroot : s.root ≠ []) (hclient : s.hasClient = true)
    (hdigest : IsDigest (L.sha256 package.archive))
    (hlimit : (package.archive.length : ℤ) ≤ s.archiveLimit.toInt)
    (himported : package.ImportedAs P imported) (hjob : job.ClaimedFor G.arith package)
    (hstart : Awaits (locate cwd s.root) (L.sha256 package.archive) start)
    (h : Portable P G J L s cwd package imported files text tree) :
    Agrees P G J L s cwd package.archive start imported job := by
  refine Returns.bind (returns_ensure hroot hclient hdigest rfl hlimit h.archive hstart) ?_
  rintro path t ⟨rfl, hholds⟩
  refine (returns_loadManifest hdigest hholds h.manifest h.parsed h.typed).mono ?_
  rintro outcome u ⟨manifest, rfl, rfl, rfl⟩
  refine ⟨_, rfl, ?_, ?_⟩
  · rw [workerType_eq hjob, forall₂_sameCase_iff hroot hdigest hholds hjob himported]
    exact h.cases
  · rw [workerType_eq hjob]
    exact h.checker

/-- The worker runs an imported package as it was imported exactly if the archive is
portable. -/
theorem agrees_iff_portable (P : Python) (G : Runtime PackageManifest) (J : JsonReader)
    (L : Lib) {s : Store} (cwd : Location) {start : Files} {package : ProblemPackage}
    {imported : PackageImportService.Imported} {job : Job} (hroot : s.root ≠ [])
    (hclient : s.hasClient = true) (hdigest : IsDigest (L.sha256 package.archive))
    (hlimit : (package.archive.length : ℤ) ≤ s.archiveLimit.toInt)
    (himported : package.ImportedAs P imported) (hjob : job.ClaimedFor G.arith package)
    (hstart : Awaits (locate cwd s.root) (L.sha256 package.archive) start) :
    Agrees P G J L s cwd package.archive start imported job ↔
      ∃ files text tree, Portable P G J L s cwd package imported files text tree := by
  constructor
  · exact portable_of_agrees hroot hclient hdigest hlimit himported hjob hstart
  · rintro ⟨files, text, tree, h⟩
    exact agrees_of_portable hroot hclient hdigest hlimit himported hjob hstart h

end Agreement

/-! ## An archive with and without a manifest -/

def oneCaseText : Bytes :=
  encode "\x7b\"cases\": [\x7b\"input\": \"1.in\", \"answer\": \"1.out\", \"points\": 100\x7d]\x7d"

def oneCaseTree : Json :=
  .obj [("cases", .arr [.obj [("input", .str "1.in"), ("answer", .str "1.out"),
    ("points", .int 100)]])]

/-- The files of one case, and its manifest or none. -/
def oneCaseFiles (hasManifest : Bool) : List (String × Bytes) :=
  (if hasManifest then [("manifest.json", oneCaseText)] else []) ++
    [("1.in", encode "1\n"), ("1.out", encode "2\n")]

def oneCasePython (hasManifest : Bool) : Python :=
  { Python.plain (.exact FloatArith.decimalRound) with
    openZip := fun _ => .ok ((oneCaseFiles hasManifest).map fun file =>
      { name := file.1, content := .ok file.2, fileSize := file.2.length })
    loads := fun text => if text = oneCaseText then .ok oneCaseTree else .error .decodeError }

def oneCaseReader : JsonReader where
  parse text := if text = oneCaseText then .ok oneCaseTree else .error []
  typeError _ := []

def oneCaseZip (hasManifest : Bool) : List ZipFile :=
  (oneCaseFiles hasManifest).map fun file =>
    { name := encode file.1
      uncompressedSize64 := .ofNat file.2.length
      opened := .ok (.ok file.2) }

def oneCaseLib (hasManifest : Bool) : Lib where
  sha256 _ := sampleDigest
  readZip _ := .ok (oneCaseZip hasManifest)
  quote name := name

def oneCaseProblem : Problem where
  id := 1
  code := "ONE"
  points := 100
  timeLimit := 1
  memoryLimit := 262144
  partialScore := false
  shortCircuit := false

def oneCaseImport (hasManifest : Bool) : PackageImportService.Imported :=
  ((PackageImportService.readArchive (oneCasePython hasManifest) oneCaseProblem []).toOption).getD
    ⟨[], []⟩

/-- The importer finds the case with the manifest and without it. -/
example : ∀ hasManifest, (oneCaseImport hasManifest).cases.length = 1 := by decide +kernel

def oneCasePackage (hasManifest : Bool) : ProblemPackage where
  id := 1
  problem := 1
  version := 1
  sha256 := ""
  manifest := .obj (oneCaseImport hasManifest).manifest

def oneCaseJob (hasManifest : Bool) : Job :=
  { sampleJob with
    checker := decodeChecker [claimedChecker (oneCasePackage hasManifest).manifest]
    cases := (decodeItems [.arr (manifestCases (oneCasePackage hasManifest).manifest)]).map
      fun members => { decodeCase sampleRuntime.arith members with
        inputSHA256 := "", answerSHA256 := "" } }

theorem importedAs_oneCase (hasManifest : Bool) : (oneCasePackage hasManifest).ImportedAs
    (oneCasePython hasManifest) (oneCaseImport hasManifest) := by
  cases hasManifest <;>
    exact ⟨⟨oneCaseProblem, Except.eq_ok_getD (by decide +kernel) _⟩, by decide +kernel, rfl⟩

theorem claimedFor_oneCase (hasManifest : Bool) :
    (oneCaseJob hasManifest).ClaimedFor sampleRuntime.arith (oneCasePackage hasManifest) where
  typed := by cases hasManifest <;> decide +kernel
  checker := rfl
  cases := rfl

theorem emptyDirectory_eq_none {name : Bytes} {rest place : Location}
    (h : name :: rest <+: place) : emptyDirectory place = none :=
  if_neg fun hnil => by simp [hnil] at h

theorem awaits_emptyDirectory : Awaits [[99]] sampleDigest emptyDirectory where
  links place _ := by
    have hlink : unpacked [] place ≠ some .link := unpacked_ne_link
    exact hlink
  way place _ := by
    unfold emptyDirectory
    split
    · exact Or.inr rfl
    · exact Or.inl rfl
  absent _ hplace := emptyDirectory_eq_none hplace
  free := ⟨[48], by decide +kernel, fun _ hplace => emptyDirectory_eq_none hplace⟩

theorem accepts_oneCase : Accepts (oneCaseLib true) sampleStore [] (oneCaseZip true) where
  opened := rfl
  count := by decide +kernel
  size := by decide +kernel
  entries := {
    names := by decide +kernel
    links := by decide +kernel
    contents := by
      intro file hfile _
      obtain ⟨⟨name, content⟩, -, rfl⟩ := List.mem_map.mp hfile
      exact ⟨content, rfl⟩
    apart := by
      unfold PackageStore.Apart
      decide +kernel }

example : fileAt (oneCaseZip true) [manifestName] = some oneCaseText := by
  decide +kernel

theorem leadsTo_oneCase : ∀ file ∈ oneCaseFiles true,
    LeadsTo (oneCaseLib true) sampleStore [] [] (oneCaseZip true) file.1 file.2 := by
  have hpaths : ∀ file ∈ oneCaseFiles true,
      packagePath (oneCaseLib true) (sampleStore.target sampleDigest) (encode file.1) =
          .ok (join (sampleStore.target sampleDigest) (encode file.1)) ∧
        locate [] (join (sampleStore.target sampleDigest) (encode file.1)) =
            locate [] (sampleStore.target sampleDigest) ++ [encode file.1] ∧
          fileAt (oneCaseZip true) [encode file.1] = some file.2 := by
    decide +kernel
  exact fun file hfile => ⟨_, _, hpaths file hfile⟩

theorem portable_oneCase : Portable (oneCasePython true) sampleRuntime oneCaseReader
    (oneCaseLib true) sampleStore [] (oneCasePackage true) (oneCaseImport true) (oneCaseZip true)
    oneCaseText oneCaseTree where
  archive := accepts_oneCase
  manifest := by decide +kernel
  parsed := rfl
  typed := by decide +kernel
  cases := by
    have hitems : decodeItems (fieldValues (members oneCaseTree) "cases") =
        [[("input", .str "1.in"), ("answer", .str "1.out"), ("points", .int 100)]] := by
      rfl
    have hcases : (oneCaseImport true).cases = [{
        input := "1.in"
        answer := "1.out"
        group := "default"
        points := 100
        inputSha256 := ""
        answerSha256 := "" }] := by
      decide +kernel
    rw [hitems, hcases]
    refine Or.inr ⟨List.cons_ne_nil _ _, .cons ⟨by decide +kernel, ?_, ?_⟩ .nil⟩
    · exact ⟨encode "1\n", ⟨rfl, leadsTo_oneCase ("1.in", _) (by decide +kernel)⟩,
        Or.inl (by decide +kernel)⟩
    · exact ⟨encode "2\n", ⟨rfl, leadsTo_oneCase ("1.out", _) (by decide +kernel)⟩,
        fun _ => Or.inl (by decide +kernel)⟩
  checker := by decide +kernel

example : fileAt (oneCaseZip false) [manifestName] = none := by decide +kernel

/-- With a manifest the worker runs the case that was imported. -/
theorem agrees_oneCase : Agrees (oneCasePython true) sampleRuntime oneCaseReader (oneCaseLib true)
    sampleStore [] [] emptyDirectory (oneCaseImport true) (oneCaseJob true) :=
  (agrees_iff_portable (s := sampleStore) _ _ _ (oneCaseLib true) [] (by decide) rfl
    isDigest_sample (by decide +kernel) (importedAs_oneCase true) (claimedFor_oneCase true)
    awaits_emptyDirectory).mpr ⟨_, _, _, portable_oneCase⟩

/-- An archive without a manifest is imported, and the worker does not load it. -/
theorem not_agrees_without_manifest :
    (oneCasePackage false).ImportedAs (oneCasePython false) (oneCaseImport false) ∧
      (oneCaseJob false).ClaimedFor sampleRuntime.arith (oneCasePackage false) ∧
        Awaits [[99]] sampleDigest emptyDirectory ∧
          ¬ Agrees (oneCasePython false) sampleRuntime oneCaseReader (oneCaseLib false)
            sampleStore [] [] emptyDirectory (oneCaseImport false) (oneCaseJob false) := by
  refine ⟨importedAs_oneCase false, claimedFor_oneCase false, awaits_emptyDirectory, fun h => ?_⟩
  have hstart : Awaits (locate [] sampleStore.root) sampleDigest emptyDirectory :=
    awaits_emptyDirectory
  obtain ⟨files, text, tree, hportable⟩ := portable_of_agrees (s := sampleStore)
    (L := oneCaseLib false) (by decide) rfl isDigest_sample (by decide +kernel)
    (importedAs_oneCase false) (claimedFor_oneCase false) hstart h
  obtain rfl : oneCaseZip false = files := Except.ok.inj hportable.archive.opened
  have hnone : fileAt (oneCaseZip false) [manifestName] = none := by decide +kernel
  have hmanifest := hportable.manifest
  rw [hnone] at hmanifest
  cases hmanifest

end Go

end JudgeLoom
