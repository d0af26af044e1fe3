import JudgeLoom.Authoring.BuiltArchive
import JudgeLoom.Authoring.Validation

/-!
# A built package, as the worker reads it

The builder and the worker have manifests of their own: the worker knows nothing of the
generator, the solution and the groups, and reads points as the decoder gives them.
`AsBuilt` says that the manifest which the worker loads has the cases of the spec, in their
order and with their points, that under the paths of each case it reads the files that were
built, with the right hashes, and that it has the checker and the validator of the spec.

In an environment without faults this is what the worker gets out of a built package,
unless its own limits are too low for it (`loads_iff_fits`).  The builder has no limit for
the manifest, whose source texts grow when JSON escapes them, and so an archive that it
builds may be one that the worker does not take.
-/

namespace JudgeLoom.Authoring

open Utf8 (encode)
open SlashPath (elements Ordinary clean join locate)
open Go.PackageStore (ZipFile Lib Store Awaits IsDigest Accepts loadPackage)
open Go (ReadsAs LeadsTo JsonReader)
open Interaction.Fallible (Returns)

variable {T : Toolchain Go.PackageManifest} {spec s : Spec}

/-! ## Points -/

/-- The points of a spec that was read from JSON are floats. -/
def FloatPoints (A : FloatArith) (spec : Spec) : Prop :=
  ∀ testCase ∈ spec.cases, ∀ points ∈ testCase.points, A.IsFloat points

theorem overflows_of_le {A : FloatArith} {bound q : ℚ} (hbound : A.overflows bound = false)
    (hq : 0 ≤ q) (hle : q ≤ bound) : A.overflows q = false := by
  unfold FloatArith.overflows at hbound ⊢
  cases hlimit : A.limit with
  | none => rfl
  | some limit =>
      rw [hlimit] at hbound
      rw [decide_eq_false_iff_not, not_le] at hbound ⊢
      rw [abs_of_nonneg hq]
      rw [abs_of_nonneg (hq.trans hle)] at hbound
      exact hle.trans_lt hbound

/-- The points of the cases that are built can be written and read. -/
theorem readable_points {A : FloatArith} {quote : String → String}
    (hmillion : A.overflows 1000000 = false) (hfloats : FloatPoints A spec)
    (hvalid : (spec.applyDefaults A).validate quote A = .ok s) :
    ∀ testCase ∈ s.cases, ∃ points, testCase.points = some points ∧ Readable A points := by
  obtain ⟨h, generator, solution, rfl⟩ := valid_of_validate hvalid
  intro testCase hcase
  obtain ⟨points, hpoints, hnonneg, hle⟩ := (h.validCases testCase hcase).points
  refine ⟨points, hpoints, ?_, overflows_of_le hmillion hnonneg hle⟩
  obtain ⟨index, hindex, rfl⟩ := List.mem_mapIdx.mp hcase
  rw [CaseSpec.applyDefaults, Option.some.injEq] at hpoints
  rw [← hpoints]
  cases hgiven : spec.cases[index].points with
  | none => exact A.isFloat_fl _
  | some given => exact hfloats _ (List.getElem_mem hindex) given hgiven

/-! ## The manifest -/

theorem mem_manifestCasesFrom {number : ℕ} {cases : List BuiltCase} {c : ManifestCase}
    (h : c ∈ manifestCasesFrom T number cases) :
    ∃ (index : ℕ) (made : BuiltCase), cases[index]? = some made ∧
      c = made.manifestCase T (number + index) := by
  induction cases generalizing number with
  | nil => cases h
  | cons first rest ih =>
      rw [manifestCasesFrom, List.mem_cons] at h
      rcases h with rfl | h
      · exact ⟨0, first, rfl, rfl⟩
      · obtain ⟨index, made, hmade, rfl⟩ := ih h
        refine ⟨index + 1, made, hmade, ?_⟩
        rw [show number + (index + 1) = number + 1 + index by omega]

/-- A relation between the cases of the manifest and the cases, one by one. -/
theorem forall₂_manifestCasesFrom {R : Go.PackageCase → BuiltCase → Prop} {number : ℕ}
    {cases : List BuiltCase} (h : ∀ (index : ℕ) (c : BuiltCase), cases[index]? = some c →
      R (c.manifestCase T (number + index)).packageCase c) :
    List.Forall₂ R ((manifestCasesFrom T number cases).map ManifestCase.packageCase) cases := by
  induction cases generalizing number with
  | nil => exact .nil
  | cons first rest ih =>
      refine .cons (h 0 first rfl) (ih fun index c hc => ?_)
      rw [show number + 1 + index = number + (index + 1) by omega]
      exact h (index + 1) c hc

theorem manifestCasesFrom_ne_nil {number : ℕ} {cases : List BuiltCase} (h : cases ≠ []) :
    manifestCasesFrom T number cases ≠ [] := by
  cases cases with
  | nil => exact absurd rfl h
  | cons => exact List.cons_ne_nil _ _

namespace BuiltPackage

variable (package : BuiltPackage T s)

/-- The manifest of the package. -/
def manifest : PackageManifest := Authoring.manifest T s (builtFrom T package.cases)

theorem spec_mem {index : ℕ} {c : BuiltCase} (h : package.cases[index]? = some c) :
    c.spec ∈ s.cases := by
  rw [← package.specs]
  exact List.mem_map_of_mem (List.mem_of_getElem? h)

theorem cases_ne_nil (hvalid : s.Valid) : package.cases ≠ [] := by
  intro hnil
  refine hvalid.cases.1 ?_
  rw [← package.specs, hnil]
  rfl

theorem readable_manifest {A : FloatArith}
    (h : ∀ testCase ∈ s.cases, ∃ points, testCase.points = some points ∧ Readable A points) :
    ∀ c ∈ package.manifest.cases, Readable A c.points := by
  intro c hc
  obtain ⟨index, made, hmade, rfl⟩ := mem_manifestCasesFrom hc
  obtain ⟨points, hpoints, hreadable⟩ := h _ (package.spec_mem hmade)
  rw [BuiltCase.manifestCase, hpoints]
  exact hreadable

/-! ## Reading its files -/

variable {L : Lib} {store : Store} {cwd : Go.Location} {fs : Go.Files}

/-- A path that is made of names leads to the entry with this name. -/
theorem leadsTo_entry {digest : Go.Bytes} (hroot : store.root ≠ []) (hdigest : IsDigest digest)
    (hsha : L.sha256 package.archive = digest) {entry : String × Go.Bytes}
    (h : entry ∈ package.entries) :
    LeadsTo L store cwd package.archive (package.entries.map zipFile) entry.1 entry.2 := by
  obtain ⟨names, hinside⟩ : ∃ names, LeadsInside entry names := by
    rcases package.leadsInside h with ⟨-, hinside⟩ | ⟨_, _, _, _, _, _, _, hinside⟩
    · exact ⟨_, hinside⟩
    · exact ⟨_, hinside⟩
  have hordinary : ∀ name ∈ elements (encode entry.1), Ordinary name := by
    rw [hinside.elements]
    exact hinside.ordinary
  have htarget : SlashPath.cleaned (store.target digest) ≠ [] := by
    obtain ⟨helements, hname⟩ := Go.PackageStore.ordinary_digest hdigest
    have hnames : ∀ name ∈ elements digest, Ordinary name := by
      rw [helements, List.forall_mem_singleton]
      exact hname
    obtain ⟨before, hbefore⟩ := SlashPath.exists_elements_join hnames store.root
    rw [helements] at hbefore
    exact SlashPath.cleaned_ne_nil hbefore hname
  have hjoin : join (store.target digest) (encode entry.1) =
      clean (store.target digest) ++ 47 :: encode entry.1 :=
    SlashPath.join_of_ordinary hordinary htarget
  have hclean : clean (join (store.target digest) (encode entry.1)) =
      join (store.target digest) (encode entry.1) :=
    SlashPath.clean_join (Go.PackageStore.Store.target_ne_nil hroot) _
  refine ⟨join (store.target digest) (encode entry.1), names, ?_, ?_, ?_⟩
  · rw [hsha, Go.PackageStore.packagePath, hclean]
    refine if_pos (Or.inr ⟨encode entry.1, ?_⟩)
    rw [hjoin, List.append_assoc, List.singleton_append]
  · rw [hsha, SlashPath.locate_join_of_ordinary hordinary, hinside.elements]
  · rw [← hinside.names]
    exact package.fileAt_entry h

end BuiltPackage

/-! ## Loading -/

/-- A case that the worker runs is the case that was built. -/
structure RunsCase (T : Toolchain Go.PackageManifest) (L : Lib) (store : Store)
    (cwd : Go.Location) (archive : Go.Bytes) (fs : Go.Files) (testCase : Go.PackageCase)
    (c : BuiltCase) : Prop where
  id : testCase.id = c.spec.id
  points : some testCase.points = c.spec.points
  group : testCase.group = c.spec.group
  input : ReadsAs L store cwd archive fs testCase.input c.input
  answer : ReadsAs L store cwd archive fs testCase.answer c.answer
  inputHash : Go.verifyFileHash T.toRuntime c.input testCase.inputSHA256 = .ok ()
  answerHash : Go.verifyFileHash T.toRuntime c.answer testCase.answerSHA256 = .ok ()

/-- What the worker loads is what was built. -/
structure AsBuilt (L : Lib) (store : Store) (cwd : Go.Location) (package : BuiltPackage T s)
    (fs : Go.Files) (manifest : Go.PackageManifest) : Prop where
  cases : List.Forall₂ (RunsCase T L store cwd package.archive fs) manifest.cases package.cases
  nonempty : manifest.cases ≠ []
  checker : manifest.checker = {
    type := s.checker.type
    source := Utf8.decode s.checker.source }
  validator : manifest.validator = match s.validator.filter (·.type = "testlib") with
    | none => {}
    | some validator => { type := "testlib", source := Utf8.decode validator.source }

/-- The limits of the store suffice for the package. -/
def Fits (store : Store) (package : BuiltPackage T s) : Prop :=
  ((2 * s.cases.length + 1 : ℕ) : ℤ) ≤ store.fileLimit.toInt ∧
    (package.declaredSize : ℤ) ≤ store.uncompressedLimit.toInt

section Loading

variable {package : BuiltPackage T s} {L : Lib} {J : JsonReader} {store : Store}
  {cwd : Go.Location} {fs start : Go.Files} {problemID : ℤ}

/-- The archive is one that the worker extracts exactly if it fits. -/
theorem accepts_iff_fits (hzip : L.readZip package.archive = .ok (package.entries.map zipFile))
    (htext : package.text.length < 2 ^ 63) :
    (∃ files, Accepts L store package.archive files) ↔ Fits store package := by
  have hsize := package.declaredSize_entries htext
  have hlength := package.length_entries
  constructor
  · rintro ⟨files, haccepts⟩
    have hopened := haccepts.opened
    rw [hzip] at hopened
    cases hopened
    have hcount := haccepts.count
    have hdeclared := haccepts.size
    rw [hlength] at hcount
    rw [hsize] at hdeclared
    exact ⟨hcount, hdeclared⟩
  · rintro ⟨hcount, hdeclared⟩
    refine ⟨_, hzip, ?_, ?_, package.extractable⟩
    · rw [hlength]
      exact hcount
    · rw [hsize]
      exact hdeclared

/-- The manifest of a package, decoded, is the package as it was built. -/
theorem asBuilt_of_holds (hroot : store.root ≠ []) (hdigest : IsDigest (L.sha256 package.archive))
    (hvalid : s.Valid)
    (hpoints : ∀ testCase ∈ s.cases, ∃ points, testCase.points = some points ∧
      Readable T.arith points)
    (hholds : Go.PackageStore.Holds (locate cwd store.root) (L.sha256 package.archive)
      (package.entries.map zipFile) fs) :
    AsBuilt L store cwd package fs (Go.decodeManifest T.arith (manifestTree package.manifest)) := by
  obtain ⟨-, hdecode⟩ := decodeManifest_manifestTree (package.readable_manifest hpoints)
  have hreads : ∀ entry ∈ package.entries,
      ReadsAs L store cwd package.archive fs entry.1 entry.2 := fun entry hentry =>
    (Go.readsAs_iff hroot hdigest hholds).mpr (package.leadsTo_entry hroot hdigest rfl hentry)
  have hhash : ∀ content : Go.Bytes,
      Go.verifyFileHash T.toRuntime content (T.sha256 content) = .ok () := fun content =>
    Go.verifyFileHash_eq_ok_iff.mpr (Or.inr rfl)
  have hcases : package.manifest.cases = manifestCasesFrom T 1 package.cases := rfl
  rw [hdecode, hcases]
  refine ⟨forall₂_manifestCasesFrom fun index c hc => ?_, ?_, rfl, ?_⟩
  · obtain ⟨points, hsome, -⟩ := hpoints _ (package.spec_mem hc)
    have hinput := hreads (inputName (1 + index), c.input) (package.mem_entries.mpr
      (Or.inr ⟨index, c, hc, Or.inl (by rw [Nat.add_comm])⟩))
    have hanswer := hreads (answerName (1 + index), c.answer) (package.mem_entries.mpr
      (Or.inr ⟨index, c, hc, Or.inr (by rw [Nat.add_comm])⟩))
    refine ⟨rfl, ?_, rfl, hinput, hanswer, hhash _, hhash _⟩
    rw [ManifestCase.packageCase, BuiltCase.manifestCase, hsome]
    rfl
  · rw [ne_eq, List.map_eq_nil_iff]
    exact manifestCasesFrom_ne_nil (package.cases_ne_nil hvalid)
  · have hvalidator : package.manifest.validator =
        (s.validator.filter (·.type = "testlib")).map fun validator =>
          { type := "testlib", source := validator.source } := rfl
    rw [hvalidator]
    cases s.validator.filter (·.type = "testlib") <;> rfl

/-- A package that fits is loaded as it was built. -/
theorem returns_of_fits (hroot : store.root ≠ []) (hclient : store.hasClient = true)
    (hdigest : IsDigest (L.sha256 package.archive))
    (hlimit : (package.archive.length : ℤ) ≤ store.archiveLimit.toInt)
    (hstart : Awaits (locate cwd store.root) (L.sha256 package.archive) start) (hvalid : s.Valid)
    (hpoints : ∀ testCase ∈ s.cases, ∃ points, testCase.points = some points ∧
      Readable T.arith points)
    (hzip : L.readZip package.archive = .ok (package.entries.map zipFile))
    (hjson : J.parse package.text = .ok (manifestTree package.manifest))
    (htext : package.text.length < 2 ^ 63) (hfits : Fits store package) :
    Returns (Go.PackageStore.faultless cwd package.archive)
      (loadPackage T.arith J L store problemID (L.sha256 package.archive)) start
      fun manifest fs => AsBuilt L store cwd package fs manifest := by
  obtain ⟨files, haccepts⟩ := (accepts_iff_fits hzip htext).mpr hfits
  have hopened := haccepts.opened
  rw [hzip] at hopened
  cases hopened
  obtain ⟨htyped, -⟩ := decodeManifest_manifestTree (package.readable_manifest hpoints)
  have hmanifest : Go.PackageStore.fileAt (package.entries.map zipFile)
      [Go.PackageStore.manifestName] = some package.text := by
    rw [← (leadsInside_manifest package.text).names]
    exact package.fileAt_entry (package.mem_entries.mpr (Or.inl rfl))
  refine Returns.bind (Go.PackageStore.returns_ensure hroot hclient hdigest rfl hlimit haccepts
    hstart) ?_
  rintro path t ⟨rfl, hholds⟩
  refine (Go.returns_loadManifest hdigest hholds hmanifest hjson htyped).mono ?_
  rintro outcome u ⟨manifest, rfl, rfl, rfl⟩
  exact ⟨_, rfl, asBuilt_of_holds hroot hdigest hvalid hpoints hholds⟩

/-- A package that is loaded, as whatever, fits. -/
theorem fits_of_returns {P : Go.PackageManifest → Go.Files → Prop}
    (hstart : Awaits (locate cwd store.root) (L.sha256 package.archive) start)
    (hzip : L.readZip package.archive = .ok (package.entries.map zipFile))
    (htext : package.text.length < 2 ^ 63)
    (h : Returns (Go.PackageStore.faultless cwd package.archive)
      (loadPackage T.arith J L store problemID (L.sha256 package.archive)) start P) :
    Fits store package := by
  obtain ⟨outcome, t, hrun⟩ := h.exists_run
  obtain ⟨manifest, rfl, -⟩ := h.runs outcome t hrun
  obtain ⟨path, u, hensure, -⟩ := Interaction.Fallible.runs_bind_ok.mp hrun
  exact (accepts_iff_fits hzip htext).mp
    (Go.PackageStore.accepts_of_runs_ensure hstart hensure)

end Loading

/-! ## The package of the sample -/

def loadedToolchain : Toolchain Go.PackageManifest where
  arith := .binary64
  sha256 _ := ""
  unmarshalManifest _ := .ok {}
  quote text := text
  testlibHeader := []
  cacheRoot := []
  marshalIndent _ := .ok []
  zip _ := []

/-- One case with an empty input and an empty answer. -/
def samplePackage : BuiltPackage loadedToolchain completeSpec where
  cases := [{
    spec := { id := "01", points := some 1, group := "default" }
    input := []
    answer := [] }]
  specs := rfl
  size := by decide
  data := []
  marshalled := rfl

def sampleLib : Lib where
  sha256 _ := Go.PackageStore.sampleDigest
  readZip _ := .ok (samplePackage.entries.map zipFile)
  quote name := name

def sampleReader : JsonReader where
  parse _ := .ok (manifestTree samplePackage.manifest)
  typeError _ := []

theorem floatPoints_sample : FloatPoints .binary64 sampleSpec := by
  intro testCase hcase points hpoints
  rw [List.mem_singleton.mp hcase] at hpoints
  cases hpoints
  exact FloatArith.binary64.fl_one

theorem overflows_million : FloatArith.binary64.overflows 1000000 = false := by
  decide +kernel

theorem fits_sample : Fits Go.PackageStore.sampleStore samplePackage := by
  constructor <;> decide

end JudgeLoom.Authoring
