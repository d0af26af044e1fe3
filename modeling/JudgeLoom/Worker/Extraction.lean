import JudgeLoom.Library.Except
import JudgeLoom.Worker.Store

/-!
# What extracting an archive can do

The declared sizes of the entries are summed in a `uint64`, so the size check sees the
sum modulo `2 ^ 64` (`checkSize_iff`).

Nothing that an archive contains leads out of the directory it is extracted to.  The
name of an entry is cleaned and refused unless it is made of names, so its target is
the root followed by these (`locate_entryTarget`); every call of `extract` then stays
below the root, where there are no links to follow.  For reading, it is the text of the
joined path that is compared with the directory; there the argument is that the
directory ends in a name, the digest (`locate_packagePath`).
-/

namespace JudgeLoom.Go.PackageStore

open Utf8 (encode)
open SlashPath (clean join dir isAbs locate elements Ordinary)
open Interaction (Runs Stops)
open Interaction.Fallible

variable {L : Lib} {s : Store}

/-! ## The size check -/

/-- The sum of the declared sizes. -/
def declaredSize (files : List ZipFile) : ℕ :=
  (files.map fun file => file.uncompressedSize64.toNat).sum

theorem toNat_totalSize (files : List ZipFile) :
    (totalSize files).toNat = declaredSize files % 2 ^ 64 := by
  have hfold : ∀ start : UInt64,
      (files.foldl (fun total file => total + file.uncompressedSize64) start).toNat =
        (start.toNat + declaredSize files) % 2 ^ 64 := by
    induction files with
    | nil =>
        intro start
        exact (Nat.mod_eq_of_lt start.toNat_lt).symm
    | cons file rest ih =>
        intro start
        rw [List.foldl_cons, ih, UInt64.toNat_add, Nat.mod_add_mod, Nat.add_assoc]
        rfl
  rw [totalSize, hfold, UInt64.toNat_zero, Nat.zero_add]

theorem Store.uncompressedLimit_pos (s : Store) : 0 < s.uncompressedLimit := by
  unfold uncompressedLimit
  split
  · next h => exact h
  · decide

theorem Store.toNat_uncompressedLimit (s : Store) :
    (s.uncompressedLimit.toUInt64.toNat : ℤ) = s.uncompressedLimit.toInt := by
  have hpos : (0 : ℤ) < s.uncompressedLimit.toInt :=
    Int64.lt_iff_toInt_lt.mp s.uncompressedLimit_pos
  rw [Int64.toNat_toUInt64_of_le (Int64.le_iff_toInt_le.mpr hpos.le)]
  exact Int.toNat_of_nonneg hpos.le

theorem checkSize_eq_ok_iff {files : List ZipFile} :
    checkSize s files = .ok () ↔
      ((declaredSize files % 2 ^ 64 : ℕ) : ℤ) ≤ s.uncompressedLimit.toInt := by
  rw [← s.toNat_uncompressedLimit, Nat.cast_le, ← toNat_totalSize, ← UInt64.le_iff_toNat_le,
    ← UInt64.not_lt]
  unfold checkSize
  split
  · next h =>
      constructor
      · intro hok
        cases hok
      · intro hle
        exact absurd h hle
  · next h => exact ⟨fun _ => h, fun _ => rfl⟩

/-- The size check does what it is for, whatever the sizes, exactly if their sum is not
above a positive multiple of `2 ^ 64` by at most the limit. -/
theorem checkSize_iff (s : Store) (files : List ZipFile) :
    (checkSize s files = .ok () ↔ (declaredSize files : ℤ) ≤ s.uncompressedLimit.toInt) ↔
      ∀ k : ℕ, 1 ≤ k → ¬ (k * 2 ^ 64 ≤ declaredSize files ∧
        (declaredSize files : ℤ) ≤ k * 2 ^ 64 + s.uncompressedLimit.toInt) := by
  have hlimit : s.uncompressedLimit.toInt < 2 ^ 64 := by
    rw [← s.toNat_uncompressedLimit]
    exact_mod_cast s.uncompressedLimit.toUInt64.toNat_lt
  rw [checkSize_eq_ok_iff]
  generalize declaredSize files = size
  generalize s.uncompressedLimit.toInt = limit at hlimit
  constructor
  · rintro h k hk ⟨hlow, hhigh⟩
    -- the sum is too large, and its remainder is not
    have hmod : size % 2 ^ 64 = size - k * 2 ^ 64 := by omega
    omega
  · intro h
    have hk := h (size / 2 ^ 64)
    omega

/-- Two entries of `2 ^ 63` bytes each pass the check. -/
theorem checkSize_bypassed :
    let files : List ZipFile :=
      [{ name := [97], uncompressedSize64 := 9223372036854775808 },
        { name := [98], uncompressedSize64 := 9223372036854775808 }]
    checkSize { root := [99] } files = .ok () ∧
      ¬ (declaredSize files : ℤ) ≤ (Store.uncompressedLimit { root := [99] }).toInt := by
  decide

/-! ## The places of entries -/

/-- The names that lead from the root to an entry. -/
def ZipFile.names (file : ZipFile) : Location := elements file.normalized

theorem ordinary_of_not_refused {file : ZipFile} (h : ¬ Refused file.normalized) :
    ∀ name ∈ file.names, Ordinary name := by
  unfold Refused at h
  push Not at h
  obtain ⟨hdot, hup, hbelow, habs, -⟩ := h
  exact SlashPath.ordinary_of_relative (Bool.not_eq_true _ |>.mp habs) hdot hup hbelow

theorem entryTarget_eq_ok {root target : Bytes} {file : ZipFile}
    (h : entryTarget L root file = .ok target) :
    target = join root file.normalized ∧ ∀ name ∈ file.names, Ordinary name := by
  unfold entryTarget at h
  split at h
  · cases h
  · next hrefused =>
      dsimp only at h
      split at h
      · cases h
        exact ⟨rfl, ordinary_of_not_refused hrefused⟩
      · cases h

variable {cwd : Location}

/-- An entry is put below the root, where its names lead. -/
theorem locate_entryTarget {root target : Bytes} {file : ZipFile}
    (h : entryTarget L root file = .ok target) :
    locate cwd target = locate cwd root ++ file.names ∧
      locate cwd (dir target) = locate cwd root ++ file.names.dropLast := by
  obtain ⟨rfl, hordinary⟩ := entryTarget_eq_ok h
  exact ⟨SlashPath.locate_join_of_ordinary hordinary root,
    SlashPath.locate_dir_join hordinary root⟩

theorem inside_append {root names : Location} (h : names ≠ []) :
    FileSystem.Inside root (root ++ names) := by
  refine ⟨List.prefix_append root names, fun heq => h ?_⟩
  exact List.append_right_eq_self.mp heq

/-- The calls of `extract` for a root directory. -/
def WorksInside (cwd root : Location) : Call → Prop
  | .op (.mkdirAll path) => root <+: locate cwd path
  | .op (.openFile path) => FileSystem.Inside root (locate cwd path)
  | .op (.copy path _) => FileSystem.Inside root (locate cwd path)
  | .op (.close _) => True
  | _ => False

theorem asks_query {Φ : Call → Prop} {question : Call} (h : Φ question) :
    (query question).run.Asks Φ :=
  asks_lift (Interaction.asks_query h)

theorem asks_run {Φ : Call → Prop} {op : FileOp} (h : Φ (.op op)) : (run op).run.Asks Φ :=
  asks_bind (asks_query h) fun result => asks_liftExcept result

theorem asks_writeZipFile {root : Location} {target : Bytes} (file : ZipFile)
    (h : FileSystem.Inside root (locate cwd target)) :
    (writeZipFile target file).run.Asks (WorksInside cwd root) := by
  unfold writeZipFile
  refine asks_bind (asks_liftExcept _) fun source => ?_
  refine asks_bind (asks_run h) fun _ => ?_
  refine asks_bind (asks_query h) fun copied => ?_
  refine asks_bind (asks_query trivial) fun closed => ?_
  exact asks_bind (asks_liftExcept _) fun _ => asks_liftExcept _

theorem asks_extractFile (root : Bytes) (file : ZipFile) :
    (extractFile L root file).run.Asks (WorksInside cwd (locate cwd root)) := by
  refine asks_liftExcept_bind fun target htarget => ?_
  obtain ⟨hlocate, hdir⟩ := locate_entryTarget htarget
  have hinside : FileSystem.Inside (locate cwd root) (locate cwd target) := by
    rw [hlocate]
    exact inside_append (SlashPath.elements_ne_nil _)
  have hparent : locate cwd root <+: locate cwd (dir target) := by
    rw [hdir]
    exact List.prefix_append _ _
  split
  · exact asks_run hinside.1
  · split
    · exact asks_throw _
    · exact asks_bind (asks_run hparent) fun _ => asks_writeZipFile file hinside

theorem asks_extractFiles (root : Bytes) (files : List ZipFile) :
    (extractFiles L root files).run.Asks (WorksInside cwd (locate cwd root)) := by
  induction files with
  | nil => exact Interaction.asks_pure _
  | cons file rest ih => exact asks_bind (asks_extractFile root file) fun _ => ih

/-- Whatever the archive contains and whatever the calls answer, `extract` works inside its
root. -/
theorem asks_extract (root payload : Bytes) :
    (extract L s root payload).run.Asks (WorksInside cwd (locate cwd root)) := by
  refine asks_bind (asks_liftExcept _) fun files => ?_
  refine asks_bind (asks_liftExcept _) fun _ => ?_
  exact asks_bind (asks_liftExcept _) fun _ => asks_extractFiles root files

/-- Such a call changes nothing outside the root and makes no link. -/
theorem confined_of_worksInside {root : Location} {question : Call} {answer : Answer question}
    {fs fs' : Files} (hworks : WorksInside cwd root question)
    (heffect : effect cwd question answer fs fs') (hfree : fs.LinkFree root) :
    fs.Confined root fs' := by
  cases question with
  | op op =>
      cases op with
      | mkdirAll path => exact hfree.confined_makesAll hworks (heffect (hfree.plain hworks))
      | openFile path =>
          obtain ⟨honly, hhere, -⟩ := heffect (hfree.plain hworks.1)
          exact FileSystem.confined_of_file hworks honly hhere
      | copy path source =>
          obtain ⟨_, ⟨honly, hhere, -⟩, -⟩ := heffect (hfree.plain hworks.1)
          exact FileSystem.confined_of_file hworks honly hhere
      | close path =>
          rw [show fs' = fs from heffect]
          exact .refl fs root
      | stat path => exact hworks.elim
      | rename oldPath newPath => exact hworks.elim
      | removeAll path => exact hworks.elim
  | download problemID digest => exact hworks.elim
  | mkdirTemp dir pattern => exact hworks.elim
  | readDir path => exact hworks.elim
  | readFile path => exact hworks.elim

theorem confined_of_asks {α : Type} {program : Program α} {root : Location} {fs fs' : Files}
    (hasks : program.Asks (WorksInside cwd root)) (hfree : fs.LinkFree root)
    (h : Stops (effect cwd) program fs fs') : fs.Confined root fs' := by
  refine (hasks.invariant (I := fun t => t.LinkFree root ∧ fs.Confined root t)
    (fun question answer t t' hworks heffect ht => ?_) h ⟨hfree, .refl fs _⟩).2
  have hconfined := confined_of_worksInside hworks heffect ht.1
  exact ⟨ht.1.of_confined hconfined, ht.2.trans hconfined⟩

/-! ### Archives that are extracted -/

/-- An entry is extracted only to a place inside the root, and not as a link. -/
theorem entryTarget_of_runs {root : Bytes} {file : ZipFile} {fs fs' : Files}
    (h : Runs (effect cwd) (extractFile L root file).run fs (.ok ()) fs') :
    (∃ target, entryTarget L root file = .ok target) ∧
      (file.isSymlink = true → file.isDir = true) := by
  obtain ⟨target, _, htarget, h⟩ := runs_bind_ok.mp h
  refine ⟨⟨target, (runs_liftExcept.mp htarget).1⟩, fun hsymlink => ?_⟩
  split at h
  · next hdir => exact hdir
  · cases (runs_throw.mp h).1

/-- Where the name of an entry leads from the root. -/
theorem inside_of_entryTarget {root target : Bytes} {file : ZipFile}
    (h : entryTarget L root file = .ok target) (place : Location) :
    isAbs (slashed file.name) = false ∧
      FileSystem.Inside place (locate place (slashed file.name)) := by
  have hordinary : ∀ name ∈ elements file.normalized, Ordinary name := (entryTarget_eq_ok h).2
  have habs : isAbs file.normalized = false := SlashPath.isAbs_of_ordinary hordinary
  refine ⟨by rw [← SlashPath.isAbs_clean]; exact habs, ?_⟩
  rw [← SlashPath.locate_clean]
  change FileSystem.Inside place (locate place file.normalized)
  rw [locate, habs, SlashPath.foldl_step_of_ordinary hordinary]
  exact inside_append (SlashPath.elements_ne_nil _)

theorem entryTarget_of_runs_files {root : Bytes} {files : List ZipFile} {fs fs' : Files}
    (h : Runs (effect cwd) (extractFiles L root files).run fs (.ok ()) fs') :
    ∀ file ∈ files, (∃ target, entryTarget L root file = .ok target) ∧
      (file.isSymlink = true → file.isDir = true) := by
  induction files generalizing fs with
  | nil => simp
  | cons file rest ih =>
      obtain ⟨_, _, hfile, hrest⟩ := runs_bind_ok.mp h
      rw [List.forall_mem_cons]
      exact ⟨entryTarget_of_runs hfile, ih hrest⟩

/-! ## Reading -/

theorem ordinary_digest {digest : Bytes} (h : IsDigest digest) :
    elements digest = [digest] ∧ Ordinary digest := by
  have hlength : ∀ other : Bytes, other.length < 64 → digest ≠ other := by
    rintro other hother rfl
    exact absurd h.1 hother.ne
  refine ⟨SlashPath.elements_of_sep_notMem fun hsep => ?_, ?_, ?_⟩
  · exact absurd (h.2 _ hsep) (by decide)
  · rintro (hnil | hdot)
    · exact hlength [] (by decide) hnil
    · exact hlength [46] (by decide) hdot
  · exact hlength [46, 46] (by decide)

theorem Store.target_ne_nil {digest : Bytes} (hroot : s.root ≠ []) : s.target digest ≠ [] := by
  rw [Store.target, join, if_neg hroot]
  exact SlashPath.clean_ne_nil _

theorem Store.locate_target {digest : Bytes} (h : IsDigest digest) :
    locate cwd (s.target digest) = locate cwd s.root ++ [digest] := by
  obtain ⟨helements, hordinary⟩ := ordinary_digest h
  have hnames : ∀ name ∈ elements digest, Ordinary name := by
    rw [helements]
    simpa using hordinary
  rw [Store.target, SlashPath.locate_join_of_ordinary hnames, helements]

/-- A file of a package is read from inside the package's directory, or it is the
directory. -/
theorem locate_packagePath {digest relative path : Bytes} (hroot : s.root ≠ [])
    (hdigest : IsDigest digest) (h : packagePath L (s.target digest) relative = .ok path) :
    locate cwd path = locate cwd (join (s.target digest) relative) ∧
      locate cwd (s.target digest) <+: locate cwd path := by
  unfold packagePath at h
  dsimp only at h
  split at h
  · next hwithin =>
      cases h
      refine ⟨SlashPath.locate_clean _ _, ?_⟩
      obtain ⟨helements, hordinary⟩ := ordinary_digest hdigest
      have hnames : ∀ name ∈ elements digest, Ordinary name := by
        rw [helements]
        simpa using hordinary
      obtain ⟨before, hbefore⟩ := SlashPath.exists_elements_join hnames s.root
      rw [helements] at hbefore
      have hclean : clean (s.target digest) = s.target digest := SlashPath.clean_join hroot digest
      rw [hclean] at hwithin
      rcases hwithin with heq | hbelow
      · rw [heq]
      · exact SlashPath.locate_prefix_of_prefix hbefore hordinary (Store.target_ne_nil hroot)
          hbelow
  · cases h

theorem runs_query {question : Call} {outcome : Except Bytes (Answer question)} {fs fs' : Files} :
    Runs (effect cwd) (query question).run fs outcome fs' ↔
      ∃ answer, effect cwd question answer fs fs' ∧ .ok answer = outcome := by
  refine runs_lift.trans (exists_congr fun answer => and_congr_left fun _ => ?_)
  exact Interaction.runs_query

/-- The calls of `readPackageFile` for a package's directory. -/
def ReadsInside (cwd directory : Location) (call : Call) : Prop :=
  ∃ path, call = .readFile path ∧ directory <+: locate cwd path

theorem asks_readPackageFile {digest : Bytes} (hroot : s.root ≠ []) (hdigest : IsDigest digest)
    (relative : Bytes) :
    (readPackageFile L (s.target digest) relative).run.Asks
      (ReadsInside cwd (locate cwd (s.target digest))) := by
  refine asks_liftExcept_bind fun path hpath => ?_
  obtain ⟨-, hinside⟩ := locate_packagePath hroot hdigest hpath
  exact asks_bind (asks_query ⟨path, rfl, hinside⟩) fun answer => asks_liftExcept answer

/-- What is read is the content of a file inside the package's directory. -/
theorem file_of_runs {digest relative content : Bytes} {fs fs' : Files} (hroot : s.root ≠ [])
    (hdigest : IsDigest digest) (hfree : fs.LinkFree (locate cwd (s.target digest)))
    (h : Runs (effect cwd) (readPackageFile L (s.target digest) relative).run fs (.ok content)
      fs') :
    FileSystem.Inside (locate cwd (s.target digest))
        (locate cwd (join (s.target digest) relative)) ∧
      fs (locate cwd (join (s.target digest) relative)) = some (.file content) := by
  obtain ⟨path, _, hlift, h⟩ := runs_bind_ok.mp h
  obtain ⟨hpath, rfl⟩ := runs_liftExcept.mp hlift
  obtain ⟨answer, _, hquery, h⟩ := runs_bind_ok.mp h
  obtain ⟨_, ⟨-, hread⟩, hanswer⟩ := runs_query.mp hquery
  obtain ⟨hlocate, hbelow⟩ := locate_packagePath hroot hdigest hpath
  have hfile := hread content
    ((Except.ok.inj hanswer).trans (runs_liftExcept.mp h).1) (hfree.plain hbelow)
  rw [hlocate] at hfile hbelow
  refine ⟨⟨hbelow, fun heq => ?_⟩, hfile⟩
  -- the directory itself is no file
  rw [heq, hfree.directories _ List.prefix_rfl] at hfile
  cases hfile

/-! ## No path escapes -/

/-- Extracting any archive to a directory without links changes nothing outside of it and
makes no link, wherever it stops; it succeeds only if every name leads inside the directory
and no entry that is not a directory is a link.  Reading a file of a package asks for no
place outside the package's directory, fails if the path leads there, and otherwise gives
the content of a file inside. -/
theorem paths_confined (L : Lib) (s : Store) (cwd : Location) :
    (∀ root payload fs fs', fs.LinkFree (locate cwd root) →
      Stops (effect cwd) (extract L s root payload).run fs fs' →
        fs.Confined (locate cwd root) fs') ∧
    (∀ root payload fs fs',
      Runs (effect cwd) (extract L s root payload).run fs (.ok ()) fs' →
        ∃ files, L.readZip payload = .ok files ∧ ∀ file ∈ files,
          isAbs (slashed file.name) = false ∧
            FileSystem.Inside (locate cwd root)
              (locate (locate cwd root) (slashed file.name)) ∧
            (file.isSymlink = true → file.isDir = true)) ∧
    ∀ digest relative, s.root ≠ [] → IsDigest digest →
      (readPackageFile L (s.target digest) relative).run.Asks
          (ReadsInside cwd (locate cwd (s.target digest))) ∧
        ∀ fs outcome fs',
          Runs (effect cwd) (readPackageFile L (s.target digest) relative).run fs outcome fs' →
          (¬ locate cwd (s.target digest) <+: locate cwd (join (s.target digest) relative) →
            ∃ error, outcome = .error error) ∧
          (fs.LinkFree (locate cwd (s.target digest)) → ∀ content, outcome = .ok content →
            FileSystem.Inside (locate cwd (s.target digest))
                (locate cwd (join (s.target digest) relative)) ∧
              fs (locate cwd (join (s.target digest) relative)) = some (.file content)) := by
  refine ⟨fun root payload fs fs' hfree hstops =>
    confined_of_asks (asks_extract root payload) hfree hstops, ?_, ?_⟩
  · intro root payload fs fs' hruns
    obtain ⟨files, _, hfiles, hruns⟩ := runs_bind_ok.mp hruns
    obtain ⟨_, _, -, hruns⟩ := runs_bind_ok.mp hruns
    obtain ⟨_, _, -, hruns⟩ := runs_bind_ok.mp hruns
    refine ⟨files, Except.mapError_eq_ok.mp (runs_liftExcept.mp hfiles).1, fun file hfile => ?_⟩
    obtain ⟨⟨target, htarget⟩, hsymlink⟩ := entryTarget_of_runs_files hruns file hfile
    obtain ⟨habs, hinside⟩ := inside_of_entryTarget htarget (locate cwd root)
    exact ⟨habs, hinside, hsymlink⟩
  · intro digest relative hroot hdigest
    refine ⟨asks_readPackageFile hroot hdigest relative, fun fs outcome fs' hruns => ⟨?_, ?_⟩⟩
    · intro houtside
      rcases runs_bind.mp hruns with ⟨error, -, houtcome⟩ | ⟨path, _, hpath, -⟩
      · exact ⟨error, houtcome.symm⟩
      · obtain ⟨hlocate, hbelow⟩ := locate_packagePath hroot hdigest (runs_liftExcept.mp hpath).1
        rw [hlocate] at hbelow
        exact absurd hbelow houtside
    · rintro hfree content rfl
      exact file_of_runs hroot hdigest hfree hruns

/-- Every archive has the directory `a/` as its only entry. -/
def sampleLib : Lib where
  sha256 _ := []
  readZip _ := .ok [{ name := [97, 47], isDir := true }]
  quote name := name

/-- The directory `c` is empty. -/
def sampleFiles : Files := fun place => if place <+: [[99]] then some .directory else none

theorem linkFree_sampleFiles : sampleFiles.LinkFree [[99]] where
  directories place hplace := if_pos hplace
  links place _ := by
    unfold sampleFiles
    split <;> exact fun hlink => by cases hlink

/-- The sample archive is extracted to `c`. -/
theorem paths_confined_sample :
    ∃ fs', sampleFiles.Confined [[99]] fs' ∧ fs' [[99], [97]] = some .directory ∧
      FileSystem.Inside (locate [] [99]) (locate (locate [] [99]) (slashed [97, 47])) := by
  let made : Files := Function.update sampleFiles [[99], [97]] (some .directory)
  have hmade : sampleFiles.MakesAll [[99], [97]] ((.ok () : Except Bytes Unit) = .ok ()) made := {
    only := fun place => by
      by_cases hplace : place = [[99], [97]]
      · rw [hplace]
        exact Or.inr ⟨List.prefix_rfl, rfl, rfl⟩
      · exact Or.inl (Function.update_of_ne hplace _ _)
    done := fun _ place hplace => by
      by_cases heq : place = [[99], [97]]
      · rw [heq]
        rfl
      · have hparent : place <+: [[99]] :=
          (List.prefix_concat_iff.mp hplace).resolve_left heq
        exact (Function.update_of_ne heq _ _).trans (if_pos hparent)
    present := fun _ => rfl }
  have hruns : Runs (effect []) (extract sampleLib { root := [99] } [99] []).run sampleFiles
      (.ok ()) made := by
    have hfile : Runs (effect [])
        (extractFile sampleLib [99] { name := [97, 47], isDir := true }).run sampleFiles
        (.ok ()) made := by
      refine runs_bind_ok.mpr ⟨[99, 47, 97], _, runs_liftExcept.mpr ⟨by decide, rfl⟩, ?_⟩
      refine runs_bind_ok.mpr ⟨.ok (), made, runs_query.mpr ⟨.ok (), fun _ => hmade, rfl⟩, ?_⟩
      exact runs_liftExcept.mpr ⟨rfl, rfl⟩
    refine runs_bind_ok.mpr ⟨_, _, runs_liftExcept.mpr ⟨rfl, rfl⟩, ?_⟩
    refine runs_bind_ok.mpr ⟨(), _, runs_liftExcept.mpr ⟨by decide, rfl⟩, ?_⟩
    refine runs_bind_ok.mpr ⟨(), _, runs_liftExcept.mpr ⟨by decide, rfl⟩, ?_⟩
    exact runs_bind_ok.mpr ⟨(), made, hfile, runs_pure.mpr ⟨rfl, rfl⟩⟩
  have hconfined := paths_confined sampleLib { root := [99] } []
  obtain ⟨files, hfiles, hinside⟩ := hconfined.2.1 [99] [] sampleFiles made hruns
  cases hfiles
  exact ⟨made, hconfined.1 [99] [] sampleFiles made linkFree_sampleFiles hruns.stops, rfl,
    (hinside _ List.mem_cons_self).2.1⟩

end JudgeLoom.Go.PackageStore
