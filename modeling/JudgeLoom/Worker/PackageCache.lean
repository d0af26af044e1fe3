import JudgeLoom.Library.Run
import JudgeLoom.Worker.Extraction

/-!
# What the package cache holds

Seen from the directory it is extracted to, an archive is a tree of directories and files
(`unpacked`).  `Ensure` looks for a package's marker, `manifest.json`; if it is missing, it
extracts the archive to a temporary directory, whose name is no digest, and renames that.

`meets_ensure` describes the cache at every point at which `Ensure` may be cut off
(`Progress`): each package is as it was when the call began, or it was not there and is now
what was extracted from an archive with its digest.
-/

namespace JudgeLoom.Go.PackageStore

open Utf8 (encode)
open SlashPath (clean join dir isAbs locate elements Ordinary)
open Interaction (Runs Stops Meets)
open Interaction.Fallible

variable {L : Lib} {s : Store} {cwd : Location} {fs fs' : Files}

/-! ## What an archive contains -/

/-- The content of an entry that can be read. -/
def ZipFile.content (file : ZipFile) : Bytes :=
  match file.opened with
  | .ok (.ok content) => content
  | _ => []

/-- One more entry in a directory. -/
def unpackFile (tree : Files) (file : ZipFile) : Files :=
  if file.isDir then tree.withDirectories file.names
  else
    Function.update (tree.withDirectories file.names.dropLast) file.names
      (some (.file file.content))

/-- A directory with nothing in it. -/
def emptyDirectory : Files := fun place => if place = [] then some .directory else none

/-- The directories and files of an archive, seen from the directory it is extracted to. -/
def unpacked (files : List ZipFile) : Files := files.foldl unpackFile emptyDirectory

theorem runs_run {op : FileOp} :
    Runs (effect cwd) (run op).run fs (.ok ()) fs' ↔ effect cwd (.op op) (.ok ()) fs fs' := by
  unfold run
  rw [runs_bind_ok]
  constructor
  · rintro ⟨answer, _, hquery, hlift⟩
    obtain ⟨hok, rfl⟩ := runs_liftExcept.mp hlift
    obtain ⟨_, heffect, hanswer⟩ := runs_query.mp hquery
    rw [Except.ok.inj hanswer, hok] at heffect
    exact heffect
  · intro heffect
    exact ⟨.ok (), fs', runs_query.mpr ⟨.ok (), heffect, rfl⟩, runs_liftExcept.mpr ⟨rfl, rfl⟩⟩

/-- A file that was written has the content of its entry. -/
theorem eq_update_of_runs {root : Location} {target : Bytes} {file : ZipFile}
    (hfree : fs.LinkFree root) (hinside : FileSystem.Inside root (locate cwd target))
    (h : Runs (effect cwd) (writeZipFile target file).run fs (.ok ()) fs') :
    fs' = Function.update fs (locate cwd target) (some (.file file.content)) := by
  obtain ⟨source, _, hlift, h⟩ := runs_bind_ok.mp h
  obtain ⟨hopened, rfl⟩ := runs_liftExcept.mp hlift
  obtain ⟨_, opened, hopen, h⟩ := runs_bind_ok.mp h
  obtain ⟨copied, written, hcopy, h⟩ := runs_bind_ok.mp h
  obtain ⟨closed, _, hclose, h⟩ := runs_bind_ok.mp h
  obtain ⟨_, _, hcopied, h⟩ := runs_bind_ok.mp h
  obtain ⟨hok, rfl⟩ := runs_liftExcept.mp hcopied
  obtain ⟨-, rfl⟩ := runs_liftExcept.mp h
  obtain ⟨honly, hhere, -⟩ := runs_run.mp hopen (hfree.plain hinside.1)
  have hfree' : opened.LinkFree root :=
    hfree.of_confined (FileSystem.confined_of_file hinside honly hhere)
  obtain ⟨_, heffect, heq⟩ := runs_query.mp hcopy
  cases heq
  obtain ⟨content, hwrites, hsource⟩ := heffect (hfree'.plain hinside.1)
  obtain ⟨_, hclosed, -⟩ := runs_query.mp hclose
  have hcontent : file.content = content := by
    rw [ZipFile.content, hopened, hsource hok]
  rw [show _ = written from hclosed, hwrites.eq_update hok, hcontent]
  funext place
  by_cases hplace : place = locate cwd target
  · rw [hplace, Function.update_self, Function.update_self]
  · rw [Function.update_of_ne hplace, Function.update_of_ne hplace]
    exact honly place hplace

/-- An entry that was extracted is there, and the others are as before. -/
theorem subtree_of_runs {root : Bytes} {file : ZipFile} (hfree : fs.LinkFree (locate cwd root))
    (h : Runs (effect cwd) (extractFile L root file).run fs (.ok ()) fs') :
    fs'.subtree (locate cwd root) = unpackFile (fs.subtree (locate cwd root)) file := by
  obtain ⟨target, _, hlift, h⟩ := runs_bind_ok.mp h
  obtain ⟨htarget, rfl⟩ := runs_liftExcept.mp hlift
  obtain ⟨hlocate, hdir⟩ := locate_entryTarget htarget
  unfold unpackFile
  split at h
  · next hisDir =>
      have hmakes := runs_run.mp h (hfree.plain (by rw [hlocate]; exact List.prefix_append _ _))
      rw [if_pos hisDir, hmakes.eq_withDirectories rfl, hlocate,
        FileSystem.subtree_withDirectories]
  · next hisDir =>
      split at h
      · cases (runs_throw.mp h).1
      · obtain ⟨_, made, hmake, h⟩ := runs_bind_ok.mp h
        have hparent : locate cwd root <+: locate cwd (dir target) := by
          rw [hdir]
          exact List.prefix_append _ _
        have hmakes := runs_run.mp hmake (hfree.plain hparent)
        have hinside : FileSystem.Inside (locate cwd root) (locate cwd target) := by
          rw [hlocate]
          exact inside_append (SlashPath.elements_ne_nil _)
        have hfree' := hfree.of_confined (hfree.confined_makesAll hparent hmakes)
        rw [if_neg hisDir, eq_update_of_runs hfree' hinside h, hmakes.eq_withDirectories rfl,
          hlocate, hdir, FileSystem.subtree_update, FileSystem.subtree_withDirectories]

/-- An archive that was extracted to an empty directory is what is in it. -/
theorem subtree_of_runs_extractFiles {root : Bytes} {files : List ZipFile}
    (hfree : fs.LinkFree (locate cwd root))
    (h : Runs (effect cwd) (extractFiles L root files).run fs (.ok ()) fs') :
    fs'.subtree (locate cwd root) = files.foldl unpackFile (fs.subtree (locate cwd root)) := by
  induction files generalizing fs with
  | nil =>
      obtain ⟨-, rfl⟩ := runs_pure.mp h
      rfl
  | cons file rest ih =>
      obtain ⟨_, middle, hfile, hrest⟩ := runs_bind_ok.mp h
      have hconfined := confined_of_asks (asks_extractFile root file) hfree hfile.stops
      rw [ih (hfree.of_confined hconfined) hrest, subtree_of_runs hfree hfile, List.foldl_cons]

/-! ## The directories of the cache -/

/-- The package's directory holds what was extracted from an archive with its digest. -/
def HoldsArchive (L : Lib) (cache : Location) (fs : Files) (digest : Bytes) : Prop :=
  ∃ payload files, L.sha256 payload = digest ∧ L.readZip payload = .ok files ∧
    fs.subtree (cache ++ [digest]) = unpacked files

/-- The marker by which the store knows that a package is in the cache. -/
def Marked (cache : Location) (fs : Files) (digest : Bytes) : Prop :=
  fs.subtree (cache ++ [digest]) [manifestName] ≠ none

/-- The cache is a directory. -/
def Reached (cache : Location) (fs : Files) : Prop :=
  ∀ place, place <+: cache → fs place = some .directory

/-- No link leads to the cache or is in it. -/
def NoLinks (cache : Location) (fs : Files) : Prop :=
  ∀ place, place <+: cache ∨ cache <+: place → fs place ≠ some .link

theorem NoLinks.plain {cache place : Location} (h : NoLinks cache fs) (hplace : cache <+: place) :
    fs.Plain place := by
  intro other hother
  exact h other (List.prefix_or_prefix_of_prefix hother hplace)

/-- The package had no directory in `start`, and now has one with the archive in it. -/
structure Published (L : Lib) (cache : Location) (start fs : Files) (digest : Bytes) : Prop where
  unmarked : ¬ Marked cache start digest
  absent : start (cache ++ [digest]) ≠ some .directory
  reached : Reached cache fs
  holds : HoldsArchive L cache fs digest

theorem Published.of_subtree {cache : Location} {start : Files} {digest : Bytes}
    (h : Published L cache start fs digest) (hreached : Reached cache fs')
    (hsame : fs'.subtree (cache ++ [digest]) = fs.subtree (cache ++ [digest])) :
    Published L cache start fs' digest := by
  refine ⟨h.unmarked, h.absent, hreached, ?_⟩
  rw [HoldsArchive, hsame]
  exact h.holds

/-- The state of the cache during `Ensure`, which began with `start`: a package is as it
was, or has been published. -/
structure Progress (L : Lib) (cache : Location) (start fs : Files) : Prop where
  links : NoLinks cache fs
  reached : Reached cache start → Reached cache fs
  packages : ∀ digest, IsDigest digest →
    fs.subtree (cache ++ [digest]) = start.subtree (cache ++ [digest]) ∨
      Published L cache start fs digest

/-- The name of a temporary directory. -/
def IsTemporary (name : Bytes) : Prop :=
  ∃ digest random, IsDigest digest ∧ name = tempPattern digest ++ random ∧
    ∀ byte ∈ random, 48 ≤ byte ∧ byte ≤ 57

theorem IsTemporary.not_isDigest {name : Bytes} (h : IsTemporary name) : ¬ IsDigest name := by
  obtain ⟨digest, random, hdigest, rfl, -⟩ := h
  intro hname
  have hlength := hname.1
  rw [tempPattern, List.length_append, List.length_append, hdigest.1] at hlength
  have hpattern : (Utf8.encode ".tmp-").length = 5 := by decide
  omega

theorem IsTemporary.ordinary {name : Bytes} (h : IsTemporary name) :
    Ordinary name ∧ (47 : UInt8) ∉ name := by
  obtain ⟨digest, random, hdigest, rfl, hrandom⟩ := h
  have hlength : 64 ≤ (tempPattern digest ++ random).length := by
    rw [tempPattern, List.length_append, List.length_append, hdigest.1]
    omega
  have hne : ∀ other : Bytes, other.length < 64 → tempPattern digest ++ random ≠ other := by
    intro other hother heq
    rw [heq] at hlength
    omega
  refine ⟨⟨?_, hne [46, 46] (by decide)⟩, ?_⟩
  · rintro (hnil | hdot)
    · exact hne [] (by decide) hnil
    · exact hne [46] (by decide) hdot
  · rw [tempPattern, List.mem_append, List.mem_append]
    rintro ((hmem | hmem) | hmem)
    · exact absurd (hdigest.2 47 hmem) (by decide)
    · exact absurd hmem (by decide)
    · exact absurd (hrandom 47 hmem) (by decide)

/-! ### The paths of the store -/

theorem elements_manifestName : elements manifestName = [manifestName] := by decide

/-- Where the marker of a package is. -/
theorem locate_marker {digest : Bytes} (h : IsDigest digest) :
    locate cwd (join (s.target digest) manifestName) =
      locate cwd s.root ++ [digest] ++ [manifestName] := by
  have hnames : ∀ name ∈ elements manifestName, Ordinary name := by
    rw [elements_manifestName]
    decide
  rw [SlashPath.locate_join_of_ordinary hnames, Store.locate_target h, elements_manifestName]

theorem locate_tempPath {dir pattern random : Bytes} (hdir : dir ≠ [])
    (hordinary : Ordinary (pattern ++ random)) (hsep : (47 : UInt8) ∉ pattern ++ random) :
    locate cwd (tempPath dir pattern random) = locate cwd dir ++ [pattern ++ random] := by
  have hfollow : ∀ place : Location,
      (elements (pattern ++ random)).foldl SlashPath.step place = place ++ [pattern ++ random] := by
    intro place
    rw [SlashPath.elements_of_sep_notMem hsep, List.foldl_cons, List.foldl_nil,
      SlashPath.step_of_ordinary hordinary]
  unfold tempPath
  split
  · next hlast =>
      obtain ⟨front, rfl⟩ := List.getLast?_eq_some_iff.mp hlast
      exact SlashPath.locate_append_name (hfollow _)
  · rw [← hfollow]
    exact SlashPath.locate_append_sep hdir _

/-! ### Steps that keep the cache -/

theorem not_below {cache : Location} (name : Bytes) : ¬ cache ++ [name] <+: cache := by
  intro hbelow
  have hlength := hbelow.length_le
  simp at hlength

theorem name_eq_of_below {cache place : Location} {name digest : Bytes}
    (h : cache ++ [name] <+: cache ++ [digest] ++ place) : name = digest := by
  rw [List.append_assoc, List.prefix_append_right_inj] at h
  exact (List.cons_prefix_cons.mp h).1

/-- Whatever happens in one directory of the cache, without links. -/
def Aside (cache : Location) (name : Bytes) (fs fs' : Files) : Prop :=
  ∀ place, fs' place = fs place ∨ cache ++ [name] <+: place ∧ fs' place ≠ some .link

namespace Aside

variable {cache : Location} {name digest : Bytes}

theorem of_removes {succeeded : Prop} (h : fs.Removes (cache ++ [name]) succeeded fs') :
    Aside cache name fs fs' := by
  intro place
  rcases h.only place with heq | ⟨hbelow, hnone⟩
  · exact Or.inl heq
  · exact Or.inr ⟨hbelow, by rw [hnone]; exact fun hlink => by cases hlink⟩

theorem of_confined (h : fs.Confined (cache ++ [name]) fs') : Aside cache name fs fs' :=
  fun place => (h place).imp_right fun hinside => ⟨hinside.1.1, hinside.2⟩

theorem noLinks (h : Aside cache name fs fs') (hlinks : NoLinks cache fs) : NoLinks cache fs' := by
  intro place hplace
  rcases h place with heq | ⟨-, hlink⟩
  · rw [heq]
    exact hlinks place hplace
  · exact hlink

theorem reached (h : Aside cache name fs fs') (hreached : Reached cache fs) :
    Reached cache fs' := by
  intro place hplace
  rcases h place with heq | ⟨hbelow, -⟩
  · rw [heq, hreached place hplace]
  · exact absurd (hbelow.trans hplace) (not_below name)

theorem subtree (h : Aside cache name fs fs') (hname : name ≠ digest) :
    fs'.subtree (cache ++ [digest]) = fs.subtree (cache ++ [digest]) := by
  funext place
  rcases h (cache ++ [digest] ++ place) with heq | ⟨hbelow, -⟩
  · exact heq
  · exact absurd (name_eq_of_below hbelow) hname

end Aside

namespace Progress

variable {cache : Location} {start : Files}

theorem refl (h : NoLinks cache start) : Progress L cache start start :=
  ⟨h, id, fun _ _ => Or.inl rfl⟩

/-- A step that leaves the packages alone. -/
theorem of_subtree (h : Progress L cache start fs) (hlinks : NoLinks cache fs')
    (hreached : Reached cache fs → Reached cache fs')
    (hsame : ∀ digest, IsDigest digest →
      fs'.subtree (cache ++ [digest]) = fs.subtree (cache ++ [digest])) :
    Progress L cache start fs' where
  links := hlinks
  reached hstart := hreached (h.reached hstart)
  packages digest hdigest := by
    rw [hsame digest hdigest]
    exact (h.packages digest hdigest).imp_right fun hpublished =>
      hpublished.of_subtree (hreached hpublished.reached) (hsame digest hdigest)

/-- Making the cache's directory. -/
theorem makesAll {succeeded : Prop} (h : Progress L cache start fs)
    (hmakes : fs.MakesAll cache succeeded fs') : Progress L cache start fs' := by
  refine h.of_subtree (fun place hplace => ?_) (fun hcache place hplace => ?_)
    (fun digest _ => ?_)
  · rcases hmakes.only place with heq | ⟨-, -, heq⟩
    · rw [heq]
      exact h.links place hplace
    · rw [heq]
      exact fun hlink => by cases hlink
  · rcases hmakes.only place with heq | ⟨-, -, heq⟩
    · rw [heq, hcache place hplace]
    · exact heq
  · funext place
    rcases hmakes.only (cache ++ [digest] ++ place) with heq | ⟨hbelow, -, -⟩
    · exact heq
    · have hlength := hbelow.length_le
      simp at hlength

/-- Whatever happens in a directory that is not a package's. -/
theorem aside (h : Progress L cache start fs) {name : Bytes} (hname : ¬ IsDigest name)
    (haside : Aside cache name fs fs') : Progress L cache start fs' :=
  h.of_subtree (haside.noLinks h.links) haside.reached fun _ hdigest =>
    haside.subtree fun heq => hname (heq ▸ hdigest)

/-- Publishing the extracted archive of a package that had no marker. -/
theorem moved (h : Progress L cache start fs) {name digest payload : Bytes}
    {files : List ZipFile} (hname : ¬ IsDigest name) (hdigest : IsDigest digest)
    (hunmarked : ¬ Marked cache start digest) (hcache : Reached cache fs)
    (habsent : fs (cache ++ [digest]) ≠ some .directory)
    (hsha256 : L.sha256 payload = digest) (hfiles : L.readZip payload = .ok files)
    (hcontent : fs.subtree (cache ++ [name]) = unpacked files) :
    Progress L cache start (fs.moved (cache ++ [name]) (cache ++ [digest])) ∧
      Published L cache start (fs.moved (cache ++ [name]) (cache ++ [digest])) digest := by
  have hholds : HoldsArchive L cache (fs.moved (cache ++ [name]) (cache ++ [digest])) digest :=
    ⟨payload, files, hsha256, hfiles, by rw [FileSystem.subtree_moved_target, hcontent]⟩
  have hreached : Reached cache (fs.moved (cache ++ [name]) (cache ++ [digest])) := by
    intro place hplace
    rw [FileSystem.moved_of_not_prefix (fun hbelow => not_below name (hbelow.trans hplace))
      (fun hbelow => not_below digest (hbelow.trans hplace)), hcache place hplace]
  have hpublished :
      Published L cache start (fs.moved (cache ++ [name]) (cache ++ [digest])) digest := by
    refine ⟨hunmarked, ?_, hreached, hholds⟩
    rcases h.packages digest hdigest with hsame | hpublished
    · have hhere := congrFun hsame []
      rw [FileSystem.subtree, FileSystem.subtree, List.append_nil] at hhere
      rwa [← hhere]
    · exact hpublished.absent
  refine ⟨⟨fun place hplace => ?_, fun _ => hreached, fun other hother => ?_⟩, hpublished⟩
  · unfold FileSystem.moved
    split
    · exact h.links _ (Or.inr ((List.prefix_append cache [name]).trans (List.prefix_append _ _)))
    · split
      · exact fun hlink => by cases hlink
      · exact h.links place hplace
  · by_cases hne : other = digest
    · exact Or.inr (hne ▸ hpublished)
    · have hsame : (fs.moved (cache ++ [name]) (cache ++ [digest])).subtree (cache ++ [other]) =
          fs.subtree (cache ++ [other]) := by
        funext place
        apply FileSystem.moved_of_not_prefix
        · exact fun hbelow => hname (name_eq_of_below hbelow ▸ hother)
        · exact fun hbelow => hne (name_eq_of_below hbelow).symm
      rw [hsame]
      exact (h.packages other hother).imp_right fun hbefore => hbefore.of_subtree hreached hsame

end Progress

/-! ## `Ensure` -/

/-- `Ensure` with valid arguments. -/
theorem ensure_eq {problemID : ℤ} {digest : Bytes} (hroot : s.root ≠ [])
    (hclient : s.hasClient = true) (hdigest : IsDigest digest) :
    ensure L s problemID digest = (do
      let made ← query (.op (.mkdirAll s.root))
      liftExcept (made.mapError (encode "create cache root: " ++ ·))
      match ← query (.op (.stat (join (s.target digest) manifestName))) with
      | .ok _ => return s.target digest
      | .error _ => fetch L s problemID digest) := by
  have hclient' : ¬ s.hasClient = false := by
    rw [hclient]
    decide
  exact (if_neg hroot).trans ((if_neg hclient').trans (if_neg (not_not.mpr hdigest)))

theorem ensure_of_not {problemID : ℤ} {digest : Bytes}
    (h : ¬ (s.root ≠ [] ∧ s.hasClient = true ∧ IsDigest digest)) :
    ∃ error, ensure L s problemID digest = throw error := by
  by_cases hroot : s.root = []
  · exact ⟨_, if_pos hroot⟩
  · by_cases hclient : s.hasClient = false
    · exact ⟨_, (if_neg hroot).trans (if_pos hclient)⟩
    · have hdigest : ¬ IsDigest digest :=
        fun hdigest => h ⟨hroot, Bool.eq_true_of_not_eq_false hclient, hdigest⟩
      exact ⟨_, (if_neg hroot).trans ((if_neg hclient).trans (if_pos hdigest))⟩

/-- What `Ensure` promises of a result: what it returns is the directory of the package,
which was marked before or has been published. -/
def Ensured (L : Lib) (s : Store) (cwd : Location) (start : Files) (digest : Bytes)
    (outcome : Except Bytes Bytes) (fs : Files) : Prop :=
  Progress L (locate cwd s.root) start fs ∧ ∀ path, outcome = .ok path →
    path = s.target digest ∧ IsDigest digest ∧
      (Marked (locate cwd s.root) start digest ∨ Published L (locate cwd s.root) start fs digest)

variable {start : Files} {digest payload : Bytes}

theorem Progress.ensured_error {error : Bytes}
    (h : Progress L (locate cwd s.root) start fs) :
    Ensured L s cwd start digest (.error error) fs :=
  ⟨h, fun _ hok => by cases hok⟩

/-- A marker that is found was there, or has been published. -/
theorem Progress.ensured_of_marked (h : Progress L (locate cwd s.root) start fs)
    (hdigest : IsDigest digest) (hmarked : Marked (locate cwd s.root) fs digest) :
    Ensured L s cwd start digest (.ok (s.target digest)) fs := by
  refine ⟨h, fun path hpath => ?_⟩
  cases hpath
  refine ⟨rfl, hdigest, (h.packages digest hdigest).imp_left fun hsame => ?_⟩
  rwa [Marked, hsame] at hmarked

/-- A marker that was there stays. -/
theorem Progress.marked {cache : Location} (h : Progress L cache start fs)
    (hdigest : IsDigest digest) (hmarked : Marked cache start digest) :
    fs.subtree (cache ++ [digest]) = start.subtree (cache ++ [digest]) :=
  (h.packages digest hdigest).resolve_right fun hpublished => hpublished.unmarked hmarked

/-- The state in which the archive is extracted to the temporary directory `name`. -/
structure Unpacking (L : Lib) (cache : Location) (start : Files) (name : Bytes) (fs : Files) :
    Prop where
  progress : Progress L cache start fs
  free : fs.LinkFree (cache ++ [name])
  empty : fs.subtree (cache ++ [name]) = emptyDirectory

/-- The state after the archive was extracted there. -/
structure Unpacked (L : Lib) (cache : Location) (start : Files) (name payload : Bytes)
    (fs : Files) : Prop where
  progress : Progress L cache start fs
  reached : Reached cache fs
  content : ∃ files, L.readZip payload = .ok files ∧
    fs.subtree (cache ++ [name]) = unpacked files

theorem meets_extract {temp name : Bytes} (hname : ¬ IsDigest name)
    (htemp : locate cwd temp = locate cwd s.root ++ [name]) :
    Meets (effect cwd) (Unpacking L (locate cwd s.root) start name)
      (extract L s temp payload).run
      (Ends (fun _ => Unpacked L (locate cwd s.root) start name payload)
        fun error => Ensured L s cwd start digest (.error error))
      (Progress L (locate cwd s.root) start) := by
  have hprogress : ∀ t u, Unpacking L (locate cwd s.root) start name t →
      Stops (effect cwd) (extract L s temp payload).run t u →
        t.Confined (locate cwd s.root ++ [name]) u ∧ Progress L (locate cwd s.root) start u := by
    intro t u ht hstops
    have hconfined : t.Confined (locate cwd s.root ++ [name]) u :=
      confined_of_asks (htemp ▸ asks_extract temp payload) ht.free hstops
    exact ⟨hconfined, ht.progress.aside hname (.of_confined hconfined)⟩
  constructor
  · intro t outcome u ht hruns
    obtain ⟨hconfined, hu⟩ := hprogress t u ht hruns.stops
    cases outcome with
    | error error => exact hu.ensured_error
    | ok value =>
        refine ⟨hu, ?_, ?_⟩
        · intro place hplace
          refine (ht.free.of_confined hconfined).directories place ?_
          exact hplace.trans (List.prefix_append _ _)
        · obtain ⟨files, _, hfiles, hruns⟩ := runs_bind_ok.mp hruns
          obtain ⟨hzip, rfl⟩ := runs_liftExcept.mp hfiles
          obtain ⟨_, _, hcount, hruns⟩ := runs_bind_ok.mp hruns
          obtain ⟨-, rfl⟩ := runs_liftExcept.mp hcount
          obtain ⟨_, _, hsize, hruns⟩ := runs_bind_ok.mp hruns
          obtain ⟨-, rfl⟩ := runs_liftExcept.mp hsize
          have hcontent := subtree_of_runs_extractFiles (by rw [htemp]; exact ht.free) hruns
          rw [htemp, ht.empty] at hcontent
          exact ⟨files, Except.mapError_eq_ok.mp hzip, hcontent⟩
  · intro t u ht hstops
    exact (hprogress t u ht hstops).2

/-- Looking for the marker of a package. -/
theorem meets_stat {P : Files → Prop} (hdigest : IsDigest digest)
    (hP : ∀ t, P t → Progress L (locate cwd s.root) start t) :
    Meets (effect cwd) P
      (Interaction.query (Call.op (.stat (join (s.target digest) manifestName))) :
        Interaction Call Answer _)
      (Ends (fun _ t => P t ∧ Marked (locate cwd s.root) t digest)
        fun _ t => P t ∧ ¬ Marked (locate cwd s.root) t digest)
      (Progress L (locate cwd s.root) start) := by
  refine Interaction.meets_query hP fun t answer u ht heffect => ?_
  obtain ⟨rfl, hstat⟩ := heffect
  rw [locate_marker hdigest] at hstat
  have hinside : locate cwd s.root <+: locate cwd s.root ++ [digest] ++ [manifestName] :=
    (List.prefix_append _ _).trans (List.prefix_append _ _)
  have hiff := hstat ((hP u ht).links.plain hinside)
  cases answer with
  | ok value => exact ⟨⟨ht, hiff.mp rfl⟩, hP u ht⟩
  | error error => exact ⟨⟨ht, fun hmarked => by cases hiff.mpr hmarked⟩, hP u ht⟩

/-- Installing the extracted archive. -/
theorem meets_install {temp name : Bytes} (hname : ¬ IsDigest name) (hdigest : IsDigest digest)
    (htemp : locate cwd temp = locate cwd s.root ++ [name])
    (hsha256 : L.sha256 payload = digest)
    (hunmarked : ¬ Marked (locate cwd s.root) start digest) :
    Meets (effect cwd) (Unpacking L (locate cwd s.root) start name)
      (install L s temp (s.target digest) payload).run (Ensured L s cwd start digest)
      (Progress L (locate cwd s.root) start) := by
  refine meets_bind (meets_extract hname htemp) fun _ => ?_
  have hrename : Meets (effect cwd) (Unpacked L (locate cwd s.root) start name payload)
      (Interaction.query (Call.op (.rename temp (s.target digest))) : Interaction Call Answer _)
      (Ends (fun _ t => Progress L (locate cwd s.root) start t ∧
          Published L (locate cwd s.root) start t digest)
        fun _ => Progress L (locate cwd s.root) start)
      (Progress L (locate cwd s.root) start) := by
    refine Interaction.meets_query (fun t ht => ht.progress) fun t answer u ht heffect => ?_
    obtain ⟨hfailed, hdone⟩ := heffect
      (ht.progress.links.plain (by rw [htemp]; exact List.prefix_append _ _))
      (ht.progress.links.plain (by rw [Store.locate_target hdigest]; exact List.prefix_append _ _))
    obtain ⟨files, hfiles, hcontent⟩ := ht.content
    cases answer with
    | error error =>
        have hsame : u = t := hfailed fun hok => by cases hok
        rw [hsame]
        exact ⟨ht.progress, ht.progress⟩
    | ok value =>
        obtain ⟨-, habsent, hmoved⟩ := hdone rfl
        rw [Store.locate_target hdigest] at habsent
        rw [htemp, Store.locate_target hdigest] at hmoved
        rw [hmoved]
        have h := ht.progress.moved hname hdigest hunmarked ht.reached habsent hsha256 hfiles
          hcontent
        exact ⟨h, h.1⟩
  refine meets_lift_bind hrename fun answer => ?_
  cases answer with
  | ok value =>
      refine meets_pure fun t ht => ⟨⟨ht.1, fun path hpath => ?_⟩, ht.1⟩
      cases hpath
      exact ⟨rfl, hdigest, Or.inr ht.2⟩
  | error error =>
      -- the package may have been published by someone else
      refine meets_lift_bind (meets_stat hdigest fun t ht => ht) fun answer => ?_
      cases answer with
      | ok value => exact meets_pure fun t ht => ⟨ht.1.ensured_of_marked hdigest ht.2, ht.1⟩
      | error error => exact meets_throw fun t ht => ⟨ht.1.ensured_error, ht.1⟩

/-- The state after the cache's directory was made. -/
structure Prepared (L : Lib) (cache : Location) (start fs : Files) : Prop where
  progress : Progress L cache start fs
  reached : Reached cache fs

/-- Making the temporary directory. -/
theorem meets_mkdirTemp (hdigest : IsDigest digest) :
    Meets (effect cwd)
      (Prepared L (locate cwd s.root) start)
      (Interaction.query (Call.mkdirTemp s.root (tempPattern digest)) :
        Interaction Call Answer _)
      (Ends
        (fun random t => IsTemporary (tempPattern digest ++ random) ∧
          Unpacking L (locate cwd s.root) start (tempPattern digest ++ random) t)
        fun _ => Progress L (locate cwd s.root) start)
      (Progress L (locate cwd s.root) start) := by
  refine Interaction.meets_query (fun t ht => ht.progress) fun t answer u ht heffect => ?_
  cases answer with
  | error error =>
      rw [show u = t from heffect]
      exact ⟨ht.progress, ht.progress⟩
  | ok random =>
      obtain ⟨hrandom, hmakes⟩ := heffect
      obtain ⟨hfresh, hdone⟩ := hmakes (ht.progress.links.plain List.prefix_rfl)
      have htemporary : IsTemporary (tempPattern digest ++ random) :=
        ⟨digest, random, hdigest, rfl, hrandom⟩
      have hprogress : Progress L (locate cwd s.root) start u := by
        refine ht.progress.aside htemporary.not_isDigest fun place => ?_
        rw [hdone]
        by_cases hplace : place = locate cwd s.root ++ [tempPattern digest ++ random]
        · rw [hplace, Function.update_self]
          exact Or.inr ⟨List.prefix_rfl, fun hlink => by cases hlink⟩
        · exact Or.inl (Function.update_of_ne hplace _ _)
      have hbelow : ∀ place, locate cwd s.root ++ [tempPattern digest ++ random] <+: place →
          u place = if place = locate cwd s.root ++ [tempPattern digest ++ random] then
            some .directory else none := by
        intro place hplace
        rw [hdone, Function.update_apply, hfresh place hplace]
      refine ⟨⟨htemporary, hprogress, ⟨fun place hplace => ?_, fun place hplace => ?_⟩, ?_⟩,
        hprogress⟩
      · rw [hdone]
        rcases List.prefix_concat_iff.mp hplace with rfl | hparent
        · exact Function.update_self _ _ _
        · rw [Function.update_of_ne, ht.reached place hparent]
          rintro rfl
          have hlength := hparent.length_le
          simp at hlength
      · rw [hbelow place hplace]
        split <;> exact fun hlink => by cases hlink
      · funext place
        unfold FileSystem.subtree emptyDirectory
        rw [hbelow _ (List.prefix_append _ _)]
        simp

/-- Removing the temporary directory. -/
theorem meets_removeAll {temp name : Bytes} {outcome : Except Bytes Bytes}
    (hname : ¬ IsDigest name) (htemp : locate cwd temp = locate cwd s.root ++ [name]) :
    Meets (effect cwd) (Ensured L s cwd start digest outcome)
      (Interaction.query (Call.op (.removeAll temp)) : Interaction Call Answer _)
      (fun _ => Ensured L s cwd start digest outcome) (Progress L (locate cwd s.root) start) := by
  refine Interaction.meets_query (fun t ht => ht.1) fun t answer u ht heffect => ?_
  have hremoves := heffect (ht.1.links.plain (by rw [htemp]; exact List.prefix_append _ _))
  rw [htemp] at hremoves
  have haside : Aside (locate cwd s.root) name t u := .of_removes hremoves
  have hprogress := ht.1.aside hname haside
  refine ⟨⟨hprogress, fun path hpath => ?_⟩, hprogress⟩
  obtain ⟨htarget, hdigest, hfound⟩ := ht.2 path hpath
  refine ⟨htarget, hdigest, hfound.imp_right fun hpublished => ?_⟩
  exact hpublished.of_subtree (haside.reached hpublished.reached)
    (haside.subtree fun heq => hname (heq ▸ hdigest))

/-- A package that is not in the cache. -/
theorem meets_fetch {problemID : ℤ} (hroot : s.root ≠ []) (hdigest : IsDigest digest)
    (hunmarked : ¬ Marked (locate cwd s.root) start digest) :
    Meets (effect cwd)
      (Prepared L (locate cwd s.root) start)
      (fetch L s problemID digest).run (Ensured L s cwd start digest)
      (Progress L (locate cwd s.root) start) := by
  have hfailed : ∀ (error : Bytes) (t : Files), Prepared L (locate cwd s.root) start t →
      Ensured L s cwd start digest (.error error) t ∧ Progress L (locate cwd s.root) start t :=
    fun error t ht => ⟨ht.progress.ensured_error, ht.progress⟩
  have hdownload : Meets (effect cwd) (Prepared L (locate cwd s.root) start)
      (Interaction.query (Call.download problemID digest) : Interaction Call Answer _)
      (fun _ => Prepared L (locate cwd s.root) start)
      (Progress L (locate cwd s.root) start) := by
    refine Interaction.meets_query (fun t ht => ht.progress) fun t answer u ht heffect => ?_
    rw [show u = t from heffect]
    exact ⟨ht, ht.progress⟩
  refine meets_lift_bind hdownload fun answer => ?_
  refine meets_liftExcept_bind (fun payload _ => ?_) fun _ _ => hfailed _
  split
  · exact meets_throw (hfailed _)
  · next hsha256 =>
      split
      · exact meets_throw (hfailed _)
      · refine meets_lift_bind (meets_mkdirTemp hdigest) fun made => ?_
        cases made with
        | error error =>
            refine meets_liftExcept_bind (fun _ hok => by cases hok) fun _ _ t ht => ?_
            exact ⟨ht.ensured_error, ht⟩
        | ok random =>
            refine meets_liftExcept_bind (fun name hname => ?_) fun _ herror => by cases herror
            cases hname
            refine Interaction.meets_given (fun _ => id) fun htemporary => ?_
            have htemp : locate cwd (tempPath s.root (tempPattern digest) random) =
                locate cwd s.root ++ [tempPattern digest ++ random] :=
              locate_tempPath hroot htemporary.ordinary.1 htemporary.ordinary.2
            refine meets_lift_bind (meets_install htemporary.not_isDigest hdigest htemp
              (not_not.mp hsha256) hunmarked) fun outcome => ?_
            refine meets_lift_bind (meets_removeAll htemporary.not_isDigest htemp) fun _ => ?_
            exact meets_liftExcept fun t ht => ⟨ht, ht.1⟩

/-- Making the cache's directory. -/
theorem meets_mkdirAll :
    Meets (effect cwd) (Progress L (locate cwd s.root) start)
      (Interaction.query (Call.op (.mkdirAll s.root)) : Interaction Call Answer _)
      (Ends (fun _ => Prepared L (locate cwd s.root) start)
        fun _ => Progress L (locate cwd s.root) start)
      (Progress L (locate cwd s.root) start) := by
  refine Interaction.meets_query (fun t ht => ht) fun t answer u ht heffect => ?_
  have hmakes := heffect (ht.links.plain List.prefix_rfl)
  have hprogress := ht.makesAll hmakes
  cases answer with
  | ok value => exact ⟨⟨hprogress, hmakes.done rfl⟩, hprogress⟩
  | error error => exact ⟨hprogress, hprogress⟩

/-- Whatever the cache holds, `Ensure` leaves the packages as they were or publishes one,
and it returns only a directory that was marked or is published. -/
theorem meets_ensure {problemID : ℤ} :
    Meets (effect cwd) (Progress L (locate cwd s.root) start) (ensure L s problemID digest).run
      (Ensured L s cwd start digest) (Progress L (locate cwd s.root) start) := by
  have hfailed : ∀ (error : Bytes) (t : Files), Progress L (locate cwd s.root) start t →
      Ensured L s cwd start digest (.error error) t ∧ Progress L (locate cwd s.root) start t :=
    fun error t ht => ⟨ht.ensured_error, ht⟩
  by_cases hguards : s.root ≠ [] ∧ s.hasClient = true ∧ IsDigest digest
  · obtain ⟨hroot, hclient, hdigest⟩ := hguards
    rw [ensure_eq hroot hclient hdigest]
    refine meets_lift_bind meets_mkdirAll fun made => ?_
    cases made with
    | error error =>
        exact meets_liftExcept_bind (fun _ hok => by cases hok) fun _ _ => hfailed _
    | ok value =>
        refine meets_liftExcept_bind (fun _ _ => ?_) fun _ herror => by cases herror
        refine meets_lift_bind (meets_stat hdigest fun t ht => ht.progress) fun found => ?_
        cases found with
        | ok value =>
            exact meets_pure fun t ht =>
              ⟨ht.1.progress.ensured_of_marked hdigest ht.2, ht.1.progress⟩
        | error error =>
            refine Interaction.meets_given (fun t ht => ⟨fun hmarked => ht.2 ?_, ht.1⟩)
              fun hunmarked => meets_fetch hroot hdigest hunmarked
            rwa [Marked, ht.1.progress.marked hdigest hmarked]
  · obtain ⟨error, hrefused⟩ := ensure_of_not hguards
    rw [hrefused]
    exact meets_throw (hfailed error)

end JudgeLoom.Go.PackageStore
