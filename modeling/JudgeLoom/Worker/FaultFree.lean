import JudgeLoom.Worker.PackageHistory

/-!
# Ensuring a package without faults

In the environment `faultless` a call fails only if it has to: because a file stands where
a directory is to be made, say.  There it depends on the archive alone whether `Ensure`
succeeds for a package that is not in the cache (`returns_ensure`, `of_runs_ensure`), and
`Extractable` says of which archives it does.

Whether two entries are in each other's way does not depend on their order: what counts
is that no entry needs a directory where another one is a file.
-/

namespace JudgeLoom.Go.PackageStore

open Utf8 (encode)
open SlashPath (clean join dir isAbs locate elements Ordinary)
open Interaction (Runs Achieves)
open Interaction.Fallible

variable {L : Lib} {s : Store} {cwd : Location} {fs fs' : Files} {files : List ZipFile}
  {file : ZipFile} {place : Location} {content : Bytes}

/-! ## What is found in an extracted archive -/

/-- The directory that an entry is, or is put into. -/
def ZipFile.directory (file : ZipFile) : Location :=
  if file.isDir then file.names else file.names.dropLast

/-- The content of the file at a place: that of the last entry with this name. -/
def fileAt (files : List ZipFile) (place : Location) : Option Bytes :=
  (files.reverse.find? fun file => !file.isDir && decide (file.names = place)).map
    ZipFile.content

/-- No entry needs a directory where an entry is a file. -/
def Apart (files : List ZipFile) : Prop :=
  ∀ file ∈ files, ∀ other ∈ files, file.isDir = false → ¬ file.names <+: other.directory

theorem unpacked_concat (files : List ZipFile) (file : ZipFile) :
    unpacked (files ++ [file]) = unpackFile (unpacked files) file :=
  List.foldl_concat _ _ _ _

theorem fileAt_concat (files : List ZipFile) (file : ZipFile) (place : Location) :
    fileAt (files ++ [file]) place =
      if file.isDir = false ∧ file.names = place then some file.content
      else fileAt files place := by
  unfold fileAt
  rw [List.reverse_concat, List.find?_cons]
  by_cases hdir : file.isDir = false <;> by_cases hnames : file.names = place <;>
    simp [hdir, hnames]

theorem withDirectories_apply (tree : Files) (names place : Location) :
    tree.withDirectories names place = tree place ∨
      place <+: names ∧ tree place = none ∧
        tree.withDirectories names place = some .directory := by
  unfold FileSystem.withDirectories
  split
  · next h => exact Or.inr ⟨h.1, h.2, rfl⟩
  · exact Or.inl rfl

theorem withDirectories_eq_file {tree : Files} {names : Location} :
    tree.withDirectories names place = some (.file content) ↔
      tree place = some (.file content) := by
  rcases withDirectories_apply tree names place with heq | ⟨-, hnone, hmade⟩
  · rw [heq]
  · rw [hmade, hnone]
    exact iff_of_false (fun h => by cases h) fun h => by cases h

/-- The files of an extracted archive. -/
theorem unpacked_eq_file :
    unpacked files place = some (.file content) ↔ fileAt files place = some content := by
  induction files using List.reverseRecOn with
  | nil =>
      refine iff_of_false (fun h => ?_) fun h => by cases h
      rw [show unpacked [] = emptyDirectory from rfl, emptyDirectory] at h
      split at h <;> cases h
  | append_singleton rest file ih =>
      rw [unpacked_concat, fileAt_concat, unpackFile]
      by_cases hdir : file.isDir = true
      · rw [if_pos hdir, withDirectories_eq_file, ih, if_neg fun h => by simp [hdir] at h]
      · rw [if_neg hdir, Function.update_apply]
        by_cases hplace : place = file.names
        · rw [if_pos hplace, if_pos ⟨Bool.not_eq_true _ ▸ hdir, hplace.symm⟩]
          simp
        · rw [if_neg hplace, withDirectories_eq_file, ih,
            if_neg fun h => hplace h.2.symm]

/-- A directory of an extracted archive is on the way to an entry. -/
theorem of_unpacked_eq_directory (h : unpacked files place = some .directory) :
    place = [] ∨ ∃ file ∈ files, place <+: file.directory := by
  induction files using List.reverseRecOn with
  | nil =>
      rw [show unpacked [] = emptyDirectory from rfl, emptyDirectory] at h
      split at h
      · next hnil => exact Or.inl hnil
      · cases h
  | append_singleton rest file ih =>
      have hmade : ∀ names, (unpacked rest).withDirectories names place = some .directory →
          place <+: names ∨ unpacked rest place = some .directory := by
        intro names hdirectory
        rcases withDirectories_apply (unpacked rest) names place with heq | ⟨hplace, -, -⟩
        · exact Or.inr (heq ▸ hdirectory)
        · exact Or.inl hplace
      have hfile : place <+: file.directory ∨ unpacked rest place = some .directory := by
        rw [unpacked_concat, unpackFile] at h
        unfold ZipFile.directory
        split at h
        · next hdir =>
            rw [if_pos hdir]
            exact hmade _ h
        · next hdir =>
            rw [if_neg hdir]
            rw [Function.update_apply] at h
            split at h
            · cases h
            · exact hmade _ h
      rcases hfile with hbelow | hrest
      · exact Or.inr ⟨file, by simp, hbelow⟩
      · rcases ih hrest with hnil | ⟨other, hother, hbelow⟩
        · exact Or.inl hnil
        · exact Or.inr ⟨other, List.mem_append_left _ hother, hbelow⟩

theorem unpackFile_ne_none {tree : Files} (h : tree place ≠ none) (file : ZipFile) :
    unpackFile tree file place ≠ none := by
  have hmade : ∀ names, tree.withDirectories names place ≠ none := by
    intro names
    rcases withDirectories_apply tree names place with heq | ⟨-, hnone, -⟩
    · rwa [heq]
    · exact absurd hnone h
  unfold unpackFile
  split
  · exact hmade _
  · rw [Function.update_apply]
    split
    · exact Option.some_ne_none _
    · exact hmade _

theorem withDirectories_ne_none {tree : Files} {names : Location} (h : place <+: names) :
    tree.withDirectories names place ≠ none := by
  unfold FileSystem.withDirectories
  split
  · exact Option.some_ne_none _
  · next hthere => exact fun hnone => hthere ⟨h, hnone⟩

/-- The way to an entry is there. -/
theorem unpacked_ne_none (hfile : file ∈ files) (hplace : place <+: file.directory) :
    unpacked files place ≠ none := by
  induction files using List.reverseRecOn with
  | nil => cases hfile
  | append_singleton rest last ih =>
      rw [unpacked_concat]
      rcases List.mem_append.mp hfile with hrest | hlast
      · exact unpackFile_ne_none (ih hrest) last
      · obtain rfl := List.mem_singleton.mp hlast
        unfold ZipFile.directory at hplace
        unfold unpackFile
        split at hplace
        · next hdir =>
            rw [if_pos hdir]
            exact withDirectories_ne_none hplace
        · next hdir =>
            rw [if_neg hdir, Function.update_apply]
            split
            · exact Option.some_ne_none _
            · exact withDirectories_ne_none hplace

theorem unpacked_ne_link : unpacked files place ≠ some .link := by
  induction files using List.reverseRecOn with
  | nil =>
      rw [show unpacked [] = emptyDirectory from rfl, emptyDirectory]
      split <;> exact fun h => by cases h
  | append_singleton rest file ih =>
      have hmade : ∀ names, (unpacked rest).withDirectories names place ≠ some .link := by
        intro names
        rcases withDirectories_apply (unpacked rest) names place with heq | ⟨-, -, hmade⟩
        · rwa [heq]
        · rw [hmade]
          exact fun h => by cases h
      rw [unpacked_concat, unpackFile]
      split
      · exact hmade _
      · rw [Function.update_apply]
        split
        · exact fun h => by cases h
        · exact hmade _

/-- The entry of a file at a place. -/
theorem of_fileAt (h : fileAt files place = some content) :
    ∃ file ∈ files, file.isDir = false ∧ file.names = place ∧ file.content = content := by
  unfold fileAt at h
  obtain ⟨file, hfind, hcontent⟩ := Option.map_eq_some_iff.mp h
  have hfound := List.find?_some hfind
  have hmem := List.mem_reverse.mp (List.mem_of_find?_eq_some hfind)
  rw [Bool.and_eq_true, Bool.not_eq_true', decide_eq_true_eq] at hfound
  exact ⟨file, hmem, hfound.1, hfound.2, hcontent⟩

theorem exists_fileAt (hfile : file ∈ files) (hdir : file.isDir = false) :
    ∃ content, fileAt files file.names = some content := by
  unfold fileAt
  cases hfind : files.reverse.find? fun other =>
      !other.isDir && decide (other.names = file.names) with
  | some other => exact ⟨other.content, rfl⟩
  | none =>
      have hnone := List.find?_eq_none.mp hfind file (List.mem_reverse.mpr hfile)
      simp [hdir] at hnone

/-- Where no file is in the way, the way to an entry is made of directories. -/
theorem unpacked_eq_directory (hapart : Apart files) (hfile : file ∈ files)
    (hplace : place <+: file.directory) : unpacked files place = some .directory := by
  cases hnode : unpacked files place with
  | none => exact absurd hnode (unpacked_ne_none hfile hplace)
  | some node =>
      cases node with
      | directory => rfl
      | link => exact absurd hnode unpacked_ne_link
      | file content =>
          obtain ⟨other, hother, hdir, rfl, -⟩ := of_fileAt (unpacked_eq_file.mp hnode)
          exact absurd hplace (hapart other hother file hfile hdir)

/-! ## Archives that can be extracted -/

/-- What the entries of an archive have to satisfy for it to be extracted. -/
structure Extractable (files : List ZipFile) : Prop where
  names : ∀ file ∈ files, ¬ Refused file.normalized
  links : ∀ file ∈ files, file.isSymlink = true → file.isDir = true
  contents : ∀ file ∈ files, file.isDir = false → ∃ content, file.opened = .ok (.ok content)
  apart : Apart files

/-! ## The environment without faults -/

/-- Every call succeeds that can, and the download brings the archive. -/
def faultless (cwd : Location) (payload : Bytes) : Interaction.Effect Answer Files
  | .op op, answer, fs, fs' =>
      op.effect cwd (answer = .ok ()) fs fs' ∧
        ((∃ other, op.effect cwd True fs other) → answer = .ok ())
  | .download .., answer, fs, fs' => answer = .ok payload ∧ fs' = fs
  | .mkdirTemp dir pattern, answer, fs, fs' =>
      effect cwd (.mkdirTemp dir pattern) answer fs fs' ∧ ∃ random, answer = .ok random
  | .readDir path, answer, fs, fs' =>
      effect cwd (.readDir path) answer fs fs' ∧ ∃ entries, answer = .ok entries
  | .readFile path, answer, fs, fs' =>
      effect cwd (.readFile path) answer fs fs' ∧
        ∀ content, fs (locate cwd path) = some (.file content) → answer = .ok content

variable {payload : Bytes} {α : Type}

theorem effect_of_faultless (question : Call) (answer : Answer question) (fs fs' : Files)
    (h : faultless cwd payload question answer fs fs') : effect cwd question answer fs fs' := by
  cases question with
  | op op => exact h.1
  | download problemID digest => exact h.2
  | mkdirTemp dir pattern => exact h.1
  | readDir path => exact h.1
  | readFile path => exact h.1

/-- A call that can succeed does. -/
theorem achieves_op {op : FileOp} {P : Files → Prop} (hcan : ∃ t, op.effect cwd True fs t)
    (h : ∀ t, op.effect cwd True fs t → P t) :
    Achieves (faultless cwd payload)
      (Interaction.query (Call.op op) : Interaction Call Answer _) fs
      fun answer t => answer = .ok () ∧ P t := by
  refine Interaction.achieves_query ?_ ?_
  · obtain ⟨t, ht⟩ := hcan
    exact ⟨.ok (), t, by simpa using ht, fun _ => rfl⟩
  · rintro answer t ⟨heffect, hanswer⟩
    obtain rfl := hanswer hcan
    exact ⟨rfl, h t (by simpa using heffect)⟩

theorem returns_run {op : FileOp} {P : Files → Prop} (hcan : ∃ t, op.effect cwd True fs t)
    (h : ∀ t, op.effect cwd True fs t → P t) :
    Returns (faultless cwd payload) (run op) fs fun _ t => P t := by
  refine returns_lift_bind (achieves_op hcan h) fun answer t ht => ?_
  exact returns_liftExcept ht.1 ht.2

/-- What is known of the runs in any environment. -/
theorem returns_of_effect {x : Task α} {P : α → Files → Prop}
    (h : Returns (faultless cwd payload) x fs fun _ _ => True)
    (hruns : ∀ a t, Runs (effect cwd) x.run fs (.ok a) t → P a t) :
    Returns (faultless cwd payload) x fs P where
  exists_run := h.exists_run
  runs outcome t hrun := by
    obtain ⟨a, rfl, -⟩ := h.runs outcome t hrun
    exact ⟨a, rfl, hruns a t (hrun.mono effect_of_faultless)⟩

/-! ## Extracting -/

theorem entryTarget_of_not_refused {root : Bytes} (hroot : SlashPath.cleaned root ≠ [])
    (h : ¬ Refused file.normalized) :
    entryTarget L root file = .ok (join root file.normalized) := by
  have hjoin : join root file.normalized = clean root ++ 47 :: file.normalized :=
    SlashPath.join_of_ordinary (ordinary_of_not_refused h) hroot
  unfold entryTarget
  rw [if_neg h]
  refine if_pos (Or.inr ⟨file.normalized, ?_⟩)
  rw [hjoin, List.append_assoc, List.singleton_append]

theorem not_refused_of_entryTarget {root target : Bytes}
    (h : entryTarget L root file = .ok target) : ¬ Refused file.normalized := by
  intro hrefused
  rw [entryTarget, if_pos hrefused] at h
  cases h

theorem not_prefix_dropLast (file : ZipFile) : ¬ file.names <+: file.names.dropLast := by
  intro hprefix
  have hne : file.names ≠ [] := SlashPath.elements_ne_nil _
  have hlength := hprefix.length_le
  have hpos := List.length_pos_of_ne_nil hne
  rw [List.length_dropLast] at hlength
  omega

section Extraction

variable {root : Bytes} {names : Location} {done rest : List ZipFile}

/-- Directories can be made where no file is in the way. -/
theorem exists_makesAll (hfree : fs.LinkFree (locate cwd root))
    (hdone : fs.subtree (locate cwd root) = unpacked done)
    (hway : ∀ file ∈ done, file.isDir = false → ¬ file.names <+: names) :
    ∃ t, fs.MakesAll (locate cwd root ++ names) True t := by
  refine ⟨_, FileSystem.makesAll_withDirectories (fun place hplace => ?_) trivial⟩
  rcases List.prefix_or_prefix_of_prefix hplace (List.prefix_append _ names) with hup | hdown
  · exact Or.inr (hfree.directories place hup)
  · obtain ⟨below, rfl⟩ := hdown
    rw [List.prefix_append_right_inj] at hplace
    have hnode : fs (locate cwd root ++ below) = unpacked done below := congrFun hdone below
    rw [hnode]
    cases hbelow : unpacked done below with
    | none => exact Or.inl rfl
    | some node =>
        cases node with
        | directory => exact Or.inr rfl
        | link => exact absurd hbelow unpacked_ne_link
        | file content =>
            obtain ⟨other, hother, hdir, rfl, -⟩ := of_fileAt (unpacked_eq_file.mp hbelow)
            exact absurd hplace (hway other hother hdir)

/-- A file can be written unless there is a directory in its place. -/
theorem returns_writeZipFile {target : Bytes} (hopened : file.opened = .ok (.ok content))
    (hnone : fs (locate cwd target) ≠ some .directory) :
    Returns (faultless cwd payload) (writeZipFile target file) fs fun _ _ => True := by
  refine Returns.bind (returns_liftExcept hopened (P := fun source t =>
    source = .ok content ∧ t = fs) ⟨rfl, rfl⟩) ?_
  rintro source t ⟨rfl, rfl⟩
  refine Returns.bind (returns_run (P := fun _ => True) ?_ fun _ _ => trivial) ?_
  · exact ⟨t, fun _ => ⟨fun _ _ => rfl, Or.inl rfl, fun _ => hnone⟩⟩
  · rintro - opened -
    refine returns_lift_bind (achieves_op (P := fun _ => True) ?_ fun _ _ => trivial) ?_
    · refine ⟨Function.update opened (locate cwd target) (some (.file content)), fun _ => ?_⟩
      refine ⟨content, ⟨fun place hplace => Function.update_of_ne hplace _ _, ?_, fun _ => ?_⟩,
        fun _ => rfl⟩
      · exact Or.inr ⟨content, Function.update_self _ _ _⟩
      · exact Function.update_self _ _ _
    · rintro copied written ⟨rfl, -⟩
      refine returns_lift_bind (achieves_op (P := fun _ => True) ⟨written, rfl⟩
        fun _ _ => trivial) ?_
      rintro closed last ⟨rfl, -⟩
      refine Returns.bind (returns_liftExcept rfl (P := fun _ _ => True) trivial) ?_
      rintro - t -
      exact returns_liftExcept rfl trivial

/-- An entry that nothing is in the way of is extracted. -/
theorem returns_extractFile (hroot : SlashPath.cleaned root ≠ [])
    (hfree : fs.LinkFree (locate cwd root))
    (hdone : fs.subtree (locate cwd root) = unpacked done)
    (h : Extractable (done ++ file :: rest)) :
    Returns (faultless cwd payload) (extractFile L root file) fs fun _ t =>
      t.LinkFree (locate cwd root) ∧ t.subtree (locate cwd root) = unpacked (done ++ [file]) := by
  have hfile : file ∈ done ++ file :: rest := by simp
  have hbefore : ∀ other ∈ done, other ∈ done ++ file :: rest :=
    fun _ => List.mem_append_left _
  have htarget := entryTarget_of_not_refused (L := L) hroot (h.names file hfile)
  obtain ⟨hlocate, hdir⟩ : locate cwd (join root file.normalized) = locate cwd root ++ file.names ∧
      locate cwd (dir (join root file.normalized)) = locate cwd root ++ file.names.dropLast :=
    locate_entryTarget htarget
  refine returns_of_effect ?_ fun _ t hrun => ⟨hfree.of_confined ?_, ?_⟩
  · refine Returns.bind (returns_liftExcept htarget (P := fun target t =>
      target = join root file.normalized ∧ t = fs) ⟨rfl, rfl⟩) ?_
    rintro target t ⟨rfl, rfl⟩
    have hmakes : ∃ u, t.MakesAll (locate cwd root ++ file.directory) True u :=
      exists_makesAll hfree hdone fun other hother hno =>
        h.apart other (hbefore other hother) file hfile hno
    unfold ZipFile.directory at hmakes
    split
    · next hisDir =>
        rw [if_pos hisDir, ← hlocate] at hmakes
        obtain ⟨u, hu⟩ := hmakes
        exact returns_run ⟨u, fun _ => hu⟩ fun _ _ => trivial
    · next hisDir =>
        rw [if_neg hisDir, ← hdir] at hmakes
        have hno : file.isDir = false := Bool.eq_false_of_not_eq_true hisDir
        split
        · next hlink => exact absurd (h.links file hfile hlink) hisDir
        · obtain ⟨u, hu⟩ := hmakes
          obtain ⟨content, hopened⟩ := h.contents file hfile hno
          have hplain : t.Plain (locate cwd (dir (join root file.normalized))) :=
            hfree.plain (by rw [hdir]; exact List.prefix_append _ _)
          refine Returns.bind (returns_run (P := fun made => t.MakesAll
            (locate cwd (dir (join root file.normalized))) True made) ⟨u, fun _ => hu⟩
              fun made hmade => hmade hplain) ?_
          rintro - made hmade
          refine returns_writeZipFile hopened fun hdirectory => ?_
          -- the place of the file is no directory, neither before nor now
          rw [hmade.eq_withDirectories trivial, hdir, hlocate] at hdirectory
          have hsubtree := congrFun (FileSystem.subtree_withDirectories t (locate cwd root)
            file.names.dropLast) file.names
          rw [FileSystem.subtree, hdirectory, hdone] at hsubtree
          rcases withDirectories_apply (unpacked done) file.names.dropLast file.names with
            heq | ⟨hbelow, -, -⟩
          · rw [heq] at hsubtree
            rcases of_unpacked_eq_directory hsubtree.symm with hnil | ⟨other, hother, hbelow⟩
            · exact absurd hnil (SlashPath.elements_ne_nil _)
            · exact h.apart file hfile other (hbefore other hother) hno hbelow
          · exact not_prefix_dropLast file hbelow
  · exact confined_of_asks (asks_extractFile root file) hfree hrun.stops
  · rw [subtree_of_runs hfree hrun, hdone, unpacked_concat]

theorem returns_extractFiles (hroot : SlashPath.cleaned root ≠ [])
    (hfree : fs.LinkFree (locate cwd root))
    (hdone : fs.subtree (locate cwd root) = unpacked done) (h : Extractable (done ++ rest)) :
    Returns (faultless cwd payload) (extractFiles L root rest) fs fun _ t =>
      t.LinkFree (locate cwd root) ∧ t.subtree (locate cwd root) = unpacked (done ++ rest) := by
  induction rest generalizing fs done with
  | nil => exact returns_pure ⟨hfree, by rw [List.append_nil, hdone]⟩
  | cons file rest ih =>
      refine Returns.bind (returns_extractFile hroot hfree hdone h) ?_
      rintro - t ⟨hfree', hdone'⟩
      rw [← List.singleton_append, ← List.append_assoc] at h ⊢
      exact ih hfree' hdone' h

/-- Only an entry that nothing is in the way of is extracted. -/
theorem Extractable.concat_of_runs (h : Extractable done) (hfree : fs.LinkFree (locate cwd root))
    (hdone : fs.subtree (locate cwd root) = unpacked done)
    (hrun : Runs (effect cwd) (extractFile L root file).run fs (.ok ()) fs') :
    Extractable (done ++ [file]) := by
  have hlinks := (entryTarget_of_runs hrun).2
  obtain ⟨target, _, hlift, hrun⟩ := runs_bind_ok.mp hrun
  obtain ⟨htarget, rfl⟩ := runs_liftExcept.mp hlift
  obtain ⟨hlocate, hdir⟩ : locate cwd target = locate cwd root ++ file.names ∧
      locate cwd (dir target) = locate cwd root ++ file.names.dropLast :=
    locate_entryTarget htarget
  -- what the calls for the directory and for the file tell
  have hcalls : (∃ made, fs.MakesAll (locate cwd root ++ file.directory) True made) ∧
      (file.isDir = false → (∃ content, file.opened = .ok (.ok content)) ∧
        fs (locate cwd root ++ file.names) ≠ some .directory) := by
    unfold ZipFile.directory
    split at hrun
    · next hisDir =>
        have hmakes := runs_run.mp hrun
          (hfree.plain (by rw [hlocate]; exact List.prefix_append _ _))
        rw [if_pos hisDir, ← hlocate]
        refine ⟨⟨fs', by simpa using hmakes⟩, fun hno => ?_⟩
        rw [hno] at hisDir
        cases hisDir
    · next hisDir =>
        split at hrun
        · cases (runs_throw.mp hrun).1
        · obtain ⟨_, made, hmake, hrun⟩ := runs_bind_ok.mp hrun
          have hparent : locate cwd root <+: locate cwd (dir target) := by
            rw [hdir]
            exact List.prefix_append _ _
          have hmakes := runs_run.mp hmake (hfree.plain hparent)
          have hfree' := hfree.of_confined (hfree.confined_makesAll hparent hmakes)
          obtain ⟨source, _, hlift, hrun⟩ := runs_bind_ok.mp hrun
          obtain ⟨hopened, rfl⟩ := runs_liftExcept.mp hlift
          obtain ⟨_, opened, hopen, hrun⟩ := runs_bind_ok.mp hrun
          obtain ⟨copied, written, hcopy, hrun⟩ := runs_bind_ok.mp hrun
          obtain ⟨closed, _, hclose, hrun⟩ := runs_bind_ok.mp hrun
          obtain ⟨_, _, hcopied, -⟩ := runs_bind_ok.mp hrun
          obtain ⟨hok, -⟩ := runs_liftExcept.mp hcopied
          have hinside : locate cwd root <+: locate cwd target := by
            rw [hlocate]
            exact List.prefix_append _ _
          have hopens := runs_run.mp hopen (hfree'.plain hinside)
          have hfree'' := hfree'.of_confined (FileSystem.confined_of_file
            (by rw [hlocate]; exact inside_append (SlashPath.elements_ne_nil _))
            hopens.only hopens.here)
          obtain ⟨_, heffect, heq⟩ := runs_query.mp hcopy
          cases heq
          obtain ⟨content, -, hsource⟩ := heffect (hfree''.plain hinside)
          rw [if_neg hisDir, ← hdir]
          refine ⟨⟨made, by simpa using hmakes⟩, fun _ => ⟨⟨content, ?_⟩, fun hdirectory => ?_⟩⟩
          · rw [hopened, hsource hok]
          · rw [← hlocate] at hdirectory
            refine hopens.done rfl ?_
            rcases hmakes.eq_or_directory (locate cwd target) with heq | ⟨-, hmade⟩
            · rw [heq, hdirectory]
            · exact hmade
  obtain ⟨⟨made, hmakes⟩, hfile⟩ := hcalls
  have hnode : ∀ below, fs (locate cwd root ++ below) = unpacked done below := congrFun hdone
  refine ⟨?_, ?_, ?_, ?_⟩
  · refine List.forall_mem_append.mpr ⟨h.names, List.forall_mem_singleton.mpr ?_⟩
    exact not_refused_of_entryTarget htarget
  · exact List.forall_mem_append.mpr ⟨h.links, List.forall_mem_singleton.mpr hlinks⟩
  · refine List.forall_mem_append.mpr ⟨h.contents, List.forall_mem_singleton.mpr fun hno => ?_⟩
    exact (hfile hno).1
  · refine List.forall_mem_append.mpr ⟨fun other hother => ?_, ?_⟩
    · refine List.forall_mem_append.mpr ⟨h.apart other hother, ?_⟩
      rw [List.forall_mem_singleton]
      intro hno hbelow
      obtain ⟨content, hcontent⟩ := exists_fileAt hother hno
      have hthere := (hnode other.names).trans (unpacked_eq_file.mpr hcontent)
      have hdirectory := hmakes.done trivial (locate cwd root ++ other.names)
        (List.prefix_append_right_inj _ |>.mpr hbelow)
      rcases hmakes.only (locate cwd root ++ other.names) with heq | ⟨-, hnone, -⟩
      · rw [heq, hthere] at hdirectory
        cases hdirectory
      · rw [hthere] at hnone
        cases hnone
    · rw [List.forall_mem_singleton]
      refine List.forall_mem_append.mpr ⟨fun other hother hno hbelow => ?_, ?_⟩
      · refine (hfile hno).2 ?_
        rw [hnode, unpacked_eq_directory h.apart hother hbelow]
      · rw [List.forall_mem_singleton]
        intro hno hbelow
        rw [ZipFile.directory, hno] at hbelow
        exact not_prefix_dropLast file hbelow

theorem Extractable.append_of_runs (h : Extractable done) (hfree : fs.LinkFree (locate cwd root))
    (hdone : fs.subtree (locate cwd root) = unpacked done)
    (hrun : Runs (effect cwd) (extractFiles L root rest).run fs (.ok ()) fs') :
    Extractable (done ++ rest) := by
  induction rest generalizing fs done with
  | nil => rwa [List.append_nil]
  | cons file rest ih =>
      obtain ⟨_, middle, hfile, hrest⟩ := runs_bind_ok.mp hrun
      have hconfined := confined_of_asks (asks_extractFile root file) hfree hfile.stops
      have hmiddle : middle.subtree (locate cwd root) = unpacked (done ++ [file]) := by
        rw [subtree_of_runs hfree hfile, hdone, unpacked_concat]
      have hnext := ih (h.concat_of_runs hfree hdone hfile) (hfree.of_confined hconfined) hmiddle
        hrest
      rwa [List.append_assoc, List.singleton_append] at hnext

end Extraction

theorem extractable_nil : Extractable [] := by
  refine ⟨?_, ?_, ?_, ?_⟩ <;> exact fun _ h => by cases h

/-- The archive is one that `extract` extracts, and has the entries `files`. -/
structure Accepts (L : Lib) (s : Store) (payload : Bytes) (files : List ZipFile) : Prop where
  opened : L.readZip payload = .ok files
  count : (files.length : ℤ) ≤ s.fileLimit.toInt
  size : ((declaredSize files % 2 ^ 64 : ℕ) : ℤ) ≤ s.uncompressedLimit.toInt
  entries : Extractable files

theorem checkCount_eq_ok_iff : checkCount s files = .ok () ↔
    (files.length : ℤ) ≤ s.fileLimit.toInt := by
  unfold checkCount
  split
  · next h =>
      refine iff_of_false (fun hok => ?_) (not_le.mpr h)
      cases hok
  · next h => exact iff_of_true rfl (not_lt.mp h)

section

variable {root : Bytes}

/-- An archive that is extracted is one of this kind. -/
theorem accepts_of_runs (hfree : fs.LinkFree (locate cwd root))
    (hempty : fs.subtree (locate cwd root) = emptyDirectory)
    (hrun : Runs (effect cwd) (extract L s root payload).run fs (.ok ()) fs') :
    ∃ files, Accepts L s payload files ∧ fs'.subtree (locate cwd root) = unpacked files := by
  obtain ⟨files, _, hfiles, hrun⟩ := runs_bind_ok.mp hrun
  obtain ⟨hopened, rfl⟩ := runs_liftExcept.mp hfiles
  obtain ⟨_, _, hlift, hrun⟩ := runs_bind_ok.mp hrun
  obtain ⟨hcount, rfl⟩ := runs_liftExcept.mp hlift
  obtain ⟨_, _, hlift, hrun⟩ := runs_bind_ok.mp hrun
  obtain ⟨hsize, rfl⟩ := runs_liftExcept.mp hlift
  refine ⟨files, ⟨Except.mapError_eq_ok.mp hopened, checkCount_eq_ok_iff.mp hcount,
    checkSize_eq_ok_iff.mp hsize, ?_⟩, ?_⟩
  · exact extractable_nil.append_of_runs hfree hempty hrun
  · rw [subtree_of_runs_extractFiles hfree hrun, hempty]
    rfl

/-- An archive of this kind is extracted. -/
theorem returns_extract (hroot : SlashPath.cleaned root ≠ [])
    (hfree : fs.LinkFree (locate cwd root))
    (hempty : fs.subtree (locate cwd root) = emptyDirectory) (h : Accepts L s payload files) :
    Returns (faultless cwd payload) (extract L s root payload) fs fun _ t =>
      fs.Confined (locate cwd root) t ∧ t.subtree (locate cwd root) = unpacked files := by
  refine returns_of_effect ?_ fun _ t hrun => ⟨?_, ?_⟩
  · refine Returns.bind (returns_liftExcept (a := files) (P := fun found t =>
      found = files ∧ t = fs) (by rw [h.opened]; rfl) ⟨rfl, rfl⟩) ?_
    rintro found t ⟨rfl, rfl⟩
    refine Returns.bind (returns_liftExcept (checkCount_eq_ok_iff.mpr h.count)
      (P := fun _ u => u = t) rfl) ?_
    rintro - u rfl
    refine Returns.bind (returns_liftExcept (checkSize_eq_ok_iff.mpr h.size)
      (P := fun _ t => t = u) rfl) ?_
    rintro - t rfl
    have hempty' : t.subtree (locate cwd root) = unpacked [] := hempty
    refine (returns_extractFiles hroot hfree hempty' h.entries).mono ?_
    rintro _ u ⟨a, rfl, -⟩
    exact ⟨a, rfl, trivial⟩
  · exact confined_of_asks (asks_extract root payload) hfree hrun.stops
  · obtain ⟨others, hothers, hsubtree⟩ := accepts_of_runs hfree hempty hrun
    obtain rfl := Except.ok.inj (hothers.opened.symm.trans h.opened)
    exact hsubtree

end

/-! ## `Ensure` -/

/-- The cache is there or can be made, nothing of the package is in it, and a name for a
temporary directory is free. -/
structure Awaits (cache : Location) (digest : Bytes) (fs : Files) : Prop where
  links : NoLinks cache fs
  way : ∀ place, place <+: cache → fs place = none ∨ fs place = some .directory
  absent : ∀ place, cache ++ [digest] <+: place → fs place = none
  free : ∃ random : Bytes, (∀ byte ∈ random, 48 ≤ byte ∧ byte ≤ 57) ∧
    ∀ place, cache ++ [tempPattern digest ++ random] <+: place → fs place = none

/-- The package was extracted to its directory. -/
structure Holds (cache : Location) (digest : Bytes) (files : List ZipFile) (fs : Files) :
    Prop where
  links : NoLinks cache fs
  content : fs.subtree (cache ++ [digest]) = unpacked files

variable {cache : Location} {digest : Bytes} {start : Files}

/-- When the cache has been made. -/
theorem Awaits.made (h : Awaits cache digest start) :
    Awaits cache digest (start.withDirectories cache) ∧
      Reached cache (start.withDirectories cache) := by
  have hmakes : start.MakesAll cache True (start.withDirectories cache) :=
    FileSystem.makesAll_withDirectories h.way trivial
  have hreached : Reached cache (start.withDirectories cache) := hmakes.done trivial
  have houtside : ∀ name place, cache ++ [name] <+: place →
      start.withDirectories cache place = start place := by
    intro name place hbelow
    rcases withDirectories_apply start cache place with heq | ⟨habove, -, -⟩
    · exact heq
    · exact absurd (hbelow.trans habove) (not_below name)
  obtain ⟨random, hdigits, hnone⟩ := h.free
  refine ⟨⟨fun place hplace => ?_, fun place hplace => Or.inr (hreached place hplace),
    fun place hbelow => ?_, random, hdigits, fun place hbelow => ?_⟩, hreached⟩
  · rcases withDirectories_apply start cache place with heq | ⟨-, -, hmade⟩
    · rw [heq]
      exact h.links place hplace
    · rw [hmade]
      exact fun hlink => by cases hlink
  · rw [houtside _ _ hbelow, h.absent place hbelow]
  · rw [houtside _ _ hbelow, hnone place hbelow]

theorem exists_elements_tempPath (dir : Bytes) {pattern random : Bytes}
    (hsep : (47 : UInt8) ∉ pattern ++ random) :
    ∃ before, elements (tempPath dir pattern random) = before ++ [pattern ++ random] := by
  have hname : elements (pattern ++ random) = [pattern ++ random] :=
    SlashPath.elements_of_sep_notMem hsep
  unfold tempPath
  split
  · next hlast =>
      obtain ⟨front, rfl⟩ := List.getLast?_eq_some_iff.mp hlast
      refine ⟨elements front, ?_⟩
      rw [List.append_assoc, List.singleton_append, ← hname]
      exact SlashPath.elements_append_sep front _
  · refine ⟨elements dir, ?_⟩
    rw [← hname]
    exact SlashPath.elements_append_sep dir _

/-- Making the temporary directory. -/
theorem achieves_mkdirTemp (hdigest : IsDigest digest)
    (h : Awaits (locate cwd s.root) digest start) (hreached : Reached (locate cwd s.root) start) :
    Achieves (faultless cwd payload)
      (Interaction.query (Call.mkdirTemp s.root (tempPattern digest)) :
        Interaction Call Answer _) start fun answer t =>
      ∃ random, answer = .ok random ∧ IsTemporary (tempPattern digest ++ random) ∧
        Unpacking L (locate cwd s.root) start (tempPattern digest ++ random) t ∧
          t (locate cwd s.root ++ [digest]) = none := by
  have hprepared : Prepared L (locate cwd s.root) start start := ⟨.refl h.links, hreached⟩
  refine Interaction.achieves_query ?_ ?_
  · obtain ⟨random, hdigits, hnone⟩ := h.free
    exact ⟨.ok random, _, ⟨hdigits, fun _ => ⟨hnone, rfl⟩⟩, random, rfl⟩
  · rintro answer t ⟨heffect, random, rfl⟩
    obtain ⟨htemporary, hunpacking⟩ := (meets_mkdirTemp hdigest).runs start (.ok random) t
      hprepared (Interaction.runs_query.mpr heffect)
    refine ⟨random, rfl, htemporary, hunpacking, ?_⟩
    obtain ⟨-, hdone⟩ := heffect.2 (h.links.plain List.prefix_rfl)
    have hne : locate cwd s.root ++ [digest] ≠
        locate cwd s.root ++ [tempPattern digest ++ random] := by
      intro heq
      have hname := List.cons.inj (List.append_cancel_left heq)
      exact htemporary.not_isDigest (hname.1 ▸ hdigest)
    rw [hdone, Function.update_of_ne hne]
    exact h.absent _ List.prefix_rfl

/-- Installing an archive that can be extracted. -/
theorem returns_install {temp name : Bytes} (hname : ¬ IsDigest name)
    (hdigest : IsDigest digest) (htemp : locate cwd temp = locate cwd s.root ++ [name])
    (hcleaned : SlashPath.cleaned temp ≠ []) (hsha256 : L.sha256 payload = digest)
    (hunmarked : ¬ Marked (locate cwd s.root) start digest)
    (hreached : Reached (locate cwd s.root) start)
    (hunpacking : Unpacking L (locate cwd s.root) start name fs)
    (habsent : fs (locate cwd s.root ++ [digest]) = none) (h : Accepts L s payload files) :
    Returns (faultless cwd payload) (install L s temp (s.target digest) payload) fs
      fun path t => path = s.target digest ∧ Holds (locate cwd s.root) digest files t := by
  refine Returns.bind (returns_extract hcleaned (by rw [htemp]; exact hunpacking.free)
    (by rw [htemp]; exact hunpacking.empty) h) ?_
  rintro - t ⟨hconfined, hcontent⟩
  rw [htemp] at hconfined hcontent
  have haside : Aside (locate cwd s.root) name fs t := .of_confined hconfined
  have hprogress := hunpacking.progress.aside hname haside
  have hcache := hprogress.reached hreached
  have htarget : t (locate cwd s.root ++ [digest]) = none := by
    have hsame := congrFun (haside.subtree fun heq => hname (heq ▸ hdigest)) []
    rwa [FileSystem.subtree, FileSystem.subtree, List.append_nil, habsent] at hsame
  have hsource : t (locate cwd s.root ++ [name]) ≠ none := by
    rw [(hunpacking.free.of_confined hconfined).directories _ List.prefix_rfl]
    exact Option.some_ne_none _
  have hdirectory : t (locate cwd s.root ++ [digest]) ≠ some .directory := by
    rw [htarget]
    exact fun hthere => by cases hthere
  have hplain : ∀ entry, t.Plain (locate cwd s.root ++ [entry]) :=
    fun entry => hprogress.links.plain (List.prefix_append _ _)
  obtain ⟨hmoved, hpublished⟩ := hprogress.moved hname hdigest hunmarked hcache hdirectory hsha256
    h.opened hcontent
  refine returns_lift_bind (achieves_op (P := fun u => u =
    t.moved (locate cwd s.root ++ [name]) (locate cwd s.root ++ [digest])) ?_ ?_) ?_
  · refine ⟨t.moved (locate cwd s.root ++ [name]) (locate cwd s.root ++ [digest]), ?_⟩
    intro _ _
    rw [htemp, Store.locate_target hdigest]
    exact ⟨fun hfalse => absurd trivial hfalse, fun _ => ⟨hsource, hdirectory, rfl⟩⟩
  · intro u heffect
    have hrenames := heffect (by rw [htemp]; exact hplain name)
      (by rw [Store.locate_target hdigest]; exact hplain digest)
    rw [htemp, Store.locate_target hdigest] at hrenames
    exact (hrenames.done trivial).2.2
  · rintro answer u ⟨rfl, rfl⟩
    refine returns_pure ⟨rfl, hmoved.links, ?_⟩
    rw [FileSystem.subtree_moved_target, hcontent]

/-- The marker of a package that is not there is not found. -/
theorem achieves_stat (hdigest : IsDigest digest)
    (h : Awaits (locate cwd s.root) digest start) :
    Achieves (faultless cwd payload)
      (Interaction.query (Call.op (.stat (join (s.target digest) manifestName))) :
        Interaction Call Answer _) start
      fun answer t => (∃ error, answer = .error error) ∧ t = start := by
  have hnone : start (locate cwd (join (s.target digest) manifestName)) = none := by
    rw [locate_marker hdigest]
    exact h.absent _ (List.prefix_append _ _)
  have hplain : start.Plain (locate cwd (join (s.target digest) manifestName)) := by
    rw [locate_marker hdigest, List.append_assoc]
    exact h.links.plain (List.prefix_append _ _)
  refine Interaction.achieves_query ?_ ?_
  · refine ⟨.error [], start, ⟨rfl, fun _ => ?_⟩, ?_⟩
    · exact iff_of_false (fun hok => by cases hok) (not_not.mpr hnone)
    · rintro ⟨other, -, hthere⟩
      exact absurd hnone ((hthere hplain).mp trivial)
  · rintro answer t ⟨⟨rfl, hstat⟩, -⟩
    cases answer with
    | ok value => exact absurd hnone ((hstat hplain).mp rfl)
    | error error => exact ⟨⟨error, rfl⟩, rfl⟩

/-- Removing the temporary directory leaves the package alone. -/
theorem achieves_removeAll {temp name : Bytes} (hname : ¬ IsDigest name)
    (hdigest : IsDigest digest) (htemp : locate cwd temp = locate cwd s.root ++ [name])
    (h : Holds (locate cwd s.root) digest files fs) :
    Achieves (faultless cwd payload)
      (Interaction.query (Call.op (.removeAll temp)) : Interaction Call Answer _) fs
      fun _ => Holds (locate cwd s.root) digest files := by
  refine (achieves_op ?_ fun t heffect => ?_).mono fun _ _ => And.right
  · refine ⟨fun place => if locate cwd temp <+: place then none else fs place, fun _ =>
      ⟨fun place => ?_, fun _ place hplace => if_pos hplace⟩⟩
    by_cases hplace : locate cwd temp <+: place
    · exact Or.inr ⟨hplace, if_pos hplace⟩
    · exact Or.inl (if_neg hplace)
  · have hremoves := heffect (by rw [htemp]; exact h.links.plain (List.prefix_append _ _))
    rw [htemp] at hremoves
    have haside : Aside (locate cwd s.root) name fs t := .of_removes hremoves
    refine ⟨haside.noLinks h.links, ?_⟩
    rw [haside.subtree fun heq => hname (heq ▸ hdigest), h.content]

theorem achieves_download (start : Files) (problemID : ℤ) (digest : Bytes) :
    Achieves (faultless cwd payload)
      (Interaction.query (Call.download problemID digest) : Interaction Call Answer _) start
      fun answer t => answer = .ok payload ∧ t = start :=
  Interaction.achieves_query ⟨.ok payload, start, rfl, rfl⟩ fun _ _ h => h

/-- A package that is not in the cache is fetched if its archive can be extracted. -/
theorem returns_fetch {problemID : ℤ} (hroot : s.root ≠ []) (hdigest : IsDigest digest)
    (hsha256 : L.sha256 payload = digest)
    (hlimit : (payload.length : ℤ) ≤ s.archiveLimit.toInt) (h : Accepts L s payload files)
    (hstart : Awaits (locate cwd s.root) digest start)
    (hreached : Reached (locate cwd s.root) start) :
    Returns (faultless cwd payload) (fetch L s problemID digest) start fun path t =>
      path = s.target digest ∧ Holds (locate cwd s.root) digest files t := by
  have hunmarked : ¬ Marked (locate cwd s.root) start digest :=
    not_not.mpr (hstart.absent _ (List.prefix_append _ _))
  refine returns_lift_bind (achieves_download start problemID digest) ?_
  rintro answer t ⟨rfl, rfl⟩
  refine Returns.bind (returns_liftExcept rfl (P := fun found u => found = payload ∧ u = t)
    ⟨rfl, rfl⟩) ?_
  rintro found t ⟨rfl, rfl⟩
  rw [if_neg (not_not.mpr hsha256), if_neg (not_lt.mpr hlimit)]
  refine returns_lift_bind (achieves_mkdirTemp (L := L) hdigest hstart hreached) ?_
  rintro answer u ⟨random, rfl, htemporary, hunpacking, habsent⟩
  refine Returns.bind (returns_liftExcept rfl (P := fun made v => made = random ∧ v = u)
    ⟨rfl, rfl⟩) ?_
  rintro made v ⟨rfl, rfl⟩
  obtain ⟨hordinary, hsep⟩ := htemporary.ordinary
  have htemp : locate cwd (tempPath s.root (tempPattern digest) made) =
      locate cwd s.root ++ [tempPattern digest ++ made] := locate_tempPath hroot hordinary hsep
  obtain ⟨before, hbefore⟩ := exists_elements_tempPath s.root hsep
  have hcleaned := SlashPath.cleaned_ne_nil hbefore hordinary
  refine returns_lift_bind (returns_install htemporary.not_isDigest hdigest htemp hcleaned hsha256
    hunmarked hreached hunpacking habsent h) ?_
  rintro outcome w ⟨path, rfl, rfl, hholds⟩
  refine returns_lift_bind (achieves_removeAll htemporary.not_isDigest hdigest htemp hholds) ?_
  exact fun _ _ hremoved => returns_liftExcept rfl ⟨rfl, hremoved⟩

/-- A package whose archive can be extracted is ensured. -/
theorem returns_ensure {problemID : ℤ} (hroot : s.root ≠ []) (hclient : s.hasClient = true)
    (hdigest : IsDigest digest) (hsha256 : L.sha256 payload = digest)
    (hlimit : (payload.length : ℤ) ≤ s.archiveLimit.toInt) (h : Accepts L s payload files)
    (hstart : Awaits (locate cwd s.root) digest start) :
    Returns (faultless cwd payload) (ensure L s problemID digest) start fun path t =>
      path = s.target digest ∧ Holds (locate cwd s.root) digest files t := by
  obtain ⟨hmade, hreached⟩ := hstart.made
  rw [ensure_eq hroot hclient hdigest]
  refine returns_lift_bind (achieves_op (P := fun t =>
    t = start.withDirectories (locate cwd s.root)) ?_ ?_) ?_
  · exact ⟨_, fun _ => FileSystem.makesAll_withDirectories hstart.way trivial⟩
  · exact fun t heffect => (heffect (hstart.links.plain List.prefix_rfl)).eq_withDirectories trivial
  rintro answer t ⟨rfl, rfl⟩
  refine Returns.bind (returns_liftExcept rfl (P := fun _ u =>
    u = start.withDirectories (locate cwd s.root)) rfl) ?_
  rintro - t rfl
  refine returns_lift_bind (achieves_stat hdigest hmade) ?_
  rintro answer u ⟨⟨error, rfl⟩, rfl⟩
  exact returns_fetch hroot hdigest hsha256 hlimit h hmade hreached

/-- Only an archive that can be extracted is fetched. -/
theorem accepts_of_runs_fetch {problemID : ℤ} {path : Bytes} (hroot : s.root ≠ [])
    (hdigest : IsDigest digest) (hstart : Awaits (locate cwd s.root) digest start)
    (hreached : Reached (locate cwd s.root) start)
    (hrun : Runs (faultless cwd payload) (fetch L s problemID digest).run start (.ok path) fs) :
    ∃ files, Accepts L s payload files := by
  obtain ⟨answer, t, ⟨rfl, rfl⟩, hdownloaded⟩ := runs_ask_bind.mp hrun
  obtain ⟨found, _, hlift, hrun⟩ := runs_bind_ok.mp hdownloaded
  obtain ⟨hfound, rfl⟩ := runs_liftExcept.mp hlift
  obtain rfl := Except.ok.inj hfound
  split at hrun
  · cases (runs_throw.mp hrun).1
  · split at hrun
    · cases (runs_throw.mp hrun).1
    · obtain ⟨answer, u, hmkdirTemp, hrun⟩ := runs_ask_bind.mp hrun
      obtain ⟨random, rfl, htemporary, hunpacking, -⟩ :=
        (achieves_mkdirTemp (L := L) hdigest hstart hreached).runs answer u
          (Interaction.runs_query.mpr hmkdirTemp)
      obtain ⟨made, _, hlift, hrun⟩ := runs_bind_ok.mp hrun
      obtain ⟨hmade, rfl⟩ := runs_liftExcept.mp hlift
      obtain rfl := Except.ok.inj hmade
      obtain ⟨hordinary, hsep⟩ := htemporary.ordinary
      have htemp : locate cwd (tempPath s.root (tempPattern digest) random) =
          locate cwd s.root ++ [tempPattern digest ++ random] :=
        locate_tempPath hroot hordinary hsep
      obtain ⟨outcome, v, hinstall, hrun⟩ := runs_lift_bind.mp hrun
      obtain ⟨_, w, -, hrun⟩ := runs_ask_bind.mp hrun
      obtain ⟨rfl, rfl⟩ := runs_liftExcept.mp hrun
      obtain ⟨_, _, hextract, -⟩ := runs_bind_ok.mp hinstall
      obtain ⟨files, haccepts, -⟩ := accepts_of_runs (by rw [htemp]; exact hunpacking.free)
        (by rw [htemp]; exact hunpacking.empty) (hextract.mono effect_of_faultless)
      exact ⟨files, haccepts⟩

/-- Only a package whose archive can be extracted is ensured. -/
theorem accepts_of_runs_ensure {problemID : ℤ} {path : Bytes}
    (hstart : Awaits (locate cwd s.root) digest start)
    (hrun : Runs (faultless cwd payload) (ensure L s problemID digest).run start (.ok path) fs) :
    ∃ files, Accepts L s payload files := by
  obtain ⟨hroot, hclient, hdigest⟩ := guards_of_runs (hrun.mono effect_of_faultless)
  obtain ⟨hmade, hreached⟩ := hstart.made
  rw [ensure_eq hroot hclient hdigest] at hrun
  obtain ⟨answer, t, hmkdirAll, hrun⟩ := runs_ask_bind.mp hrun
  have hcan : ∃ other, (FileOp.mkdirAll s.root).effect cwd True start other :=
    ⟨_, fun _ => FileSystem.makesAll_withDirectories hstart.way trivial⟩
  obtain rfl := hmkdirAll.2 hcan
  obtain rfl := (hmkdirAll.1 (hstart.links.plain List.prefix_rfl)).eq_withDirectories rfl
  obtain ⟨_, _, hlift, hrun⟩ := runs_bind_ok.mp hrun
  obtain ⟨-, rfl⟩ := runs_liftExcept.mp hlift
  obtain ⟨answer, t, hstat, hrun⟩ := runs_ask_bind.mp hrun
  obtain ⟨⟨error, rfl⟩, rfl⟩ := (achieves_stat hdigest hmade).runs answer t
    (Interaction.runs_query.mpr hstat)
  exact accepts_of_runs_fetch hroot hdigest hmade hreached hrun

end JudgeLoom.Go.PackageStore
