import JudgeLoom.Authoring.Builder

/-!
# What a failed build leaves behind

`Build` replaces the file at its output path in the middle: it renames the new archive to
it, and then reads the archive, asks for its size and removes it if it is too large.  When
the rename fails, it removes the output path and tries again.  So a build that fails may
leave nothing, or the new archive, where there was an old one.

`build_keeps_iff` says exactly when it does not.  The record of a run (`Trace`) has what
was last done to the output path.  Where the paths lead is a parameter: links on the way
to the output directory change nothing here.
-/

namespace JudgeLoom.Authoring

open Go (Files Location RunSpec RunResult)
open Utf8 (encode)
open Interaction (Runs Meets Effect)
open Interaction.Fallible

variable {Manifest : Type} (T : Toolchain Manifest) (place : Go.Bytes → Location)

/-! ## The calls -/

/-- What the calls do, when a path leads to a place. -/
def effect : Effect Answer Files
  | .worker _, _, fs, fs' => fs' = fs
  | .mkdirAll path, answer, fs, fs' => fs.MakesAll (place path) (answer = .ok ()) fs'
  | .createTemp _ _, .error _, fs, fs' => fs' = fs
  | .createTemp _ _, .ok name, fs, fs' => fs.Creates (place name) [] fs'
  | .add temp _, answer, fs, fs' =>
      ∃ content, fs.Writes (place temp) content (answer = .ok ()) fs'
  | .discard temp, answer, fs, fs' =>
      ∃ content, fs.Writes (place temp) content (answer = .ok ()) fs'
  | .closeWriter temp entries, answer, fs, fs' =>
      fs.Writes (place temp) (T.zip entries) (answer = .ok ()) fs'
  | .close _, _, fs, fs' => fs' = fs
  | .rename oldPath newPath, answer, fs, fs' =>
      fs.Renames (place oldPath) (place newPath) (answer = .ok ()) fs'
  | .remove path, answer, fs, fs' => fs.Unlinks (place path) (answer = .ok ()) fs'
  | .readFile path, answer, fs, fs' => fs' = fs ∧ ∀ content, answer = .ok content →
      fs (place path) ≠ some .link → fs (place path) = some (.file content)
  | .stat path, answer, fs, fs' => fs' = fs ∧ ∀ size content, answer = .ok size →
      fs (place path) = some (.file content) → size = content.length

/-- What was last done to the output path. -/
inductive Change
  | nothing
  /-- `os.CreateTemp` chose it for the temporary file. -/
  | created
  | removed
  | published (archive : Go.Bytes)

/-- The entries that were packed, and what was last done to the output path. -/
structure Trace where
  packed : List (String × Go.Bytes) := []
  change : Change := .nothing

/-- The record after one more call that did not fail. -/
def Trace.after (target : Location) :
    (question : Question) → Answer question → Trace → Trace
  | .createTemp _ _, .ok name, trace =>
      if place name = target then { trace with change := .created } else trace
  | .closeWriter _ entries, .ok _, trace => { trace with packed := entries }
  | .rename _ newPath, .ok _, trace =>
      if place newPath = target then { trace with change := .published (T.zip trace.packed) }
      else trace
  | .remove path, .ok _, trace =>
      if place path = target then { trace with change := .removed } else trace
  | _, _, trace => trace

/-- The file or link at a place. -/
def entryAt (fs : Files) (target : Location) : Option (Node Go.Bytes) :=
  (fs target).filter (· ≠ .directory)

/-- What was done to the output path has not changed what is there: nothing was done, or
nothing was there and it was removed in the end, or the archive is the file that was there. -/
def Change.Spares (fs : Files) (target : Location) : Change → Prop
  | nothing => True
  | created => False
  | removed => entryAt fs target = none
  | published archive => entryAt fs target = some (.file archive)

variable {T place} {fs : Files} {target : Location} {temp : Go.Bytes}
  {entries : List (String × Go.Bytes)}

/-- The files with the record. -/
abbrev Disk := Files × Trace

/-! ## The states of a build -/

/-- The output path is as it was. -/
structure Untouched (fs : Files) (target : Location) (d : Disk) : Prop where
  entry : entryAt d.1 target = entryAt fs target
  change : d.2.change = .nothing

/-- Nothing is at the output path. -/
structure Vacated (target : Location) (d : Disk) : Prop where
  entry : d.1 target = none
  change : d.2.change = .removed

/-- The archive is at the output path. -/
structure Replaced (T : Toolchain Manifest) (target : Location)
    (entries : List (String × Go.Bytes)) (d : Disk) : Prop where
  entry : entryAt d.1 target = some (.file (T.zip entries))
  change : d.2.change = .published (T.zip entries)

/-- The temporary file has been made; it is not at the output path, unless nothing was
there. -/
def Writing (place : Go.Bytes → Location) (fs : Files) (target : Location) (temp : Go.Bytes)
    (d : Disk) : Prop :=
  (∃ content, d.1 (place temp) = some (.file content)) ∧
    (place temp ≠ target ∧ Untouched fs target d ∨
      place temp = target ∧ entryAt fs target = none ∧ d.2.change = .created)

/-- The temporary file is the archive. -/
structure Packed (T : Toolchain Manifest) (place : Go.Bytes → Location) (fs : Files)
    (target : Location) (temp : Go.Bytes) (entries : List (String × Go.Bytes)) (d : Disk) :
    Prop where
  writing : Writing place fs target temp d
  content : d.1 (place temp) = some (.file (T.zip entries))
  packed : d.2.packed = entries

/-- The archive is packed, but nothing is at the output path any more. -/
structure Emptied (T : Toolchain Manifest) (place : Go.Bytes → Location) (target : Location)
    (temp : Go.Bytes) (entries : List (String × Go.Bytes)) (d : Disk) : Prop where
  vacated : Vacated target d
  content : place temp ≠ target → d.1 (place temp) = some (.file (T.zip entries))
  packed : d.2.packed = entries

/-- What is at the output path is what was there exactly if the record says so. -/
def Faithful (fs : Files) (target : Location) (d : Disk) : Prop :=
  entryAt d.1 target = entryAt fs target ↔ d.2.change.Spares fs target

theorem entryAt_of_file {content : Go.Bytes} (h : fs target = some (.file content)) :
    entryAt fs target = some (.file content) := by
  rw [entryAt, h]
  rfl

theorem Untouched.faithful {d : Disk} (h : Untouched fs target d) : Faithful fs target d := by
  rw [Faithful, h.change]
  exact iff_of_true h.entry trivial

theorem Vacated.faithful {d : Disk} (h : Vacated target d) : Faithful fs target d := by
  rw [Faithful, h.change, entryAt, h.entry]
  exact eq_comm

theorem Replaced.faithful {d : Disk} (h : Replaced T target entries d) :
    Faithful fs target d := by
  rw [Faithful, h.change, h.entry]
  exact eq_comm

theorem Writing.faithful {d : Disk} (h : Writing place fs target temp d) :
    Faithful fs target d := by
  obtain ⟨⟨content, hfile⟩, ⟨-, huntouched⟩ | ⟨hplace, hnone, hchange⟩⟩ := h
  · exact huntouched.faithful
  · rw [hplace] at hfile
    rw [Faithful, hchange, entryAt_of_file hfile, hnone]
    exact iff_of_false (fun h => by cases h) id

/-! ## The steps of a build -/

/-- A specification of a part of the build that says nothing of where it is cut off. -/
abbrev Does {α : Type} (T : Toolchain Manifest) (place : Go.Bytes → Location) (target : Location)
    (pre : Disk → Prop) (program : Program α) (post : α → Disk → Prop) : Prop :=
  Meets ((effect T place).tracked (Trace.after T place target)) pre program post fun _ => True

theorem does_query {question : Question} {pre : Disk → Prop} {post : Answer question → Disk → Prop}
    (h : ∀ d answer d', pre d → effect T place question answer d.1 d'.1 →
      d'.2 = Trace.after T place target question answer d.2 → post answer d') :
    Does T place target pre (Interaction.query question) post :=
  Interaction.meets_query (fun _ _ => trivial) fun d answer d' hd heffect =>
    ⟨h d answer d' hd heffect.1 heffect.2, trivial⟩

/-- A question of the worker. -/
def IsSandbox (question : Question) : Prop := ∃ asked, question = .worker asked

/-- The sandbox does not touch the files. -/
theorem does_of_asks {α : Type} {program : Program α} {pre : Disk → Prop}
    (h : program.Asks IsSandbox) : Does T place target pre program fun _ => pre where
  runs _ _ _ hd hruns := by
    refine h.invariant (fun question answer d d' hquestion heffect hd => ?_) hruns.stops hd
    obtain ⟨asked, rfl⟩ := hquestion
    rwa [show d' = d from Prod.ext heffect.1 heffect.2]
  stops _ _ _ _ := trivial

theorem asks_sandbox {α : Type} (program : Go.Program α) : (sandbox program).Asks IsSandbox :=
  .embed program fun asked => ⟨asked, rfl⟩

theorem asks_sandboxed {α : Type} (context : String) (action : Go.Action α) :
    (sandboxed context action).run.Asks IsSandbox :=
  asks_bind (asks_lift (asks_sandbox action.run)) fun _ => asks_liftExcept _

theorem asks_generateInput (plan : Plan) (caseNumber : ℕ) (testCase : CaseSpec) :
    (generateInput plan caseNumber testCase).run.Asks IsSandbox := by
  refine asks_bind (asks_lift (asks_sandbox _)) fun generated => ?_
  split
  · exact asks_throw _
  · split
    · exact asks_throw _
    · split
      · exact Interaction.asks_pure _
      · refine asks_bind (asks_lift (asks_sandbox _)) fun validated => ?_
        split
        · exact asks_throw _
        · exact Interaction.asks_pure _

theorem asks_solve (plan : Plan) (caseNumber : ℕ) (testCase : CaseSpec) (input : Go.Bytes) :
    (solve plan caseNumber testCase input).run.Asks IsSandbox := by
  refine asks_bind (asks_lift (asks_sandbox _)) fun solved => ?_
  split
  · exact asks_throw _
  · split
    · exact asks_throw _
    · exact Interaction.asks_pure _

theorem asks_checkAnswer (plan : Plan) (caseNumber : ℕ) (testCase : CaseSpec)
    (kept : Option String) (input answer : Go.Bytes) :
    (checkAnswer T plan caseNumber testCase kept input answer).run.Asks IsSandbox := by
  refine asks_bind (asks_lift ?_) fun checked => ?_
  · unfold runChecker
    split
    · exact Interaction.asks_pure _
    · exact asks_sandbox _
    · exact Interaction.asks_pure _
  · split
    · exact asks_throw _
    · exact Interaction.asks_pure _

theorem asks_buildCase (plan : Plan) (built : Built) (testCase : CaseSpec) :
    (buildCase T plan built testCase).run.Asks IsSandbox := by
  refine asks_bind (asks_generateInput _ _ _) fun input => ?_
  refine asks_bind (asks_solve _ _ _ _) fun answer => ?_
  dsimp only
  split
  · exact asks_throw _
  · exact asks_bind (asks_checkAnswer _ _ _ _ _ _) fun kept => Interaction.asks_pure _

theorem asks_buildCases (plan : Plan) (built : Built) (cases : List CaseSpec) :
    (buildCases T plan built cases).run.Asks IsSandbox := by
  induction cases generalizing built with
  | nil => exact Interaction.asks_pure _
  | cons testCase rest ih => exact asks_bind (asks_buildCase _ _ _) fun built => ih built

theorem asks_assemble (s : Spec) : (assemble T s).run.Asks IsSandbox := by
  refine asks_bind (asks_sandboxed _ _) fun generator => ?_
  refine asks_bind (asks_sandboxed _ _) fun solution => ?_
  refine asks_bind ?_ fun validator => ?_
  · unfold prepareValidator
    split
    · exact Interaction.asks_pure _
    · exact asks_bind (asks_sandboxed _ _) fun fileID => Interaction.asks_pure _
  · refine asks_bind (asks_liftExcept _) fun _ => ?_
    refine asks_bind (asks_buildCases _ _ _) fun built => ?_
    exact asks_bind (asks_liftExcept _) fun data => Interaction.asks_pure _

/-! ### Files and links -/

theorem entryAt_of_eq {fs' : Files} (h : fs' target = fs target) :
    entryAt fs' target = entryAt fs target := by
  rw [entryAt, entryAt, h]

/-- New directories are no files. -/
theorem entryAt_of_makesAll {fs' : Files} {location : Location} {succeeded : Prop}
    (h : fs.MakesAll location succeeded fs') : entryAt fs' target = entryAt fs target := by
  rcases h.eq_or_directory target with heq | ⟨hnone, hmade⟩
  · exact entryAt_of_eq heq
  · rw [entryAt, entryAt, hnone, hmade]
    rfl

/-- Writing to the temporary file. -/
theorem Writing.writes {d d' : Disk} {content : Go.Bytes} {succeeded : Prop}
    (h : Writing place fs target temp d)
    (hwrites : d.1.Writes (place temp) content succeeded d'.1)
    (hchange : d'.2.change = d.2.change) : Writing place fs target temp d' := by
  obtain ⟨⟨before, hfile⟩, hcases⟩ := h
  refine ⟨?_, hcases.imp ?_ ?_⟩
  · rcases hwrites.here with heq | hwritten
    · exact ⟨before, heq.trans hfile⟩
    · exact hwritten
  · rintro ⟨hplace, huntouched⟩
    refine ⟨hplace, ?_, hchange.trans huntouched.change⟩
    rw [entryAt_of_eq (hwrites.only target (Ne.symm hplace)), huntouched.entry]
  · rintro ⟨hplace, hnone, hcreated⟩
    exact ⟨hplace, hnone, hchange.trans hcreated⟩

theorem does_mkdirAll (path : Go.Bytes) :
    Does T place target (Untouched fs target)
      (Interaction.query (Question.mkdirAll path) : Program (Except Go.Bytes Unit))
      fun _ => Untouched fs target := by
  refine does_query fun d answer d' hd heffect htrace => ?_
  have hsame : d'.2 = d.2 := htrace
  exact ⟨(entryAt_of_makesAll heffect).trans hd.entry, by rw [hsame, hd.change]⟩

theorem does_createTemp (directory pattern : Go.Bytes) :
    Does T place target (Untouched fs target)
      (Interaction.query (Question.createTemp directory pattern) :
        Program (Except Go.Bytes Go.Bytes))
      (Ends (fun name => Writing place fs target name) fun _ => Untouched fs target) := by
  refine does_query fun d answer d' hd heffect htrace => ?_
  cases answer with
  | error error => rwa [show d' = d from Prod.ext heffect htrace]
  | ok name =>
      obtain ⟨hfresh, hdone⟩ := heffect
      have hfile : d'.1 (place name) = some (.file []) := by rw [hdone, Function.update_self]
      refine ⟨⟨[], hfile⟩, ?_⟩
      by_cases hplace : place name = target
      · have hchange : d'.2.change = .created := by
          rw [htrace, Trace.after, if_pos hplace]
        refine Or.inr ⟨hplace, ?_, hchange⟩
        rw [← hd.entry, entryAt, ← hplace, hfresh]
        rfl
      · have hchange : d'.2.change = d.2.change := by rw [htrace, Trace.after, if_neg hplace]
        refine Or.inl ⟨hplace, ?_, hchange.trans hd.change⟩
        rw [← hd.entry]
        apply entryAt_of_eq
        rw [hdone, Function.update_of_ne (Ne.symm hplace)]

theorem does_add (entry : String × Go.Bytes) :
    Does T place target (Writing place fs target temp)
      (Interaction.query (Question.add temp entry) : Program (Except Go.Bytes Unit))
      fun _ => Writing place fs target temp := by
  refine does_query fun d answer d' hd ⟨content, hwrites⟩ htrace => ?_
  exact hd.writes hwrites (congrArg Trace.change htrace)

theorem does_discard :
    Does T place target (Writing place fs target temp)
      (Interaction.query (Question.discard temp) : Program (Except Go.Bytes Unit))
      fun _ => Writing place fs target temp := by
  refine does_query fun d answer d' hd ⟨content, hwrites⟩ htrace => ?_
  exact hd.writes hwrites (congrArg Trace.change htrace)

/-- Nothing happens to the files. -/
theorem does_close (pre : Disk → Prop) :
    Does T place target pre
      (Interaction.query (Question.close temp) : Program (Except Go.Bytes Unit)) fun _ => pre := by
  refine does_query fun d answer d' hd heffect htrace => ?_
  rwa [show d' = d from Prod.ext heffect htrace]

theorem does_closeWriter :
    Does T place target (Writing place fs target temp)
      (Interaction.query (Question.closeWriter temp entries) : Program (Except Go.Bytes Unit))
      (Ends (fun _ => Packed T place fs target temp entries)
        fun _ => Writing place fs target temp) := by
  refine does_query fun d answer d' hd heffect htrace => ?_
  cases answer with
  | error error => exact hd.writes heffect (congrArg Trace.change htrace)
  | ok value =>
      have hwriting : Writing place fs target temp d' :=
        hd.writes heffect (by rw [htrace]; rfl)
      exact ⟨hwriting, heffect.done rfl, by rw [htrace]; rfl⟩

/-! ### Publishing -/

variable {path : Go.Bytes}

theorem does_rename (hpath : place path = target) :
    Does T place target (Packed T place fs target temp entries)
      (Interaction.query (Question.rename temp path) : Program (Except Go.Bytes Unit))
      (Ends (fun _ => Replaced T target entries)
        fun _ => Packed T place fs target temp entries) := by
  refine does_query fun d answer d' hd heffect htrace => ?_
  cases answer with
  | error error =>
      have hsame : d'.1 = d.1 := heffect.failed fun hok => by cases hok
      rwa [show d' = d from Prod.ext hsame htrace]
  | ok value =>
      obtain ⟨-, -, hmoved⟩ := heffect.done rfl
      refine ⟨entryAt_of_file ?_, ?_⟩
      · rw [hmoved, hpath, FileSystem.moved_target, hd.content]
      · rw [htrace, Trace.after, if_pos hpath, hd.packed]

theorem does_removePath (hpath : place path = target) :
    Does T place target (Packed T place fs target temp entries)
      (Interaction.query (Question.remove path) : Program (Except Go.Bytes Unit))
      (Ends (fun _ => Emptied T place target temp entries)
        fun _ => Packed T place fs target temp entries) := by
  refine does_query fun d answer d' hd heffect htrace => ?_
  cases answer with
  | error error =>
      have hsame : d'.1 = d.1 := heffect.failed fun hok => by cases hok
      rwa [show d' = d from Prod.ext hsame htrace]
  | ok value =>
      obtain ⟨-, hdone⟩ := heffect.done rfl
      rw [Trace.after, if_pos hpath] at htrace
      rw [hpath] at hdone
      refine ⟨⟨by rw [hdone, Function.update_self], by rw [htrace]⟩, fun hplace => ?_,
        by rw [htrace]; exact hd.packed⟩
      rw [hdone, Function.update_of_ne hplace, hd.content]

theorem does_renameAgain (hpath : place path = target) :
    Does T place target (Emptied T place target temp entries)
      (Interaction.query (Question.rename temp path) : Program (Except Go.Bytes Unit))
      (Ends (fun _ => Replaced T target entries) fun _ => Vacated target) := by
  refine does_query fun d answer d' hd heffect htrace => ?_
  cases answer with
  | error error =>
      have hsame : d'.1 = d.1 := heffect.failed fun hok => by cases hok
      rw [show d' = d from Prod.ext hsame htrace]
      exact hd.vacated
  | ok value =>
      obtain ⟨hthere, -, hmoved⟩ := heffect.done rfl
      have hplace : place temp ≠ target := by
        intro heq
        rw [heq] at hthere
        exact hthere hd.vacated.entry
      refine ⟨entryAt_of_file ?_, ?_⟩
      · rw [hmoved, hpath, FileSystem.moved_target, hd.content hplace]
      · rw [htrace, Trace.after, if_pos hpath, hd.packed]

/-- What a failed `writeEntries` leaves. -/
def Failed (place : Go.Bytes → Location) (fs : Files) (target : Location) (temp : Go.Bytes)
    (d : Disk) : Prop :=
  Writing place fs target temp d ∨ Vacated target d

theorem does_addEntries (rest : List (String × Go.Bytes)) :
    Does T place target (Writing place fs target temp) (addEntries temp rest).run
      (Ends (fun _ => Writing place fs target temp) fun _ => Failed place fs target temp) := by
  induction rest with
  | nil => exact meets_pure fun d hd => ⟨hd, trivial⟩
  | cons entry rest ih =>
      refine meets_lift_bind (does_add entry) fun answer => ?_
      cases answer with
      | ok value => exact ih
      | error error =>
          refine meets_lift_bind does_discard fun _ => ?_
          refine meets_lift_bind (does_close _) fun _ => ?_
          exact meets_throw fun d hd => ⟨Or.inl hd, trivial⟩

theorem does_writeEntries (hpath : place path = target) :
    Does T place target (Writing place fs target temp) (writeEntries temp path entries).run
      (Ends (fun _ => Replaced T target entries) fun _ => Failed place fs target temp) := by
  refine meets_bind (does_addEntries entries) fun _ => ?_
  refine meets_lift_bind does_closeWriter fun closed => ?_
  cases closed with
  | error error =>
      refine meets_lift_bind (does_close _) fun _ => ?_
      exact meets_throw fun d hd => ⟨Or.inl hd, trivial⟩
  | ok value =>
      refine meets_lift_bind (does_close _) fun answer => ?_
      refine meets_liftExcept_bind (fun _ _ => ?_) fun error _ d hd =>
        ⟨Or.inl hd.writing, trivial⟩
      refine meets_lift_bind (does_rename hpath) fun renamed => ?_
      cases renamed with
      | ok value => exact meets_pure fun d hd => ⟨hd, trivial⟩
      | error error =>
          refine meets_lift_bind (does_removePath hpath) fun removed => ?_
          cases removed with
          | error error => exact meets_throw fun d hd => ⟨Or.inl hd.writing, trivial⟩
          | ok value =>
              refine meets_lift_bind (does_renameAgain hpath) fun again => ?_
              refine meets_liftExcept fun d hd => ⟨?_, trivial⟩
              cases again with
              | ok value => exact hd
              | error error => exact Or.inr hd

/-- The deferred removal of the temporary file. -/
theorem does_removeTemp :
    Does T place target (Failed place fs target temp)
      (Interaction.query (Question.remove temp) : Program (Except Go.Bytes Unit))
      fun _ => Faithful fs target := by
  refine does_query fun d answer d' hd heffect htrace => ?_
  cases answer with
  | error error =>
      have hsame : d'.1 = d.1 := heffect.failed fun hok => by cases hok
      rw [show d' = d from Prod.ext hsame htrace]
      exact hd.elim Writing.faithful Vacated.faithful
  | ok value =>
      obtain ⟨-, hdone⟩ := heffect.done rfl
      by_cases hplace : place temp = target
      · rw [Trace.after, if_pos hplace] at htrace
        have hvacated : Vacated target d' :=
          ⟨by rw [hdone, hplace, Function.update_self], by rw [htrace]⟩
        exact hvacated.faithful
      · rw [Trace.after, if_neg hplace] at htrace
        have hsame : d'.1 target = d.1 target := by
          rw [hdone, Function.update_of_ne (Ne.symm hplace)]
        rcases hd with ⟨-, ⟨-, huntouched⟩ | ⟨heq, -⟩⟩ | hvacated
        · have h : Untouched fs target d' :=
            ⟨(entryAt_of_eq hsame).trans huntouched.entry, by rw [htrace]; exact huntouched.change⟩
          exact h.faithful
        · exact absurd heq hplace
        · have h : Vacated target d' :=
            ⟨hsame.trans hvacated.entry, by rw [htrace]; exact hvacated.change⟩
          exact h.faithful

theorem does_writePackage (hpath : place path = target) :
    Does T place target (Untouched fs target) (writePackage path entries).run
      (Ends (fun _ => Replaced T target entries) fun _ => Faithful fs target) := by
  refine meets_lift_bind (does_mkdirAll _) fun made => ?_
  refine meets_liftExcept_bind (fun _ _ => ?_) fun _ _ d hd => ⟨hd.faithful, trivial⟩
  refine meets_lift_bind (does_createTemp _ _) fun created => ?_
  cases created with
  | error error =>
      exact meets_liftExcept_bind (fun _ hok => by cases hok) fun _ _ d hd => ⟨hd.faithful, trivial⟩
  | ok temp =>
      refine meets_liftExcept_bind (fun name hname => ?_) fun _ herror => by cases herror
      cases hname
      refine meets_lift_bind (does_writeEntries hpath) fun outcome => ?_
      cases outcome with
      | ok value => exact meets_pure fun d hd => ⟨hd, trivial⟩
      | error error =>
          refine meets_lift_bind does_removeTemp fun _ => ?_
          exact meets_throw fun d hd => ⟨hd, trivial⟩

/-! ## The result -/

/-- Removing an archive that is too large, after it was published. -/
theorem does_removeLarge (hpath : place path = target) :
    Does T place target (Replaced T target entries)
      (Interaction.query (Question.remove path) : Program (Except Go.Bytes Unit))
      fun _ d => Vacated target d ∨ Replaced T target entries d := by
  refine does_query fun d answer d' hd heffect htrace => ?_
  cases answer with
  | error error =>
      have hsame : d'.1 = d.1 := heffect.failed fun hok => by cases hok
      rw [show d' = d from Prod.ext hsame htrace]
      exact Or.inr hd
  | ok value =>
      obtain ⟨-, hdone⟩ := heffect.done rfl
      rw [Trace.after, if_pos hpath] at htrace
      exact Or.inl ⟨by rw [hdone, hpath, Function.update_self], by rw [htrace]⟩

theorem does_look {question : Question} {pre : Disk → Prop}
    (hquestion : question = .readFile path ∨ question = .stat path) :
    Does T place target pre (Interaction.query question : Program (Answer question))
      fun _ => pre := by
  refine does_query fun d answer d' hd heffect htrace => ?_
  rcases hquestion with rfl | rfl
  · rwa [show d' = d from Prod.ext heffect.1 htrace]
  · rwa [show d' = d from Prod.ext heffect.1 htrace]

theorem does_build (configured : Bool) (spec : Spec) (hpath : place path = target) :
    Does T place target (Untouched fs target) (build T configured spec path).run
      (Ends (fun _ _ => True) fun _ => Faithful fs target) := by
  have hfailed : ∀ d, Untouched fs target d → Faithful fs target d ∧ True :=
    fun d hd => ⟨hd.faithful, trivial⟩
  unfold build
  split
  · exact meets_throw hfailed
  · refine meets_liftExcept_bind (fun spec _ => ?_) fun _ _ => hfailed
    split
    · exact meets_throw hfailed
    · have hassemble : Does T place target (Untouched fs target) (assemble T spec).run
          (Ends (fun _ => Untouched fs target) fun _ => Faithful fs target) := by
        have h : Does T place target (Untouched fs target) (assemble T spec).run
            fun _ => Untouched fs target := does_of_asks (asks_assemble spec)
        refine ⟨fun d outcome d' hd hruns => ?_, h.stops⟩
        have hsame := h.runs d outcome d' hd hruns
        cases outcome with
        | error error => exact hsame.faithful
        | ok value => exact hsame
      refine meets_bind hassemble fun assembled => ?_
      refine meets_bind (does_writePackage hpath) fun _ => ?_
      refine meets_lift_bind (does_look (Or.inl rfl)) fun content => ?_
      refine meets_liftExcept_bind (fun _ _ => ?_) fun _ _ d hd => ⟨hd.faithful, trivial⟩
      refine meets_lift_bind (does_look (Or.inr rfl)) fun size => ?_
      refine meets_liftExcept_bind (fun _ _ => ?_) fun _ _ d hd => ⟨hd.faithful, trivial⟩
      split
      · refine meets_lift_bind (does_removeLarge hpath) fun _ => ?_
        exact meets_throw fun d hd => ⟨hd.elim Vacated.faithful Replaced.faithful, trivial⟩
      · exact meets_pure fun d hd => ⟨trivial, trivial⟩

/-- A build that returns an error has left the output path as it was exactly if nothing
has been done to it, or it has been removed and nothing had been there, or the archive has
been published and is the file that had been there. -/
theorem build_keeps_iff (T : Toolchain Manifest) (place : Go.Bytes → Location) (configured : Bool)
    (spec : Spec) (outPath : Go.Bytes) {fs fs' : Files} {trace : Trace} {error : Go.Bytes}
    (h : Runs ((effect T place).tracked (Trace.after T place (place outPath)))
      (build T configured spec outPath).run (fs, {}) (.error error) (fs', trace)) :
    entryAt fs' (place outPath) = entryAt fs (place outPath) ↔
      trace.change.Spares fs (place outPath) :=
  (does_build configured spec rfl).runs (fs, {}) _ _ ⟨rfl, rfl⟩ h

/-! ## A build that loses the old package -/

def sampleToolchain : Toolchain Unit where
  arith := .binary64
  sha256 _ := ""
  unmarshalManifest _ := .ok ()
  quote text := text
  testlibHeader := []
  cacheRoot := []
  marshalIndent _ := .ok []
  zip _ := []

def sampleProgram : ProgramSpec := { language := "PY3", source := [112] }

def sampleSpec : Spec where
  problemCode := "p"
  checker := { type := "none" }
  generator := sampleProgram
  solution := sampleProgram
  cases := [{ points := some 1 }]

/-- The spec with its defaults. -/
def completeSpec : Spec where
  schema := 1
  problemCode := "p"
  points := 100
  timeLimit := 2
  memoryLimit := 262144
  checker := { type := "none" }
  generator := sampleProgram
  solution := sampleProgram
  cases := [{ id := "01", points := some 1, group := "default" }]
  groups := [{ id := "default", points := 1, mode := "sum" }]

theorem validate_sampleSpec :
    (sampleSpec.applyDefaults sampleToolchain.arith).validate sampleToolchain.quote
      sampleToolchain.arith = .ok completeSpec := by
  decide +kernel

theorem runs_query_bind {α : Type} {question : Question} {f : Answer question → Task α}
    {outcome : Except Go.Bytes α} {fs' : Files} :
    Runs (effect T place) (query question >>= f).run fs outcome fs' ↔
      ∃ answer t, effect T place question answer fs t ∧
        Runs (effect T place) (f answer).run t outcome fs' :=
  runs_ask_bind

/-- The sandbox accepts every program, and prints nothing. -/
def accepted : Go.Exchange where
  first := .response 200 [] (.ok [{ status := "Accepted" }])

/-- The result of such a run. -/
def acceptedRun : RunResult := { status := .AC }

theorem runs_judge (call : Go.Call) (spec : RunSpec) :
    Runs (effect T place) (sandbox (Go.GoJudge.run call spec)) fs acceptedRun fs := by
  have hchange : effect T place
      (.worker (.post call [Go.runCommand spec (some (Go.memoryInput spec.stdIn))])) accepted fs
        fs := rfl
  exact .ask hchange (.done _ fs)

/-- The entries are added. -/
theorem runs_addEntries {content : Go.Bytes} (hfile : fs (place temp) = some (.file content))
    (rest : List (String × Go.Bytes)) :
    Runs (effect T place) (addEntries temp rest).run fs (.ok ()) fs := by
  induction rest with
  | nil => exact runs_pure.mpr ⟨rfl, rfl⟩
  | cons entry rest ih =>
      refine runs_query_bind.mpr ⟨.ok (), fs, ⟨content, fun _ _ => rfl, Or.inl rfl, ?_⟩, ih⟩
      exact fun _ => hfile

theorem runs_sandboxed_pure {α : Type} (context : String) (a : α) :
    Runs (effect T place) (sandboxed context (pure a)).run fs (.ok a) fs := .done _ fs

/-- The programs of the sample, which are not compiled. -/
theorem prepareWithFiles_py3 (caseNumber : ℕ) (source : Go.Bytes) (memoryLimit : ℤ)
    (extraFiles : List (String × Go.Bytes)) :
    prepareWithFiles caseNumber "PY3" source memoryLimit extraFiles = pure {
      args := ["python3", "main.py"]
      env := Go.Runner.environment
      copyIn := ("main.py", source) :: extraFiles } := rfl

/-- A part that leaves the files alone, followed by another. -/
theorem exists_runs_bind {α β : Type} {x : Task α} {f : α → Task β} {a : α}
    (hx : Runs (effect T place) x.run fs (.ok a) fs)
    (hf : ∃ b, Runs (effect T place) (f a).run fs (.ok b) fs) :
    ∃ b, Runs (effect T place) (x >>= f).run fs (.ok b) fs := by
  obtain ⟨b, hb⟩ := hf
  exact ⟨b, runs_bind_ok.mpr ⟨a, fs, hx, hb⟩⟩

theorem exists_runs_buildCase {plan : Plan} (hvalidator : plan.validator = none)
    (hchecker : plan.checker.type = "none") (testCase : CaseSpec) :
    ∃ built, Runs (effect T place) (buildCase T plan {} testCase).run fs (.ok built) fs := by
  have hinput : Runs (effect T place) (generateInput plan 1 testCase).run fs (.ok []) fs := by
    refine runs_lift_bind.mpr ⟨acceptedRun, fs, runs_judge _ _, ?_⟩
    rw [if_neg (by decide), if_neg (by decide), hvalidator]
    exact runs_pure.mpr ⟨rfl, rfl⟩
  have hanswer : Runs (effect T place) (solve plan 1 testCase []).run fs (.ok []) fs := by
    refine runs_lift_bind.mpr ⟨acceptedRun, fs, runs_judge _ _, ?_⟩
    rw [if_neg (by decide), if_neg (by decide)]
    exact runs_pure.mpr ⟨rfl, rfl⟩
  have hkept : Runs (effect T place) (checkAnswer T plan 1 testCase none [] []).run fs
      (.ok none) fs := by
    refine runs_lift_bind.mpr ⟨({ status := .AC }, none), fs, ?_, runs_pure.mpr ⟨rfl, rfl⟩⟩
    rw [runChecker, hchecker]
    exact Interaction.runs_pure.mpr ⟨rfl, rfl⟩
  refine exists_runs_bind hinput (exists_runs_bind hanswer ?_)
  dsimp only
  rw [if_neg (by decide)]
  exact exists_runs_bind hkept ⟨_, runs_pure.mpr ⟨rfl, rfl⟩⟩

theorem exists_runs_assemble :
    ∃ assembled, Runs (effect sampleToolchain place) (assemble sampleToolchain completeSpec).run
      fs (.ok assembled) fs := by
  refine exists_runs_bind (runs_sandboxed_pure _ _) ?_
  refine exists_runs_bind (runs_sandboxed_pure _ _) ?_
  refine exists_runs_bind (runs_pure.mpr ⟨rfl, rfl⟩) ?_
  refine exists_runs_bind (runs_liftExcept.mpr ⟨rfl, rfl⟩) ?_
  have hrest : ∀ (plan : Plan) (f : Built → Task (List (String × Go.Bytes) × ℕ)),
      plan.validator = none → plan.checker.type = "none" →
      (∀ built, ∃ b, Runs (effect sampleToolchain place) (f built).run fs (.ok b) fs) →
      ∃ b, Runs (effect sampleToolchain place)
        (buildCases sampleToolchain plan {} completeSpec.cases >>= f).run fs (.ok b) fs := by
    intro plan f hvalidator hchecker hf
    obtain ⟨built, hbuilt⟩ := exists_runs_buildCase hvalidator hchecker _
    refine exists_runs_bind (runs_bind_ok.mpr ⟨built, fs, hbuilt, ?_⟩) (hf built)
    exact runs_pure.mpr ⟨rfl, rfl⟩
  refine hrest _ _ rfl rfl fun built => ?_
  exact exists_runs_bind (runs_liftExcept.mpr ⟨rfl, rfl⟩) ⟨_, runs_pure.mpr ⟨rfl, rfl⟩⟩

/-- An old package is at `o`. -/
def sampleFiles : Files := fun location =>
  if location = [] then some .directory
  else if location = [[111]] then some (.file [1])
  else none

/-- The archive has been written to `t`. -/
def packedFiles : Files := Function.update sampleFiles [[116]] (some (.file []))

/-- The archive is packed, the rename fails, the old package is removed, and the second
rename fails, too. -/
theorem runs_writeEntries_sample (entries : List (String × Go.Bytes)) :
    Runs (effect sampleToolchain (SlashPath.locate []))
      (writeEntries [116] [111] entries).run packedFiles
      (.error (encode "publish output archive: "))
      (Function.update packedFiles [[111]] none) := by
  have hfile : packedFiles (SlashPath.locate [] [116]) = some (.file []) := by decide
  refine runs_bind.mpr (Or.inr ⟨(), packedFiles, runs_addEntries hfile entries, ?_⟩)
  refine runs_query_bind.mpr ⟨.ok (), packedFiles,
    ⟨fun _ _ => rfl, Or.inl rfl, fun _ => hfile⟩, ?_⟩
  refine runs_query_bind.mpr ⟨.ok (), packedFiles, rfl, ?_⟩
  refine runs_bind.mpr (Or.inr ⟨(), packedFiles, runs_liftExcept.mpr ⟨rfl, rfl⟩, ?_⟩)
  refine runs_query_bind.mpr ⟨.error [], packedFiles,
    ⟨fun _ => rfl, fun hok => by cases hok⟩, ?_⟩
  refine runs_query_bind.mpr ⟨.ok (), Function.update packedFiles [[111]] none,
    ⟨fun hfailed => absurd rfl hfailed, fun _ => ⟨by decide, rfl⟩⟩, ?_⟩
  refine runs_query_bind.mpr ⟨.error [], Function.update packedFiles [[111]] none,
    ⟨fun _ => rfl, fun hok => by cases hok⟩, ?_⟩
  exact runs_liftExcept.mpr ⟨by decide, rfl⟩

theorem runs_build_sample :
    Runs (effect sampleToolchain (SlashPath.locate []))
      (build sampleToolchain true sampleSpec [111]).run sampleFiles
      (.error (encode "publish output archive: "))
      (Function.update packedFiles [[111]] none) := by
  obtain ⟨assembled, hassemble⟩ : ∃ assembled, Runs (effect sampleToolchain (SlashPath.locate []))
      (assemble sampleToolchain completeSpec).run sampleFiles (.ok assembled) sampleFiles :=
    exists_runs_assemble
  have hdirectory : ∀ location, location <+: SlashPath.locate [] (SlashPath.dir [111]) →
      sampleFiles location = some .directory := by
    intro location hbelow
    rw [List.prefix_nil.mp hbelow]
    rfl
  have hwrite : Runs (effect sampleToolchain (SlashPath.locate []))
      (writePackage [111] assembled.1).run sampleFiles (.error (encode "publish output archive: "))
      (Function.update packedFiles [[111]] none) := by
    refine runs_query_bind.mpr ⟨.ok (), sampleFiles,
      FileSystem.makesAll_self rfl hdirectory, ?_⟩
    refine runs_bind.mpr (Or.inr ⟨(), sampleFiles, runs_liftExcept.mpr ⟨rfl, rfl⟩, ?_⟩)
    refine runs_query_bind.mpr ⟨.ok [116], packedFiles, ⟨by decide, rfl⟩, ?_⟩
    refine runs_bind.mpr (Or.inr ⟨[116], packedFiles, runs_liftExcept.mpr ⟨rfl, rfl⟩, ?_⟩)
    refine runs_lift_bind.mpr ⟨_, _, runs_writeEntries_sample assembled.1, ?_⟩
    refine runs_query_bind.mpr ⟨.error [], _, ⟨fun _ => rfl, fun hok => by cases hok⟩, ?_⟩
    exact runs_throw.mpr ⟨rfl, rfl⟩
  rw [build, if_neg (by decide)]
  refine runs_bind.mpr (Or.inr ⟨completeSpec, sampleFiles,
    runs_liftExcept.mpr ⟨validate_sampleSpec, rfl⟩, ?_⟩)
  rw [if_neg (by decide)]
  refine runs_bind.mpr (Or.inr ⟨assembled, sampleFiles, hassemble, ?_⟩)
  exact runs_bind.mpr (Or.inl ⟨_, hwrite, rfl⟩)

/-- A record of that run, which says that the output path was removed. -/
theorem build_keeps_iff_sample :
    ∃ trace : Trace, Runs ((effect sampleToolchain (SlashPath.locate [])).tracked
        (Trace.after sampleToolchain (SlashPath.locate []) [[111]]))
        (build sampleToolchain true sampleSpec [111]).run (sampleFiles, {})
        (.error (encode "publish output archive: "))
        (Function.update packedFiles [[111]] none, trace) ∧
      ¬ trace.change.Spares sampleFiles [[111]] := by
  obtain ⟨trace, htracked⟩ := runs_build_sample.exists_tracked ({} : Trace)
  refine ⟨trace, htracked, fun hspares => ?_⟩
  have hkept := (build_keeps_iff sampleToolchain (SlashPath.locate []) true sampleSpec [111]
    htracked).mpr hspares
  exact absurd hkept (by decide)

/-- The build fails, and the old package is gone. -/
theorem old_package_lost :
    ∃ fs' error, Runs (effect sampleToolchain (SlashPath.locate []))
        (build sampleToolchain true sampleSpec [111]).run sampleFiles (.error error) fs' ∧
      entryAt sampleFiles [[111]] = some (.file [1]) ∧ entryAt fs' [[111]] = none :=
  ⟨_, _, runs_build_sample, by decide, by decide⟩

end JudgeLoom.Authoring
