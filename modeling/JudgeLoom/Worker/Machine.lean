import JudgeLoom.Library.Transcript
import JudgeLoom.Worker.SandboxInput

/-!
# A sandbox that always does the same

go-judge stores a compiled program under an id that it makes up, and the times that it
measures differ from run to run.  A `Machine` says what a command comes to apart from that:
its cached files are given by their contents, and so are the files that it leaves in the
cache.  A sandbox obeys the machine (`Obeys`) if each of its replies is what the machine
says, for the contents that stand behind the ids.

In such a sandbox it can be said without ids what the output of a source is (`Puts`), what
a validator accepts (`Passes`) and what a testlib checker approves (`Approves`), and this is
what the worker finds out when it compiles and runs these programs.
-/

namespace JudgeLoom.Go

open Utf8 (encode)
open Interaction (Gives gives_pure gives_query)
open Interaction.Fallible (Succeeds succeeds_pure succeeds_liftExcept succeeds_lift)

/-! ## Machines -/

variable {C : Type}

/-- A file of a command, with the content that stands behind an id. -/
def CmdFile.resolve (contents : String → C) : CmdFile → String ⊕ C
  | .content text => .inl text
  | .fileID id => .inr (contents id)

/-- A command, and the contents of its files. -/
abbrev Request (C : Type) := CmdSpec × List (String × (String ⊕ C))

def request (contents : String → C) (command : CmdSpec) : Request C :=
  ({ command with copyIn := [] },
    command.copyIn.map fun file => (file.1, file.2.resolve contents))

/-- What a command comes to, apart from times and ids. -/
structure Outcome (C : Type) where
  status : Verdict
  exitStatus : ℤ
  stdout : Bytes
  files : String → Option C

/-- An empty id is none. -/
def outcomeOf (contents : String → C) (result : RunResult) : Outcome C where
  status := result.status
  exitStatus := result.exitStatus
  stdout := result.stdout
  files name := ((result.fileIDs.get? name).filter (· ≠ "")).map contents

abbrev Machine (C : Type) := Request C → Outcome C

/-- The sandbox did what the machine says. -/
def Obeys (machine : Machine C) (contents : String → C) : Entry → Prop
  | ⟨.post _ [command], exchange⟩ =>
      outcomeOf contents (GoJudge.runResult exchange) = machine (request contents command)
  | _ => True

/-- A command of the worker, with the contents of its cached files. -/
def requestWith (spec : RunSpec) (cached : List (String × C)) : Request C :=
  ({ runCommand spec (some (memoryInput spec.stdIn)) with copyIn := [] },
    spec.copyIn.map (fun file => (file.1, .inl (Utf8.decode file.2))) ++
      cached.map fun file => (file.1, .inr file.2))

theorem request_runCommand (contents : String → C) (spec : RunSpec) :
    request contents (runCommand spec (some (memoryInput spec.stdIn))) =
      requestWith spec (spec.copyInCached.map fun file => (file.1, contents file.2)) := by
  simp only [request, requestWith, runCommand, copyInFiles, List.map_append, List.map_map]
  rfl

variable {machine : Machine C} {contents : String → C} {Ψ : Entry → Prop}

theorem gives_run (hobeys : ∀ entry, Ψ entry → Obeys machine contents entry) (call : Call)
    (spec : RunSpec) : Gives Ψ (GoJudge.run call spec) fun result =>
      outcomeOf contents result = machine (requestWith spec
        (spec.copyInCached.map fun file => (file.1, contents file.2))) := by
  have hanswer : ∀ exchange : Exchange,
      Ψ ⟨.post call [runCommand spec (some (memoryInput spec.stdIn))], exchange⟩ →
        outcomeOf contents (GoJudge.runResult exchange) = machine (requestWith spec
          (spec.copyInCached.map fun file => (file.1, contents file.2))) := by
    intro exchange hentry
    rw [← request_runCommand]
    exact hobeys _ hentry
  exact Gives.bind (gives_query hanswer) fun exchange h => gives_pure h

/-! ## Compiled files -/

/-- The command leaves the content in the cache, under the name. -/
def Makes (machine : Machine C) (spec : RunSpec) (name : String) (content : C) : Prop :=
  (machine (requestWith spec [])).status = .AC ∧
    (machine (requestWith spec [])).files name = some content

theorem Makes.unique {spec : RunSpec} {name : String} {content content' : C}
    (h : Makes machine spec name content) (h' : Makes machine spec name content') :
    content = content' :=
  Option.some.inj (h.2.symm.trans h'.2)

/-- The id that the worker takes for the file. -/
def RunResult.fileID (result : RunResult) (name : String) : String :=
  (result.fileIDs.get? name).getD ""

theorem files_eq_some_iff {result : RunResult} {name : String} {content : C} :
    (outcomeOf contents result).files name = some content ↔
      result.fileID name ≠ "" ∧ contents (result.fileID name) = content := by
  unfold outcomeOf RunResult.fileID
  dsimp only
  cases result.fileIDs.get? name with
  | none => simp
  | some id => by_cases hempty : id = "" <;> simp [hempty]

/-- A binary that was compiled has the content that the machine makes. -/
theorem makes_of_compiledBinary {spec : RunSpec} {result : RunResult} {name fileID : String}
    {failed : RunResult → Bytes}
    (houtcome : outcomeOf contents result = machine (requestWith spec []))
    (h : Checker.compiledBinary name failed result = .ok fileID) :
    Makes machine spec name (contents fileID) := by
  unfold Checker.compiledBinary at h
  split at h
  · cases h
  · next hstatus =>
      dsimp only at h
      split at h
      · cases h
      · next hempty =>
          cases h
          unfold Makes
          rw [← houtcome, files_eq_some_iff]
          exact ⟨not_not.mp hstatus, hempty, rfl⟩

/-- A binary that the machine makes is compiled. -/
theorem exists_compiledBinary {spec : RunSpec} {result : RunResult} {name : String} {content : C}
    (houtcome : outcomeOf contents result = machine (requestWith spec []))
    (h : Makes machine spec name content) (failed : RunResult → Bytes) :
    ∃ fileID, Checker.compiledBinary name failed result = .ok fileID ∧
      contents fileID = content := by
  obtain ⟨hstatus, hfile⟩ := h
  rw [← houtcome] at hstatus hfile
  have hstatus : result.status = .AC := hstatus
  obtain ⟨hempty, hcontent⟩ := files_eq_some_iff.mp hfile
  refine ⟨result.fileID name, ?_, hcontent⟩
  unfold Checker.compiledBinary
  rw [if_neg (not_not.mpr hstatus)]
  exact if_neg hempty

/-! ## What a source puts out -/

theorem copyInCached_of_getLanguage {key : String} {profile : Profile}
    (h : getLanguage key = some profile) :
    profile.run.copyInCached = [] ∧ ∀ compile ∈ profile.compile, compile.copyInCached = [] := by
  unfold getLanguage at h
  split at h
  all_goals cases h <;> refine ⟨rfl, ?_⟩ <;> rintro compile ⟨⟩ <;> rfl

/-- The command that runs a source, or the binary that was made of it. -/
def sourceSpec (profile : Profile) (copyIn : List (String × Bytes)) : RunSpec :=
  { profile.run with env := Runner.environment, copyIn }

/-- The outcome of a source on an input. -/
def Puts (machine : Machine C) (language source : String) (compileMemory : ℤ) (input : Bytes)
    (timeLimit memoryLimit : ℤ) (outcome : Outcome C) : Prop :=
  ∃ profile, getLanguage language = some profile ∧
    match profile.compile with
    | none => outcome = machine (requestWith (Runner.preparedSpec
        (sourceSpec profile [(profile.sourceName, encode source)]) input timeLimit memoryLimit) [])
    | some compile => ∃ content,
        Makes machine (Runner.compileSpec profile compile source compileMemory) "main" content ∧
          outcome = machine (requestWith (Runner.preparedSpec (sourceSpec profile []) input
            timeLimit memoryLimit) [("main", content)])

theorem Puts.unique {language source : String} {compileMemory timeLimit memoryLimit : ℤ}
    {input : Bytes} {outcome outcome' : Outcome C}
    (h : Puts machine language source compileMemory input timeLimit memoryLimit outcome)
    (h' : Puts machine language source compileMemory input timeLimit memoryLimit outcome') :
    outcome = outcome' := by
  obtain ⟨profile, hprofile, hputs⟩ := h
  obtain ⟨_, hsame, hputs'⟩ := h'
  obtain rfl := Option.some.inj (hprofile.symm.trans hsame)
  cases hcompile : profile.compile with
  | none =>
      rw [hcompile] at hputs hputs'
      rw [hputs, hputs']
  | some compile =>
      rw [hcompile] at hputs hputs'
      obtain ⟨content, hmakes, houtcome⟩ := hputs
      obtain ⟨content', hmakes', houtcome'⟩ := hputs'
      rw [houtcome, houtcome', hmakes.unique hmakes']

/-- The command is that of the source: whatever it is run on, the machine says what the source
puts out. -/
def Stands (machine : Machine C) (contents : String → C) (language source : String)
    (compileMemory : ℤ) (prepared : RunSpec) : Prop :=
  ∀ input timeLimit memoryLimit, Puts machine language source compileMemory input timeLimit
    memoryLimit (machine (requestWith (Runner.preparedSpec prepared input timeLimit memoryLimit)
      (prepared.copyInCached.map fun file => (file.1, contents file.2))))

/-- A source that is not compiled stands for itself. -/
theorem stands_source {language source : String} {compileMemory : ℤ} {profile : Profile}
    {bytes : Bytes} (hprofile : getLanguage language = some profile)
    (hcompile : profile.compile = none) (hsource : Utf8.decode bytes = source) :
    Stands machine contents language source compileMemory
      (sourceSpec profile [(profile.sourceName, bytes)]) := by
  intro input timeLimit memoryLimit
  refine ⟨profile, hprofile, ?_⟩
  have hcached : (sourceSpec profile [(profile.sourceName, bytes)]).copyInCached = [] :=
    (copyInCached_of_getLanguage hprofile).1
  rw [hcompile, hcached]
  unfold requestWith
  simp only [Runner.preparedSpec, sourceSpec, List.map_cons, List.map_nil, hsource,
    Utf8.decode_encode]
  rfl

/-- A binary stands for the source of which it was compiled. -/
theorem stands_binary {language source : String} {compileMemory : ℤ} {profile : Profile}
    {compile : RunSpec} {fileID : String} (hprofile : getLanguage language = some profile)
    (hcompile : profile.compile = some compile)
    (hmakes : Makes machine (Runner.compileSpec profile compile source compileMemory) "main"
      (contents fileID)) :
    Stands machine contents language source compileMemory
      { profile.run with env := Runner.environment, copyInCached := [("main", fileID)] } := by
  intro input timeLimit memoryLimit
  refine ⟨profile, hprofile, ?_⟩
  rw [hcompile]
  refine ⟨contents fileID, hmakes, ?_⟩
  have hcopyIn : profile.run.copyIn = [] := getLanguage_copyIn hprofile
  simp only [requestWith, Runner.preparedSpec, sourceSpec, hcopyIn, List.map_cons, List.map_nil]
  rfl

/-- A binary of a participant has the content that the machine makes. -/
theorem makes_of_compiled {spec : RunSpec} {result : RunResult} {fileID : String}
    (houtcome : outcomeOf contents result = machine (requestWith spec []))
    (h : Runner.compiled result = .ok fileID) : Makes machine spec "main" (contents fileID) := by
  unfold Runner.compiled at h
  split at h
  · cases h
  · next hstatus =>
      dsimp only at h
      split at h
      · cases h
      · next hempty =>
          cases h
          unfold Makes
          rw [← houtcome, files_eq_some_iff]
          exact ⟨not_not.mp hstatus, hempty, rfl⟩

theorem exists_compiled {spec : RunSpec} {result : RunResult} {content : C}
    (houtcome : outcomeOf contents result = machine (requestWith spec []))
    (h : Makes machine spec "main" content) :
    ∃ fileID, Runner.compiled result = .ok fileID := by
  obtain ⟨hstatus, hfile⟩ := h
  rw [← houtcome] at hstatus hfile
  have hstatus : result.status = .AC := hstatus
  obtain ⟨hempty, -⟩ := files_eq_some_iff.mp hfile
  refine ⟨result.fileID "main", ?_⟩
  unfold Runner.compiled
  rw [if_neg (not_not.mpr hstatus)]
  exact if_neg hempty

/-- A source that can be compiled is compiled and run. -/
theorem succeeds_compileAndRun (hobeys : ∀ entry, Ψ entry → Obeys machine contents entry)
    {language source : String} {input : Bytes} {timeLimit memoryLimit : ℤ} {outcome : Outcome C}
    (h : Puts machine language source memoryLimit input timeLimit memoryLimit outcome)
    (caseNumber : ℕ) :
    Succeeds Ψ (Runner.compileAndRun caseNumber language source input timeLimit memoryLimit)
      fun run => outcomeOf contents run = outcome := by
  have hprepare : Succeeds Ψ (Runner.prepare caseNumber language source memoryLimit)
      (Stands machine contents language source memoryLimit) := by
    obtain ⟨profile, hprofile, hputs⟩ := h
    unfold Runner.prepare
    rw [hprofile]
    dsimp only
    cases hcompile : profile.compile with
    | none => exact succeeds_pure (stands_source hprofile hcompile (Utf8.decode_encode source))
    | some compile =>
        rw [hcompile] at hputs
        obtain ⟨content, hmakes, -⟩ := hputs
        have hcached : (Runner.compileSpec profile compile source memoryLimit).copyInCached = [] :=
          (copyInCached_of_getLanguage hprofile).2 compile hcompile
        refine Succeeds.bind (succeeds_lift (gives_run hobeys _ _)) fun result hresult => ?_
        rw [hcached] at hresult
        obtain ⟨fileID, hfileID⟩ := exists_compiled hresult hmakes
        exact Succeeds.bind (succeeds_liftExcept hfileID rfl) fun found hfound => succeeds_pure
          (stands_binary hprofile hcompile (makes_of_compiled hresult (hfound ▸ hfileID)))
  refine Succeeds.bind hprepare fun prepared hstands => ?_
  refine succeeds_lift (Gives.mono (gives_run hobeys _ _) fun run hrun => ?_)
  exact hrun.trans ((hstands input timeLimit memoryLimit).unique h)

/-! ## Programs of a package -/

variable {Manifest : Type} {G : Runtime Manifest} {spec : CheckerSpec} {input answer output : Bytes}
  {timeLimit memoryLimit : ℤ}

/-- The validator of the source, compiled, accepts the input. -/
def Validates (machine : Machine C) (G : Runtime Manifest) (source : String) (input : Bytes)
    (timeLimit memoryLimit : ℤ) : Prop :=
  ∃ content, Makes machine (Checker.compileSpec "validator" source (Checker.testlibHeaders G)
      memoryLimit) "validator" content ∧
    let ran := machine (requestWith (Checker.programSpec "validator" "" [] input []
      (Checker.checkerTimeLimit timeLimit) memoryLimit) [("validator", content)])
    ¬ Checker.Stopped ran.status ∧ ran.exitStatus = 0

/-- The testlib checker of the source, compiled, accepts the output. -/
def Approves (machine : Machine C) (G : Runtime Manifest) (source : String)
    (input answer output : Bytes) (timeLimit memoryLimit : ℤ) : Prop :=
  ∃ content, Makes machine (Checker.compileSpec "checker" source (Checker.testlibHeaders G)
      memoryLimit) "checker" content ∧
    let ran := machine (requestWith (Checker.checkSpec "" input answer output timeLimit memoryLimit)
      [("checker", content)])
    ¬ Checker.Stopped ran.status ∧ ran.exitStatus = 0

theorem testlibVerdict_status_iff {A : FloatArith} {ran : RunResult} :
    (Checker.testlibVerdict A ran).status = .AC ↔
      ¬ Checker.Stopped ran.status ∧ ran.exitStatus = 0 := by
  have hrunning : ¬ Checker.Stopped .AC := by decide
  unfold Checker.testlibVerdict
  split_ifs with hstopped
  · refine iff_of_false (fun haccepted => ?_) fun h => h.1 hstopped
    have haccepted : ran.status = .AC := haccepted
    exact hrunning (haccepted ▸ hstopped)
  · rw [and_iff_right hstopped]
    split
    · next hexit => exact iff_of_true rfl hexit
    all_goals exact iff_of_false (by rintro ⟨⟩) (by omega)

theorem validatorVerdict_status_iff {ran : RunResult} :
    (Checker.validatorVerdict ran).status = .AC ↔
      ¬ Checker.Stopped ran.status ∧ ran.exitStatus = 0 := by
  have hrunning : ¬ Checker.Stopped .AC := by decide
  unfold Checker.validatorVerdict
  split_ifs with hstopped hexit
  · refine iff_of_false (fun haccepted => ?_) fun h => h.1 hstopped
    have haccepted : ran.status = .AC := haccepted
    exact hrunning (haccepted ▸ hstopped)
  · exact iff_of_true rfl ⟨hstopped, hexit⟩
  · refine iff_of_false ?_ fun h => hexit h.2
    rintro ⟨⟩

/-- The worker has the program of the source under the id. -/
def Compiled (machine : Machine C) (contents : String → C) (G : Runtime Manifest) (name : String)
    (source : String) (memoryLimit : ℤ) (fileID : String) : Prop :=
  Makes machine (Checker.compileSpec name source (Checker.testlibHeaders G) memoryLimit) name
    (contents fileID)

/-- What the worker runs of a program is the content behind its id. -/
theorem gives_program (hobeys : ∀ entry, Ψ entry → Obeys machine contents entry) (call : Call)
    (name fileID : String) (args : List String) (stdIn : Bytes) (copyIn : List (String × Bytes))
    (limit memoryLimit : ℤ) :
    Gives Ψ (GoJudge.run call
        (Checker.programSpec name fileID args stdIn copyIn limit memoryLimit)) fun ran =>
      outcomeOf contents ran = machine (requestWith
        (Checker.programSpec name "" args stdIn copyIn limit memoryLimit)
        [(name, contents fileID)]) :=
  gives_run hobeys call _

/-- The validator accepts what it validates. -/
theorem gives_validate (hobeys : ∀ entry, Ψ entry → Obeys machine contents entry)
    {source fileID : String} (hcompiled : Compiled machine contents G "validator" source memoryLimit
      fileID) (caseNumber : ℕ) :
    Gives Ψ (Checker.validate caseNumber fileID input timeLimit memoryLimit) fun checked =>
      checked.status = .AC ↔ Validates machine G source input timeLimit memoryLimit := by
  refine Gives.bind (gives_program hobeys _ _ _ _ _ _ _ _) fun ran hran => gives_pure ?_
  rw [validatorVerdict_status_iff]
  constructor
  · intro haccepted
    refine ⟨_, hcompiled, ?_⟩
    rw [← hran]
    exact haccepted
  · rintro ⟨content, hmakes, haccepted⟩
    rw [hmakes.unique hcompiled, ← hran] at haccepted
    exact haccepted

/-- The checker is compiled if the machine makes it. -/
theorem gives_compiled (hobeys : ∀ entry, Ψ entry → Obeys machine contents entry)
    {kept : Option String}
    (hkept : ∀ fileID ∈ kept, Compiled machine contents G "checker" spec.source memoryLimit fileID)
    (caseNumber : ℕ) :
    Gives Ψ (Checker.compiled G caseNumber spec memoryLimit kept) fun result =>
      (∀ fileID, result = .ok fileID →
        Compiled machine contents G "checker" spec.source memoryLimit fileID) ∧
      ((∃ content, Makes machine (Checker.compileSpec "checker" spec.source
        (Checker.testlibHeaders G) memoryLimit) "checker" content) →
          ∃ fileID, result = .ok fileID) := by
  cases kept with
  | some fileID =>
      refine gives_pure ⟨fun other hother => ?_, fun _ => ⟨fileID, rfl⟩⟩
      cases hother
      exact hkept fileID rfl
  | none =>
      refine Gives.bind (gives_run hobeys _ _) fun result hresult => gives_pure ⟨?_, ?_⟩
      · exact fun fileID hfileID => makes_of_compiledBinary hresult hfileID
      · rintro ⟨content, hmakes⟩
        obtain ⟨fileID, hfileID, -⟩ := exists_compiledBinary hresult hmakes Checker.checkerMessage
        exact ⟨fileID, hfileID⟩

/-- The checker, compiled when it is needed first, accepts what it approves. -/
theorem gives_check (hobeys : ∀ entry, Ψ entry → Obeys machine contents entry)
    {kept : Option String} (hsource : spec.source ≠ "")
    (hkept : ∀ fileID ∈ kept, Compiled machine contents G "checker" spec.source memoryLimit fileID)
    (caseNumber : ℕ) :
    Gives Ψ (Checker.check G caseNumber spec kept input answer output timeLimit memoryLimit)
      fun outcome =>
        (outcome.1.status = .AC ↔
          Approves machine G spec.source input answer output timeLimit memoryLimit) ∧
        ∀ fileID ∈ outcome.2, Compiled machine contents G "checker" spec.source memoryLimit fileID := by
  unfold Checker.check
  rw [if_neg hsource]
  refine Gives.bind (gives_compiled hobeys hkept caseNumber) fun result hresult => ?_
  obtain ⟨hok, hmade⟩ := hresult
  cases result with
  | error message =>
      refine gives_pure ⟨iff_of_false (by rintro ⟨⟩) ?_, hkept⟩
      rintro ⟨content, hmakes, -⟩
      obtain ⟨fileID, hfileID⟩ := hmade ⟨content, hmakes⟩
      cases hfileID
  | ok fileID =>
      have hbinary := hok fileID rfl
      refine Gives.bind (gives_program hobeys _ _ _ _ _ _ _ _) fun ran hran => gives_pure ⟨?_, ?_⟩
      · rw [testlibVerdict_status_iff]
        constructor
        · intro haccepted
          refine ⟨_, hbinary, ?_⟩
          rw [Checker.checkSpec, ← hran]
          exact haccepted
        · rintro ⟨content, hmakes, haccepted⟩
          rw [hmakes.unique hbinary, Checker.checkSpec, ← hran] at haccepted
          exact haccepted
      · rintro other ⟨⟩
        exact hbinary

/-- The compiler makes the validator of the source. -/
def HasValidator (machine : Machine C) (G : Runtime Manifest) (source : String)
    (memoryLimit : ℤ) : Prop :=
  source ≠ "" ∧ ∃ content, Makes machine (Checker.compileSpec "validator" source
    (Checker.testlibHeaders G) memoryLimit) "validator" content

/-- A validator that is returned is the one of the source. -/
theorem gives_newValidator (hobeys : ∀ entry, Ψ entry → Obeys machine contents entry) :
    Gives Ψ (Checker.newValidator G spec memoryLimit).run fun outcome =>
      ∀ fileID, outcome = .ok fileID →
        HasValidator machine G spec.source memoryLimit ∧
          Compiled machine contents G "validator" spec.source memoryLimit fileID := by
  unfold Checker.newValidator
  split
  · refine gives_pure fun fileID hok => ?_
    cases hok
  · next hsource =>
      refine Gives.bind (succeeds_lift (gives_run hobeys _ _)) fun outcome houtcome => ?_
      obtain ⟨result, rfl, hresult⟩ := houtcome
      intro transcript outcome hyields _ fileID hok
      rw [hok] at hyields
      have hbinary := (Interaction.Fallible.yields_liftExcept.mp hyields).2
      cases hcompiled : Checker.compiledBinary "validator" _ result with
      | error message =>
          rw [hcompiled] at hbinary
          cases hbinary
      | ok other =>
          rw [hcompiled] at hbinary
          cases hbinary
          have hmakes := makes_of_compiledBinary hresult hcompiled
          exact ⟨⟨hsource, _, hmakes⟩, hmakes⟩

theorem succeeds_newValidator (hobeys : ∀ entry, Ψ entry → Obeys machine contents entry)
    (h : HasValidator machine G spec.source memoryLimit) :
    Succeeds Ψ (Checker.newValidator G spec memoryLimit)
      (Compiled machine contents G "validator" spec.source memoryLimit) := by
  obtain ⟨hsource, content, hmakes⟩ := h
  unfold Checker.newValidator
  rw [if_neg hsource]
  refine Succeeds.bind (succeeds_lift (gives_run hobeys _ _)) fun result hresult => ?_
  obtain ⟨fileID, hfileID, -⟩ := exists_compiledBinary hresult hmakes fun result =>
    encode "validator compile failed: " ++ Checker.checkerMessage result
  refine succeeds_liftExcept ?_ (makes_of_compiledBinary hresult hfileID)
  rw [hfileID]
  rfl

/-! ## The loop over the cases -/

/-- Cases that are all accepted are all run, even if the job is short-circuited. -/
theorem succeeds_executeCases {K : Option String → Prop} {R : PackageCase → CaseResult → Prop}
    {body : ℕ → PackageCase → Option String → Action (CaseResult × Option String)}
    {shortCircuit : Bool} {number : ℕ} {cases : List PackageCase} {kept : Option String}
    (hkept : K kept)
    (hbody : ∀ index testCase kept, cases[index]? = some testCase → K kept →
      Succeeds Ψ (body (number + index + 1) testCase kept) fun made =>
        made.1.status = .AC ∧ R testCase made.1 ∧ K made.2) :
    Succeeds Ψ (executeCases shortCircuit body number cases kept) (List.Forall₂ R cases) := by
  induction cases generalizing number kept with
  | nil => exact succeeds_pure .nil
  | cons testCase rest ih =>
      refine Succeeds.bind (hbody 0 testCase kept rfl hkept) fun made hmade => ?_
      obtain ⟨result, next⟩ := made
      obtain ⟨hstatus, hresult, hafter⟩ := hmade
      have hgoes : ¬ (shortCircuit = true ∧ result.status ≠ .AC) := fun h => h.2 hstatus
      dsimp only
      rw [if_neg hgoes]
      refine Succeeds.bind (ih hafter fun index other kept hother hkept => ?_)
        fun results hresults => succeeds_pure (.cons hresult hresults)
      have hnext := hbody (index + 1) other kept hother hkept
      rwa [show number + (index + 1) + 1 = number + 1 + index + 1 by omega] at hnext

end JudgeLoom.Go
