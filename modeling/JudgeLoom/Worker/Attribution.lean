import JudgeLoom.Worker.Account

/-!
# Who is blamed for a failure

A report blames the participant when it fails a job with `CE` or a case with `TLE`,
`MLE`, `OLE` or `RTE`.  `Attributed` says that it does so only for what go-judge said of
the participant's own compilation and run, and that every failure of the sandbox or of
a program of the package is reported as `IE`.

The worker breaks this where it passes on what it was told about the wrong program:
`Sound` lists, exchange by exchange, what must not happen, and `attributed_run` shows
that nothing else can go wrong.
-/

namespace JudgeLoom.Go

open Utf8 (encode)
open Interaction.Fallible

/-! ## Failures -/

/-- go-judge calls the end of a command signalled. -/
def GoJudge.signalled (exchange : Exchange) (index : ℕ) : Bool :=
  match GoJudge.doRunWithRetry exchange with
  | .ok results => results[index]?.any fun result => foldStatus result.status = "signalled"
  | .error _ => false

/-- The exit statuses with which a testlib program gives a verdict. -/
def testlibCodes : List ℤ := [0, 1, 2, 5]

/-- A checker or an interactor did not end with a verdict of its own. -/
def TestlibFailed (ran : RunResult) (signalled : Bool) : Prop :=
  Checker.Stopped ran.status ∨ signalled = true ∨ ran.exitStatus ∉ testlibCodes

/-- An interaction gave no verdict. -/
def InteractionFailed (signalled : Bool) : Except Bytes GoJudge.InteractiveResult → Prop
  | .error _ => True
  | .ok result =>
      result.participant.status = .IE ∨ TestlibFailed result.interactor signalled

/-- The sandbox, or a program of the package, failed. -/
def Fails : Entry → Prop
  | ⟨.post call _, exchange⟩ =>
      let ran := GoJudge.runResult exchange
      match call.purpose with
      | .compile =>
          ran.status = .IE ∨ (ran.status = .AC ∧ (ran.fileIDs.get? "main").getD "" = "")
      | .run => ran.status = .IE
      | .checkerCompile => (binaryFailure "checker" exchange).isSome = true
      | .check => TestlibFailed ran (GoJudge.signalled exchange 0)
      | .interactorCompile => (binaryFailure "interactor" exchange).isSome = true
      | .interact =>
          InteractionFailed (GoJudge.signalled exchange 0) (GoJudge.interactiveResult exchange)
      | .validatorCompile => ran.status ≠ .AC
      | .validate => (Checker.validatorVerdict ran).status ≠ .AC
  | _ => False

/-! ## Attribution -/

/-- The request that compiles the source of the participant. -/
def compileCommands (job : Job) : Option (List CmdSpec) :=
  (getLanguage job.language).bind fun profile => profile.compile.map fun compile =>
    let spec := Runner.compileSpec profile compile job.source job.memoryBytes
    [runCommand spec (some (memoryInput spec.stdIn))]

/-- go-judge ran the compiler on the source of the participant, and the compiler did not
accept it. -/
def RejectedCompile (job : Job) : Entry → Prop
  | ⟨.post call commands, exchange⟩ =>
      call.purpose = .compile ∧ compileCommands job = some commands ∧
        (GoJudge.runResult exchange).status ≠ .AC ∧ (GoJudge.runResult exchange).status ≠ .IE
  | _ => False

/-- The participant's own run of a case ended with a status. -/
def OwnRun (caseNumber : ℕ) (status : Verdict) : Entry → Prop
  | ⟨.post call _, exchange⟩ =>
      call.caseNumber = caseNumber ∧
        ((call.purpose = .run ∧ (GoJudge.runResult exchange).status = status) ∨
          (call.purpose = .interact ∧ ∃ result, GoJudge.interactiveResult exchange = .ok result ∧
            result.participant.status = status))
  | _ => False

/-- The statuses that blame a participant's run. -/
def runFaults : List Verdict := [.TLE, .MLE, .OLE, .RTE]

/-- The report blames the participant only for what the participant's own programs did,
and every failure is reported as an internal error. -/
structure Attributed (job : Job) (transcript : List Entry) (report : Report) : Prop where
  compileError : ∀ message, report = .failed "CE" message →
    ∃ entry ∈ transcript, RejectedCompile job entry
  runError : ∀ results, report = .cases results → ∀ result ∈ results,
    result.status ∈ runFaults → ∃ entry ∈ transcript, OwnRun result.caseNumber result.status entry
  internalError : ∀ entry ∈ transcript, Fails entry →
    (∃ message, report = .failed "IE" message) ∨ ∃ results, report = .cases results ∧
      ∃ result ∈ results, caseNumber? entry = some result.caseNumber ∧ result.status = .IE

/-! ## What goes wrong -/

/-- A checker or an interactor was not stopped at a limit, and no signal that ended it
has the number of a verdict. -/
def SoundVerdict (ran : RunResult) (signalled : Bool) : Prop :=
  ran.status ∉ [Verdict.TLE, .MLE, .OLE] ∧ (signalled = true → ran.exitStatus ∉ testlibCodes)

/-- An accepted participant's interactor gave a sound verdict; that of a participant that
was not accepted did not fail. -/
def SoundInteraction (signalled : Bool) : Except Bytes GoJudge.InteractiveResult → Prop
  | .error _ => True
  | .ok result =>
      (result.participant.status = .AC → SoundVerdict result.interactor signalled) ∧
        (result.participant.status ≠ .AC → result.participant.status ≠ .IE →
          ¬ TestlibFailed result.interactor signalled)

/-- The worker does not pass on what go-judge says of the wrong program. -/
def Sound : Entry → Prop
  | ⟨.post call _, exchange⟩ =>
      let ran := GoJudge.runResult exchange
      match call.purpose with
      | .compile => ran.status ≠ .IE ∧ (ran.status = .AC → (ran.fileIDs.get? "main").getD "" ≠ "")
      | .check => SoundVerdict ran (GoJudge.signalled exchange 0)
      | .interact =>
          SoundInteraction (GoJudge.signalled exchange 0) (GoJudge.interactiveResult exchange)
      | _ => True
  | _ => True

/-! ### The predicates can be evaluated -/

instance (ran : RunResult) (signalled : Bool) : Decidable (TestlibFailed ran signalled) :=
  inferInstanceAs (Decidable (_ ∨ _ ∨ _))

instance (ran : RunResult) (signalled : Bool) : Decidable (SoundVerdict ran signalled) :=
  inferInstanceAs (Decidable (_ ∧ (_ → _)))

instance (signalled : Bool) : DecidablePred (InteractionFailed signalled)
  | .error _ => inferInstanceAs (Decidable True)
  | .ok _ => inferInstanceAs (Decidable (_ ∨ _))

instance (signalled : Bool) : DecidablePred (SoundInteraction signalled)
  | .error _ => inferInstanceAs (Decidable True)
  | .ok _ => inferInstanceAs (Decidable ((_ → _) ∧ (_ → _ → ¬ _)))

instance : DecidablePred Fails
  | ⟨.ensure .., _⟩ => inferInstanceAs (Decidable False)
  | ⟨.readFile .., _⟩ => inferInstanceAs (Decidable False)
  | ⟨.post ⟨.compile, _⟩ _, _⟩ => inferInstanceAs (Decidable (_ ∨ _ ∧ _))
  | ⟨.post ⟨.run, _⟩ _, _⟩ => inferInstanceAs (Decidable (_ = _))
  | ⟨.post ⟨.checkerCompile, _⟩ _, _⟩ => inferInstanceAs (Decidable (_ = true))
  | ⟨.post ⟨.check, _⟩ _, _⟩ => inferInstanceAs (Decidable (TestlibFailed _ _))
  | ⟨.post ⟨.interactorCompile, _⟩ _, _⟩ => inferInstanceAs (Decidable (_ = true))
  | ⟨.post ⟨.interact, _⟩ _, _⟩ => inferInstanceAs (Decidable (InteractionFailed _ _))
  | ⟨.post ⟨.validatorCompile, _⟩ _, _⟩ => inferInstanceAs (Decidable (_ ≠ _))
  | ⟨.post ⟨.validate, _⟩ _, _⟩ => inferInstanceAs (Decidable (_ ≠ _))

instance : DecidablePred Sound
  | ⟨.ensure .., _⟩ => inferInstanceAs (Decidable True)
  | ⟨.readFile .., _⟩ => inferInstanceAs (Decidable True)
  | ⟨.post ⟨.compile, _⟩ _, _⟩ => inferInstanceAs (Decidable (_ ∧ (_ → _)))
  | ⟨.post ⟨.run, _⟩ _, _⟩ => inferInstanceAs (Decidable True)
  | ⟨.post ⟨.checkerCompile, _⟩ _, _⟩ => inferInstanceAs (Decidable True)
  | ⟨.post ⟨.check, _⟩ _, _⟩ => inferInstanceAs (Decidable (SoundVerdict _ _))
  | ⟨.post ⟨.interactorCompile, _⟩ _, _⟩ => inferInstanceAs (Decidable True)
  | ⟨.post ⟨.interact, _⟩ _, _⟩ => inferInstanceAs (Decidable (SoundInteraction _ _))
  | ⟨.post ⟨.validatorCompile, _⟩ _, _⟩ => inferInstanceAs (Decidable True)
  | ⟨.post ⟨.validate, _⟩ _, _⟩ => inferInstanceAs (Decidable True)

instance (job : Job) : DecidablePred (RejectedCompile job)
  | ⟨.ensure .., _⟩ => inferInstanceAs (Decidable False)
  | ⟨.readFile .., _⟩ => inferInstanceAs (Decidable False)
  | ⟨.post .., _⟩ => inferInstanceAs (Decidable (_ ∧ _ ∧ _ ∧ _))

theorem Runner.compiled_eq_ok {ran : RunResult} {fileID : String}
    (h : Runner.compiled ran = .ok fileID) :
    ran.status = .AC ∧ (ran.fileIDs.get? "main").getD "" ≠ "" := by
  unfold Runner.compiled at h
  split at h
  · cases h
  · next hstatus =>
      dsimp only at h
      split at h
      · cases h
      · next hmissing => exact ⟨not_ne_iff.mp hstatus, hmissing⟩

section Verdicts

variable {A : FloatArith} {ran : RunResult} {signalled : Bool}

theorem Checker.testlibVerdict_of_stopped (h : Stopped ran.status) :
    (testlibVerdict A ran).status = ran.status := by
  rw [testlibVerdict, if_pos h]

/-- An exit status that is no verdict is an internal error. -/
theorem Checker.testlibVerdict_of_exitStatus (hstopped : ¬ Stopped ran.status)
    (hexit : ran.exitStatus ∉ testlibCodes) : (testlibVerdict A ran).status = .IE := by
  simp only [testlibCodes, List.mem_cons, List.not_mem_nil, or_false, not_or] at hexit
  unfold testlibVerdict
  rw [if_neg hstopped]
  split <;> simp_all

/-- A checker that ran is never blamed on the participant's run, unless it was stopped
at a limit. -/
theorem Checker.testlibVerdict_notMem_runFaults
    (h : ran.status ∉ [Verdict.TLE, .MLE, .OLE]) :
    (testlibVerdict A ran).status ∉ runFaults := by
  by_cases hstopped : Stopped ran.status
  · rw [testlibVerdict_of_stopped hstopped]
    simp only [Stopped, List.mem_cons, List.not_mem_nil, or_false] at hstopped h
    rcases hstopped with heq | heq | heq | heq
    all_goals simp_all [runFaults]
  · unfold testlibVerdict
    rw [if_neg hstopped]
    split <;> simp [runFaults]

theorem testlibVerdict_of_failed (hsound : SoundVerdict ran signalled)
    (hfailed : TestlibFailed ran signalled) :
    (Checker.testlibVerdict A ran).status = .IE := by
  by_cases hstopped : Checker.Stopped ran.status
  · rw [Checker.testlibVerdict_of_stopped hstopped]
    simp only [Checker.Stopped, List.mem_cons, List.not_mem_nil, or_false] at hstopped
    simp only [SoundVerdict, List.mem_cons, List.not_mem_nil, or_false] at hsound
    tauto
  · refine Checker.testlibVerdict_of_exitStatus hstopped ?_
    rcases hfailed with hfailed | hfailed | hfailed
    · exact absurd hfailed hstopped
    · exact hsound.2 hfailed
    · exact hfailed

end Verdicts

/-! ## Failures decide their case -/

section Entries

variable {A : FloatArith} {entry : Entry}

theorem decision_eq_some {verdict : CheckResult} (h : verdict? A entry = some verdict) :
    decision? A entry = some (verdict.status, verdict.message) :=
  Option.map_eq_some_iff.mpr ⟨verdict, h, rfl⟩

theorem status_of_binaryFailure {name : String} {exchange : Exchange} {verdict : CheckResult}
    (h : binaryFailure name exchange = some verdict) : verdict.status = .IE := by
  unfold binaryFailure at h
  split at h
  · cases h
    rfl
  · cases h

/-- A failure that the job survives decides its case, as an internal error if the entry
is sound. -/
theorem verdict_of_fails (hfails : Fails entry) (hpasses : Passes entry) :
    ∃ verdict, verdict? A entry = some verdict ∧ (Sound entry → verdict.status = .IE) := by
  obtain ⟨question, answer⟩ := entry
  cases question with
  | ensure problemID digest => cases hfails
  | readFile number path => cases hfails
  | post call commands =>
    obtain ⟨purpose, number⟩ := call
    cases purpose with
    | compile =>
        obtain ⟨fileID, hcompiled⟩ := hpasses
        obtain ⟨haccepted, hmain⟩ := Runner.compiled_eq_ok hcompiled
        rcases hfails with hstatus | ⟨-, hmissing⟩
        · cases haccepted.symm.trans hstatus
        · exact absurd hmissing hmain
    | run =>
        have hstatus : (GoJudge.runResult answer).status = .IE := hfails
        have hrejected : (GoJudge.runResult answer).status ≠ .AC := by
          rw [hstatus]
          decide
        exact ⟨_, if_neg hrejected, fun _ => hstatus⟩
    | checkerCompile =>
        obtain ⟨verdict, hverdict⟩ := Option.isSome_iff_exists.mp hfails
        exact ⟨verdict, hverdict, fun _ => status_of_binaryFailure hverdict⟩
    | check => exact ⟨_, rfl, fun hsound => testlibVerdict_of_failed hsound hfails⟩
    | interactorCompile =>
        obtain ⟨verdict, hverdict⟩ := Option.isSome_iff_exists.mp hfails
        exact ⟨verdict, hverdict, fun _ => status_of_binaryFailure hverdict⟩
    | interact =>
        refine ⟨_, rfl, fun hsound => ?_⟩
        simp only [Fails] at hfails
        simp only [Sound] at hsound
        cases hresult : GoJudge.interactiveResult answer with
        | error message => rfl
        | ok result =>
            rw [hresult] at hfails hsound
            obtain ⟨haccepted, hrejected⟩ := hsound
            unfold Checker.interactiveVerdict
            by_cases hstatus : result.participant.status = .AC
            · have hfailed := hfails.resolve_left (by simp [hstatus])
              simp only [hstatus, ne_eq, not_true_eq_false, if_false]
              exact testlibVerdict_of_failed (haccepted hstatus) hfailed
            · simp only [ne_eq, hstatus, not_false_eq_true, if_true]
              by_contra hother
              exact hrejected hstatus hother (hfails.resolve_left hother)
    | validatorCompile => exact absurd hpasses hfails
    | validate => exact absurd hpasses hfails

/-- An entry that decides its case with a fault of the run is the participant's own run. -/
theorem ownRun_of_decision {verdict : CheckResult} (h : verdict? A entry = some verdict)
    (hsound : Sound entry) (hfault : verdict.status ∈ runFaults) :
    ∃ number, caseNumber? entry = some number ∧ OwnRun number verdict.status entry := by
  obtain ⟨question, answer⟩ := entry
  cases question with
  | ensure problemID digest => cases h
  | readFile number path => cases h
  | post call commands =>
    obtain ⟨purpose, number⟩ := call
    refine ⟨number, rfl, rfl, ?_⟩
    cases purpose with
    | compile => cases h
    | run =>
        simp only [verdict?] at h
        split at h
        · cases h
        · cases h
          exact Or.inl ⟨rfl, rfl⟩
    | checkerCompile =>
        rw [status_of_binaryFailure h] at hfault
        exact absurd hfault (by decide)
    | check =>
        cases h
        exact absurd hfault (Checker.testlibVerdict_notMem_runFaults hsound.1)
    | interactorCompile =>
        rw [status_of_binaryFailure h] at hfault
        exact absurd hfault (by decide)
    | interact =>
        cases h
        simp only [Sound] at hsound
        cases hresult : GoJudge.interactiveResult answer with
        | error message =>
            rw [hresult] at hfault
            exact absurd hfault (by simp [Checker.interactiveVerdict, Checker.internalError, runFaults])
        | ok result =>
            rw [hresult] at hfault hsound
            unfold Checker.interactiveVerdict at hfault ⊢
            by_cases hstatus : result.participant.status = .AC
            · simp only [hstatus, ne_eq, not_true_eq_false, if_false] at hfault
              exact absurd hfault
                (Checker.testlibVerdict_notMem_runFaults (hsound.1 hstatus).1)
            · simp only [ne_eq, hstatus, not_false_eq_true, if_true]
              exact Or.inr ⟨trivial, result, rfl, rfl⟩
    | validatorCompile => cases h
    | validate => cases h

end Entries

/-! ## The compiler is blamed -/

/-- The error of the compiler's run made the worker report a compile error. -/
def CompileFailed (job : Job) : Entry → Prop
  | ⟨.post call commands, exchange⟩ =>
      call.purpose = .compile ∧ compileCommands job = some commands ∧
        ∃ error, Runner.compiled (GoJudge.runResult exchange) = .error error
  | _ => False

/-- A failed compilation that is sound is a rejected one. -/
theorem rejectedCompile_of_failed {job : Job} {entry : Entry} (h : CompileFailed job entry)
    (hsound : Sound entry) : RejectedCompile job entry := by
  obtain ⟨question, answer⟩ := entry
  cases question with
  | ensure problemID digest => cases h
  | readFile number path => cases h
  | post call commands =>
    obtain ⟨purpose, number⟩ := call
    obtain ⟨hpurpose, hcommands, error, herror⟩ := h
    cases hpurpose
    refine ⟨rfl, hcommands, fun haccepted => ?_, hsound.1⟩
    rw [Runner.compiled, if_neg (not_ne_iff.mpr haccepted), if_neg (hsound.2 haccepted)] at herror
    cases herror

def IsCompileError : JobError → Prop
  | .compile _ => True
  | .other _ => False

section Blames

variable {G : Runtime PackageManifest} {job : Job}

theorem not_isCompileError_mapError {α : Type} (result : Except Bytes α) (error : JobError)
    (h : result.mapError JobError.other = .error error) : ¬ IsCompileError error := by
  cases result with
  | ok value => cases h
  | error message =>
      cases h
      exact id

theorem blames_mapError {α : Type} (result : Except Bytes α) :
    Blames IsCompileError (CompileFailed job)
      (liftExcept (result.mapError JobError.other) : Action α) :=
  blames_liftExcept (not_isCompileError_mapError result)

theorem blames_readPackageFile (number : ℕ) (root : List String) (relative : String) :
    Blames IsCompileError (CompileFailed job) (readPackageFile G number root relative) := by
  unfold readPackageFile
  dsimp only
  split
  · exact (blames_lift _).bind fun _ => blames_mapError _
  · exact blames_throw id

theorem blames_verifyFileHash (data : Bytes) (expected : String) :
    Blames IsCompileError (CompileFailed job)
      (liftExcept (verifyFileHash G data expected) : Action Unit) := by
  refine blames_liftExcept fun error herror => ?_
  unfold verifyFileHash at herror
  split at herror
  · cases herror
  · cases herror
    exact id

theorem blames_validateInput (plan : Plan) (number : ℕ) (testCase : PackageCase) (input : Bytes) :
    Blames IsCompileError (CompileFailed job) (validateInput G plan number testCase input) := by
  unfold validateInput
  split
  · exact blames_pure _
  · refine (blames_lift _).bind fun validated => ?_
    split
    · exact blames_throw id
    · exact blames_pure _

/-- Preparing the participant's source fails with a compile error only if its compilation
did not give a binary. -/
theorem blames_prepare (number : ℕ) :
    Blames IsCompileError (CompileFailed job)
      (Runner.prepare number job.language job.source job.memoryBytes) := by
  unfold Runner.prepare
  cases hprofile : getLanguage job.language with
  | none => exact blames_throw id
  | some profile =>
      cases hcompile : profile.compile with
      | none =>
          simp only [hcompile]
          exact blames_pure _
      | some compile =>
          simp only [hcompile]
          intro transcript error h _
          rcases yields_bind.mp h with ⟨_, hrun, -⟩ | ⟨ran, first, rest, rfl, hrun, h⟩
          · obtain ⟨_, -, heq⟩ := yields_lift.mp hrun
            cases heq
          · obtain ⟨exchange, rfl, rfl⟩ := GoJudge.yields_lift_run.mp hrun
            refine ⟨_, List.mem_append_left _ (List.mem_singleton_self _), rfl, ?_, ?_⟩
            · rw [compileCommands, hprofile, Option.bind_some, hcompile, Option.map_some]
            · rcases yields_bind.mp h with ⟨other, hcompiled, -⟩ | ⟨_, _, _, rfl, -, hpure⟩
              · exact ⟨other, (yields_liftExcept.mp hcompiled).2⟩
              · cases (yields_pure.mp hpure).2

theorem blames_compileAndRun (number : ℕ) (input : Bytes) (timeLimit : ℤ) :
    Blames IsCompileError (CompileFailed job)
      (Runner.compileAndRun number job.language job.source input timeLimit job.memoryBytes) := by
  unfold Runner.compileAndRun
  exact (blames_prepare number).bind fun _ => blames_lift _

theorem blames_executeCase (plan : Plan) (number : ℕ) (testCase : PackageCase)
    (kept : Option String) :
    Blames IsCompileError (CompileFailed plan.job) (executeCase G plan number testCase kept) := by
  unfold executeCase
  refine (blames_readPackageFile _ _ _).bind fun input => ?_
  refine (blames_readPackageFile _ _ _).bind fun answer => ?_
  refine (blames_verifyFileHash _ _).bind fun _ => ?_
  refine (blames_verifyFileHash _ _).bind fun _ => ?_
  refine (blames_validateInput _ _ _ _).bind fun _ => ?_
  refine (blames_compileAndRun _ _ _).bind fun run => ?_
  dsimp only
  split
  · exact blames_pure _
  · exact (blames_lift _).bind fun _ => blames_pure _

theorem blames_checkInteractive (number : ℕ) (spec : CheckerSpec) (input : Bytes)
    (timeLimit : ℤ) :
    Blames IsCompileError (CompileFailed job)
      (Checker.checkInteractive G number spec job.language job.source input timeLimit
        job.memoryBytes) := by
  unfold Checker.checkInteractive
  split
  · exact blames_pure _
  · refine (blames_lift _).bind fun result => ?_
    split
    · exact blames_pure _
    · exact (blames_prepare number).bind fun _ => (blames_lift _).bind fun _ => blames_pure _

theorem blames_interactiveCase (plan : Plan) (number : ℕ) (testCase : PackageCase)
    (kept : Option String) :
    Blames IsCompileError (CompileFailed plan.job)
      (interactiveCase G plan number testCase kept) := by
  unfold interactiveCase
  refine (blames_readPackageFile _ _ _).bind fun input => ?_
  refine (blames_verifyFileHash _ _).bind fun _ => ?_
  refine (blames_validateInput _ _ _ _).bind fun _ => ?_
  exact (blames_checkInteractive _ _ _ _).bind fun _ => blames_pure _

theorem blames_executeCases {shortCircuit : Bool}
    {body : ℕ → PackageCase → Option String → Action (CaseResult × Option String)}
    (hbody : ∀ number testCase kept,
      Blames IsCompileError (CompileFailed job) (body number testCase kept))
    (index : ℕ) (cases : List PackageCase) (kept : Option String) :
    Blames IsCompileError (CompileFailed job)
      (executeCases shortCircuit body index cases kept) := by
  induction cases generalizing index kept with
  | nil => exact blames_pure _
  | cons testCase rest ih =>
      unfold executeCases
      refine (hbody _ _ _).bind fun result => ?_
      dsimp only
      split
      · exact blames_pure _
      · exact (ih _ _).bind fun _ => blames_pure _

theorem blames_newValidator (spec : CheckerSpec) (memoryLimit : ℤ) :
    Blames IsCompileError (CompileFailed job) (Checker.newValidator G spec memoryLimit) := by
  unfold Checker.newValidator
  split
  · exact blames_throw id
  · exact (blames_lift _).bind fun _ => blames_mapError _

theorem blames_executeSubmission :
    Blames IsCompileError (CompileFailed job) (executeSubmission G job) := by
  unfold executeSubmission
  have hensure : Blames IsCompileError (CompileFailed job) (ensure G job) :=
    (blames_lift _).bind fun _ => (blames_mapError _).bind fun _ => blames_pure _
  have hload : ∀ root, Blames IsCompileError (CompileFailed job) (loadManifest G root) := by
    intro root
    unfold loadManifest
    exact (blames_lift _).bind fun _ => (blames_mapError _).bind fun _ => blames_mapError _
  refine hensure.bind fun root => (hload root).bind fun manifest => ?_
  dsimp only
  split
  · exact blames_throw id
  · have hvalidator : Blames IsCompileError (CompileFailed job)
        (prepareValidator G job manifest) := by
      unfold prepareValidator
      split
      · exact (blames_newValidator _ _).bind fun _ => blames_pure _
      · exact blames_pure _
    refine hvalidator.bind fun validator => ?_
    have hplan (plan : Plan) (hjob : plan.job = job) (cases : List PackageCase) :
        Blames IsCompileError (CompileFailed job)
            (executeCases job.shortCircuit (interactiveCase G plan) 0 cases none) ∧
          Blames IsCompileError (CompileFailed job)
            (executeCases job.shortCircuit (executeCase G plan) 0 cases none) := by
      subst hjob
      exact ⟨blames_executeCases (blames_interactiveCase plan) _ _ _,
        blames_executeCases (blames_executeCase plan) _ _ _⟩
    split
    · exact (hplan _ rfl _).1
    · exact (hplan _ rfl _).2

/-- A job fails with a compile error only after a compilation of its source that gave no
binary. -/
theorem blames_execute : Blames IsCompileError (CompileFailed job) (execute G job) := by
  unfold execute
  split
  · unfold executeRun
    refine (blames_compileAndRun _ _ _).bind fun run => ?_
    dsimp only
    split
    · exact blames_pure _
    · exact blames_pure _
  · exact blames_executeSubmission

end Blames

/-! ## Runs of the worker -/

section Runs

variable {G : Runtime PackageManifest} {job : Job} {transcript : List Entry}

theorem caseNumber_of_fails {entry : Entry} (h : Fails entry) :
    ∃ number, caseNumber? entry = some number := by
  obtain ⟨question, answer⟩ := entry
  cases question with
  | ensure problemID digest => cases h
  | readFile number path => cases h
  | post call commands => exact ⟨call.caseNumber, rfl⟩

theorem builtIn_statuses : builtIn.map Prod.fst = [.AC, .WA, .IE, .IE] := rfl

/-- Results are attributed if every entry is sound. -/
theorem attributed_of_ok {results : List CaseResult}
    (h : (execute G job).run.Yields transcript (.ok results))
    (hsound : ∀ entry ∈ transcript, Sound entry) :
    Attributed job transcript (.cases results) := by
  obtain ⟨first, rest, rfl, hfirst, hledger⟩ := judged_execute h
  refine ⟨fun _ hreport => (by cases hreport), ?_, ?_⟩
  · rintro _ hreport result hresult hfault
    cases hreport
    obtain ⟨part, hpart, hjudged⟩ := hledger.exists_part result hresult
    rcases hjudged.status.2 with ⟨entry, hentry, said, hsaid⟩ | hbuiltIn
    · have hstatus := hjudged.status.1 entry hentry said hsaid
      obtain ⟨⟨status, message⟩, hdecision, rfl⟩ := Option.map_eq_some_iff.mp hsaid
      obtain ⟨verdict, hverdict, heq⟩ := Option.map_eq_some_iff.mp hdecision
      cases heq
      rw [hstatus] at hfault ⊢
      have hmem := List.mem_append_right first (hpart hentry)
      obtain ⟨number, hnumber, hown⟩ := ownRun_of_decision hverdict (hsound entry hmem) hfault
      rw [hjudged.here entry hentry number hnumber] at hown
      exact ⟨entry, hmem, hown⟩
    · rw [builtIn_statuses] at hbuiltIn
      revert hfault hbuiltIn
      cases result.status <;> simp [runFaults]
  · intro entry hentry hfails
    obtain ⟨number, hnumber⟩ := caseNumber_of_fails hfails
    rcases List.mem_append.mp hentry with hmem | hmem
    · have hquiet := hfirst entry hmem
      obtain ⟨verdict, hverdict, -⟩ := verdict_of_fails (A := G.arith) hfails hquiet.passes
      cases hquiet.decision.symm.trans (decision_eq_some hverdict)
    · obtain ⟨part, result, hpart, hsubset, hresult, hjudged⟩ := hledger.exists_result entry hmem
      obtain ⟨verdict, hverdict, hIE⟩ := verdict_of_fails (A := G.arith) hfails
        (hjudged.passes entry hpart)
      have hsaid := hjudged.status.1 entry hpart verdict.status
        (Option.map_eq_some_iff.mpr ⟨_, decision_eq_some hverdict, rfl⟩)
      rw [hjudged.here entry hpart number hnumber] at hnumber
      exact Or.inr ⟨results, rfl, result, hresult, hnumber, hsaid.trans (hIE (hsound entry hentry))⟩

/-- In a run in which every entry is sound, and nothing fails before the compiler rejects
the source, the report blames nobody for what they did not do. -/
theorem attributed_run {outcome : Except JobError (List CaseResult)}
    (h : (execute G job).run.Yields transcript outcome)
    (hsound : ∀ entry ∈ transcript, Sound entry)
    (hrejected : ∀ entry ∈ transcript, RejectedCompile job entry →
      ∀ other ∈ transcript, ¬ Fails other) :
    Attributed job transcript (report outcome) := by
  cases outcome with
  | ok results => exact attributed_of_ok h hsound
  | error error =>
      cases error with
      | other message =>
          constructor
          · intro _ hreport
            exact absurd (Report.failed.inj hreport).1 (by decide)
          · intro _ hreport
            cases hreport
          · intro _ _ _
            exact Or.inl ⟨message, rfl⟩
      | compile message =>
          obtain ⟨entry, hentry, hfailed⟩ := blames_execute transcript _ h trivial
          have hreject := rejectedCompile_of_failed hfailed (hsound entry hentry)
          constructor
          · intro _ _
            exact ⟨entry, hentry, hreject⟩
          · intro _ hreport
            cases hreport
          · intro other hother hfails
            exact absurd hfails (hrejected entry hentry hreject other hother)

end Runs

/-! ## Runs on a sample job -/

/-- A runtime with exact arithmetic, for evaluating the worker on a package of one case
with a testlib checker. -/
def sampleRuntime : Runtime PackageManifest where
  arith := .exact FloatArith.decimalRound
  sha256 _ := ""
  unmarshalManifest _ := .ok {
    cases := [{ id := "1", input := "1.in", answer := "1.ans", points := 100 }]
    checker := { type := "testlib", source := "int main() \x7b\x7d" } }
  quote path := path
  testlibHeader := []
  cacheRoot := ["cache"]

/-- A submission in C++. -/
def sampleJob : Job where
  language := "CPP17"
  source := "int main() \x7b\x7d"
  mode := "submit"
  time := 1
  memory := 262144
  problemID := 7
  digest := "aa"

/-- The package is there, and every request to the sandbox comes to `exchange`. -/
def answering (exchange : Exchange) : ∀ question, Answer question
  | .ensure .. => .ok ()
  | .readFile .. => .ok []
  | .post .. => exchange

/-- go-judge answers the first request with one result. -/
def exchangeOf (result : RawResult) : Exchange where
  first := .response 200 [] (.ok [result])

/-- go-judge compiled a file. -/
def compiledTo (name : String) : Exchange :=
  exchangeOf { status := "Accepted", fileIds := Dict.empty.set name "f1" }

/-- The run of the sample job on some answers for the package and then for the sandbox. -/
def sampleRun (exchanges : List Exchange) :
    Option (List Entry × Except JobError (List CaseResult)) :=
  (execute sampleRuntime sampleJob).run.replay
    ((List.replicate 4 (exchangeOf { status := "" }) ++ exchanges).map answering)

/-- What can be evaluated of a sample run holds of it. -/
theorem exists_sampleRun (exchanges : List Exchange)
    (check : List Entry → Except JobError (List CaseResult) → Bool)
    (h : (sampleRun exchanges).any (fun run => check run.1 run.2) = true) :
    ∃ transcript outcome, (execute sampleRuntime sampleJob).run.Yields transcript outcome ∧
      check transcript outcome = true := by
  obtain ⟨⟨transcript, outcome⟩, hrun, hcheck⟩ := (Option.any_eq_true _ _).mp h
  exact ⟨transcript, outcome, Interaction.yields_of_replay hrun, hcheck⟩

/-- The participant runs out of time. -/
def timedOut : List Exchange :=
  [compiledTo "main", exchangeOf { status := "Time Limit Exceeded" }]

/-- Neither request of the first compilation reaches the sandbox. -/
def unreachable : List Exchange := [{ first := .failed [] }]

/-- A participant that runs out of time is told so. -/
theorem attributed_run_timeLimit :
    ∃ transcript outcome, (execute sampleRuntime sampleJob).run.Yields transcript outcome ∧
      outcome.toOption.map (List.map CaseResult.status) = some [.TLE] ∧
      Attributed sampleJob transcript (report outcome) := by
  obtain ⟨transcript, outcome, hrun, hcheck⟩ := exists_sampleRun timedOut
    (fun transcript outcome =>
      decide (outcome.toOption.map (List.map CaseResult.status) = some [.TLE]) &&
        decide ((∀ entry ∈ transcript, Sound entry) ∧
          ∀ entry ∈ transcript, ¬ RejectedCompile sampleJob entry)) (by decide +kernel)
  rw [Bool.and_eq_true, decide_eq_true_iff, decide_eq_true_iff] at hcheck
  obtain ⟨hresults, hsound, hcompile⟩ := hcheck
  exact ⟨transcript, outcome, hrun, hresults, attributed_run hrun hsound
    fun entry hentry hrejected => absurd hrejected (hcompile entry hentry)⟩

/-- A sandbox that cannot be reached is reported as a compile error. -/
theorem unreachable_sandbox_blamed :
    ∃ transcript outcome, (execute sampleRuntime sampleJob).run.Yields transcript outcome ∧
      ¬ Attributed sampleJob transcript (report outcome) := by
  obtain ⟨transcript, outcome, hrun, hcheck⟩ := exists_sampleRun unreachable
    (fun transcript outcome =>
      decide (outcome = .error (.compile (encode "compiler status IE"))) &&
        decide (∃ entry ∈ transcript, Fails entry)) (by decide +kernel)
  rw [Bool.and_eq_true, decide_eq_true_iff, decide_eq_true_iff] at hcheck
  obtain ⟨rfl, entry, hentry, hfails⟩ := hcheck
  refine ⟨transcript, _, hrun, fun hattributed => ?_⟩
  rcases hattributed.internalError entry hentry hfails with ⟨_, hreport⟩ | ⟨_, hreport, -⟩
  · exact absurd (Report.failed.inj hreport).1 (by decide)
  · cases hreport

end JudgeLoom.Go
