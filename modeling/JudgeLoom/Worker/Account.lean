import JudgeLoom.Library.Except
import JudgeLoom.Worker.Execute

/-!
# What the sandbox's answers say about a case

Every case that the worker reports is read off the answers it got for it.  Most
entries of a transcript say nothing; the others fix the verdict and the feedback
(`verdict?`), the memory (`memory?`) or the output (`output?`) of their case.
`Accounts` is the relation between the entries of one case and its result, and
`accounts_execute` says that the entries of a whole run divide into those of its
results.
-/

namespace JudgeLoom.Go

open Utf8 (encode)
open Interaction (Fallible)
open Interaction.Fallible

/-! ## Runs of the sandbox calls -/

theorem yields_ask {question : Question} {transcript : List Entry} {answer : Answer question} :
    (ask question).Yields transcript answer ↔ transcript = [⟨question, answer⟩] :=
  Interaction.yields_query

namespace GoJudge

variable {call : Call} {transcript : List Entry}

theorem yields_run {spec : RunSpec} {result : RunResult} :
    (run call spec).Yields transcript result ↔ ∃ exchange : Exchange,
      transcript = [⟨.post call [runCommand spec (some (memoryInput spec.stdIn))], exchange⟩] ∧
        runResult exchange = result := by
  unfold run
  rw [Interaction.yields_bind]
  constructor
  · rintro ⟨exchange, _, _, rfl, hask, hpure⟩
    obtain ⟨rfl, hresult⟩ := Interaction.yields_pure.mp hpure
    rw [yields_ask.mp hask, List.append_nil]
    exact ⟨exchange, rfl, hresult⟩
  · rintro ⟨exchange, rfl, rfl⟩
    exact ⟨exchange, _, [], rfl, yields_ask.mpr rfl, .done _⟩

theorem yields_runInteractive {participant interactor : RunSpec}
    {result : Except Bytes InteractiveResult} :
    (runInteractive call participant interactor).Yields transcript result ↔
      ∃ exchange : Exchange,
        transcript =
          [⟨.post call [runCommand interactor none, runCommand participant none], exchange⟩] ∧
        interactiveResult exchange = result := by
  unfold runInteractive
  rw [Interaction.yields_bind]
  constructor
  · rintro ⟨exchange, _, _, rfl, hask, hpure⟩
    obtain ⟨rfl, hresult⟩ := Interaction.yields_pure.mp hpure
    rw [yields_ask.mp hask, List.append_nil]
    exact ⟨exchange, rfl, hresult⟩
  · rintro ⟨exchange, rfl, rfl⟩
    exact ⟨exchange, _, [], rfl, yields_ask.mpr rfl, .done _⟩

/-- A sandbox call in a part of the worker that can fail. -/
theorem yields_lift_run {spec : RunSpec} {result : RunResult} :
    (monadLift (run call spec) : Action RunResult).run.Yields transcript (.ok result) ↔
      ∃ exchange : Exchange,
        transcript = [⟨.post call [runCommand spec (some (memoryInput spec.stdIn))], exchange⟩] ∧
          runResult exchange = result := by
  rw [yields_lift]
  constructor
  · rintro ⟨_, hrun, heq⟩
    cases heq
    exact yields_run.mp hrun
  · intro h
    exact ⟨result, yields_run.mpr h, rfl⟩

end GoJudge

theorem Checker.status_of_compiledBinary {name fileID : String} {failed : RunResult → Bytes}
    {result : RunResult} (h : compiledBinary name failed result = .ok fileID) :
    result.status = .AC := by
  unfold compiledBinary at h
  split at h
  · cases h
  · next hstatus => exact not_ne_iff.mp hstatus

/-! ## What an entry says -/

/-- The case that a question belongs to. -/
def caseNumber? : Entry → Option ℕ
  | ⟨.post call _, _⟩ => some call.caseNumber
  | ⟨.readFile caseNumber _, _⟩ => some caseNumber
  | _ => none

/-- What a failed compilation of a program of the package says. -/
def binaryFailure (name : String) (exchange : Exchange) : Option CheckResult :=
  match Checker.compiledBinary name Checker.checkerMessage (GoJudge.runResult exchange) with
  | .error message => some (Checker.internalError message)
  | .ok _ => none

/-- The verdict that an entry decides its case with. -/
def verdict? (A : FloatArith) : Entry → Option CheckResult
  | ⟨.post call _, exchange⟩ =>
      match call.purpose with
      | .run =>
          let run := GoJudge.runResult exchange
          if run.status = .AC then none else some { status := run.status, message := run.error }
      | .checkerCompile => binaryFailure "checker" exchange
      | .check => some (Checker.testlibVerdict A (GoJudge.runResult exchange))
      | .interactorCompile => binaryFailure "interactor" exchange
      | .interact => some (Checker.interactiveVerdict A (GoJudge.interactiveResult exchange))
      | _ => none
  | _ => none

/-- The status and the feedback that an entry decides its case with. -/
def decision? (A : FloatArith) (entry : Entry) : Option (Verdict × Bytes) :=
  (verdict? A entry).map fun verdict => (verdict.status, verdict.message)

/-- The memory that an entry reports for its case. -/
def memory? : Entry → Option ℤ
  | ⟨.post call _, exchange⟩ =>
      match call.purpose with
      | .run => some ((GoJudge.runResult exchange).memory.tdiv 1024)
      | _ => none
  | _ => none

/-- The output that an entry reports for its case. -/
def output? : Entry → Option Bytes
  | ⟨.post call _, exchange⟩ =>
      match call.purpose with
      | .run =>
          let run := GoJudge.runResult exchange
          if run.status = .AC then some (truncateOutput run.stdout) else none
      | _ => none
  | _ => none

/-- A job with this entry can still be executed. -/
def Passes : Entry → Prop
  | ⟨.post call _, exchange⟩ =>
      match call.purpose with
      | .compile => ∃ fileID, Runner.compiled (GoJudge.runResult exchange) = .ok fileID
      | .validate =>
          (Checker.validatorVerdict (GoJudge.runResult exchange)).status = .AC
      | .validatorCompile => (GoJudge.runResult exchange).status = .AC
      | _ => True
  | _ => True

/-- The statuses and feedbacks that no answer of the sandbox decides. -/
def builtIn : List (Verdict × Bytes) :=
  [(.AC, []), (.WA, encode "output differs"), (.IE, encode "testlib checker source is missing"),
    (.IE, encode "interactive checker source is missing")]

/-! ## Reading a value off a transcript -/

section Told

variable {β : Type*} {read : Entry → Option β} {transcript first last : List Entry} {entry : Entry}
  {value : β} {default : β → Prop}

/-- `value` is what the entries of a transcript say, or a default if they say nothing. -/
def Told (read : Entry → Option β) (default : β → Prop) (transcript : List Entry) (value : β) :
    Prop :=
  (∀ entry ∈ transcript, ∀ said, read entry = some said → value = said) ∧
    ((∃ entry ∈ transcript, ∃ said, read entry = some said) ∨ default value)

theorem told_nil (h : default value) : Told read default [] value :=
  ⟨fun _ hentry => absurd hentry List.not_mem_nil, Or.inr h⟩

/-- The last entry says the value, and none before it says anything. -/
theorem told_last (hfirst : ∀ entry ∈ first, read entry = none) (h : read entry = some value) :
    Told read default (first ++ [entry]) value := by
  constructor
  · intro other hother said hsaid
    rcases List.mem_append.mp hother with hother | hother
    · rw [hfirst other hother] at hsaid
      cases hsaid
    · rw [List.mem_singleton.mp hother, h] at hsaid
      exact Option.some.inj hsaid
  · exact Or.inl ⟨entry, List.mem_append_right _ (List.mem_singleton_self entry), value, h⟩

/-- The first entry says the value, and none after it says anything. -/
theorem told_cons (h : read entry = some value) (hlast : ∀ entry ∈ last, read entry = none) :
    Told read default (entry :: last) value := by
  constructor
  · intro other hother said hsaid
    rcases List.mem_cons.mp hother with rfl | hother
    · rw [h] at hsaid
      exact Option.some.inj hsaid
    · rw [hlast other hother] at hsaid
      cases hsaid
  · exact Or.inl ⟨entry, List.mem_cons_self, value, h⟩

theorem told_none (h : default value) (hnone : ∀ entry ∈ transcript, read entry = none) :
    Told read default transcript value := by
  refine ⟨fun entry hentry said hsaid => ?_, Or.inr h⟩
  cases (hnone entry hentry).symm.trans hsaid

/-- Entries that say nothing do not matter. -/
theorem Told.append_left (h : Told read default transcript value)
    (hfirst : ∀ entry ∈ first, read entry = none) : Told read default (first ++ transcript) value := by
  constructor
  · intro entry hentry said hsaid
    rcases List.mem_append.mp hentry with hentry | hentry
    · rw [hfirst entry hentry] at hsaid
      cases hsaid
    · exact h.1 entry hentry said hsaid
  · refine h.2.imp_left ?_
    rintro ⟨entry, hentry, hsaid⟩
    exact ⟨entry, List.mem_append_right _ hentry, hsaid⟩

theorem Told.cons (h : Told read default transcript value) (hentry : read entry = none) :
    Told read default (entry :: transcript) value := by
  have hone : ∀ other ∈ [entry], read other = none := by
    intro other hother
    rw [List.mem_singleton.mp hother]
    exact hentry
  exact h.append_left hone

/-- Reading less of an entry. -/
theorem Told.map {γ : Type*} {default' : γ → Prop} (h : Told read default transcript value)
    (f : β → γ) (hdefault : ∀ value, default value → default' (f value)) :
    Told (fun entry => (read entry).map f) default' transcript (f value) := by
  constructor
  · intro entry hentry said hsaid
    obtain ⟨whole, hwhole, rfl⟩ := Option.map_eq_some_iff.mp hsaid
    rw [h.1 entry hentry whole hwhole]
  · refine h.2.imp ?_ (hdefault value)
    rintro ⟨entry, hentry, said, hsaid⟩
    exact ⟨entry, hentry, f said, Option.map_eq_some_iff.mpr ⟨said, hsaid, rfl⟩⟩

/-- A property that every default has holds of the value exactly if it holds of all
that is said. -/
theorem Told.iff {K : β → Prop} (h : Told read default transcript value)
    (hdefault : ∀ value, default value → K value) :
    (∀ entry ∈ transcript, ∀ said, read entry = some said → K said) ↔ K value := by
  constructor
  · intro hall
    rcases h.2 with ⟨entry, hentry, said, hsaid⟩ | hdefault'
    · rw [h.1 entry hentry said hsaid]
      exact hall entry hentry said hsaid
    · exact hdefault value hdefault'
  · intro hvalue entry hentry said hsaid
    rw [← h.1 entry hentry said hsaid]
    exact hvalue

end Told

/-- The status of a case is what the entries of the case say. -/
structure Judged (A : FloatArith) (transcript : List Entry) (result : CaseResult) : Prop where
  here : ∀ entry ∈ transcript, ∀ number, caseNumber? entry = some number →
    number = result.caseNumber
  passes : ∀ entry ∈ transcript, Passes entry
  status : Told (fun entry => (decision? A entry).map Prod.fst) (· ∈ builtIn.map Prod.fst)
    transcript result.status

/-- The result of a case is what the entries of the case say. -/
structure Accounts (A : FloatArith) (transcript : List Entry) (result : CaseResult) : Prop where
  here : ∀ entry ∈ transcript, ∀ number, caseNumber? entry = some number →
    number = result.caseNumber
  present : ∃ entry ∈ transcript, caseNumber? entry = some result.caseNumber
  passes : ∀ entry ∈ transcript, Passes entry
  decided : Told (decision? A) (· ∈ builtIn) transcript (result.status, result.feedback)
  memory : Told memory? (· = 0) transcript result.memoryUsed
  output : Told output? (· = []) transcript result.output

theorem Accounts.judged {A : FloatArith} {transcript : List Entry} {result : CaseResult}
    (h : Accounts A transcript result) : Judged A transcript result where
  here := h.here
  passes := h.passes
  status := h.decided.map Prod.fst fun _ => List.mem_map_of_mem

/-! ## Entries that say nothing -/

section Silent

variable {A : FloatArith} {number : ℕ} {entry : Entry}

/-- The entry belongs to the case and says at most how the case is decided. -/
structure Silent (number : ℕ) (entry : Entry) : Prop where
  here : ∀ other, caseNumber? entry = some other → other = number
  passes : Passes entry
  memory : memory? entry = none
  output : output? entry = none

/-- The entry belongs to the case and says nothing. -/
structure Quiet (A : FloatArith) (number : ℕ) (entry : Entry) : Prop
    extends Silent number entry where
  decision : decision? A entry = none

theorem quiet_ensure (A : FloatArith) (number : ℕ) (problemID : ℤ) (digest : String)
    (answer : Except Bytes Unit) : Quiet A number ⟨.ensure problemID digest, answer⟩ where
  here _ h := by cases h
  passes := trivial
  memory := rfl
  output := rfl
  decision := rfl

theorem quiet_readFile (A : FloatArith) (number : ℕ) (path : List String)
    (answer : Except Bytes Bytes) : Quiet A number ⟨.readFile number path, answer⟩ where
  here _ h := (Option.some.inj h).symm
  passes := trivial
  memory := rfl
  output := rfl
  decision := rfl

/-- A request that compiles or validates is quiet if the job goes on. -/
theorem quiet_post {purpose : Purpose} {commands : List CmdSpec} {exchange : Exchange}
    (hpurpose : purpose = .compile ∨ purpose = .validatorCompile ∨ purpose = .validate)
    (hpasses : Passes ⟨.post { purpose, caseNumber := number } commands, exchange⟩) :
    Quiet A number ⟨.post { purpose, caseNumber := number } commands, exchange⟩ where
  here _ h := (Option.some.inj h).symm
  passes := hpasses
  memory := by rcases hpurpose with rfl | rfl | rfl <;> rfl
  output := by rcases hpurpose with rfl | rfl | rfl <;> rfl
  decision := by rcases hpurpose with rfl | rfl | rfl <;> rfl

/-- A request that checks or compiles a checker or an interactor is silent. -/
theorem silent_post {purpose : Purpose} {commands : List CmdSpec} {exchange : Exchange}
    (hpurpose : purpose = .checkerCompile ∨ purpose = .check ∨ purpose = .interactorCompile ∨
      purpose = .interact) :
    Silent number ⟨.post { purpose, caseNumber := number } commands, exchange⟩ where
  here _ h := (Option.some.inj h).symm
  passes := by rcases hpurpose with rfl | rfl | rfl | rfl <;> trivial
  memory := by rcases hpurpose with rfl | rfl | rfl | rfl <;> rfl
  output := by rcases hpurpose with rfl | rfl | rfl | rfl <;> rfl

end Silent

/-! ## The parts of a case -/

section Parts

variable {G : Runtime PackageManifest} {number : ℕ} {transcript : List Entry}

theorem hears_ask {question : Question} (h : ∀ answer, Quiet G.arith number ⟨question, answer⟩) :
    Hears (Quiet G.arith number) (monadLift (ask question) : Action (Answer question)) := by
  refine hears_lift fun transcript answer hask entry hentry => ?_
  rw [yields_ask.mp hask, List.mem_singleton] at hentry
  rw [hentry]
  exact h answer

theorem hears_readPackageFile (root : List String) (relative : String) :
    Hears (Quiet G.arith number) (readPackageFile G number root relative) := by
  unfold readPackageFile
  dsimp only
  split
  · exact (hears_ask fun _ => quiet_readFile ..).bind fun _ => hears_liftExcept _
  · exact hears_throw _

/-- Reading a file of a case asks for it. -/
theorem exists_readFile {root : List String} {relative : String} {data : Bytes}
    (h : (readPackageFile G number root relative).run.Yields transcript (.ok data)) :
    ∃ entry ∈ transcript, caseNumber? entry = some number := by
  unfold readPackageFile at h
  dsimp only at h
  split at h
  · obtain ⟨answer, first, rest, rfl, hask, -⟩ := yields_bind_ok.mp h
    obtain ⟨_, hask, heq⟩ := yields_lift.mp hask
    rw [yields_ask.mp hask]
    exact ⟨_, List.mem_cons_self, rfl⟩
  · cases (yields_throw.mp h).2

theorem hears_loadManifest (root : List String) :
    Hears (Quiet G.arith 0) (loadManifest G root) := by
  unfold loadManifest
  exact ((hears_ask fun _ => quiet_readFile ..).bind fun _ => hears_liftExcept _).bind fun _ =>
    hears_liftExcept _

theorem hears_ensure (job : Job) : Hears (Quiet G.arith number) (ensure G job) := by
  unfold ensure
  exact (hears_ask fun _ => quiet_ensure ..).bind fun _ =>
    (hears_liftExcept _).bind fun _ => hears_pure _

theorem hears_validateInput (plan : Plan) (testCase : PackageCase) (input : Bytes) :
    Hears (Quiet G.arith number) (validateInput G plan number testCase input) := by
  unfold validateInput
  split
  · exact hears_pure _
  · intro transcript value h entry hentry
    obtain ⟨validated, first, rest, rfl, hfirst, hrest⟩ := yields_bind_ok.mp h
    obtain ⟨_, hvalidate, heq⟩ := yields_lift.mp hfirst
    cases heq
    obtain ⟨ran, _, _, rfl, hrun, hverdict⟩ := Interaction.yields_bind.mp hvalidate
    obtain ⟨exchange, rfl, rfl⟩ := GoJudge.yields_run.mp hrun
    obtain ⟨rfl, rfl⟩ := Interaction.yields_pure.mp hverdict
    split at hrest
    · cases (yields_throw.mp hrest).2
    · next hstatus =>
        obtain ⟨rfl, -⟩ := yields_pure.mp hrest
        rw [List.append_nil, List.append_nil, List.mem_singleton] at hentry
        rw [hentry]
        exact quiet_post (Or.inr (Or.inr rfl)) (not_ne_iff.mp hstatus)

theorem hears_prepare (language source : String) (memoryLimit : ℤ) :
    Hears (Quiet G.arith number) (Runner.prepare number language source memoryLimit) := by
  unfold Runner.prepare
  split
  · exact hears_throw _
  · dsimp only
    split
    · exact hears_pure _
    · intro transcript value h entry hentry
      obtain ⟨result, first, rest, rfl, hfirst, hrest⟩ := yields_bind_ok.mp h
      obtain ⟨exchange, rfl, rfl⟩ := GoJudge.yields_lift_run.mp hfirst
      obtain ⟨fileID, _, _, rfl, hlift, hspec⟩ := yields_bind_ok.mp hrest
      obtain ⟨rfl, hcompiled⟩ := yields_liftExcept.mp hlift
      obtain ⟨rfl, -⟩ := yields_pure.mp hspec
      rw [List.append_nil, List.append_nil, List.mem_singleton] at hentry
      rw [hentry]
      exact quiet_post (Or.inl rfl) ⟨fileID, hcompiled⟩

/-- `NewTestlibValidator` asks for one compilation. -/
theorem hears_newValidator (spec : CheckerSpec) (memoryLimit : ℤ) :
    Hears (Quiet G.arith 0) (Checker.newValidator G spec memoryLimit) := by
  unfold Checker.newValidator
  split
  · exact hears_throw _
  · intro transcript value h entry hentry
    obtain ⟨result, first, rest, rfl, hfirst, hrest⟩ := yields_bind_ok.mp h
    obtain ⟨exchange, rfl, rfl⟩ := GoJudge.yields_lift_run.mp hfirst
    obtain ⟨rfl, hbinary⟩ := yields_liftExcept.mp hrest
    rw [List.append_nil, List.mem_singleton] at hentry
    rw [hentry]
    have hstatus := Checker.status_of_compiledBinary (Except.mapError_eq_ok.mp hbinary)
    exact quiet_post (Or.inr (Or.inl rfl)) hstatus

theorem hears_prepareValidator (job : Job) (manifest : PackageManifest) :
    Hears (Quiet G.arith 0) (prepareValidator G job manifest) := by
  unfold prepareValidator
  split
  · exact (hears_newValidator _ _).bind fun _ => hears_pure _
  · exact hears_pure _

/-! ### The verdict of a checker -/

/-- The entries of a check decide its case. -/
structure Decides (A : FloatArith) (number : ℕ) (transcript : List Entry) (checked : CheckResult) :
    Prop where
  silent : ∀ entry ∈ transcript, Silent number entry
  decided : Told (decision? A) (· ∈ builtIn) transcript (checked.status, checked.message)

theorem decides_builtIn {A : FloatArith} {checked : CheckResult}
    (h : (checked.status, checked.message) ∈ builtIn) : Decides A number [] checked where
  silent _ hentry := absurd hentry List.not_mem_nil
  decided := told_nil h

/-- A compilation of a program of the package either fails or says nothing. -/
theorem binaryFailure_of_ok {name fileID : String} {exchange : Exchange}
    (h : Checker.compiledBinary name Checker.checkerMessage (GoJudge.runResult exchange) =
      .ok fileID) : binaryFailure name exchange = none := by
  rw [binaryFailure, h]

theorem binaryFailure_of_error {name : String} {message : Bytes} {exchange : Exchange}
    (h : Checker.compiledBinary name Checker.checkerMessage (GoJudge.runResult exchange) =
      .error message) : binaryFailure name exchange = some (Checker.internalError message) := by
  rw [binaryFailure, h]

/-- A testlib checker has its binary already, or asks for one compilation. -/
theorem yields_compiled {spec : CheckerSpec} {memoryLimit : ℤ} {kept : Option String}
    {binary : Except Bytes String}
    (h : (Checker.compiled G number spec memoryLimit kept).Yields transcript binary) :
    (∃ fileID, transcript = [] ∧ binary = .ok fileID) ∨
      ∃ commands exchange,
        transcript = [⟨.post { purpose := .checkerCompile, caseNumber := number } commands,
          exchange⟩] ∧
        binary = Checker.compiledBinary "checker" Checker.checkerMessage
          (GoJudge.runResult exchange) := by
  cases kept with
  | some fileID =>
      obtain ⟨rfl, rfl⟩ := Interaction.yields_pure.mp h
      exact Or.inl ⟨fileID, rfl, rfl⟩
  | none =>
      obtain ⟨result, _, _, rfl, hrun, hbinary⟩ := Interaction.yields_bind.mp h
      obtain ⟨exchange, rfl, rfl⟩ := GoJudge.yields_run.mp hrun
      obtain ⟨rfl, rfl⟩ := Interaction.yields_pure.mp hbinary
      exact Or.inr ⟨_, exchange, List.append_nil _, rfl⟩

/-- The last entry of a check decides it. -/
theorem decides_last {A : FloatArith} {purpose : Purpose} {commands : List CmdSpec}
    {exchange : Exchange} {checked : CheckResult} (first : List Entry)
    (hpurpose : purpose = .checkerCompile ∨ purpose = .check ∨ purpose = .interactorCompile ∨
      purpose = .interact)
    (hfirst : ∀ entry ∈ first, Silent number entry ∧ decision? A entry = none)
    (h : verdict? A ⟨.post { purpose, caseNumber := number } commands, exchange⟩ = some checked) :
    Decides A number (first ++ [⟨.post { purpose, caseNumber := number } commands, exchange⟩])
      checked where
  silent entry hentry := by
    rcases List.mem_append.mp hentry with hentry | hentry
    · exact (hfirst entry hentry).1
    · rw [List.mem_singleton.mp hentry]
      exact silent_post hpurpose
  decided := told_last (fun entry hentry => (hfirst entry hentry).2)
    (Option.map_eq_some_iff.mpr ⟨checked, h, rfl⟩)

theorem decides_check {spec : CheckerSpec} {kept kept' : Option String}
    {input answer output : Bytes} {timeLimit memoryLimit : ℤ} {checked : CheckResult}
    (h : (Checker.check G number spec kept input answer output timeLimit memoryLimit).Yields
      transcript (checked, kept')) : Decides G.arith number transcript checked := by
  unfold Checker.check at h
  split at h
  · obtain ⟨rfl, heq⟩ := Interaction.yields_pure.mp h
    cases heq
    exact decides_builtIn (by decide)
  · obtain ⟨binary, first, rest, rfl, hcompiled, hrest⟩ := Interaction.yields_bind.mp h
    cases hbinary : binary with
    | error message =>
        rw [hbinary] at hrest hcompiled
        obtain ⟨rfl, heq⟩ := Interaction.yields_pure.mp hrest
        cases heq
        rcases yields_compiled hcompiled with ⟨_, -, heq⟩ | ⟨commands, exchange, rfl, heq⟩
        · cases heq
        · rw [List.append_nil]
          exact decides_last [] (Or.inl rfl) (by simp) (binaryFailure_of_error heq.symm)
    | ok fileID =>
        rw [hbinary] at hrest hcompiled
        obtain ⟨ran, _, _, rfl, hrun, hverdict⟩ := Interaction.yields_bind.mp hrest
        obtain ⟨rfl, heq⟩ := Interaction.yields_pure.mp hverdict
        cases heq
        obtain ⟨exchange, rfl, rfl⟩ := GoJudge.yields_run.mp hrun
        rw [List.append_nil]
        refine decides_last _ (Or.inr (Or.inl rfl)) ?_ rfl
        intro entry hentry
        rcases yields_compiled hcompiled with ⟨_, rfl, -⟩ | ⟨commands, compile, rfl, heq⟩
        · cases hentry
        · rw [List.mem_singleton.mp hentry]
          refine ⟨silent_post (Or.inl rfl), ?_⟩
          rw [decision?, verdict?]
          simp only [binaryFailure_of_ok heq.symm, Option.map_none]

/-- The entries that decide the output of a participant. -/
theorem decides_checkOutput {plan : Plan} {kept kept' : Option String}
    {input answer output : Bytes} {checked : CheckResult}
    (h : (checkOutput G plan number kept input answer output).Yields transcript
      (checked, kept')) : Decides G.arith number transcript checked := by
  unfold checkOutput at h
  split at h
  · exact decides_check h
  · obtain ⟨rfl, heq⟩ := Interaction.yields_pure.mp h
    cases heq
    exact decides_builtIn (by decide)
  · obtain ⟨rfl, heq⟩ := Interaction.yields_pure.mp h
    cases heq
    refine decides_builtIn ?_
    unfold Checker.exact
    split <;> decide

/-- The entries that decide an interactive case. -/
theorem decides_checkInteractive {spec : CheckerSpec} {language source : String} {input : Bytes}
    {timeLimit memoryLimit : ℤ} {checked : CheckResult}
    (h : (Checker.checkInteractive G number spec language source input timeLimit
      memoryLimit).run.Yields transcript (.ok checked)) :
    Decides G.arith number transcript checked := by
  unfold Checker.checkInteractive at h
  split at h
  · obtain ⟨rfl, heq⟩ := yields_pure.mp h
    cases heq
    exact decides_builtIn (by decide)
  · obtain ⟨result, first, rest, rfl, hfirst, hrest⟩ := yields_bind_ok.mp h
    obtain ⟨exchange, rfl, rfl⟩ := GoJudge.yields_lift_run.mp hfirst
    cases hbinary : Checker.compiledBinary "interactor" Checker.checkerMessage
        (GoJudge.runResult exchange) with
    | error message =>
        rw [hbinary] at hrest
        obtain ⟨rfl, heq⟩ := yields_pure.mp hrest
        cases heq
        rw [List.append_nil]
        exact decides_last [] (Or.inr (Or.inr (Or.inl rfl))) (by simp)
          (binaryFailure_of_error hbinary)
    | ok fileID =>
        rw [hbinary] at hrest
        obtain ⟨prepared, second, _, rfl, hsecond, hrest⟩ := yields_bind_ok.mp hrest
        obtain ⟨_, third, _, rfl, hthird, hrest⟩ := yields_bind_ok.mp hrest
        obtain ⟨_, hrun, heq⟩ := yields_lift.mp hthird
        cases heq
        obtain ⟨interaction, rfl, rfl⟩ := GoJudge.yields_runInteractive.mp hrun
        obtain ⟨rfl, heq⟩ := yields_pure.mp hrest
        cases heq
        rw [List.append_nil, ← List.append_assoc]
        refine decides_last _ (Or.inr (Or.inr (Or.inr rfl))) ?_ rfl
        intro entry hentry
        rcases List.mem_append.mp hentry with hentry | hentry
        · rw [List.mem_singleton.mp hentry]
          refine ⟨silent_post (Or.inr (Or.inr (Or.inl rfl))), ?_⟩
          rw [decision?, verdict?]
          simp only [binaryFailure_of_ok hbinary, Option.map_none]
        · have hquiet := hears_prepare (G := G) _ _ _ _ _ hsecond entry hentry
          exact ⟨hquiet.toSilent, hquiet.decision⟩

/-! ### Whole cases -/

/-- A run of a participant is quiet until it asks for the run itself. -/
theorem yields_compileAndRun {language source : String} {input : Bytes}
    {timeLimit memoryLimit : ℤ} {result : RunResult}
    (h : (Runner.compileAndRun number language source input timeLimit memoryLimit).run.Yields
      transcript (.ok result)) :
    ∃ first commands exchange,
      transcript = first ++
        [⟨.post { purpose := .run, caseNumber := number } commands, exchange⟩] ∧
      (∀ entry ∈ first, Quiet G.arith number entry) ∧ GoJudge.runResult exchange = result := by
  obtain ⟨spec, first, _, rfl, hfirst, hrest⟩ := yields_bind_ok.mp h
  obtain ⟨exchange, rfl, hresult⟩ := GoJudge.yields_lift_run.mp hrest
  exact ⟨first, _, exchange, rfl, hears_prepare _ _ _ _ _ hfirst, hresult⟩

/-- The entries of a case: quiet ones, the run of the participant, and those that decide
an accepted run. -/
theorem accounts_append {A : FloatArith} {first last : List Entry} {commands : List CmdSpec}
    {exchange : Exchange} {result : CaseResult} (hnumber : result.caseNumber = number)
    (hfirst : ∀ entry ∈ first, Quiet A number entry)
    (hlast : ∀ entry ∈ last, Silent number entry)
    (hdecided : Told (decision? A) (· ∈ builtIn)
      (⟨.post { purpose := .run, caseNumber := number } commands, exchange⟩ :: last)
      (result.status, result.feedback))
    (hmemory : result.memoryUsed = (GoJudge.runResult exchange).memory.tdiv 1024)
    (houtput : result.output =
      if (GoJudge.runResult exchange).status = .AC then
        truncateOutput (GoJudge.runResult exchange).stdout
      else []) :
    Accounts A (first ++
      ⟨.post { purpose := .run, caseNumber := number } commands, exchange⟩ :: last) result where
  here entry hentry other hother := by
    rw [hnumber]
    rcases List.mem_append.mp hentry with hentry | hentry
    · exact (hfirst entry hentry).here other hother
    · rcases List.mem_cons.mp hentry with rfl | hentry
      · exact (Option.some.inj hother).symm
      · exact (hlast entry hentry).here other hother
  present := ⟨_, List.mem_append_right _ List.mem_cons_self, congrArg some hnumber.symm⟩
  passes entry hentry := by
    rcases List.mem_append.mp hentry with hentry | hentry
    · exact (hfirst entry hentry).passes
    · rcases List.mem_cons.mp hentry with rfl | hentry
      · trivial
      · exact (hlast entry hentry).passes
  decided := hdecided.append_left fun entry hentry => (hfirst entry hentry).decision
  memory := by
    refine Told.append_left ?_ fun entry hentry => (hfirst entry hentry).memory
    rw [hmemory]
    exact told_cons rfl fun entry hentry => (hlast entry hentry).memory
  output := by
    refine Told.append_left ?_ fun entry hentry => (hfirst entry hentry).output
    have hquiet : ∀ entry ∈ last, output? entry = none := fun entry hentry =>
      (hlast entry hentry).output
    rw [houtput]
    split
    · next hstatus => exact told_cons (if_pos hstatus) hquiet
    · next hstatus =>
        refine told_none rfl fun entry hentry => ?_
        rcases List.mem_cons.mp hentry with rfl | hentry
        · exact if_neg hstatus
        · exact hquiet entry hentry

/-- The entries up to the run of the participant and those after it. -/
theorem yields_executeCase {plan : Plan} {testCase : PackageCase} {kept kept' : Option String}
    {result : CaseResult}
    (h : (executeCase G plan number testCase kept).run.Yields transcript (.ok (result, kept'))) :
    ∃ first commands exchange last,
      transcript = first ++
        ⟨.post { purpose := .run, caseNumber := number } commands, exchange⟩ :: last ∧
      (∀ entry ∈ first, Quiet G.arith number entry) ∧
      (((GoJudge.runResult exchange).status ≠ .AC ∧ last = [] ∧
          result = CaseResult.ran G.arith number testCase (GoJudge.runResult exchange)) ∨
        ((GoJudge.runResult exchange).status = .AC ∧ ∃ input answer checked,
          (checkOutput G plan number kept input answer (GoJudge.runResult exchange).stdout).Yields
            last (checked, kept') ∧
          result =
            { (CaseResult.ran G.arith number testCase (GoJudge.runResult exchange)).checked
                testCase checked with
              output := truncateOutput (GoJudge.runResult exchange).stdout })) := by
  rw [executeCase, yields_bind_ok] at h
  obtain ⟨input, files, _, rfl, hinput, h⟩ := h
  rw [yields_bind_ok] at h
  obtain ⟨answer, more, _, rfl, hanswer, h⟩ := h
  rw [yields_bind_ok] at h
  obtain ⟨_, inputHash, _, rfl, hinputHash, h⟩ := h
  rw [yields_bind_ok] at h
  obtain ⟨_, answerHash, _, rfl, hanswerHash, h⟩ := h
  rw [yields_bind_ok] at h
  obtain ⟨_, validation, _, rfl, hvalidation, h⟩ := h
  rw [yields_bind_ok] at h
  obtain ⟨run, _, last, rfl, hrun, h⟩ := h
  obtain ⟨first, commands, exchange, rfl, hfirst, rfl⟩ := yields_compileAndRun (G := G) hrun
  refine ⟨files ++ more ++ inputHash ++ answerHash ++ validation ++ first, commands, exchange,
    last, by simp, ?_, ?_⟩
  · intro entry hentry
    simp only [List.mem_append] at hentry
    rcases hentry with ((((hentry | hentry) | hentry) | hentry) | hentry) | hentry
    · exact hears_readPackageFile _ _ _ _ hinput entry hentry
    · exact hears_readPackageFile _ _ _ _ hanswer entry hentry
    · exact hears_liftExcept _ _ _ hinputHash entry hentry
    · exact hears_liftExcept _ _ _ hanswerHash entry hentry
    · exact hears_validateInput _ _ _ _ _ hvalidation entry hentry
    · exact hfirst entry hentry
  · dsimp only at h
    split at h
    · next hstatus =>
        obtain ⟨hlast, hresult⟩ := yields_pure.mp h
        cases hresult
        exact Or.inl ⟨hstatus, hlast, rfl⟩
    · next hstatus =>
        rw [yields_bind_ok] at h
        obtain ⟨⟨checked, kept''⟩, checking, _, rfl, hchecked, h⟩ := h
        obtain ⟨rfl, hresult⟩ := yields_pure.mp h
        obtain ⟨_, hcheck, heq⟩ := yields_lift.mp hchecked
        cases heq
        cases hresult
        rw [List.append_nil]
        exact Or.inr ⟨not_ne_iff.mp hstatus, input, answer, checked, hcheck, rfl⟩

/-- The result of a case is what its entries say. -/
theorem accounts_executeCase {plan : Plan} {testCase : PackageCase} {kept kept' : Option String}
    {result : CaseResult}
    (h : (executeCase G plan number testCase kept).run.Yields transcript (.ok (result, kept'))) :
    result.caseNumber = number ∧ Accounts G.arith transcript result := by
  obtain ⟨first, commands, exchange, last, rfl, hfirst, hlast⟩ := yields_executeCase h
  rcases hlast with ⟨hstatus, rfl, rfl⟩ | ⟨hstatus, _, _, checked, hcheck, rfl⟩
  · have hnone : ∀ entry : Entry, entry ∈ [] → Silent number entry ∧ decision? G.arith entry = none :=
      fun entry hentry => absurd hentry List.not_mem_nil
    refine ⟨rfl, accounts_append rfl hfirst (fun entry hentry => (hnone entry hentry).1)
      (told_cons ?_ fun entry hentry => (hnone entry hentry).2) rfl ?_⟩
    · exact Option.map_eq_some_iff.mpr ⟨_, if_neg hstatus, rfl⟩
    · exact (if_neg hstatus).symm
  · have hchecked := decides_checkOutput hcheck
    refine ⟨rfl, accounts_append rfl hfirst hchecked.silent (hchecked.decided.cons ?_) rfl ?_⟩
    · exact Option.map_eq_none_iff.mpr (if_pos hstatus)
    · exact (if_pos hstatus).symm

/-- The result of an interactive case is what its entries say. -/
theorem accounts_interactiveCase {plan : Plan} {testCase : PackageCase}
    {kept kept' : Option String} {result : CaseResult}
    (h : (interactiveCase G plan number testCase kept).run.Yields transcript
      (.ok (result, kept'))) :
    result.caseNumber = number ∧ Accounts G.arith transcript result := by
  rw [interactiveCase, yields_bind_ok] at h
  obtain ⟨input, files, _, rfl, hinput, h⟩ := h
  rw [yields_bind_ok] at h
  obtain ⟨_, inputHash, _, rfl, hinputHash, h⟩ := h
  rw [yields_bind_ok] at h
  obtain ⟨_, validation, _, rfl, hvalidation, h⟩ := h
  rw [yields_bind_ok] at h
  obtain ⟨checked, checking, _, rfl, hchecked, h⟩ := h
  obtain ⟨rfl, hresult⟩ := yields_pure.mp h
  cases hresult
  have hdecides := decides_checkInteractive hchecked
  have hquiet : ∀ entry ∈ files ++ inputHash ++ validation, Quiet G.arith number entry := by
    intro entry hentry
    simp only [List.mem_append] at hentry
    rcases hentry with (hentry | hentry) | hentry
    · exact hears_readPackageFile _ _ _ _ hinput entry hentry
    · exact hears_liftExcept _ _ _ hinputHash entry hentry
    · exact hears_validateInput _ _ _ _ _ hvalidation entry hentry
  have hsilent : ∀ entry ∈ files ++ inputHash ++ validation ++ checking, Silent number entry := by
    intro entry hentry
    rcases List.mem_append.mp hentry with hentry | hentry
    · exact (hquiet entry hentry).toSilent
    · exact hdecides.silent entry hentry
  rw [List.append_nil, ← List.append_assoc, ← List.append_assoc]
  obtain ⟨entry, hentry, hnumber⟩ := exists_readFile hinput
  exact ⟨rfl, {
    here := fun entry hentry => (hsilent entry hentry).here
    present := ⟨entry, by simp [hentry], hnumber⟩
    passes := fun entry hentry => (hsilent entry hentry).passes
    decided := hdecides.decided.append_left fun entry hentry => (hquiet entry hentry).decision
    memory := told_none rfl fun entry hentry => (hsilent entry hentry).memory
    output := told_none rfl fun entry hentry => (hsilent entry hentry).output }⟩

end Parts

/-! ## Whole jobs -/

/-- The entries of a transcript divide into those of consecutive cases. -/
inductive Ledger (Account : List Entry → CaseResult → Prop) :
    ℕ → List Entry → List CaseResult → Prop
  | nil (index : ℕ) : Ledger Account index [] []
  | cons {index : ℕ} {first rest : List Entry} {result : CaseResult} {results : List CaseResult}
      (number : result.caseNumber = index + 1) (account : Account first result)
      (ledger : Ledger Account (index + 1) rest results) :
      Ledger Account index (first ++ rest) (result :: results)

section Jobs

variable {G : Runtime PackageManifest} {transcript : List Entry} {results : List CaseResult}

theorem Ledger.imp {Account Weaker : List Entry → CaseResult → Prop} {index : ℕ}
    (h : Ledger Account index transcript results)
    (himp : ∀ transcript result, Account transcript result → Weaker transcript result) :
    Ledger Weaker index transcript results := by
  induction h with
  | nil index => exact .nil index
  | cons number account _ ih => exact .cons number (himp _ _ account) ih

/-- The case numbers are consecutive. -/
theorem Ledger.caseNumbers {Account : List Entry → CaseResult → Prop} {index : ℕ}
    (h : Ledger Account index transcript results) :
    results.map CaseResult.caseNumber = List.range' (index + 1) results.length := by
  induction h with
  | nil index => rfl
  | cons number account _ ih => rw [List.map_cons, number, ih, List.length_cons, List.range'_succ]

/-- Every entry belongs to a result. -/
theorem Ledger.exists_result {Account : List Entry → CaseResult → Prop} {index : ℕ}
    (h : Ledger Account index transcript results) :
    ∀ entry ∈ transcript, ∃ part result, entry ∈ part ∧ part ⊆ transcript ∧ result ∈ results ∧
      Account part result := by
  induction h with
  | nil index =>
      intro entry hentry
      cases hentry
  | cons number account _ ih =>
      intro entry hentry
      rcases List.mem_append.mp hentry with hentry | hentry
      · exact ⟨_, _, hentry, List.subset_append_left _ _, List.mem_cons_self, account⟩
      · obtain ⟨part, result, hpart, hsubset, hresult, haccount⟩ := ih entry hentry
        exact ⟨part, result, hpart, List.Subset.trans hsubset (List.subset_append_right _ _),
          List.mem_cons_of_mem _ hresult, haccount⟩

/-- Every result has its entries. -/
theorem Ledger.exists_part {Account : List Entry → CaseResult → Prop} {index : ℕ}
    (h : Ledger Account index transcript results) :
    ∀ result ∈ results, ∃ part, part ⊆ transcript ∧ Account part result := by
  induction h with
  | nil index =>
      intro result hresult
      cases hresult
  | cons number account _ ih =>
      intro result hresult
      rcases List.mem_cons.mp hresult with rfl | hresult
      · exact ⟨_, List.subset_append_left _ _, account⟩
      · obtain ⟨part, hsubset, haccount⟩ := ih result hresult
        exact ⟨part, List.Subset.trans hsubset (List.subset_append_right _ _), haccount⟩

/-- The loop over the cases: its entries divide into those of its results. -/
theorem ledger_executeCases {Account : List Entry → CaseResult → Prop} {shortCircuit : Bool}
    {body : ℕ → PackageCase → Option String → Action (CaseResult × Option String)}
    (hbody : ∀ number testCase kept transcript result kept',
      (body number testCase kept).run.Yields transcript (.ok (result, kept')) →
        result.caseNumber = number ∧ Account transcript result)
    {index : ℕ} {cases : List PackageCase} {kept : Option String}
    (h : (executeCases shortCircuit body index cases kept).run.Yields transcript (.ok results)) :
    Ledger Account index transcript results := by
  induction cases generalizing index kept transcript results with
  | nil =>
      obtain ⟨rfl, heq⟩ := yields_pure.mp h
      cases heq
      exact .nil index
  | cons testCase rest ih =>
      rw [executeCases, yields_bind_ok] at h
      obtain ⟨⟨result, kept'⟩, first, _, rfl, hfirst, h⟩ := h
      obtain ⟨hnumber, haccount⟩ := hbody _ _ _ _ _ _ hfirst
      dsimp only at h
      split at h
      · obtain ⟨rfl, heq⟩ := yields_pure.mp h
        cases heq
        exact .cons hnumber haccount (.nil _)
      · rw [yields_bind_ok] at h
        obtain ⟨others, last, _, rfl, hlast, h⟩ := h
        obtain ⟨rfl, heq⟩ := yields_pure.mp h
        cases heq
        rw [List.append_nil]
        exact .cons hnumber haccount (ih hlast)

/-- The results of a submission are what the entries of its cases say. -/
theorem ledger_executeSubmission {job : Job}
    (h : (executeSubmission G job).run.Yields transcript (.ok results)) :
    ∃ first rest, transcript = first ++ rest ∧ (∀ entry ∈ first, Quiet G.arith 0 entry) ∧
      Ledger (Accounts G.arith) 0 rest results := by
  rw [executeSubmission, yields_bind_ok] at h
  obtain ⟨root, directory, _, rfl, hroot, h⟩ := h
  rw [yields_bind_ok] at h
  obtain ⟨manifest, loading, _, rfl, hmanifest, h⟩ := h
  dsimp only at h
  split at h
  · cases (yields_throw.mp h).2
  · rw [yields_bind_ok] at h
    obtain ⟨validator, preparing, rest, rfl, hvalidator, h⟩ := h
    refine ⟨directory ++ loading ++ preparing, rest, by simp, ?_, ?_⟩
    · intro entry hentry
      simp only [List.mem_append] at hentry
      rcases hentry with (hentry | hentry) | hentry
      · exact hears_ensure _ _ _ hroot entry hentry
      · exact hears_loadManifest _ _ _ hmanifest entry hentry
      · exact hears_prepareValidator _ _ _ _ hvalidator entry hentry
    · split at h
      · exact ledger_executeCases (fun _ _ _ _ _ _ => accounts_interactiveCase) h
      · exact ledger_executeCases (fun _ _ _ _ _ _ => accounts_executeCase) h

theorem accepted_mem_builtIn : Verdict.AC ∈ builtIn.map Prod.fst := List.mem_cons_self

/-- The status of a run with custom input is what its entries say. -/
theorem judged_executeRun {job : Job}
    (h : (executeRun G job).run.Yields transcript (.ok results)) :
    Ledger (Judged G.arith) 0 transcript results := by
  rw [executeRun, yields_bind_ok] at h
  obtain ⟨run, _, last, rfl, hrun, h⟩ := h
  obtain ⟨first, commands, exchange, rfl, hfirst, rfl⟩ := yields_compileAndRun (G := G) hrun
  have hsilent : ∀ entry ∈ first ++
      [⟨.post { purpose := .run, caseNumber := 1 } commands, exchange⟩],
      (∀ number, caseNumber? entry = some number → number = 1) ∧ Passes entry := by
    intro entry hentry
    rcases List.mem_append.mp hentry with hentry | hentry
    · exact ⟨(hfirst entry hentry).here, (hfirst entry hentry).passes⟩
    · rw [List.mem_singleton.mp hentry]
      exact ⟨fun _ hnumber => (Option.some.inj hnumber).symm, trivial⟩
  have hquiet : ∀ entry ∈ first, (decision? G.arith entry).map Prod.fst = none :=
    fun entry hentry => Option.map_eq_none_iff.mpr (hfirst entry hentry).decision
  -- the only entry that can decide the case is the run itself
  have hledger : ∀ result : CaseResult, result.caseNumber = 1 →
      (((GoJudge.runResult exchange).status ≠ .AC ∧
          result.status = (GoJudge.runResult exchange).status) ∨
        ((GoJudge.runResult exchange).status = .AC ∧ result.status ∈ builtIn.map Prod.fst)) →
      Ledger (Judged G.arith) 0
        (first ++ [⟨.post { purpose := .run, caseNumber := 1 } commands, exchange⟩]) [result] := by
    intro result hnumber hstatus
    have hjudged : Judged G.arith
        (first ++ [⟨.post { purpose := .run, caseNumber := 1 } commands, exchange⟩]) result := {
      here := fun entry hentry number hother => hnumber ▸ (hsilent entry hentry).1 number hother
      passes := fun entry hentry => (hsilent entry hentry).2
      status := by
        rcases hstatus with ⟨hrejected, heq⟩ | ⟨haccepted, hbuiltIn⟩
        · refine told_last hquiet ?_
          have hdecision : decision? G.arith
              ⟨.post { purpose := .run, caseNumber := 1 } commands, exchange⟩ =
              some ((GoJudge.runResult exchange).status, (GoJudge.runResult exchange).error) :=
            Option.map_eq_some_iff.mpr ⟨_, if_neg hrejected, rfl⟩
          rw [hdecision, heq, Option.map_some]
        · refine (told_none hbuiltIn fun entry hentry => ?_).append_left hquiet
          rw [List.mem_singleton.mp hentry]
          exact Option.map_eq_none_iff.mpr (Option.map_eq_none_iff.mpr (if_pos haccepted)) }
    have hcons : Ledger (Judged G.arith) 0 _ [result] := .cons hnumber hjudged (.nil 1)
    rwa [List.append_nil] at hcons
  dsimp only at h
  split at h
  · next hexpected =>
      obtain ⟨rfl, heq⟩ := yields_pure.mp h
      cases heq
      rw [List.append_nil]
      refine hledger _ rfl (Or.inr ⟨hexpected.2, ?_⟩)
      unfold Checker.exact
      split
      · exact accepted_mem_builtIn
      · exact List.mem_cons_of_mem _ List.mem_cons_self
  · obtain ⟨rfl, heq⟩ := yields_pure.mp h
    cases heq
    rw [List.append_nil]
    refine hledger _ rfl ?_
    by_cases haccepted : (GoJudge.runResult exchange).status = .AC
    · rw [haccepted]
      exact Or.inr ⟨rfl, accepted_mem_builtIn⟩
    · exact Or.inl ⟨haccepted, rfl⟩

/-- The statuses of a job that was executed are what its entries say. -/
theorem judged_execute {job : Job} (h : (execute G job).run.Yields transcript (.ok results)) :
    ∃ first rest, transcript = first ++ rest ∧ (∀ entry ∈ first, Quiet G.arith 0 entry) ∧
      Ledger (Judged G.arith) 0 rest results := by
  unfold execute at h
  split at h
  · exact ⟨[], transcript, rfl, fun _ hentry => absurd hentry List.not_mem_nil,
      judged_executeRun h⟩
  · obtain ⟨first, rest, htranscript, hfirst, hledger⟩ := ledger_executeSubmission h
    exact ⟨first, rest, htranscript, hfirst, hledger.imp fun _ _ haccounts => haccounts.judged⟩

end Jobs

end JudgeLoom.Go
