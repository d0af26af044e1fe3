import JudgeLoom.Authoring.BuiltPackage
import JudgeLoom.Worker.AcceptedRun

/-!
# The solution of a built package is accepted

The builder takes each answer from its own run of the solution, and lets the validator and
the checker of the spec accept the files.  The worker later compiles these programs anew,
and runs them with limits of its own computation.

In sandboxes that obey the same machine, what the builder saw is what the worker sees: when
the solution is submitted with the limits of the spec, it is accepted with the full points
of every case (`solution_accepted`).  The one thing that must not differ is the memory of
the compiler: the builder gives it at least 256 MiB, the worker the limit of the problem.
-/

namespace JudgeLoom.Authoring

open Interaction (Gives gives_pure Includes)
open Interaction.Fallible
open Go (Machine Outcome requestWith RunSpec)

variable {C : Type} {T : Toolchain Go.PackageManifest} {spec s : Spec}

/-! ## The sandbox of the builder -/

/-- The sandbox did what the machine says. -/
def Obeys (machine : Machine C) (contents : String → C) : Interaction.Entry Answer → Prop
  | ⟨.worker question, answer⟩ => Go.Obeys machine contents ⟨question, answer⟩
  | _ => True

variable {machine : Machine C} {contents : String → C}

theorem gives_sandbox {α : Type} {program : Go.Program α} {P : α → Prop}
    (h : Gives (Go.Obeys machine contents) program P) :
    Gives (Obeys machine contents) (sandbox program) P :=
  Interaction.gives_embed (fun _ _ hentry => hentry) h

theorem gives_sandboxed {α : Type} {action : Go.Action α} {context : String} {P : α → Prop}
    (h : Gives (Go.Obeys machine contents) action.run fun outcome =>
      ∀ a, outcome = .ok a → P a) :
    Gives (Obeys machine contents) (sandboxed context action).run fun outcome =>
      ∀ a, outcome = .ok a → P a := by
  intro transcript outcome hyields hentries a hok
  rw [hok] at hyields
  obtain ⟨result, first, rest, rfl, hfirst, hrest⟩ := yields_bind_ok.mp hyields
  obtain ⟨ran, hrun, hran⟩ := yields_lift.mp hfirst
  cases hran
  refine gives_sandbox h first result hrun (List.forall_mem_append.mp hentries).1 a ?_
  have hmapped := (yields_liftExcept.mp hrest).2
  cases result with
  | error error => cases hmapped
  | ok value =>
      cases hmapped
      rfl

/-- A solution that is prepared stands for its source, as JSON carries it. -/
theorem gives_prepareWithFiles (caseNumber : ℕ) (language : String) (source : Go.Bytes)
    (memoryLimit : ℤ) :
    Gives (Go.Obeys machine contents) (prepareWithFiles caseNumber language source memoryLimit []).run
      fun outcome => ∀ prepared, outcome = .ok prepared →
        Go.Stands machine contents language (Utf8.decode source) memoryLimit prepared := by
  unfold prepareWithFiles
  cases hprofile : Go.getLanguage language with
  | none =>
      refine gives_pure fun prepared hok => ?_
      cases hok
  | some profile =>
      dsimp only
      cases hcompile : profile.compile with
      | none =>
          refine gives_pure fun prepared hok => ?_
          cases hok
          exact Go.stands_source hprofile hcompile rfl
      | some compile =>
          have hcached := (Go.copyInCached_of_getLanguage hprofile).2 compile hcompile
          intro transcript outcome hyields hentries prepared hok
          rw [hok] at hyields
          obtain ⟨result, first, rest, rfl, hfirst, hrest⟩ := yields_bind_ok.mp hyields
          obtain ⟨ran, hrun, hran⟩ := yields_lift.mp hfirst
          cases hran
          obtain ⟨fileID, _, _, -, hcompiled, hpure⟩ := yields_bind_ok.mp hrest
          have hcompiled := (yields_liftExcept.mp hcompiled).2
          obtain ⟨-, hdone⟩ := yields_pure.mp hpure
          cases hdone
          have houtcome := Go.gives_run (fun _ hentry => hentry) _ _ first result hrun
            (List.forall_mem_append.mp hentries).1
          refine Go.stands_binary hprofile hcompile (Go.makes_of_compiled ?_ hcompiled)
          rw [houtcome]
          simp only [requestWith, Go.Runner.compileSpec, Go.runCommand, Utf8.decode_encode, hcached,
            List.map_cons, List.map_nil]

/-! ## What the builder found out -/

/-- The time that a case has, in nanoseconds. -/
def caseTime (A : FloatArith) (s : Spec) : ℤ := Go.truncateFloat (A.mul s.timeLimit Go.second)

/-- The memory that a case has, in bytes. -/
def caseMemory (s : Spec) : ℤ := s.memoryLimit * 1024

/-- The validator that is compiled, as JSON carries its source. -/
def validatorSource (s : Spec) : Option String :=
  (s.validator.filter (·.type = "testlib")).map fun validator => Utf8.decode validator.source

/-- The files of a case are accepted by the programs of the spec, in whatever sandbox. -/
structure Confirmed (machine : Machine C) (T : Toolchain Go.PackageManifest) (s : Spec)
    (c : BuiltCase) : Prop where
  validated : ∀ source ∈ validatorSource s, Go.Validates machine T.toRuntime source c.input
    (caseTime T.arith s) (caseMemory s)
  solved : ∃ outcome, Go.Puts machine s.solution.language (Utf8.decode s.solution.source)
    (max (caseMemory s) 268435456) c.input (caseTime T.arith s) (caseMemory s) outcome ∧
      outcome.status = .AC ∧ outcome.stdout = c.answer
  checked : s.checker.type = "testlib" → Utf8.decode s.checker.source ≠ "" ∧
    Go.Approves machine T.toRuntime (Utf8.decode s.checker.source) c.input c.answer c.answer
      (caseTime T.arith s) (caseMemory s)

/-- A compiler of testlib programs has the least memory anyway. -/
theorem compileSpec_max (name source : String) (headers : List (String × Go.Bytes)) (memory : ℤ) :
    Go.Checker.compileSpec name source headers (max memory 268435456) =
      Go.Checker.compileSpec name source headers memory := by
  have hmemory : Go.Checker.compileMemoryLimit (max memory 268435456) =
      Go.Checker.compileMemoryLimit memory := by
    unfold Go.Checker.compileMemoryLimit
    omega
  unfold Go.Checker.compileSpec
  rw [hmemory]

/-- The validator runs with the same limits in the builder. -/
theorem validates_max {source : String} {input : Go.Bytes} {time memory : ℤ} :
    Go.Validates machine T.toRuntime source input (validatorTimeLimit time) (max memory 268435456) ↔
      Go.Validates machine T.toRuntime source input time memory := by
  have hmemory : Go.Checker.compileMemoryLimit (max memory 268435456) =
      Go.Checker.compileMemoryLimit memory := by
    unfold Go.Checker.compileMemoryLimit
    omega
  have htime : Go.Checker.checkerTimeLimit (validatorTimeLimit time) =
      Go.Checker.checkerTimeLimit time := by
    unfold Go.Checker.checkerTimeLimit validatorTimeLimit
    split_ifs <;> omega
  unfold Go.Validates Go.Checker.programSpec
  rw [compileSpec_max, hmemory, htime]

section Builder

variable {plan : Plan} {transcript : List (Interaction.Entry Answer)} {number : ℕ} {c : BuiltCase}

/-- A binary that the checker keeps is compiled of its source. -/
theorem compiled_of_fromCompiler {kept : Option String} (h : FromCompiler T plan transcript kept)
    (hobeys : ∀ entry ∈ transcript, Obeys machine contents entry) :
    ∀ fileID ∈ kept, Go.Compiled machine contents T.toRuntime "checker" plan.checker.source
      plan.memory fileID := by
  intro fileID hfileID
  obtain ⟨number, hincludes⟩ := h fileID hfileID
  have hcompiled : Gives (Obeys machine contents)
      (sandbox (Go.Checker.compiled T.toRuntime number plan.checker plan.memory none))
      fun result => ∀ fileID, result = .ok fileID → Go.Compiled machine contents T.toRuntime
        "checker" plan.checker.source plan.memory fileID :=
    gives_sandbox (Gives.mono (Go.gives_compiled (fun _ hentry => hentry)
      (fun _ hnone => by cases hnone) number) fun _ hresult => hresult.1)
  exact hcompiled.of_includes hincludes hobeys fileID rfl

/-- The validator that is prepared is the one of the spec. -/
theorem compiled_of_prepareValidator {validator : Option String}
    (h : Includes transcript (prepareValidator T s (max (caseMemory s) 268435456)).run
      (.ok validator))
    (hobeys : ∀ entry ∈ transcript, Obeys machine contents entry) :
    match validatorSource s with
    | none => validator = none
    | some source => Go.HasValidator machine T.toRuntime source (caseMemory s) ∧
        ∃ fileID ∈ validator,
          Go.Compiled machine contents T.toRuntime "validator" source (caseMemory s) fileID := by
  unfold validatorSource
  unfold prepareValidator at h
  cases hvalidator : s.validator.filter (·.type = "testlib") with
  | none =>
      rw [hvalidator] at h
      obtain ⟨part, -, hyields⟩ := h
      obtain ⟨-, hnone⟩ := yields_pure.mp hyields
      cases hnone
      rfl
  | some given =>
      rw [hvalidator] at h
      obtain ⟨part, hpart, hyields⟩ := h
      obtain ⟨fileID, first, rest, rfl, hfirst, hrest⟩ := yields_bind_ok.mp hyields
      obtain ⟨-, hsome⟩ := yields_pure.mp hrest
      cases hsome
      have hgives := gives_sandboxed (Go.gives_newValidator (fun _ hentry => hentry)) first _ hfirst
        (fun entry hentry => hobeys entry (hpart.subset (List.mem_append_left rest hentry)))
        fileID rfl
      obtain ⟨⟨hsource, content, hmakes⟩, hcompiled⟩ := hgives
      rw [compileSpec_max] at hmakes
      rw [Go.Compiled, compileSpec_max] at hcompiled
      exact ⟨⟨hsource, content, hmakes⟩, fileID, rfl, hcompiled⟩

/-- The solution is run for its answer. -/
theorem gives_runPrepared {language source : String} {compileMemory timeLimit memoryLimit : ℤ}
    {prepared : RunSpec} {input : Go.Bytes}
    (hstands : Go.Stands machine contents language source compileMemory prepared)
    (caseNumber : ℕ) :
    Gives (Go.Obeys machine contents)
      (runPrepared caseNumber prepared input [] timeLimit memoryLimit) fun ran =>
        Go.Puts machine language source compileMemory input timeLimit memoryLimit
          (Go.outcomeOf contents ran) := by
  unfold runPrepared
  rw [List.append_nil]
  refine Gives.mono (Go.gives_run (fun _ hentry => hentry) _ _) fun ran hran => ?_
  rw [hran]
  exact hstands input timeLimit memoryLimit

/-- What a certified case is, in a sandbox that obeys a machine. -/
theorem confirmed_of_certified (hprepared : Prepared T s plan transcript)
    (h : Certified T plan transcript number c)
    (hobeys : ∀ entry ∈ transcript, Obeys machine contents entry) :
    Confirmed machine T s c := by
  have hplan := hprepared.limits
  have htime : plan.timeLimit = caseTime T.arith s := by rw [hplan]; rfl
  have hmemory : plan.memory = caseMemory s := by rw [hplan]; rfl
  have hcompile : plan.compileMemory = max (caseMemory s) 268435456 := by rw [hplan]; rfl
  have hchecker : plan.checker = {
      type := s.checker.type
      source := Utf8.decode s.checker.source } := by rw [hplan]; rfl
  refine ⟨?_, ?_, ?_⟩
  · intro source hsource
    have hvalidator := hprepared.validator
    rw [hcompile] at hvalidator
    have hcompiled := compiled_of_prepareValidator hvalidator hobeys
    rw [Option.mem_def.mp hsource] at hcompiled
    obtain ⟨-, fileID, hfileID, hmakes⟩ := hcompiled
    obtain ⟨checked, hincludes, haccepted⟩ := h.validated fileID hfileID
    rw [Go.Compiled, ← compileSpec_max, ← Go.Compiled] at hmakes
    rw [hcompile] at hincludes
    have hvalidates := (gives_sandbox (Go.gives_validate (fun _ hentry => hentry) hmakes
      number)).of_includes hincludes hobeys
    rw [← validates_max, ← htime]
    exact hvalidates.mp haccepted
  · obtain ⟨ran, hincludes, hstatus, hstdout⟩ := h.solved
    have hstands : Go.Stands machine contents s.solution.language
        (Utf8.decode s.solution.source) plan.compileMemory plan.solution :=
      (gives_sandboxed (gives_prepareWithFiles 0 _ _ _)).of_includes hprepared.solution hobeys _ rfl
    rw [← hcompile, ← htime, ← hmemory]
    exact ⟨Go.outcomeOf contents ran, (gives_sandbox (gives_runPrepared hstands number)).of_includes
      hincludes hobeys, hstatus, hstdout⟩
  · intro htype
    obtain ⟨kept, outcome, hkept, hincludes, haccepted⟩ := h.checked
    have hcompiled := compiled_of_fromCompiler hkept hobeys
    have hrun : runChecker T plan number kept c.input c.answer =
        sandbox (Go.Checker.check T.toRuntime number plan.checker kept c.input c.answer c.answer
          plan.timeLimit plan.memory) := by
      have hplanType : plan.checker.type = "testlib" := by rw [hchecker]; exact htype
      unfold runChecker
      rw [hplanType]
      rfl
    have hsource : plan.checker.source = Utf8.decode s.checker.source := by rw [hchecker]
    rw [hrun] at hincludes
    rw [← hsource, ← htime, ← hmemory]
    by_cases hempty : plan.checker.source = ""
    · -- a checker without a source accepts nothing
      have hrejects : Gives (Go.Obeys machine contents) (Go.Checker.check T.toRuntime number
          plan.checker kept c.input c.answer c.answer plan.timeLimit plan.memory)
          fun outcome => outcome.1.status = .IE := by
        unfold Go.Checker.check
        rw [if_pos hempty]
        exact gives_pure rfl
      have hinternal := (gives_sandbox hrejects).of_includes hincludes hobeys
      rw [hinternal] at haccepted
      cases haccepted
    · refine ⟨hempty, ?_⟩
      have hchecks := (gives_sandbox (Go.gives_check (fun _ hentry => hentry) hempty hcompiled
        number)).of_includes hincludes hobeys
      exact hchecks.1.mp haccepted

end Builder

/-! ## The submission of the solution -/

/-- The job submits the solution with the limits of the spec. -/
structure SubmitsSolution (s : Spec) (job : Go.Job) : Prop where
  mode : job.mode ≠ "run"
  language : Go.getLanguage job.language = Go.getLanguage s.solution.language
  source : job.source = Utf8.decode s.solution.source
  time : job.time = s.timeLimit
  memory : job.memory = s.memoryLimit

/-- The compiler of the worker has as much memory as that of the builder, if there is one. -/
def CompilesAlike (s : Spec) : Prop :=
  262144 ≤ s.memoryLimit ∨
    ∀ profile, Go.getLanguage s.solution.language = some profile → profile.compile = none

/-- The limits of a spec that is validated. -/
theorem limits_of_validate {A : FloatArith} {quote : String → String}
    (h : spec.validate quote A = .ok s) : A.fl (1 / 10) ≤ s.timeLimit ∧ 1024 ≤ s.memoryLimit := by
  obtain ⟨-, generator, solution, rfl⟩ := valid_of_validate h
  unfold Spec.validate at h
  obtain ⟨_, hfields, -⟩ := Except.bind_eq_ok.mp h
  unfold Spec.validateFields at hfields
  split_ifs at hfields with hschema hcode hpoints htime hmemory hcases
  any_goals cases hfields
  rw [not_or, not_lt] at htime hmemory
  exact ⟨htime.1, hmemory.1⟩

/-- The worker computes the time limit of the builder. -/
theorem timeLimit_eq {job : Go.Job} (hfl : Monotone T.arith.fl)
    (htenth : 1 ≤ T.arith.mul (T.arith.fl (1 / 10)) Go.second)
    (hlimit : T.arith.fl (1 / 10) ≤ s.timeLimit) (htime : job.time = s.timeLimit) :
    job.timeLimit T.toRuntime = caseTime T.arith s := by
  have hmul : 1 ≤ T.arith.mul s.timeLimit Go.second := by
    refine htenth.trans (hfl (mul_le_mul_of_nonneg_right hlimit ?_))
    norm_num
  have hpos : 1 ≤ caseTime T.arith s := by
    unfold caseTime Go.truncateFloat
    rw [if_pos (zero_le_one.trans hmul)]
    exact Int.le_floor.mpr (by exact_mod_cast hmul)
  have hcase : Go.truncateFloat (T.arith.mul job.time Go.second) = caseTime T.arith s := by
    rw [htime]
    rfl
  unfold Go.Job.timeLimit
  rw [hcase]
  exact if_neg (by omega)

theorem memoryBytes_eq {job : Go.Job} (hlimit : 1024 ≤ s.memoryLimit)
    (hmemory : job.memory = s.memoryLimit) : job.memoryBytes = caseMemory s := by
  unfold Go.Job.memoryBytes caseMemory
  rw [hmemory]
  exact if_neg (by omega)

/-- The compiler gets the same command. -/
theorem puts_of_compilesAlike {source : String} {time memory : ℤ} {input : Go.Bytes}
    {outcome : Outcome C} (h : CompilesAlike s)
    (hputs : Go.Puts machine s.solution.language source (max (caseMemory s) 268435456) input time
      memory outcome) :
    Go.Puts machine s.solution.language source (caseMemory s) input time memory outcome := by
  rcases h with hmemory | hnone
  · rwa [max_eq_left (by unfold caseMemory; omega)] at hputs
  · obtain ⟨profile, hprofile, hputs⟩ := hputs
    refine ⟨profile, hprofile, ?_⟩
    rw [hnone profile hprofile] at hputs ⊢
    exact hputs

/-! ## The files of the package -/

/-- The entries of the archive are below the root. -/
def Unpacked (files : List String → Except Go.Bytes Go.Bytes) (root : List String)
    (entries : List (String × Go.Bytes)) : Prop :=
  ∀ entry ∈ entries, files (root ++ Go.pathElements entry.1) = .ok entry.2

theorem pathElements_data {number : ℕ} {ending : String} (hending : ending ∈ endings) :
    Go.pathElements ("data/" ++ twoDigits number ++ ending) =
      ["data", twoDigits number ++ ending] := by
  have hslash : ∀ ending ∈ endings, '/' ∉ ending.toList := by decide
  have hdigits : '/' ∉ (twoDigits number).toList := fun hdigit =>
    absurd (isDigit_twoDigits hdigit) (by decide)
  have hname : '/' ∉ (twoDigits number ++ ending).toList := by
    rw [String.toList_append, List.mem_append, not_or]
    exact ⟨hdigits, hslash ending hending⟩
  have hlist : ("data/" ++ twoDigits number ++ ending).toList =
      "data".toList ++ '/' :: (twoDigits number ++ ending).toList := by
    rw [String.append_assoc, String.toList_append]
    rfl
  rw [Go.pathElements, hlist, List.splitOn_append_cons_self,
    List.splitOn_eq_singleton (by decide), List.splitOn_eq_singleton hname]
  simp

theorem pathElements_manifest : Go.pathElements "manifest.json" = ["manifest.json"] := by
  decide

theorem named_data {number : ℕ} {ending : String} (hending : ending ∈ endings) :
    Go.Named ("data/" ++ twoDigits number ++ ending) := by
  unfold Go.Named
  rw [pathElements_data hending, List.forall_mem_cons, List.forall_mem_singleton]
  have hlength : 3 ≤ (twoDigits number ++ ending).length := by
    have hending : ∀ ending ∈ endings, 3 ≤ ending.length := by decide
    rw [String.length_append]
    exact le_add_left (hending ending ‹_›)
  refine ⟨by decide, ?_, ?_, ?_⟩
  all_goals
    intro heq
    rw [heq] at hlength
    exact absurd hlength (by decide)

/-! ## The result -/

/-- The manifest of a package of the spec is read back from its text. -/
def ReadsManifests (T : Toolchain Go.PackageManifest) (s : Spec) : Prop :=
  ∀ package : BuiltPackage T s, Go.isManifest T.arith (manifestTree package.manifest) = true →
    T.unmarshalManifest package.text =
      .ok (Go.decodeManifest T.arith (manifestTree package.manifest))

/-- The result of a case of the spec, with its full points. -/
def FullMarks (testCase : CaseSpec) (result : Go.CaseResult) : Prop :=
  result.status = .AC ∧ some result.points = testCase.points ∧
    some result.totalPoints = testCase.points

section Result

variable {transcript : List (Interaction.Entry Answer)} {assembled : List (String × Go.Bytes) × ℕ}
  {contents' : String → C} {files : List String → Except Go.Bytes Go.Bytes} {job : Go.Job}
  {quote : String → String}

/-- Two lists that are related to a third one. -/
theorem forall₂_of_common {α β γ : Type} {R : α → β → Prop} {S : α → γ → Prop} {xs : List α}
    {ys : List β} {zs : List γ} (h : List.Forall₂ R xs ys) (h' : List.Forall₂ S xs zs) :
    List.Forall₂ (fun y z => ∃ x, R x y ∧ S x z) ys zs := by
  induction h generalizing zs with
  | nil =>
      cases h'
      exact .nil
  | cons hfirst _ ih =>
      cases h' with
      | cons hfirst' hrest' => exact .cons ⟨_, hfirst, hfirst'⟩ (ih hrest')

/-- Every case of the package is solved by the submission. -/
theorem solves_of_confirmed {package : BuiltPackage T s} {root : List String} {index : ℕ}
    {c : BuiltCase} {manifest : Go.PackageManifest} (hc : package.cases[index]? = some c)
    (h : Confirmed machine T s c) (hsubmits : SubmitsSolution s job) (halike : CompilesAlike s)
    (htime : job.timeLimit T.toRuntime = caseTime T.arith s)
    (hmemory : job.memoryBytes = caseMemory s)
    (hfiles : Unpacked files root package.entries)
    (hchecker : manifest.checker = {
      type := s.checker.type
      source := Utf8.decode s.checker.source })
    (hvalidator : manifest.validator.type = "testlib" →
      manifest.validator.source ∈ validatorSource s) :
    Go.Solves machine T.toRuntime files root job manifest
      (c.manifestCase T (1 + index)).packageCase c.input c.answer := by
  have hinput := hfiles (inputName (1 + index), c.input) (package.mem_entries.mpr
    (Or.inr ⟨index, c, hc, Or.inl (by rw [Nat.add_comm])⟩))
  have hanswer := hfiles (answerName (1 + index), c.answer) (package.mem_entries.mpr
    (Or.inr ⟨index, c, hc, Or.inr (by rw [Nat.add_comm])⟩))
  obtain ⟨outcome, hputs, hresult⟩ := h.solved
  refine ⟨named_data (by decide), named_data (by decide), hinput, hanswer,
    Go.verifyFileHash_eq_ok_iff.mpr (Or.inr rfl), Go.verifyFileHash_eq_ok_iff.mpr (Or.inr rfl),
    ?_, ⟨outcome, ?_, hresult⟩, ?_⟩
  · intro htype
    rw [htime, hmemory]
    exact h.validated _ (hvalidator htype)
  · rw [htime, hmemory, hsubmits.source]
    unfold Go.Puts
    rw [hsubmits.language]
    exact puts_of_compilesAlike halike hputs
  · rw [hchecker, htime, hmemory]
    exact fun htype => (h.checked htype).2

/-- The programs of the spec make and accept the files of the package, in whatever sandbox. -/
structure Judgeable (machine : Machine C) (package : BuiltPackage T s) : Prop where
  confirmed : ∀ (index : ℕ) (c : BuiltCase), package.cases[index]? = some c →
    Confirmed machine T s c
  compares : Go.Compares { type := s.checker.type, source := Utf8.decode s.checker.source }
  validator : ∀ source ∈ validatorSource s,
    Go.HasValidator machine T.toRuntime source (caseMemory s)

/-- What the builder assembles can be judged. -/
theorem judgeable_of_assemble (hvalid : s.Valid)
    (hassemble : (assemble T s).run.Yields transcript (.ok assembled))
    (hbuilder : ∀ entry ∈ transcript, Obeys machine contents entry) :
    ∃ package : BuiltPackage T s, Judgeable machine package ∧ assembled.1 = package.entries := by
  obtain ⟨plan, package, hprepared, hcertified, rfl⟩ := certified_of_assemble hassemble
  have hconfirmed : ∀ (index : ℕ) (c : BuiltCase), package.cases[index]? = some c →
      Confirmed machine T s c :=
    fun index c hc => confirmed_of_certified hprepared (hcertified index c hc) hbuilder
  have hprepare := hprepared.validator
  rw [hprepared.limits] at hprepare
  have hvalidator := compiled_of_prepareValidator hprepare hbuilder
  refine ⟨package, ⟨hconfirmed, ?_, ?_⟩, rfl⟩
  · rcases hprepared.checkerType with htype | htype | htype
    · exact Or.inl htype
    · obtain ⟨c, rest, hfirst⟩ := List.exists_cons_of_ne_nil (package.cases_ne_nil hvalid)
      have hsource := ((hconfirmed 0 c (by rw [hfirst]; rfl)).checked htype).1
      exact Or.inr (Or.inl ⟨htype, hsource⟩)
    · exact Or.inr (Or.inr htype)
  · intro source hsource
    rw [Option.mem_def] at hsource
    rw [hsource] at hvalidator
    exact hvalidator.1

/-- The validator that the worker reads is that of the spec. -/
theorem mem_validatorSource (package : BuiltPackage T s)
    (htype : ((package.manifest.validator.map ManifestChecker.checkerSpec).getD {}).type =
      "testlib") :
    ((package.manifest.validator.map ManifestChecker.checkerSpec).getD {}).source ∈
      validatorSource s := by
  have hgiven : package.manifest.validator =
      (s.validator.filter (·.type = "testlib")).map fun validator =>
        { type := "testlib", source := validator.source } := rfl
  rw [hgiven] at htype ⊢
  unfold validatorSource
  cases hvalidator : s.validator.filter (·.type = "testlib") with
  | none =>
      rw [hvalidator] at htype
      exact absurd htype (by decide)
  | some validator => rfl

/-- The worker gives full marks to the solution of a package that can be judged. -/
theorem succeeds_of_judgeable {package : BuiltPackage T s} (h : Judgeable machine package)
    (hvalid : s.Valid) (hmanifest : ReadsManifests T s)
    (hpoints : ∀ testCase ∈ s.cases, ∃ points, testCase.points = some points ∧
      Readable T.arith points)
    (hsubmits : SubmitsSolution s job) (halike : CompilesAlike s)
    (htime : job.timeLimit T.toRuntime = caseTime T.arith s)
    (hmemory : job.memoryBytes = caseMemory s)
    (hfiles : Unpacked files (T.cacheRoot ++ [job.digest]) package.entries) :
    Succeeds (Go.Serves machine contents' files) (Go.execute T.toRuntime job)
      (List.Forall₂ FullMarks s.cases) := by
  obtain ⟨htyped, hdecode⟩ := decodeManifest_manifestTree (package.readable_manifest hpoints)
  have hread := hmanifest package htyped
  rw [hdecode] at hread
  have hcases : package.manifest.cases.map ManifestCase.packageCase ≠ [] := by
    rw [ne_eq, List.map_eq_nil_iff]
    exact manifestCasesFrom_ne_nil (package.cases_ne_nil hvalid)
  have htext := hfiles ("manifest.json", package.text) (package.mem_entries.mpr (Or.inl rfl))
  rw [pathElements_manifest] at htext
  refine Succeeds.mono (Go.succeeds_execute hsubmits.mode htext hread hcases h.compares ?_ ?_) ?_
  · intro htype
    rw [hmemory]
    exact h.validator _ (mem_validatorSource package htype)
  · intro testCase htestCase
    obtain ⟨entry, hentry, rfl⟩ := List.mem_map.mp htestCase
    obtain ⟨index, c, hc, rfl⟩ := mem_manifestCasesFrom hentry
    exact ⟨c.input, c.answer, solves_of_confirmed hc (h.confirmed index c hc) hsubmits halike
      htime hmemory hfiles rfl (mem_validatorSource package)⟩
  · intro results hresults
    have hspecs : List.Forall₂ (fun (testCase : Go.PackageCase) (given : CaseSpec) =>
        some testCase.points = given.points)
        (package.manifest.cases.map ManifestCase.packageCase) s.cases := by
      rw [← package.specs]
      refine List.forall₂_map_right_iff.mpr (forall₂_manifestCasesFrom fun index c hc => ?_)
      obtain ⟨points, hsome, -⟩ := hpoints _ (package.spec_mem hc)
      rw [ManifestCase.packageCase, BuiltCase.manifestCase, hsome]
      rfl
    refine (forall₂_of_common hspecs hresults).imp ?_
    rintro given result ⟨testCase, hpoints, hstatus, hmade, htotal⟩
    exact ⟨hstatus, hmade ▸ hpoints, htotal ▸ hpoints⟩

end Result

/-! ## The sample -/

def acceptingToolchain : Toolchain Go.PackageManifest where
  arith := .exact FloatArith.decimalRound
  sha256 _ := ""
  unmarshalManifest _ := .ok {
    cases := [{
      id := "01", input := "data/01.in", answer := "data/01.ans", points := 1, group := "default" }]
    checker := { type := "none" } }
  quote text := text
  testlibHeader := []
  cacheRoot := ["c"]
  marshalIndent _ := .ok []
  zip _ := []

/-- A machine on which every program ends well and prints nothing. -/
def acceptingMachine : Machine Unit := fun _ =>
  { status := .AC, exitStatus := 0, stdout := [], files := fun _ => none }

def acceptingAnswers : ∀ question : Question, Answer question
  | .worker (.ensure ..) => .ok ()
  | .worker (.readFile ..) => .ok []
  | .worker (.post ..) => accepted
  | .mkdirAll _ => .ok ()
  | .createTemp .. => .ok []
  | .add .. => .ok ()
  | .closeWriter .. => .ok ()
  | .discard _ => .ok ()
  | .close _ => .ok ()
  | .rename .. => .ok ()
  | .remove _ => .ok ()
  | .readFile _ => .ok []
  | .stat _ => .ok 0

def sampleEntries : List (String × Go.Bytes) :=
  [("manifest.json", [10]), ("data/01.in", []), ("data/01.ans", [])]

def sampleSubmission : Go.Job where
  language := "PY3"
  source := "p"
  mode := "submission"
  time := 2
  memory := 262144
  problemID := 1
  digest := "d"

/-- The answer to the entry is that of the accepting sandbox. -/
def AcceptingEntry (entry : Interaction.Entry Answer) : Prop := entry.2 = acceptingAnswers entry.1

theorem gives_accepted (call : Go.Call) (spec : RunSpec) :
    Gives AcceptingEntry (sandbox (Go.GoJudge.run call spec)) (· = acceptedRun) := by
  have hrun : Gives (fun entry : Go.Entry => AcceptingEntry ⟨.worker entry.1, entry.2⟩)
      (Go.GoJudge.run call spec) (· = acceptedRun) := by
    refine Gives.bind (P := (· = accepted)) (Interaction.gives_query fun exchange hentry => hentry) ?_
    rintro exchange rfl
    exact gives_pure rfl
  exact Interaction.gives_embed (fun _ _ hentry => hentry) hrun

theorem succeeds_buildCase_sample {plan : Plan} (hvalidator : plan.validator = none)
    (hchecker : plan.checker.type = "none") (testCase : CaseSpec) :
    Succeeds AcceptingEntry (buildCase acceptingToolchain plan {} testCase)
      fun built => built.inputs = [[]] ∧ built.answers = [[]] := by
  have hinput : Succeeds AcceptingEntry (generateInput plan 1 testCase) (· = []) := by
    refine Succeeds.bind (succeeds_lift (gives_accepted _ _)) ?_
    rintro _ rfl
    rw [if_neg (by decide), if_neg (by decide), hvalidator]
    exact succeeds_pure rfl
  have hanswer : Succeeds AcceptingEntry (solve plan 1 testCase []) (· = []) := by
    refine Succeeds.bind (succeeds_lift (gives_accepted _ _)) ?_
    rintro _ rfl
    rw [if_neg (by decide), if_neg (by decide)]
    exact succeeds_pure rfl
  have hkept : Succeeds AcceptingEntry (checkAnswer acceptingToolchain plan 1 testCase none [] [])
      fun _ => True := by
    have hchecked : Gives AcceptingEntry (runChecker acceptingToolchain plan 1 none [] [])
        (· = ({ status := .AC }, none)) := by
      rw [runChecker, hchecker]
      exact gives_pure rfl
    refine Succeeds.bind (succeeds_lift hchecked) ?_
    rintro _ rfl
    exact succeeds_pure trivial
  refine Succeeds.bind hinput ?_
  rintro _ rfl
  refine Succeeds.bind hanswer ?_
  rintro _ rfl
  dsimp only
  rw [if_neg (by decide)]
  exact Succeeds.bind hkept fun kept _ => succeeds_pure ⟨rfl, rfl⟩

theorem succeeds_assemble_sample : Succeeds AcceptingEntry (assemble acceptingToolchain completeSpec)
    fun assembled => assembled.1 = sampleEntries := by
  have hprepared : ∀ (context : String) (memory : ℤ) (headers : List (String × Go.Bytes)),
      Succeeds AcceptingEntry (sandboxed context (prepareWithFiles 0 "PY3" [112] memory headers))
        fun _ => True := fun context memory headers => gives_pure ⟨_, rfl, trivial⟩
  refine Succeeds.bind (hprepared _ _ _) fun generator _ => ?_
  refine Succeeds.bind (hprepared _ _ _) fun solution _ => ?_
  refine Succeeds.bind (succeeds_pure rfl) fun validator (hvalidator : none = validator) => ?_
  refine Succeeds.bind (succeeds_liftExcept rfl trivial) fun _ (_ : True) => ?_
  have hbuilt : ∀ plan : Plan, plan.validator = none → plan.checker.type = "none" →
      Succeeds AcceptingEntry (buildCases acceptingToolchain plan {} completeSpec.cases)
        fun built => built.inputs = [[]] ∧ built.answers = [[]] := by
    intro plan hnone hchecker
    exact Succeeds.bind (succeeds_buildCase_sample hnone hchecker _) fun built hcase =>
      succeeds_pure hcase
  refine Succeeds.bind (hbuilt _ hvalidator.symm rfl) fun built hcases => ?_
  refine Succeeds.bind (succeeds_liftExcept rfl rfl) fun data (hdata : [] = data) => ?_
  refine succeeds_pure ?_
  rw [hcases.1, hcases.2, ← hdata]
  decide

theorem obeys_of_accepting (entry : Interaction.Entry Answer) (h : AcceptingEntry entry) :
    Obeys acceptingMachine (fun _ => ()) entry := by
  obtain ⟨question, answer⟩ := entry
  cases question with
  | worker question =>
      obtain _ | _ | ⟨call, commands⟩ := question
      · trivial
      · trivial
      · have hanswer : answer = accepted := h
        subst hanswer
        match commands with
        | [] => trivial
        | [command] => rfl
        | _ :: _ :: _ => trivial
  | _ => trivial

/-- The built sample, with the manifest of the accepting toolchain. -/
def sampleBuilt : BuiltPackage acceptingToolchain completeSpec where
  cases := samplePackage.cases
  specs := samplePackage.specs
  size := samplePackage.size
  data := []
  marshalled := rfl

/-- The manifest of every package of the sample. -/
theorem manifest_sample (package : BuiltPackage acceptingToolchain completeSpec) :
    package.manifest = sampleBuilt.manifest := by
  obtain ⟨⟨given, input, answer⟩, hcases, rfl⟩ := List.map_eq_singleton_iff.mp package.specs
  rw [BuiltPackage.manifest, hcases]
  rfl

theorem readsManifests_sample : ReadsManifests acceptingToolchain completeSpec := by
  intro package _
  have hpoints : ∀ entry ∈ sampleBuilt.manifest.cases,
      Readable acceptingToolchain.arith entry.points := fun entry _ => ⟨rfl, rfl⟩
  rw [manifest_sample package, (decodeManifest_manifestTree hpoints).2]
  rfl

end JudgeLoom.Authoring
