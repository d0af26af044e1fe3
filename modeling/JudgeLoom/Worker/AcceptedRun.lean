import JudgeLoom.Worker.Machine

/-!
# A submission that is accepted

In a sandbox that obeys a machine, with the package in the cache of the worker: if for each
case of the package the source puts out the answer of the case, the validator of the package
accepts the input, and its checker accepts the answer, then `Execute` accepts the submission
with the full points of every case (`succeeds_execute`).
-/

namespace JudgeLoom.Go

open Interaction (Gives gives_pure gives_query)
open Interaction.Fallible (Succeeds succeeds_pure succeeds_liftExcept succeeds_lift)

variable {C : Type}

/-! ## The environment -/

/-- The package is in the cache, its files are these, and the sandbox obeys the machine. -/
def Serves (machine : Machine C) (contents : String → C) (files : List String → Except Bytes Bytes) :
    Entry → Prop
  | ⟨.ensure .., answer⟩ => answer = .ok ()
  | ⟨.readFile _ path, answer⟩ => answer = files path
  | ⟨.post call commands, exchange⟩ => Obeys machine contents ⟨.post call commands, exchange⟩

variable {machine : Machine C} {contents : String → C} {files : List String → Except Bytes Bytes}

theorem Serves.obeys (entry : Entry) (h : Serves machine contents files entry) :
    Obeys machine contents entry := by
  obtain ⟨_ | _ | _, _⟩ := entry
  · trivial
  · trivial
  · exact h

/-! ## Files of the package -/

/-- The elements of a slash-separated path. -/
def pathElements (relative : String) : List String :=
  (relative.toList.splitOn '/').map String.ofList

/-- A path that consists of names. -/
def Named (relative : String) : Prop :=
  ∀ element ∈ pathElements relative, element ≠ "" ∧ element ≠ "." ∧ element ≠ ".."

theorem resolvePath_of_named {relative : String} (h : Named relative) (root : List String) :
    resolvePath root relative = root ++ pathElements relative := by
  unfold Named at h
  change (pathElements relative).foldl pathStep root = _
  generalize pathElements relative = elements at h ⊢
  induction elements generalizing root with
  | nil => exact (List.append_nil root).symm
  | cons element rest ih =>
      obtain ⟨⟨hempty, hdot, hup⟩, hrest⟩ := List.forall_mem_cons.mp h
      have hstep : pathStep root element = root ++ [element] := by
        rw [pathStep, if_neg (not_or.mpr ⟨hempty, hdot⟩), if_neg hup]
      rw [List.foldl_cons, hstep, ih _ hrest, List.append_assoc, List.singleton_append]

variable {Manifest : Type} {G : Runtime PackageManifest} {root : List String}

theorem succeeds_readPackageFile {relative : String} {content : Bytes} (hnamed : Named relative)
    (hcontent : files (root ++ pathElements relative) = .ok content) (caseNumber : ℕ) :
    Succeeds (Serves machine contents files) (readPackageFile G caseNumber root relative)
      (· = content) := by
  have hinside : root.isPrefixOf (root ++ pathElements relative) = true :=
    List.isPrefixOf_iff_prefix.mpr (List.prefix_append _ _)
  unfold readPackageFile
  rw [resolvePath_of_named hnamed, if_pos hinside]
  have hanswer : Gives (Serves machine contents files)
      (ask (.readFile caseNumber (root ++ pathElements relative))) (· = .ok content) :=
    gives_query fun answer hentry => hcontent ▸ hentry
  refine Succeeds.bind (succeeds_lift hanswer) fun answer hok => ?_
  rw [hok]
  exact succeeds_liftExcept rfl rfl

/-! ## One case -/

variable {job : Job} {manifest : PackageManifest} {testCase : PackageCase}

/-- The source solves the case of the package. -/
structure Solves (machine : Machine C) (G : Runtime PackageManifest)
    (files : List String → Except Bytes Bytes) (root : List String) (job : Job)
    (manifest : PackageManifest) (testCase : PackageCase) (input answer : Bytes) : Prop where
  inputPath : Named testCase.input
  answerPath : Named testCase.answer
  inputContent : files (root ++ pathElements testCase.input) = .ok input
  answerContent : files (root ++ pathElements testCase.answer) = .ok answer
  inputHash : verifyFileHash G input testCase.inputSHA256 = .ok ()
  answerHash : verifyFileHash G answer testCase.answerSHA256 = .ok ()
  validated : manifest.validator.type = "testlib" → Validates machine G manifest.validator.source
    input (job.timeLimit G) job.memoryBytes
  solved : ∃ outcome, Puts machine job.language job.source job.memoryBytes input (job.timeLimit G)
    job.memoryBytes outcome ∧ outcome.status = .AC ∧ outcome.stdout = answer
  checked : manifest.checker.type = "testlib" → Approves machine G manifest.checker.source input
    answer answer (job.timeLimit G) job.memoryBytes

/-- The result is that of a case with full points. -/
def FullPoints (testCase : PackageCase) (result : CaseResult) : Prop :=
  result.status = .AC ∧ result.points = testCase.points ∧ result.totalPoints = testCase.points

/-- The validator of a plan is that of the manifest. -/
def HasItsValidator (machine : Machine C) (contents : String → C) (G : Runtime PackageManifest)
    (job : Job) (manifest : PackageManifest) (validator : Option String) : Prop :=
  ∀ fileID ∈ validator, manifest.validator.type = "testlib" ∧
    Compiled machine contents G "validator" manifest.validator.source job.memoryBytes fileID

/-- What the checker of the manifest keeps is compiled of its source. -/
def KeepsItsChecker (machine : Machine C) (contents : String → C) (G : Runtime PackageManifest)
    (job : Job) (manifest : PackageManifest) (kept : Option String) : Prop :=
  ∀ fileID ∈ kept,
    Compiled machine contents G "checker" manifest.checker.source job.memoryBytes fileID

/-- The checkers that compare outputs. -/
def Compares (checker : CheckerSpec) : Prop :=
  checker.type = "exact" ∨ checker.type = "testlib" ∧ checker.source ≠ "" ∨ checker.type = "none"

theorem succeeds_validateInput {plan : Plan} {input : Bytes} (hjob : plan.job = job)
    (hvalidator : HasItsValidator machine contents G job manifest plan.validator)
    (hvalidated : manifest.validator.type = "testlib" → Validates machine G
      manifest.validator.source input (job.timeLimit G) job.memoryBytes) (caseNumber : ℕ) :
    Succeeds (Serves machine contents files) (validateInput G plan caseNumber testCase input)
      fun _ => True := by
  unfold validateInput
  cases hplan : plan.validator with
  | none => exact succeeds_pure trivial
  | some fileID =>
      obtain ⟨htype, hcompiled⟩ := hvalidator fileID hplan
      rw [hjob]
      refine Succeeds.bind (succeeds_lift (gives_validate Serves.obeys hcompiled caseNumber))
        fun checked hchecked => ?_
      rw [if_neg (not_not.mpr (hchecked.mpr (hvalidated htype)))]
      exact succeeds_pure trivial

theorem gives_checkOutput {plan : Plan} {input answer : Bytes} {kept : Option String}
    (hjob : plan.job = job) (hchecker : plan.checker = manifest.checker)
    (hcompares : Compares manifest.checker)
    (happroves : manifest.checker.type = "testlib" → Approves machine G manifest.checker.source
      input answer answer (job.timeLimit G) job.memoryBytes)
    (hkept : KeepsItsChecker machine contents G job manifest kept) (caseNumber : ℕ) :
    Gives (Serves machine contents files) (checkOutput G plan caseNumber kept input answer answer)
      fun outcome => outcome.1.status = .AC ∧
        KeepsItsChecker machine contents G job manifest outcome.2 := by
  unfold checkOutput
  rw [hchecker, hjob]
  rcases hcompares with htype | ⟨htype, hsource⟩ | htype
  · rw [htype]
    refine gives_pure ⟨?_, hkept⟩
    rw [Checker.exact, if_pos rfl]
  · rw [htype]
    refine Gives.mono (gives_check Serves.obeys hsource hkept caseNumber) fun outcome houtcome => ?_
    exact ⟨houtcome.1.mpr (happroves htype), houtcome.2⟩
  · rw [htype]
    exact gives_pure ⟨rfl, hkept⟩

/-- A case that the source solves has full points. -/
theorem succeeds_executeCase (plan : Plan) {input answer : Bytes} {kept : Option String}
    (hjob : plan.job = job) (hroot : plan.root = root) (hchecker : plan.checker = manifest.checker)
    (hvalidator : HasItsValidator machine contents G job manifest plan.validator)
    (hcompares : Compares manifest.checker)
    (h : Solves machine G files root job manifest testCase input answer)
    (hkept : KeepsItsChecker machine contents G job manifest kept) (caseNumber : ℕ) :
    Succeeds (Serves machine contents files) (executeCase G plan caseNumber testCase kept)
      fun made => made.1.status = .AC ∧ FullPoints testCase made.1 ∧
        KeepsItsChecker machine contents G job manifest made.2 := by
  obtain ⟨outcome, hputs, hstatus, hstdout⟩ := h.solved
  unfold executeCase
  rw [hroot, hjob]
  refine Succeeds.bind (succeeds_readPackageFile h.inputPath h.inputContent caseNumber)
    fun read hread => ?_
  rw [hread]
  refine Succeeds.bind (succeeds_readPackageFile h.answerPath h.answerContent caseNumber)
    fun read hread => ?_
  rw [hread]
  refine Succeeds.bind (succeeds_liftExcept h.inputHash trivial) fun _ (_ : True) => ?_
  refine Succeeds.bind (succeeds_liftExcept h.answerHash trivial) fun _ (_ : True) => ?_
  refine Succeeds.bind (succeeds_validateInput hjob hvalidator h.validated caseNumber)
    fun _ (_ : True) => ?_
  refine Succeeds.bind (succeeds_compileAndRun Serves.obeys hputs caseNumber) fun run hrun => ?_
  have hran : run.status = .AC := by
    rw [← hrun] at hstatus
    exact hstatus
  have hout : run.stdout = answer := by
    rw [← hrun] at hstdout
    exact hstdout
  dsimp only
  rw [if_neg (not_not.mpr hran), hout]
  refine Succeeds.bind (succeeds_lift (gives_checkOutput hjob hchecker hcompares h.checked hkept
    caseNumber)) fun checked hchecked => ?_
  obtain ⟨verdict, next⟩ := checked
  obtain ⟨haccepted, hafter⟩ := hchecked
  have haccepted : verdict.status = .AC := haccepted
  refine succeeds_pure ⟨haccepted, ⟨haccepted, ?_, rfl⟩, hafter⟩
  simp only [CaseResult.checked, haccepted]

/-! ## The job -/

theorem succeeds_ensure : Succeeds (Serves machine contents files) (ensure G job)
    (· = G.cacheRoot ++ [job.digest]) := by
  have hanswer : Gives (Serves machine contents files) (ask (.ensure job.problemID job.digest))
      (· = .ok ()) := gives_query fun answer hentry => hentry
  refine Succeeds.bind (succeeds_lift hanswer) fun answer hok => ?_
  rw [hok]
  exact Succeeds.bind (succeeds_liftExcept rfl trivial) fun _ (_ : True) => succeeds_pure rfl

theorem succeeds_loadManifest {text : Bytes} (htext : files (root ++ ["manifest.json"]) = .ok text)
    (hmanifest : G.unmarshalManifest text = .ok manifest) :
    Succeeds (Serves machine contents files) (loadManifest G root) (· = manifest) := by
  have hanswer : Gives (Serves machine contents files)
      (ask (.readFile 0 (root ++ ["manifest.json"]))) (· = .ok text) :=
    gives_query fun answer hentry => htext ▸ hentry
  refine Succeeds.bind (succeeds_lift hanswer) fun answer hok => ?_
  rw [hok]
  refine Succeeds.bind (succeeds_liftExcept rfl rfl) fun payload (hpayload : text = payload) => ?_
  rw [← hpayload, hmanifest]
  exact succeeds_liftExcept rfl rfl

theorem succeeds_prepareValidator (hvalidator : manifest.validator.type = "testlib" →
      HasValidator machine G manifest.validator.source job.memoryBytes) :
    Succeeds (Serves machine contents files) (prepareValidator G job manifest)
      (HasItsValidator machine contents G job manifest) := by
  unfold prepareValidator
  split_ifs with htestlib
  · refine Succeeds.map (succeeds_newValidator Serves.obeys (hvalidator htestlib))
      fun fileID hcompiled => ?_
    rintro other ⟨⟩
    exact ⟨htestlib, hcompiled⟩
  · exact succeeds_pure fun _ hnone => by cases hnone

/-- A submission that solves every case of its package is accepted with full points. -/
theorem succeeds_execute {text : Bytes} (hmode : job.mode ≠ "run")
    (htext : files (G.cacheRoot ++ [job.digest] ++ ["manifest.json"]) = .ok text)
    (hmanifest : G.unmarshalManifest text = .ok manifest) (hcases : manifest.cases ≠ [])
    (hcompares : Compares manifest.checker)
    (hvalidator : manifest.validator.type = "testlib" →
      HasValidator machine G manifest.validator.source job.memoryBytes)
    (hsolves : ∀ testCase ∈ manifest.cases, ∃ input answer, Solves machine G files
      (G.cacheRoot ++ [job.digest]) job manifest testCase input answer) :
    Succeeds (Serves machine contents files) (execute G job)
      (List.Forall₂ FullPoints manifest.cases) := by
  have hpackage : packageCases job manifest = manifest.cases := if_neg hcases
  have htype : manifest.checker.type ≠ "" ∧ manifest.checker.type ≠ "interactive" := by
    rcases hcompares with h | ⟨h, -⟩ | h <;> rw [h] <;> exact ⟨by decide, by decide⟩
  have hchecker : checkerSpec job manifest = manifest.checker := if_neg htype.1
  rw [execute, if_neg hmode]
  unfold executeSubmission
  refine Succeeds.bind succeeds_ensure fun found hfound => ?_
  rw [hfound]
  refine Succeeds.bind (succeeds_loadManifest htext hmanifest) fun loaded hloaded => ?_
  rw [hloaded]
  dsimp only
  rw [hpackage, if_neg hcases]
  refine Succeeds.bind (succeeds_prepareValidator hvalidator) fun validator hhas => ?_
  rw [hchecker, if_neg htype.2]
  refine succeeds_executeCases (K := KeepsItsChecker machine contents G job manifest)
    (fun _ hnone => by cases hnone) fun index testCase kept hcase hkept => ?_
  obtain ⟨input, answer, h⟩ := hsolves testCase (List.mem_of_getElem? hcase)
  exact succeeds_executeCase { job, root := _, checker := manifest.checker, validator } rfl rfl rfl
    hhas hcompares h hkept _

end JudgeLoom.Go
