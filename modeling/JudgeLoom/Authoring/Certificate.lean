import JudgeLoom.Authoring.Publication
import JudgeLoom.Library.Transcript

/-!
# What a built package is backed by

A package that `Build` returns was made by its programs: each input is the output of an
accepted run of the generator on the arguments of its case, and the validator has accepted
it; each answer is the output of an accepted run of the solution on this input, and the
checker has accepted it against itself.  The runs stand in the transcript of the build
(`Certified`), and the archive with these files is what is found at the output path, with
the hash and the size of the result (`certified_of_build`).

The loop over the cases keeps its files in lists beside each other.  `BuiltCase` has what
belongs together, and `BuiltPackage` what the archive consists of.
-/

namespace JudgeLoom.Authoring

open Go (Files Location RunSpec RunResult)
open Interaction (Includes Follows Runs runs_of_follows follows_append)
open Interaction.Fallible

variable {Manifest : Type} (T : Toolchain Manifest)

/-! ## Packages -/

/-- A case of a spec with the files that were made for it. -/
structure BuiltCase where
  spec : CaseSpec
  input : Go.Bytes
  answer : Go.Bytes

def inputName (number : ℕ) : String := "data/" ++ twoDigits number ++ ".in"

def answerName (number : ℕ) : String := "data/" ++ twoDigits number ++ ".ans"

/-- What the manifest says of a case. -/
def BuiltCase.manifestCase (number : ℕ) (c : BuiltCase) : ManifestCase where
  id := c.spec.id
  input := inputName number
  answer := answerName number
  inputSHA256 := T.sha256 c.input
  answerSHA256 := T.sha256 c.answer
  points := c.spec.points.getD 0
  group := c.spec.group

/-- The cases of the manifest, from a number on. -/
def manifestCasesFrom (number : ℕ) : List BuiltCase → List ManifestCase
  | [] => []
  | c :: rest => c.manifestCase T number :: manifestCasesFrom (number + 1) rest

def BuiltCase.size (c : BuiltCase) : ℕ := c.input.length + c.answer.length

/-- What the loop over the cases has when it has made these. -/
def builtFrom (cases : List BuiltCase) : Built where
  inputs := cases.map BuiltCase.input
  answers := cases.map BuiltCase.answer
  manifestCases := manifestCasesFrom T 1 cases
  generatorCases := cases.map fun c => { id := c.spec.id, args := c.spec.args }

/-- What the archive of a spec consists of. -/
structure BuiltPackage (s : Spec) where
  cases : List BuiltCase
  specs : cases.map BuiltCase.spec = s.cases
  size : (cases.map BuiltCase.size).sum ≤ 267386880
  data : Go.Bytes
  marshalled : T.marshalIndent (manifest T s (builtFrom T cases)) = .ok data

variable {T}

/-- The text of `manifest.json`. -/
def BuiltPackage.text {s : Spec} (package : BuiltPackage T s) : Go.Bytes := package.data ++ [10]

/-- The entries of the archive. -/
def BuiltPackage.entries {s : Spec} (package : BuiltPackage T s) : List (String × Go.Bytes) :=
  ("manifest.json", package.text) :: dataEntries 1 (package.cases.map BuiltCase.input)
    (package.cases.map BuiltCase.answer)

def BuiltPackage.archive {s : Spec} (package : BuiltPackage T s) : Go.Bytes :=
  T.zip package.entries

theorem BuiltPackage.length_cases {s : Spec} (package : BuiltPackage T s) :
    package.cases.length = s.cases.length := by
  rw [← package.specs, List.length_map]

/-! ## Certificates -/

variable (T)

/-- The plan for a spec, with its programs as they are run. -/
def planOf (s : Spec) (generator solution : RunSpec) (validator : Option String) : Plan where
  generator
  solution
  validator
  checker := { type := s.checker.type, source := Utf8.decode s.checker.source }
  timeLimit := Go.truncateFloat (T.arith.mul s.timeLimit Go.second)
  memory := s.memoryLimit * 1024
  compileMemory := max (s.memoryLimit * 1024) 268435456

/-- The programs of the plan are those of the spec, compiled. -/
structure Prepared (s : Spec) (plan : Plan) (transcript : List (Interaction.Entry Answer)) :
    Prop where
  limits : plan = planOf T s plan.generator plan.solution plan.validator
  checkerType : s.checker.type = "exact" ∨ s.checker.type = "testlib" ∨ s.checker.type = "none"
  generator : Includes transcript (sandboxed "compile generator: " (prepareWithFiles 0
    s.generator.language s.generator.source generatorMemoryBytes
    (if s.generator.language = "CPP17" then Go.Checker.testlibHeaders T.toRuntime else []))).run
    (.ok plan.generator)
  solution : Includes transcript (sandboxed "compile solution: " (prepareWithFiles 0
    s.solution.language s.solution.source plan.compileMemory [])).run (.ok plan.solution)
  validator : Includes transcript (prepareValidator T s plan.compileMemory).run
    (.ok plan.validator)

/-- A binary that the checker keeps was compiled. -/
def FromCompiler (plan : Plan) (transcript : List (Interaction.Entry Answer))
    (kept : Option String) : Prop :=
  ∀ fileID ∈ kept, ∃ number, Includes transcript
    (sandbox (Go.Checker.compiled T.toRuntime number plan.checker plan.memory none)) (.ok fileID)

/-- The files of a case are what the programs of the plan made and accepted. -/
structure Certified (plan : Plan) (transcript : List (Interaction.Entry Answer)) (number : ℕ)
    (c : BuiltCase) : Prop where
  generated : ∃ ran : RunResult, Includes transcript (sandbox (runPrepared number plan.generator
    [] c.spec.args generatorCPUTime generatorMemoryBytes)) ran ∧
      ran.status = .AC ∧ ran.stdout = c.input
  validated : ∀ fileID ∈ plan.validator, ∃ checked, Includes transcript
    (sandbox (Go.Checker.validate number fileID c.input (validatorTimeLimit plan.timeLimit)
      plan.compileMemory)) checked ∧ checked.status = .AC
  solved : ∃ ran : RunResult, Includes transcript (sandbox (runPrepared number plan.solution
    c.input [] plan.timeLimit plan.memory)) ran ∧ ran.status = .AC ∧ ran.stdout = c.answer
  checked : ∃ kept outcome, FromCompiler T plan transcript kept ∧ Includes transcript
    (runChecker T plan number kept c.input c.answer) outcome ∧ outcome.1.status = .AC
  inputSize : c.input.length ≤ 16777216
  answerSize : c.answer.length ≤ 16777216

variable {T} {plan : Plan} {testCase : CaseSpec} {cases : List CaseSpec} {built built' : Built}
  {number : ℕ} {kept kept' : Option String} {input answer : Go.Bytes} {c : BuiltCase}
  {transcript whole : List (Interaction.Entry Answer)}

theorem FromCompiler.mono (h : FromCompiler T plan transcript kept)
    (hwhole : transcript <:+: whole) : FromCompiler T plan whole kept := by
  intro fileID hfileID
  obtain ⟨number, hcompiled⟩ := h fileID hfileID
  exact ⟨number, hcompiled.mono hwhole⟩

theorem Certified.mono (h : Certified T plan transcript number c) (hwhole : transcript <:+: whole) :
    Certified T plan whole number c where
  generated := by
    obtain ⟨ran, hran, hresult⟩ := h.generated
    exact ⟨ran, hran.mono hwhole, hresult⟩
  validated fileID hfileID := by
    obtain ⟨checked, hchecked, hresult⟩ := h.validated fileID hfileID
    exact ⟨checked, hchecked.mono hwhole, hresult⟩
  solved := by
    obtain ⟨ran, hran, hresult⟩ := h.solved
    exact ⟨ran, hran.mono hwhole, hresult⟩
  checked := by
    obtain ⟨kept, outcome, hkept, houtcome, hresult⟩ := h.checked
    exact ⟨kept, outcome, hkept.mono hwhole, houtcome.mono hwhole, hresult⟩
  inputSize := h.inputSize
  answerSize := h.answerSize

theorem Prepared.mono {s : Spec} (h : Prepared T s plan transcript)
    (hwhole : transcript <:+: whole) : Prepared T s plan whole :=
  { h with
    generator := h.generator.mono hwhole
    solution := h.solution.mono hwhole
    validator := h.validator.mono hwhole }

/-! ## One case -/

/-- A part of the worker that is run and looked at. -/
theorem yields_sandbox_bind {α β : Type} {program : Go.Program α} {f : α → Task β} {b : β} :
    ((monadLift (sandbox program) : Task α) >>= f).run.Yields transcript (.ok b) ↔
      ∃ a first rest, transcript = first ++ rest ∧ (sandbox program).Yields first a ∧
        (f a).run.Yields rest (.ok b) := by
  rw [yields_bind_ok]
  refine exists_congr fun a => exists_congr fun first => exists_congr fun rest => ?_
  rw [yields_lift]
  simp

/-- The input of a case. -/
theorem generated_of_yields
    (h : (generateInput plan number testCase).run.Yields transcript (.ok input)) :
    (∃ ran : RunResult, Includes transcript (sandbox (runPrepared number plan.generator [] testCase.args
        generatorCPUTime generatorMemoryBytes)) ran ∧ ran.status = .AC ∧ ran.stdout = input) ∧
      input.length ≤ 16777216 ∧
      ∀ fileID ∈ plan.validator, ∃ checked, Includes transcript
        (sandbox (Go.Checker.validate number fileID input (validatorTimeLimit plan.timeLimit)
          plan.compileMemory)) checked ∧ checked.status = .AC := by
  obtain ⟨ran, first, rest, rfl, hran, h⟩ := yields_sandbox_bind.mp h
  split at h
  · cases (yields_throw.mp h).2
  · next hstatus =>
      split at h
      · cases (yields_throw.mp h).2
      · next hsize =>
          have hgenerated := hran.includes.append_right rest
          cases hvalidator : plan.validator with
          | none =>
              rw [hvalidator] at h
              obtain ⟨-, hinput⟩ := yields_pure.mp h
              cases hinput
              exact ⟨⟨ran, hgenerated, not_not.mp hstatus, rfl⟩, not_lt.mp hsize,
                fun _ hnone => by cases hnone⟩
          | some fileID =>
              rw [hvalidator] at h
              obtain ⟨checked, second, last, rfl, hchecked, h⟩ := yields_sandbox_bind.mp h
              split at h
              · cases (yields_throw.mp h).2
              · next haccepted =>
                  obtain ⟨-, hinput⟩ := yields_pure.mp h
                  cases hinput
                  refine ⟨⟨ran, hgenerated, not_not.mp hstatus, rfl⟩, not_lt.mp hsize, ?_⟩
                  intro other hother
                  cases hother
                  exact ⟨checked, (hchecked.includes.append_right last).append_left first,
                    not_not.mp haccepted⟩

/-- The answer of a case. -/
theorem solved_of_yields
    (h : (solve plan number testCase input).run.Yields transcript (.ok answer)) :
    (∃ ran : RunResult, Includes transcript (sandbox (runPrepared number plan.solution input []
        plan.timeLimit plan.memory)) ran ∧ ran.status = .AC ∧ ran.stdout = answer) ∧
      answer.length ≤ 16777216 := by
  obtain ⟨ran, first, rest, rfl, hran, h⟩ := yields_sandbox_bind.mp h
  split at h
  · cases (yields_throw.mp h).2
  · next hstatus =>
      split at h
      · cases (yields_throw.mp h).2
      · next hsize =>
          obtain ⟨-, hanswer⟩ := yields_pure.mp h
          cases hanswer
          exact ⟨⟨ran, hran.includes.append_right rest, not_not.mp hstatus, rfl⟩, not_lt.mp hsize⟩

/-- What a testlib checker keeps is what it kept before, or what it has compiled. -/
theorem fromCompiler_of_check {before : List (Interaction.Entry Answer)}
    {outcome : Go.CheckResult × Option String} (hkept : FromCompiler T plan before kept)
    (h : (sandbox (Go.Checker.check T.toRuntime number plan.checker kept input answer answer
      plan.timeLimit plan.memory)).Yields transcript outcome) :
    FromCompiler T plan (before ++ transcript) outcome.2 := by
  have hbefore := hkept.mono (List.prefix_append before transcript).isInfix
  unfold Go.Checker.check at h
  split at h
  · obtain ⟨-, rfl⟩ := Interaction.yields_pure.mp h
    exact hbefore
  · rw [sandbox, Interaction.embed_bind] at h
    obtain ⟨compiled, first, rest, rfl, hcompiled, h⟩ := Interaction.yields_bind.mp h
    cases compiled with
    | error message =>
        obtain ⟨-, rfl⟩ := Interaction.yields_pure.mp h
        exact hbefore
    | ok fileID =>
        dsimp only at h
        rw [Interaction.embed_bind] at h
        obtain ⟨ran, _, _, -, -, h⟩ := Interaction.yields_bind.mp h
        obtain ⟨-, rfl⟩ := Interaction.yields_pure.mp h
        intro other hother
        cases hother
        cases kept with
        | none =>
            exact ⟨number, (Interaction.Yields.includes hcompiled).mono
              ⟨before, rest, by rw [List.append_assoc]⟩⟩
        | some previous =>
            obtain ⟨-, hsame⟩ := Interaction.yields_pure.mp hcompiled
            cases hsame
            exact hbefore fileID rfl

/-- The check of an answer. -/
theorem checked_of_yields {before : List (Interaction.Entry Answer)}
    (hkept : FromCompiler T plan before kept)
    (h : (checkAnswer T plan number testCase kept input answer).run.Yields transcript (.ok kept')) :
    (∃ outcome, Includes transcript (runChecker T plan number kept input answer) outcome ∧
      outcome.1.status = .AC) ∧ FromCompiler T plan (before ++ transcript) kept' := by
  obtain ⟨outcome, first, rest, rfl, hfirst, h⟩ := yields_bind_ok.mp h
  obtain ⟨_, hrun, hok⟩ := yields_lift.mp hfirst
  cases hok
  split at h
  · cases (yields_throw.mp h).2
  · next hstatus =>
      obtain ⟨-, hdone⟩ := yields_pure.mp h
      cases hdone
      refine ⟨⟨outcome, hrun.includes.append_right rest, not_not.mp hstatus⟩, ?_⟩
      have hinfix : before ++ first <:+: before ++ (first ++ rest) :=
        ⟨[], rest, by rw [List.nil_append, List.append_assoc]⟩
      have hbefore := hkept.mono (List.prefix_append before (first ++ rest)).isInfix
      unfold runChecker at hrun
      split at hrun
      · obtain ⟨-, rfl⟩ := Interaction.yields_pure.mp hrun
        exact hbefore
      · exact (fromCompiler_of_check hkept hrun).mono hinfix
      · obtain ⟨-, rfl⟩ := Interaction.yields_pure.mp hrun
        exact hbefore

/-- The body of the loop makes a certified case. -/
theorem certified_of_buildCase {before : List (Interaction.Entry Answer)}
    (hkept : FromCompiler T plan before built.kept)
    (h : (buildCase T plan built testCase).run.Yields transcript (.ok built')) :
    ∃ c : BuiltCase, c.spec = testCase ∧
      Certified T plan (before ++ transcript) (built.inputs.length + 1) c ∧
      FromCompiler T plan (before ++ transcript) built'.kept ∧
      built.totalBytes + c.size ≤ 267386880 ∧
      built' = {
        inputs := built.inputs ++ [c.input]
        answers := built.answers ++ [c.answer]
        manifestCases := built.manifestCases ++ [c.manifestCase T (built.inputs.length + 1)]
        generatorCases := built.generatorCases ++ [{ id := testCase.id, args := testCase.args }]
        totalBytes := built.totalBytes + c.size
        kept := built'.kept } := by
  obtain ⟨input, first, rest, rfl, hinput, h⟩ := yields_bind_ok.mp h
  obtain ⟨answer, second, rest, rfl, hanswer, h⟩ := yields_bind_ok.mp h
  dsimp only at h
  split at h
  · cases (yields_throw.mp h).2
  · next hsize =>
      obtain ⟨kept, third, rest, rfl, hcheck, h⟩ := yields_bind_ok.mp h
      obtain ⟨-, hbuilt⟩ := yields_pure.mp h
      cases hbuilt
      obtain ⟨⟨ran, hran, hstatus⟩, hinputSize, hvalidated⟩ := generated_of_yields hinput
      obtain ⟨⟨solved, hsolved, hsolvedStatus⟩, hanswerSize⟩ := solved_of_yields hanswer
      have hchecker := hkept.mono (List.prefix_append before (first ++ second)).isInfix
      obtain ⟨⟨outcome, houtcome, haccepted⟩, hafter⟩ := checked_of_yields hchecker hcheck
      have hfirst : first <:+: before ++ (first ++ (second ++ (third ++ rest))) :=
        ⟨before, second ++ (third ++ rest), by simp⟩
      have hsecond : second <:+: before ++ (first ++ (second ++ (third ++ rest))) :=
        ⟨before ++ first, third ++ rest, by simp⟩
      have hthird : third <:+: before ++ (first ++ (second ++ (third ++ rest))) :=
        ⟨before ++ (first ++ second), rest, by simp⟩
      refine ⟨⟨testCase, input, answer⟩, rfl, ⟨⟨ran, hran.mono hfirst, hstatus⟩, ?_,
        ⟨solved, hsolved.mono hsecond, hsolvedStatus⟩,
        ⟨built.kept, outcome, hkept.mono (List.prefix_append _ _).isInfix, houtcome.mono hthird,
          haccepted⟩, hinputSize, hanswerSize⟩, ?_, not_lt.mp hsize, rfl⟩
      · intro fileID hfileID
        obtain ⟨checked, hchecked, hresult⟩ := hvalidated fileID hfileID
        exact ⟨checked, hchecked.mono hfirst, hresult⟩
      · exact hafter.mono ⟨[], rest, by simp⟩

/-! ## All cases -/

theorem manifestCasesFrom_append (number : ℕ) (made : List BuiltCase) (c : BuiltCase) :
    manifestCasesFrom T number (made ++ [c]) =
      manifestCasesFrom T number made ++ [c.manifestCase T (number + made.length)] := by
  induction made generalizing number with
  | nil => rfl
  | cons first rest ih =>
      rw [List.cons_append, manifestCasesFrom, ih, manifestCasesFrom, List.cons_append,
        List.length_cons, show number + 1 + rest.length = number + (rest.length + 1) by omega]

/-- What the loop has after the cases `made`, besides the binary that the checker keeps. -/
def After (T : Toolchain Manifest) (made : List BuiltCase) (built : Built) : Prop :=
  built = { builtFrom T made with
    totalBytes := ((made.map BuiltCase.size).sum : ℕ)
    kept := built.kept }

/-- The loop goes on with certified cases, whose files are not too large together. -/
theorem certified_of_buildCases {made : List BuiltCase} {before : List (Interaction.Entry Answer)}
    (hbuilt : After T made built) (hkept : FromCompiler T plan before built.kept)
    (hsize : (made.map BuiltCase.size).sum ≤ 267386880)
    (h : (buildCases T plan built cases).run.Yields transcript (.ok built')) :
    ∃ more, more.map BuiltCase.spec = cases ∧ After T (made ++ more) built' ∧
      ((made ++ more).map BuiltCase.size).sum ≤ 267386880 ∧
      ∀ index c, more[index]? = some c →
        Certified T plan (before ++ transcript) (made.length + index + 1) c := by
  induction cases generalizing made built before transcript with
  | nil =>
      obtain ⟨-, hdone⟩ := yields_pure.mp h
      cases hdone
      refine ⟨[], rfl, ?_, ?_, fun index c hc => by simp at hc⟩
      · rwa [List.append_nil]
      · rwa [List.append_nil]
  | cons testCase rest ih =>
      obtain ⟨next, first, last, rfl, hfirst, hlast⟩ := yields_bind_ok.mp h
      obtain ⟨c, hspec, hcertified, hchecker, htotal, hnext⟩ :=
        certified_of_buildCase hkept hfirst
      have hlength : built.inputs.length = made.length := by
        rw [hbuilt]
        exact List.length_map _
      have hbytes : built.totalBytes = ((made.map BuiltCase.size).sum : ℕ) := by rw [hbuilt]
      have hsum : ((made ++ [c]).map BuiltCase.size).sum =
          (made.map BuiltCase.size).sum + c.size := by simp
      have hafter : After T (made ++ [c]) next := by
        rw [After, hnext, hsum, hlength]
        rw [After] at hbuilt
        rw [hbuilt]
        simp [builtFrom, manifestCasesFrom_append, hspec, Nat.add_comm]
      rw [hbytes] at htotal
      obtain ⟨more, hspecs, hdone, hmore, hcases⟩ := ih hafter hchecker (by omega) hlast
      rw [List.append_assoc, List.singleton_append] at hdone hmore
      refine ⟨c :: more, by rw [List.map_cons, hspec, hspecs], hdone, hmore, ?_⟩
      intro index found hfound
      cases index with
      | zero =>
          cases hfound
          rw [hlength] at hcertified
          exact hcertified.mono ⟨[], last, by simp⟩
      | succ index =>
          have hfound' := hcases index found hfound
          rw [List.length_append, List.length_singleton] at hfound'
          rw [show made.length + (index + 1) + 1 = made.length + 1 + index + 1 by omega]
          rwa [List.append_assoc] at hfound'

/-! ## The build -/

/-- What `assemble` returns is a package of the spec that the transcript certifies. -/
theorem certified_of_assemble {s : Spec} {assembled : List (String × Go.Bytes) × ℕ}
    (h : (assemble T s).run.Yields transcript (.ok assembled)) :
    ∃ (plan : Plan) (package : BuiltPackage T s), Prepared T s plan transcript ∧
      (∀ index c, package.cases[index]? = some c → Certified T plan transcript (index + 1) c) ∧
      assembled = (package.entries, s.cases.length) := by
  obtain ⟨generator, t₁, rest, rfl, hgenerator, h⟩ := yields_bind_ok.mp h
  obtain ⟨solution, t₂, rest, rfl, hsolution, h⟩ := yields_bind_ok.mp h
  obtain ⟨validator, t₃, rest, rfl, hvalidator, h⟩ := yields_bind_ok.mp h
  obtain ⟨_, t₄, rest, rfl, htype, h⟩ := yields_bind_ok.mp h
  have htype := (yields_liftExcept.mp htype).2
  obtain ⟨built, t₅, rest, rfl, hbuilt, h⟩ := yields_bind_ok.mp h
  obtain ⟨data, t₆, rest, rfl, hdata, h⟩ := yields_bind_ok.mp h
  have hdata := (yields_liftExcept.mp hdata).2
  obtain ⟨-, hassembled⟩ := yields_pure.mp h
  cases hassembled
  have hloop : (buildCases T (planOf T s generator solution validator) {} s.cases).run.Yields t₅
    (.ok built) := hbuilt
  have hstart : After T [] {} := rfl
  have hnothing : FromCompiler T (planOf T s generator solution validator) [] none :=
    fun _ hnone => by cases hnone
  obtain ⟨made, hspecs, hafter, hsize, hcases⟩ :=
    certified_of_buildCases hstart hnothing (by simp) hloop
  rw [List.nil_append] at hafter hsize
  have hmanifest : manifest T s built = manifest T s (builtFrom T made) := by
    rw [hafter]
    rfl
  rw [hmanifest] at hdata
  have hlength : built.inputs.length = s.cases.length := by
    rw [hafter, ← hspecs, List.length_map]
    exact List.length_map _
  have htype' : s.checker.type = "exact" ∨ s.checker.type = "testlib" ∨
      s.checker.type = "none" := by
    unfold checkCheckerType at htype
    split at htype
    · next heq => exact Or.inl heq
    · next heq => exact Or.inr (Or.inl heq)
    · next heq => exact Or.inr (Or.inr heq)
    · cases htype
  refine ⟨planOf T s generator solution validator, ⟨made, hspecs, hsize, data, hdata⟩,
    ⟨rfl, htype', hgenerator.includes.append_right _,
      (hsolution.includes.append_right _).append_left _,
      ((hvalidator.includes.append_right _).append_left _).append_left _⟩, ?_, ?_⟩
  · intro index c hc
    have hcertified := hcases index c hc
    rw [List.length_nil, Nat.zero_add, List.nil_append] at hcertified
    exact hcertified.mono ⟨t₁ ++ (t₂ ++ (t₃ ++ t₄)), t₆ ++ rest, by simp⟩
  · rw [hlength, hafter]
    rfl

section Publication

variable {place : Go.Bytes → Location} {fs fs' : Files} {path : Go.Bytes}
  {entries : List (String × Go.Bytes)}

/-- An archive that was written is at the output path. -/
theorem file_of_writePackage
    (h : Runs (effect T place) (writePackage path entries).run fs (.ok ()) fs') :
    fs' (place path) = some (.file (T.zip entries)) := by
  obtain ⟨record, htracked⟩ : ∃ record,
      Runs ((effect T place).tracked (Trace.after T place (place path)))
        (writePackage path entries).run (fs, {}) (.ok ()) (fs', record) := h.exists_tracked _
  have hreplaced : Replaced T (place path) entries (fs', record) :=
    (does_writePackage rfl).runs (fs, {}) _ _ ⟨rfl, rfl⟩ htracked
  have hentry := hreplaced.entry
  unfold entryAt at hentry
  obtain ⟨hfile, -⟩ := Option.filter_eq_some_iff.mp hentry
  exact hfile

/-- A question whose error is returned was answered with a value. -/
theorem yields_query_bind {α β : Type} {question : Question}
    {result : Answer question → Except Go.Bytes α} {f : α → Task β} {b : β} :
    (query question >>= fun answer => liftExcept (result answer) >>= f).run.Yields transcript
        (.ok b) ↔
      ∃ answer rest a, transcript = ⟨question, answer⟩ :: rest ∧ result answer = .ok a ∧
        (f a).run.Yields rest (.ok b) := by
  refine Interaction.yields_ask.trans (exists_congr fun answer => exists_congr fun rest => ?_)
  constructor
  · rintro ⟨rfl, h⟩
    obtain ⟨a, first, last, rfl, hresult, hf⟩ := yields_bind_ok.mp h
    obtain ⟨rfl, hok⟩ := yields_liftExcept.mp hresult
    exact ⟨a, rfl, hok, hf⟩
  · rintro ⟨a, rfl, hok, hf⟩
    exact ⟨rfl, yields_bind_ok.mpr ⟨a, [], rest, rfl, yields_liftExcept.mpr ⟨rfl, hok⟩, hf⟩⟩

variable {configured : Bool} {spec : Spec} {outPath : Go.Bytes} {result : Result}

/-- What `Build` returns is what it has published: the archive of a package of the spec that
the runs of its programs certify. -/
theorem certified_of_build
    (hyields : (build T configured spec outPath).run.Yields transcript (.ok result))
    (hfollows : Follows (effect T place) transcript fs fs') :
    ∃ (s : Spec) (plan : Plan) (package : BuiltPackage T s),
      (spec.applyDefaults T.arith).validate T.quote T.arith = .ok s ∧
      Prepared T s plan transcript ∧
      (∀ index c, package.cases[index]? = some c →
        Certified T plan transcript (index + 1) c) ∧
      fs' (place outPath) = some (.file package.archive) ∧
      package.archive.length ≤ maxArchiveBytes ∧
      result = {
        path := outPath
        sha256 := T.sha256 package.archive
        sizeBytes := package.archive.length
        cases := s.cases.length } := by
  unfold build at hyields
  split at hyields
  · cases (yields_throw.mp hyields).2
  · obtain ⟨s, t₁, rest, rfl, hvalid, h⟩ := yields_bind_ok.mp hyields
    split at h
    · cases (yields_throw.mp h).2
    · obtain ⟨assembled, t₂, rest, rfl, hassemble, h⟩ := yields_bind_ok.mp h
      obtain ⟨plan, package, hprepared, hcertified, rfl⟩ := certified_of_assemble hassemble
      obtain ⟨_, t₃, rest, rfl, hwrite, h⟩ := yields_bind_ok.mp h
      obtain ⟨read, rest, content, rfl, hread, h⟩ := yields_query_bind.mp h
      obtain ⟨stat, rest, size, rfl, hstat, h⟩ := yields_query_bind.mp h
      obtain ⟨_, -, hfollows⟩ := follows_append.mp hfollows
      obtain ⟨_, -, hfollows⟩ := follows_append.mp hfollows
      obtain ⟨_, hwritten, hfollows⟩ := follows_append.mp hfollows
      have hfile := file_of_writePackage (runs_of_follows hwrite hwritten)
      obtain _ | ⟨⟨hsame, hcontent⟩, hfollows⟩ := hfollows
      obtain _ | ⟨⟨hsame', hsize⟩, hfollows⟩ := hfollows
      rw [hsame] at hsame' hsize
      have hread' := hcontent content hread (by rw [hfile]; exact fun h => by cases h)
      rw [hfile] at hread'
      cases hread'
      have hsize' := hsize size _ hstat hfile
      split at h
      · -- an archive that is too large is an error
        obtain ⟨_, _, _, -, -, h⟩ := yields_bind_ok.mp h
        cases (yields_throw.mp h).2
      · next hlimit =>
          obtain ⟨hend, hresult⟩ := yields_pure.mp h
          cases hresult
          rw [hend] at hfollows
          obtain ⟨⟩ := hfollows
          refine ⟨s, plan, package, (yields_liftExcept.mp hvalid).2, ?_, ?_, ?_, ?_, ?_⟩
          · exact hprepared.mono ⟨t₁, _, by rw [List.append_assoc]⟩
          · intro index c hc
            exact (hcertified index c hc).mono ⟨t₁, _, by rw [List.append_assoc]⟩
          · rw [hsame']
            exact hfile
          · rw [hsize'] at hlimit
            exact not_lt.mp hlimit
          · rw [hsize']
            rfl

end Publication

/-! ## A build that succeeds -/

/-- The archive has been moved to `o`. -/
def publishedFiles : Files := packedFiles.moved [[116]] [[111]]

theorem runs_writePackage_sample (entries : List (String × Go.Bytes)) :
    Runs (effect sampleToolchain (SlashPath.locate [])) (writePackage [111] entries).run
      sampleFiles (.ok ()) publishedFiles := by
  have hfile : packedFiles (SlashPath.locate [] [116]) = some (.file []) := by decide
  have hdirectory : ∀ location, location <+: SlashPath.locate [] (SlashPath.dir [111]) →
      sampleFiles location = some .directory := by
    intro location hbelow
    rw [List.prefix_nil.mp hbelow]
    rfl
  have hentries : Runs (effect sampleToolchain (SlashPath.locate []))
      (writeEntries [116] [111] entries).run packedFiles (.ok ()) publishedFiles := by
    refine runs_bind_ok.mpr ⟨(), packedFiles, runs_addEntries hfile entries, ?_⟩
    refine runs_query_bind.mpr ⟨.ok (), packedFiles,
      ⟨fun _ _ => rfl, Or.inl rfl, fun _ => hfile⟩, ?_⟩
    refine runs_query_bind.mpr ⟨.ok (), packedFiles, rfl, ?_⟩
    refine runs_bind_ok.mpr ⟨(), packedFiles, runs_liftExcept.mpr ⟨rfl, rfl⟩, ?_⟩
    refine runs_query_bind.mpr ⟨.ok (), publishedFiles,
      ⟨fun hfailed => absurd rfl hfailed, fun _ => ⟨by decide, by decide, rfl⟩⟩, ?_⟩
    exact runs_pure.mpr ⟨rfl, rfl⟩
  refine runs_query_bind.mpr ⟨.ok (), sampleFiles,
    FileSystem.makesAll_self rfl hdirectory, ?_⟩
  refine runs_bind_ok.mpr ⟨(), sampleFiles, runs_liftExcept.mpr ⟨rfl, rfl⟩, ?_⟩
  refine runs_query_bind.mpr ⟨.ok [116], packedFiles, ⟨by decide, rfl⟩, ?_⟩
  refine runs_bind_ok.mpr ⟨[116], packedFiles, runs_liftExcept.mpr ⟨rfl, rfl⟩, ?_⟩
  exact runs_lift_bind.mpr ⟨_, _, hentries, runs_pure.mpr ⟨rfl, rfl⟩⟩

/-- The sample is built. -/
theorem exists_runs_build_sample :
    ∃ result, Runs (effect sampleToolchain (SlashPath.locate []))
      (build sampleToolchain true sampleSpec [111]).run sampleFiles (.ok result)
      publishedFiles := by
  obtain ⟨assembled, hassemble⟩ : ∃ assembled, Runs (effect sampleToolchain (SlashPath.locate []))
      (assemble sampleToolchain completeSpec).run sampleFiles (.ok assembled) sampleFiles :=
    exists_runs_assemble
  have hfile : publishedFiles (SlashPath.locate [] [111]) = some (.file []) := by decide
  refine ⟨{ path := [111], sha256 := "", sizeBytes := 0, cases := assembled.2 }, ?_⟩
  rw [build, if_neg (by decide)]
  refine runs_bind_ok.mpr ⟨completeSpec, sampleFiles,
    runs_liftExcept.mpr ⟨validate_sampleSpec, rfl⟩, ?_⟩
  rw [if_neg (by decide)]
  refine runs_bind_ok.mpr ⟨assembled, sampleFiles, hassemble, ?_⟩
  refine runs_bind_ok.mpr ⟨(), publishedFiles, runs_writePackage_sample _, ?_⟩
  refine runs_query_bind.mpr ⟨.ok [], publishedFiles, ⟨rfl, fun content hcontent _ => ?_⟩, ?_⟩
  · cases hcontent
    exact hfile
  · refine runs_bind_ok.mpr ⟨[], publishedFiles, runs_liftExcept.mpr ⟨rfl, rfl⟩, ?_⟩
    refine runs_query_bind.mpr ⟨.ok 0, publishedFiles, ⟨rfl, fun size content hsize hthere => ?_⟩, ?_⟩
    · cases hsize
      rw [hfile] at hthere
      cases hthere
      rfl
    · refine runs_bind_ok.mpr ⟨0, publishedFiles, runs_liftExcept.mpr ⟨rfl, rfl⟩, ?_⟩
      rw [if_neg (by decide)]
      exact runs_pure.mpr ⟨rfl, rfl⟩

/-- The package of the sample is certified. -/
theorem certified_of_build_sample :
    ∃ (transcript : List (Interaction.Entry Answer)) (result : Result) (s : Spec) (plan : Plan)
      (package : BuiltPackage sampleToolchain s),
      (build sampleToolchain true sampleSpec [111]).run.Yields transcript (.ok result) ∧
        Prepared sampleToolchain s plan transcript ∧
        publishedFiles [[111]] = some (.file package.archive) := by
  obtain ⟨result, hruns⟩ := exists_runs_build_sample
  obtain ⟨transcript, hyields, hfollows⟩ := Interaction.runs_iff_follows.mp hruns
  obtain ⟨s, plan, package, -, hprepared, -, hfile, -⟩ := certified_of_build hyields hfollows
  exact ⟨transcript, result, s, plan, package, hyields, hprepared, hfile⟩

end JudgeLoom.Authoring
