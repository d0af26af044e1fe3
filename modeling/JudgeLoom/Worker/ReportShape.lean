import JudgeLoom.Worker.Attribution

/-!
# The shape of an execution report

The server reads the results of a job as a list that runs along the cases of the
package: case numbers from 1 on, every total the points of its case, and points
within the total.  `Shape` is this contract.  It is shown of the loop over the cases
for any body whose result fits its case (`Fits`), and both bodies, that of `Execute`
and that of `executeInteractive`, have such results.

The points of a result are those of its case, none, or what a checker's message asks
for, cut at the points of the case; `parsePoints` reads no negative number.
-/

namespace JudgeLoom.Go

open Utf8 (encode)
open Interaction (Fallible)
open Interaction.Fallible

/-! ## Points of a checker's message -/

namespace Checker

theorem leadingNumber_nonneg {text : List Char} {points : ℚ}
    (h : leadingNumber text = some points) : 0 ≤ points := by
  have hvalue : ∀ (digits : List Char) (start : ℚ), 0 ≤ start →
      0 ≤ digits.foldl (fun number digit => 10 * number + ((digit.toNat - 48 : ℕ) : ℚ)) start := by
    intro digits
    induction digits with
    | nil => exact fun _ hstart => hstart
    | cons digit rest ih => exact fun start hstart => ih _ (by positivity)
  unfold leadingNumber at h
  dsimp only at h
  split at h
  · cases h
  · split at h
    · rw [← Option.some.inj h]
      exact div_nonneg (hvalue _ 0 le_rfl) (by positivity)
    · rw [← Option.some.inj h]
      exact hvalue _ 0 le_rfl

theorem pointsHere_nonneg {text : List Char} {points : ℚ} (h : pointsHere text = some points) :
    0 ≤ points := by
  unfold pointsHere at h
  obtain ⟨rest, -, h⟩ := Option.bind_eq_some_iff.mp h
  dsimp only at h
  split at h
  · exact leadingNumber_nonneg h
  · cases h

theorem findPoints_nonneg {text : List Char} {points : ℚ} (h : findPoints text = some points) :
    0 ≤ points := by
  induction text with
  | nil => cases h
  | cons c rest ih =>
      rcases Option.or_eq_some_iff.mp h with hhere | ⟨-, hrest⟩
      · exact pointsHere_nonneg hhere
      · exact ih hrest

/-- A checker cannot ask for negative points. -/
theorem parsePoints_nonneg {A : FloatArith} (hA : A.KeepsNonneg) (stderr : Bytes) :
    0 ≤ parsePoints A stderr := by
  unfold parsePoints
  split
  · exact le_rfl
  · next points hfound =>
      split
      · exact le_rfl
      · exact hA points (findPoints_nonneg hfound)

theorem testlibVerdict_points_nonneg {A : FloatArith} (hA : A.KeepsNonneg) (ran : RunResult) :
    0 ≤ (testlibVerdict A ran).points := by
  unfold testlibVerdict
  split
  · exact le_rfl
  · -- only the exit status of partial points has any
    split
    · exact le_rfl
    · exact le_rfl
    · exact le_rfl
    · exact parsePoints_nonneg hA ran.stderr
    · exact le_rfl

end Checker

variable {G : Runtime PackageManifest} {number : ℕ} {transcript : List Entry}

section Points

variable (hG : G.arith.KeepsNonneg)
include hG

theorem check_points_nonneg {spec : CheckerSpec} {kept kept' : Option String}
    {input answer output : Bytes} {timeLimit memoryLimit : ℤ} {checked : CheckResult}
    (h : (Checker.check G number spec kept input answer output timeLimit memoryLimit).Yields
      transcript (checked, kept')) : 0 ≤ checked.points := by
  unfold Checker.check at h
  split at h
  · obtain ⟨-, heq⟩ := Interaction.yields_pure.mp h
    cases heq
    exact le_rfl
  · obtain ⟨binary, first, rest, -, -, h⟩ := Interaction.yields_bind.mp h
    cases binary with
    | error message =>
        obtain ⟨-, heq⟩ := Interaction.yields_pure.mp h
        cases heq
        exact le_rfl
    | ok fileID =>
        obtain ⟨ran, _, _, -, -, h⟩ := Interaction.yields_bind.mp h
        obtain ⟨-, heq⟩ := Interaction.yields_pure.mp h
        cases heq
        exact Checker.testlibVerdict_points_nonneg hG ran

theorem checkOutput_points_nonneg {plan : Plan} {kept kept' : Option String}
    {input answer output : Bytes} {checked : CheckResult}
    (h : (checkOutput G plan number kept input answer output).Yields transcript
      (checked, kept')) : 0 ≤ checked.points := by
  unfold checkOutput at h
  split at h
  · exact check_points_nonneg hG h
  · obtain ⟨-, heq⟩ := Interaction.yields_pure.mp h
    cases heq
    exact le_rfl
  · obtain ⟨-, heq⟩ := Interaction.yields_pure.mp h
    cases heq
    unfold Checker.exact
    split <;> exact le_rfl

theorem interactiveVerdict_points_nonneg (outcome : Except Bytes GoJudge.InteractiveResult) :
    0 ≤ (Checker.interactiveVerdict G.arith outcome).points := by
  cases outcome with
  | error message => exact le_rfl
  | ok result =>
      unfold Checker.interactiveVerdict
      dsimp only
      split
      · exact le_rfl
      · exact Checker.testlibVerdict_points_nonneg hG _

theorem checkInteractive_points_nonneg {spec : CheckerSpec} {language source : String}
    {input : Bytes} {timeLimit memoryLimit : ℤ} {checked : CheckResult}
    (h : (Checker.checkInteractive G number spec language source input timeLimit
      memoryLimit).run.Yields transcript (.ok checked)) : 0 ≤ checked.points := by
  unfold Checker.checkInteractive at h
  split at h
  · obtain ⟨-, heq⟩ := yields_pure.mp h
    cases heq
    exact le_rfl
  · obtain ⟨result, _, _, -, -, h⟩ := yields_bind_ok.mp h
    split at h
    · obtain ⟨-, heq⟩ := yields_pure.mp h
      cases heq
      exact le_rfl
    · obtain ⟨prepared, _, _, -, -, h⟩ := yields_bind_ok.mp h
      obtain ⟨outcome, _, _, -, -, h⟩ := yields_bind_ok.mp h
      obtain ⟨-, heq⟩ := yields_pure.mp h
      cases heq
      exact interactiveVerdict_points_nonneg hG outcome

end Points

/-! ## The shape -/

/-- A result that fits its case. -/
structure CaseResult.Fits (testCase : PackageCase) (result : CaseResult) : Prop where
  total : result.totalPoints = testCase.points
  bounded : 0 ≤ testCase.points → 0 ≤ result.points ∧ result.points ≤ testCase.points
  accepted : result.status = .AC → result.points = testCase.points
  rejected : result.status ≠ .AC → result.status ≠ .PT → result.points = 0

/-- The results of a job with such cases: numbered in the order of the package, each
fitting its case, and complete unless the job is short-circuited, when they end with the
first result that is not accepted. -/
structure Shape (shortCircuit : Bool) (cases : List PackageCase) (results : List CaseResult) :
    Prop where
  numbers : results.map CaseResult.caseNumber = List.range' 1 results.length
  length_le : results.length ≤ cases.length
  fits : List.Forall₂ CaseResult.Fits (cases.take results.length) results
  complete : shortCircuit = false → results.length = cases.length
  stops : shortCircuit = true → ∀ result ∈ results.dropLast, result.status = .AC
  stopped : results.length < cases.length → ∃ last ∈ results.getLast?, last.status ≠ .AC

/-- The results of the loop over the cases from an index on, as the loop makes them. -/
inductive Reports (shortCircuit : Bool) : ℕ → List PackageCase → List CaseResult → Prop
  | done (index : ℕ) : Reports shortCircuit index [] []
  | stop {index : ℕ} {testCase : PackageCase} {rest : List PackageCase} {result : CaseResult}
      (number : result.caseNumber = index + 1) (fits : result.Fits testCase)
      (short : shortCircuit = true) (status : result.status ≠ .AC) :
      Reports shortCircuit index (testCase :: rest) [result]
  | next {index : ℕ} {testCase : PackageCase} {rest : List PackageCase} {result : CaseResult}
      {results : List CaseResult} (number : result.caseNumber = index + 1)
      (fits : result.Fits testCase) (goes : shortCircuit = true → result.status = .AC)
      (reports : Reports shortCircuit (index + 1) rest results) :
      Reports shortCircuit index (testCase :: rest) (result :: results)

/-! ### One case -/

/-- What a checker makes of a case fits the case. -/
theorem CaseResult.fits_checked {testCase : PackageCase} {result : CaseResult}
    {checked : CheckResult} (htotal : result.totalPoints = testCase.points)
    (hzero : result.points = 0) (hpoints : 0 ≤ checked.points) :
    (result.checked testCase checked).Fits testCase where
  total := htotal
  bounded hcase := by
    unfold CaseResult.checked
    dsimp only
    split
    · exact ⟨hcase, le_rfl⟩
    · split
      · next hlt => exact ⟨hpoints, hlt.le⟩
      · exact ⟨hcase, le_rfl⟩
    · rw [hzero]
      exact ⟨le_rfl, hcase⟩
  accepted hstatus := by
    have hchecked : checked.status = .AC := hstatus
    unfold CaseResult.checked
    rw [hchecked]
  rejected haccepted hpartial := by
    have hne : checked.status ≠ .AC := haccepted
    have hne' : checked.status ≠ .PT := hpartial
    unfold CaseResult.checked
    dsimp only
    split
    · next h => exact absurd h hne
    · next h => exact absurd h hne'
    · exact hzero

/-- A run that was not accepted gets no points. -/
theorem CaseResult.fits_ran {testCase : PackageCase} {run : RunResult}
    (hstatus : run.status ≠ .AC) : (ran G.arith number testCase run).Fits testCase where
  total := rfl
  bounded hcase := ⟨le_rfl, hcase⟩
  accepted haccepted := absurd haccepted hstatus
  rejected _ _ := rfl

theorem fits_executeCase (hG : G.arith.KeepsNonneg) {plan : Plan} {testCase : PackageCase}
    {kept kept' : Option String} {result : CaseResult}
    (h : (executeCase G plan number testCase kept).run.Yields transcript (.ok (result, kept'))) :
    result.Fits testCase := by
  obtain ⟨_, _, exchange, _, -, -, hlast⟩ := yields_executeCase h
  rcases hlast with ⟨hstatus, -, rfl⟩ | ⟨-, input, answer, checked, hcheck, rfl⟩
  · exact CaseResult.fits_ran hstatus
  · have hfits : (CaseResult.checked (.ran G.arith number testCase (GoJudge.runResult exchange))
        testCase checked).Fits testCase :=
      CaseResult.fits_checked rfl rfl (checkOutput_points_nonneg hG hcheck)
    -- the output of a result is no part of what fits
    exact ⟨hfits.total, hfits.bounded, hfits.accepted, hfits.rejected⟩

theorem fits_interactiveCase (hG : G.arith.KeepsNonneg) {plan : Plan} {testCase : PackageCase}
    {kept kept' : Option String} {result : CaseResult}
    (h : (interactiveCase G plan number testCase kept).run.Yields transcript
      (.ok (result, kept'))) : result.Fits testCase := by
  rw [interactiveCase, yields_bind_ok] at h
  obtain ⟨input, _, _, -, -, h⟩ := h
  rw [yields_bind_ok] at h
  obtain ⟨_, _, _, -, -, h⟩ := h
  rw [yields_bind_ok] at h
  obtain ⟨_, _, _, -, -, h⟩ := h
  rw [yields_bind_ok] at h
  obtain ⟨checked, _, _, -, hchecked, h⟩ := h
  obtain ⟨-, hresult⟩ := yields_pure.mp h
  cases hresult
  exact CaseResult.fits_checked rfl rfl (checkInteractive_points_nonneg hG hchecked)

/-! ### The loop -/

/-- The loop over the cases, for a body whose results fit their cases. -/
theorem reports_executeCases {shortCircuit : Bool}
    {body : ℕ → PackageCase → Option String → Action (CaseResult × Option String)}
    (hbody : ∀ number testCase kept transcript result kept',
      (body number testCase kept).run.Yields transcript (.ok (result, kept')) →
        result.caseNumber = number ∧ result.Fits testCase)
    {index : ℕ} {cases : List PackageCase} {kept : Option String} {results : List CaseResult}
    (h : (executeCases shortCircuit body index cases kept).run.Yields transcript (.ok results)) :
    Reports shortCircuit index cases results := by
  induction cases generalizing index kept transcript results with
  | nil =>
      obtain ⟨-, heq⟩ := yields_pure.mp h
      cases heq
      exact .done index
  | cons testCase rest ih =>
      rw [executeCases, yields_bind_ok] at h
      obtain ⟨⟨result, kept'⟩, first, _, -, hfirst, h⟩ := h
      obtain ⟨hnumber, hfits⟩ := hbody _ _ _ _ _ _ hfirst
      dsimp only at h
      split at h
      · next hstop =>
          obtain ⟨-, heq⟩ := yields_pure.mp h
          cases heq
          exact .stop hnumber hfits hstop.1 hstop.2
      · next hgoes =>
          rw [yields_bind_ok] at h
          obtain ⟨others, last, _, -, hlast, h⟩ := h
          obtain ⟨-, heq⟩ := yields_pure.mp h
          cases heq
          refine .next hnumber hfits (fun hshort => ?_) (ih hlast)
          exact not_not.mp fun hstatus => hgoes ⟨hshort, hstatus⟩

namespace Reports

variable {shortCircuit : Bool} {index : ℕ} {cases : List PackageCase} {results : List CaseResult}

theorem numbers (h : Reports shortCircuit index cases results) :
    results.map CaseResult.caseNumber = List.range' (index + 1) results.length := by
  induction h with
  | done index => rfl
  | stop number => rw [List.map_singleton, number]; rfl
  | next number _ _ _ ih => rw [List.map_cons, number, ih, List.length_cons, List.range'_succ]

theorem length_le (h : Reports shortCircuit index cases results) :
    results.length ≤ cases.length := by
  induction h with
  | done index => exact le_rfl
  | stop => simp
  | next _ _ _ _ ih => simpa using ih

theorem fits (h : Reports shortCircuit index cases results) :
    List.Forall₂ CaseResult.Fits (cases.take results.length) results := by
  induction h with
  | done index => exact .nil
  | stop _ fits => exact .cons fits .nil
  | next _ fits _ _ ih => exact .cons fits ih

theorem complete (h : Reports shortCircuit index cases results) (hshort : shortCircuit = false) :
    results.length = cases.length := by
  induction h with
  | done index => rfl
  | stop _ _ short => simp [hshort] at short
  | next _ _ _ _ ih => rw [List.length_cons, List.length_cons, ih]

theorem stops (h : Reports shortCircuit index cases results) (hshort : shortCircuit = true) :
    ∀ result ∈ results.dropLast, result.status = .AC := by
  induction h with
  | done index => simp
  | stop => simp
  | @next _ _ _ result results _ _ goes _ ih =>
      intro other hother
      cases results with
      | nil => cases hother
      | cons second rest =>
          rw [List.dropLast_cons_cons] at hother
          rcases List.mem_cons.mp hother with rfl | hother
          · exact goes hshort
          · exact ih other hother

theorem stopped (h : Reports shortCircuit index cases results)
    (hlt : results.length < cases.length) : ∃ last ∈ results.getLast?, last.status ≠ .AC := by
  induction h with
  | done index => simp at hlt
  | @stop _ _ _ result _ _ _ status => exact ⟨result, rfl, status⟩
  | @next _ _ _ result results _ _ _ _ ih =>
      obtain ⟨last, hlast, hstatus⟩ := ih (by simpa using hlt)
      refine ⟨last, ?_, hstatus⟩
      rw [Option.mem_def] at hlast ⊢
      rw [List.getLast?_cons, hlast, Option.getD_some]

/-- What the loop makes has the shape of a report. -/
theorem shape (h : Reports shortCircuit 0 cases results) : Shape shortCircuit cases results where
  numbers := h.numbers
  length_le := h.length_le
  fits := h.fits
  complete := h.complete
  stops := h.stops
  stopped := h.stopped

end Reports

/-! ### Whole jobs -/

theorem yields_ensure {job : Job} {root : List String}
    (h : (ensure G job).run.Yields transcript (.ok root)) :
    transcript = [⟨.ensure job.problemID job.digest, .ok ()⟩] ∧
      root = G.cacheRoot ++ [job.digest] := by
  rw [ensure, yields_bind_ok] at h
  obtain ⟨answer, asked, _, rfl, hasked, h⟩ := h
  obtain ⟨_, hask, heq⟩ := yields_lift.mp hasked
  cases heq
  rw [yields_bind_ok] at h
  obtain ⟨_, _, _, rfl, hlifted, h⟩ := h
  obtain ⟨rfl, hok⟩ := yields_liftExcept.mp hlifted
  obtain ⟨rfl, heq⟩ := yields_pure.mp h
  cases heq
  rw [Except.mapError_eq_ok.mp hok] at hask
  exact ⟨by rw [yields_ask.mp hask]; rfl, rfl⟩

theorem yields_loadManifest {root : List String} {manifest : PackageManifest}
    (h : (loadManifest G root).run.Yields transcript (.ok manifest)) :
    ∃ payload, transcript = [⟨.readFile 0 (root ++ ["manifest.json"]), .ok payload⟩] ∧
      G.unmarshalManifest payload = .ok manifest := by
  rw [loadManifest, yields_bind_ok] at h
  obtain ⟨answer, asked, _, rfl, hasked, h⟩ := h
  obtain ⟨_, hask, heq⟩ := yields_lift.mp hasked
  cases heq
  rw [yields_bind_ok] at h
  obtain ⟨payload, _, _, rfl, hlifted, h⟩ := h
  obtain ⟨rfl, hok⟩ := yields_liftExcept.mp hlifted
  obtain ⟨rfl, hunmarshal⟩ := yields_liftExcept.mp h
  rw [Except.mapError_eq_ok.mp hok] at hask
  exact ⟨payload, by rw [yields_ask.mp hask]; rfl, Except.mapError_eq_ok.mp hunmarshal⟩

/-- A submission that is executed is reported in shape, for the cases of the package whose
manifest the worker read.  Nothing is assumed of the sandbox. -/
theorem shape_execute (hG : G.arith.KeepsNonneg) {job : Job} (hmode : job.mode ≠ "run")
    {results : List CaseResult} (h : (execute G job).run.Yields transcript (.ok results)) :
    ∃ payload manifest rest,
      transcript =
        ⟨.ensure job.problemID job.digest, .ok ()⟩ ::
          ⟨.readFile 0 (G.cacheRoot ++ [job.digest] ++ ["manifest.json"]), .ok payload⟩ :: rest ∧
      G.unmarshalManifest payload = .ok manifest ∧
      Shape job.shortCircuit (packageCases job manifest) results := by
  rw [execute, if_neg hmode, executeSubmission, yields_bind_ok] at h
  obtain ⟨root, directory, _, rfl, hroot, h⟩ := h
  obtain ⟨rfl, rfl⟩ := yields_ensure hroot
  rw [yields_bind_ok] at h
  obtain ⟨manifest, loading, _, rfl, hmanifest, h⟩ := h
  obtain ⟨payload, rfl, hunmarshal⟩ := yields_loadManifest hmanifest
  refine ⟨payload, manifest, _, rfl, hunmarshal, ?_⟩
  dsimp only at h
  split at h
  · cases (yields_throw.mp h).2
  · rw [yields_bind_ok] at h
    obtain ⟨validator, _, rest, -, -, h⟩ := h
    -- the two loops differ in their bodies only
    split at h
    · refine (reports_executeCases (fun _ _ _ _ _ _ hcase => ?_) h).shape
      exact ⟨(accounts_interactiveCase hcase).1, fits_interactiveCase hG hcase⟩
    · refine (reports_executeCases (fun _ _ _ _ _ _ hcase => ?_) h).shape
      exact ⟨(accounts_executeCase hcase).1, fits_executeCase hG hcase⟩

/-- The report on a participant that runs out of time. -/
theorem shape_execute_timedOut :
    ∃ transcript results,
      (execute sampleRuntime sampleJob).run.Yields transcript (.ok results) ∧
      results.map CaseResult.status = [.TLE] ∧ Shape false (packageCases sampleJob {
        cases := [{ id := "1", input := "1.in", answer := "1.ans", points := 100 }] }) results := by
  obtain ⟨transcript, outcome, hrun, hcheck⟩ := exists_sampleRun timedOut
    (fun _ outcome =>
      decide (outcome.toOption.map (List.map CaseResult.status) = some [.TLE])) (by decide +kernel)
  rw [decide_eq_true_iff] at hcheck
  cases outcome with
  | error error => cases hcheck
  | ok results =>
      obtain ⟨_, manifest, _, -, hmanifest, hshape⟩ :=
        shape_execute (FloatArith.keepsNonneg_exact _) (by decide) hrun
      cases hmanifest
      exact ⟨transcript, results, hrun, Option.some.inj hcheck, hshape⟩

end JudgeLoom.Go
