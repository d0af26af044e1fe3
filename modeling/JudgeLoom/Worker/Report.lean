import JudgeLoom.Judge.Transitions
import JudgeLoom.Problems.Manifest
import JudgeLoom.Worker.Attribution

/-!
# Posting the results of a job

The results of `Execute` travel as JSON to `record_cases`, which stores them as the
test-case rows of the submission.  `Reported` says that they arrive and are stored as
they are, and `reported_iff` says when that happens: exactly if every answer of the
sandbox is one that the server can keep (`Keeps`), and no row of an earlier attempt
is left over.
-/

namespace JudgeLoom.Go

open JudgeResultService

/-! ## On the way to the server -/

/-- A result as the server decodes it from JSON. -/
def posted (result : CaseResult) : JudgeCaseIn where
  caseNumber := result.caseNumber
  status := result.status.code
  timeUsed := result.timeUsed
  memoryUsed := result.memoryUsed
  points := result.points
  totalPoints := result.totalPoints
  feedback := Utf8.decode result.feedback
  output := Utf8.decode result.output

/-- A row is what the worker reported. -/
structure Kept (row : SubmissionTestCase) (result : CaseResult) : Prop where
  caseNumber : row.caseNumber = result.caseNumber
  status : row.status.value = result.status.code
  points : row.points = result.points
  totalPoints : row.totalPoints = result.totalPoints
  feedback : Utf8.encode row.feedback = result.feedback

/-- `record_cases` accepts the results, and the rows of the submission are exactly these. -/
def Reported (P : Python) (now : Time) (judge id submission : ℕ) (db : Database)
    (results : List CaseResult) : Prop :=
  ∃ db', recordCases P now judge id (results.map posted) db = .ok db' ∧
    List.Forall₂ Kept (db'.testCases submission).rows results

/-! ## What the server can keep -/

/-- The server knows the verdict, and stores the feedback as it is. -/
def KeepsDecision (decision : Verdict × Bytes) : Prop :=
  decision.1 ≠ .PE ∧ Utf8.Valid decision.2 ∧ storableText (Utf8.decode decision.2) = true

def KeepsMemory (memory : ℤ) : Prop := 0 ≤ memory ∧ memory ≤ maxInteger

def KeepsOutput (output : Bytes) : Prop := storableText (Utf8.decode output) = true

/-- What an answer of the sandbox says about a case is kept by the server, and the case is
one of the first `limit`. -/
def Keeps (A : FloatArith) (limit : ℕ) (entry : Entry) : Prop :=
  (∀ number ∈ caseNumber? entry, number ≤ limit) ∧
    (∀ decision ∈ decision? A entry, KeepsDecision decision) ∧
    (∀ memory ∈ memory? entry, KeepsMemory memory) ∧
    (∀ output ∈ output? entry, KeepsOutput output)

instance : DecidablePred KeepsDecision := fun _ => inferInstanceAs (Decidable (_ ∧ _ ∧ _))

instance : DecidablePred KeepsMemory := fun _ => inferInstanceAs (Decidable (_ ∧ _))

instance : DecidablePred KeepsOutput := fun _ => inferInstanceAs (Decidable (_ = _))

instance (A : FloatArith) (limit : ℕ) : DecidablePred (Keeps A limit) :=
  fun _ => inferInstanceAs (Decidable (_ ∧ _ ∧ _ ∧ _))

/-- What the server can keep of a result. -/
def KeepsResult (limit : ℕ) (result : CaseResult) : Prop :=
  result.caseNumber ≤ limit ∧ KeepsDecision (result.status, result.feedback) ∧
    KeepsMemory result.memoryUsed ∧ KeepsOutput result.output

theorem keepsDecision_builtIn : ∀ decision ∈ builtIn, KeepsDecision decision := by
  decide +kernel

section Transcripts

variable {A : FloatArith} {limit : ℕ} {transcript : List Entry}

/-- A result can be kept exactly if its entries can. -/
theorem Accounts.keeps_iff {result : CaseResult} (h : Accounts A transcript result) :
    (∀ entry ∈ transcript, Keeps A limit entry) ↔ KeepsResult limit result := by
  have hdecided := h.decided.iff (K := KeepsDecision) keepsDecision_builtIn
  have hmemory := h.memory.iff (K := KeepsMemory) (by
    rintro _ rfl
    decide)
  have houtput := h.output.iff (K := KeepsOutput) (by
    rintro _ rfl
    decide)
  unfold KeepsResult
  rw [← hdecided, ← hmemory, ← houtput]
  constructor
  · intro hall
    obtain ⟨entry, hentry, hnumber⟩ := h.present
    exact ⟨(hall entry hentry).1 _ hnumber, fun entry hentry said hsaid =>
      (hall entry hentry).2.1 said hsaid, fun entry hentry said hsaid =>
      (hall entry hentry).2.2.1 said hsaid, fun entry hentry said hsaid =>
      (hall entry hentry).2.2.2 said hsaid⟩
  · rintro ⟨hlimit, hdecision, hmemory, houtput⟩ entry hentry
    exact ⟨fun number hnumber => h.here entry hentry number hnumber ▸ hlimit,
      hdecision entry hentry, hmemory entry hentry, houtput entry hentry⟩

/-- The results of a run can be kept exactly if its entries can. -/
theorem Ledger.keeps_iff {index : ℕ} {results : List CaseResult}
    (h : Ledger (Accounts A) index transcript results) :
    (∀ entry ∈ transcript, Keeps A limit entry) ↔
      ∀ result ∈ results, KeepsResult limit result := by
  induction h with
  | nil index => simp
  | cons number account _ ih =>
      rw [List.forall_mem_append, List.forall_mem_cons, account.keeps_iff, ih]

/-- The case numbers of the entries of a run are those of its results. -/
theorem Ledger.exists_caseNumber_iff {index : ℕ} {results : List CaseResult}
    (h : Ledger (Accounts A) index transcript results) {number : ℕ} :
    (∃ entry ∈ transcript, caseNumber? entry = some number) ↔
      number ∈ results.map CaseResult.caseNumber := by
  induction h with
  | nil index => simp
  | @cons index first rest result results hnumber account _ ih =>
      rw [List.map_cons, List.mem_cons, ← ih]
      constructor
      · rintro ⟨entry, hentry, hentryNumber⟩
        rcases List.mem_append.mp hentry with hentry | hentry
        · exact Or.inl (account.here entry hentry number hentryNumber)
        · exact Or.inr ⟨entry, hentry, hentryNumber⟩
      · rintro (rfl | ⟨entry, hentry, hentryNumber⟩)
        · obtain ⟨entry, hentry, hentryNumber⟩ := account.present
          exact ⟨entry, List.mem_append_left _ hentry, hentryNumber⟩
        · exact ⟨entry, List.mem_append_right _ hentry, hentryNumber⟩

theorem Quiet.keeps {entry : Entry} (h : Quiet A 0 entry) : Keeps A limit entry := by
  refine ⟨fun number hnumber => ?_, ?_, ?_, ?_⟩
  · rw [h.here number hnumber]
    exact Nat.zero_le limit
  · rw [h.decision]
    rintro _ ⟨⟩
  · rw [h.memory]
    rintro _ ⟨⟩
  · rw [h.output]
    rintro _ ⟨⟩

end Transcripts

/-! ## Storing the results -/

section Rows

variable {P : Python} {manifestCases : List Json}

/-- `record_cases` can store a report. -/
def Recordable (P : Python) (manifestCases : List Json) (report : JudgeCaseIn) : Prop :=
  (manifestCases ≠ [] → 1 ≤ report.caseNumber ∧ report.caseNumber ≤ manifestCases.length) ∧
    (0 < report.caseNumber → (reportRow P manifestCases report).storable = true)

theorem recordCase_eq_ok_iff (recorded : TestCases × ℕ) (report : JudgeCaseIn)
    (recorded' : TestCases × ℕ) :
    recordCase P manifestCases recorded report = .ok recorded' ↔
      Recordable P manifestCases report ∧
        recorded' = (upsertCase P manifestCases recorded.1 report,
          if report.caseNumber ≤ 0 then recorded.2
          else max recorded.2 report.caseNumber.toNat) := by
  constructor
  · intro h
    refine ⟨?_, recordCase_eq_ok h⟩
    unfold recordCase at h
    split_ifs at h with hrange hpositive
    · refine ⟨fun hnonempty => ?_, fun hlt => absurd hpositive (not_le.mpr hlt)⟩
      by_contra hout
      exact hrange ⟨hnonempty, hout⟩
    · dsimp only at h
      split_ifs at h with hstorable
      refine ⟨fun hnonempty => ?_, fun _ => hstorable⟩
      by_contra hout
      exact hrange ⟨hnonempty, hout⟩
  · rintro ⟨⟨hrange, hstorable⟩, rfl⟩
    unfold recordCase upsertCase
    rw [if_neg fun hout => hout.2 (hrange hout.1)]
    split_ifs with hpositive
    · rfl
    · dsimp only
      rw [if_pos (hstorable (not_le.mp hpositive))]
      rfl

/-- The rows after consecutive results were posted. -/
theorem foldl_upsertCase_posted {results : List CaseResult}
    (h : ∀ result ∈ results, 0 < result.caseNumber) (testCases : TestCases) :
    (results.map posted).foldl (upsertCase P manifestCases) testCases =
      (results.map fun result => reportRow P manifestCases (posted result)).foldl Table.save
        testCases := by
  induction results generalizing testCases with
  | nil => rfl
  | cons result rest ih =>
      rw [List.forall_mem_cons] at h
      have hpositive : ¬ (posted result).caseNumber ≤ 0 := by
        change ¬ (result.caseNumber : ℤ) ≤ 0
        have := h.1
        omega
      simp only [List.map_cons, List.foldl_cons]
      rw [ih h.2, upsertCase, if_neg hpositive]

/-- The stored status is the reported one unless the server does not know it. -/
theorem value_ofReport_code (verdict : Verdict) :
    (SubmissionResult.ofReport verdict.code).value = verdict.code ↔ verdict ≠ .PE := by
  cases verdict <;> decide

theorem kept_reportRow_iff (result : CaseResult) :
    Kept (reportRow P manifestCases (posted result)) result ↔
      result.status ≠ .PE ∧ Utf8.Valid result.feedback := by
  constructor
  · intro h
    exact ⟨(value_ofReport_code result.status).mp h.status, Utf8.encode_decode_iff.mp h.feedback⟩
  · rintro ⟨hstatus, hfeedback⟩
    exact ⟨Int.toNat_natCast _, (value_ofReport_code result.status).mpr hstatus, rfl, rfl,
      Utf8.encode_decode_iff.mpr hfeedback⟩

/-- The rows of the results are those of the reports exactly if every row is. -/
theorem forall₂_kept_iff {results : List CaseResult} :
    List.Forall₂ Kept (results.map fun result => reportRow P manifestCases (posted result))
        results ↔
      ∀ result ∈ results, result.status ≠ .PE ∧ Utf8.Valid result.feedback := by
  induction results with
  | nil => simp
  | cons result rest ih =>
      rw [List.map_cons, List.forall₂_cons, List.forall_mem_cons, kept_reportRow_iff, ih]

/-- Rows that are those of consecutive results leave no room for another. -/
theorem caseNumbers_of_forall₂ {rows : List SubmissionTestCase} {results : List CaseResult}
    (h : List.Forall₂ Kept rows results) :
    rows.map SubmissionTestCase.caseNumber = results.map CaseResult.caseNumber := by
  induction h with
  | nil => rfl
  | cons hkept _ ih => rw [List.map_cons, List.map_cons, hkept.caseNumber, ih]

end Rows

section Import

variable {P : Python} {package : ProblemPackage} {imported : PackageImportService.Imported}

theorem caseGroup_caseJson (index : ℕ) (testCase : ArchiveCase ℚ) :
    caseGroup P (PackageImportService.caseJson index testCase) = testCase.group := rfl

/-- The group of a reported case of an imported package can be stored. -/
theorem storable_manifestGroup (h : package.ImportedAs P imported) {caseNumber : ℕ}
    (hpositive : 0 < caseNumber) (hle : caseNumber ≤ (manifestCases package.manifest).length) :
    (manifestGroup P (manifestCases package.manifest) caseNumber).length ≤ 32 ∧
      storableText (manifestGroup P (manifestCases package.manifest) caseNumber) = true := by
  rw [h.length_manifestCases] at hle
  have hindex : caseNumber - 1 < imported.cases.length := by omega
  have hgroup : manifestGroup P (manifestCases package.manifest) caseNumber =
      imported.cases[caseNumber - 1].group := by
    rw [manifestGroup, h.manifestCases_eq, List.getElem?_mapIdx, List.getElem?_eq_getElem hindex]
    exact caseGroup_caseJson _ _
  rw [hgroup]
  exact h.storable_group (List.getElem_mem hindex)

/-- A result of an imported package can be recorded exactly if its case is one of the
package's and its data can be stored. -/
theorem recordable_posted_iff (h : package.ImportedAs P imported) {result : CaseResult}
    (hpositive : 0 < result.caseNumber) :
    Recordable P (manifestCases package.manifest) (posted result) ↔
      result.caseNumber ≤ (manifestCases package.manifest).length ∧
        KeepsMemory result.memoryUsed ∧
        storableText (Utf8.decode result.feedback) = true ∧ KeepsOutput result.output := by
  have hnonempty : manifestCases package.manifest ≠ [] := by
    rw [h.manifestCases_eq, ne_eq, List.mapIdx_eq_nil_iff]
    exact h.cases_ne_nil
  have hrange : (1 ≤ (posted result).caseNumber ∧
      (posted result).caseNumber ≤ (manifestCases package.manifest).length) ↔
      result.caseNumber ≤ (manifestCases package.manifest).length := by
    change (1 ≤ (result.caseNumber : ℤ) ∧ (result.caseNumber : ℤ) ≤ _) ↔ _
    omega
  have hreported : 0 < (posted result).caseNumber := by
    change 0 < (result.caseNumber : ℤ)
    omega
  simp only [Recordable, hnonempty, ne_eq, not_false_eq_true, forall_true_left, hrange, hreported]
  refine and_congr_right fun hle => ?_
  obtain ⟨hlength, hgroup⟩ := storable_manifestGroup h hpositive hle
  have hnumber : ((reportRow P (manifestCases package.manifest) (posted result)).caseNumber : ℤ) ≤
      maxInteger := by
    have hmax := h.length_cases_le
    rw [h.length_manifestCases] at hle
    change ((result.caseNumber : ℤ).toNat : ℤ) ≤ 2147483647
    have hcases : PackageImportService.maxTestCases = 200 := rfl
    omega
  have hrow : (reportRow P (manifestCases package.manifest) (posted result)).group =
      manifestGroup P (manifestCases package.manifest) result.caseNumber := rfl
  simp only [SubmissionTestCase.storable, Bool.and_eq_true, decide_eq_true_iff, hnumber, hrow,
    hlength, hgroup, KeepsMemory, KeepsOutput, true_and, and_true]
  exact and_assoc

end Import

/-! ## Report fidelity -/

section Fidelity

variable {P : Python} {G : Runtime PackageManifest} {now : Time} {judge id : ℕ} {db : Database}
  {judging : Judging} {package : ProblemPackage} {imported : PackageImportService.Imported}

/-- A batch is recorded exactly if each of its reports can be, and is stored one report
after the other. -/
theorem foldlM_recordCase_iff {manifestCases : List Json} {reports : List JudgeCaseIn}
    (recorded : TestCases × ℕ) :
    (∃ recorded', reports.foldlM (recordCase P manifestCases) recorded = .ok recorded') ↔
      ∀ report ∈ reports, Recordable P manifestCases report := by
  constructor
  · rintro ⟨recorded', hrecorded⟩
    exact ((Except.foldlM_eq_ok_iff recordCase_eq_ok_iff).mp hrecorded).1
  · intro hall
    exact ⟨_, (Except.foldlM_eq_ok_iff recordCase_eq_ok_iff).mpr ⟨hall, rfl⟩⟩

/-- What `record_cases` does to the rows of a submission. -/
theorem reported_iff_foldl (hjudging : db.judging? id = some judging)
    (howned : assertOwned now judge judging.job = .ok ()) (results : List CaseResult) :
    Reported P now judge id judging.job.submission db results ↔
      (∀ report ∈ results.map posted, Recordable P judging.job.manifestCases report) ∧
        List.Forall₂ Kept
          ((results.map posted).foldl (upsertCase P judging.job.manifestCases)
            judging.testCases).rows results := by
  have hsubmission : judging.submission.id = judging.job.submission :=
    Table.key_of_get? (Database.judging?_eq_some.mp hjudging).2.1
  have hlock : db.lockJob id = .ok judging := by rw [Database.lockJob, hjudging]
  -- the rows that the call leaves, whatever else it writes
  have hrows (testCases : TestCases) (job : JudgeJob) (submission : Submission)
      (hid : submission.id = judging.submission.id) :
      (db.store { job, submission, testCases }).testCases judging.job.submission = testCases := by
    rw [← hsubmission, ← hid]
    exact Function.update_self ..
  unfold Reported
  rw [← foldlM_recordCase_iff (judging.testCases, judging.submission.currentTestcase)]
  constructor
  · rintro ⟨db', hrecord, hkept⟩
    obtain ⟨_, hlocked, hrecord⟩ := Except.bind_eq_ok.mp hrecord
    cases hlock.symm.trans hlocked
    obtain ⟨_, -, hrecord⟩ := Except.bind_eq_ok.mp hrecord
    obtain ⟨⟨testCases, maxCase⟩, hfold, hrecord⟩ := Except.bind_eq_ok.mp hrecord
    cases hrecord
    have hkept' := (hrows testCases _ (recordedSubmission judging.job.manifestCases testCases
      maxCase judging.submission) rfl) ▸ hkept
    rw [← foldlM_recordCase hfold]
    exact ⟨⟨_, hfold⟩, hkept'⟩
  · rintro ⟨⟨⟨testCases, maxCase⟩, hfold⟩, hkept⟩
    refine ⟨_, Except.bind_eq_ok.mpr ⟨judging, hlock, Except.bind_eq_ok.mpr ⟨(), howned,
      Except.bind_eq_ok.mpr ⟨(testCases, maxCase), hfold, rfl⟩⟩⟩, ?_⟩
    have hstored := hrows testCases (judging.job.record now) (recordedSubmission
      judging.job.manifestCases testCases maxCase judging.submission) rfl
    rw [hstored, foldlM_recordCase hfold]
    exact hkept

/-- The results arrive as they are exactly if the server can keep each of them and no row
of another case is left over. -/
theorem reported_iff_keepsResult (hjudging : db.judging? id = some judging)
    (howned : assertOwned now judge judging.job = .ok ())
    (hpackage : judging.job.package = some package) (himported : package.ImportedAs P imported)
    {results : List CaseResult}
    (hnumbers : results.map CaseResult.caseNumber = List.range' 1 results.length) :
    Reported P now judge id judging.job.submission db results ↔
      (∀ result ∈ results,
          KeepsResult (JudgeLoom.manifestCases package.manifest).length result) ∧
        ∀ row ∈ judging.testCases.rows,
          row.caseNumber ∈ results.map CaseResult.caseNumber := by
  have hmanifest : judging.job.manifestCases = JudgeLoom.manifestCases package.manifest := by
    rw [JudgeJob.manifestCases, hpackage]
    rfl
  have hpositive : ∀ result ∈ results, 0 < result.caseNumber := by
    intro result hresult
    have hmem := List.mem_map_of_mem (f := CaseResult.caseNumber) hresult
    rw [hnumbers, List.mem_range'_1] at hmem
    omega
  have hkeys : (results.map fun result =>
      reportRow P judging.job.manifestCases (posted result)).map SubmissionTestCase.caseNumber =
        results.map CaseResult.caseNumber := by
    rw [List.map_map]
    exact List.map_congr_left fun result _ => Int.toNat_natCast _
  have hsorted : (results.map fun result =>
      reportRow P judging.job.manifestCases (posted result)).Pairwise
        fun first second => first.caseNumber < second.caseNumber := by
    rw [← List.pairwise_map (f := SubmissionTestCase.caseNumber), hkeys, hnumbers]
    exact List.pairwise_lt_range'
  rw [reported_iff_foldl hjudging howned, foldl_upsertCase_posted hpositive]
  constructor
  · rintro ⟨hrecordable, hkept⟩
    have hleft : ∀ row ∈ judging.testCases.rows,
        row.caseNumber ∈ results.map CaseResult.caseNumber := by
      intro row hrow
      by_contra hother
      have hstored := Table.get?_foldl_save_of_notMem (hkeys ▸ hother) judging.testCases
      rw [Table.get?_key_of_mem hrow] at hstored
      refine hother (caseNumbers_of_forall₂ hkept ▸ ?_)
      exact List.mem_map_of_mem (Table.mem_of_get? hstored)
    rw [Table.rows_foldl_save hsorted (by rwa [hkeys]), forall₂_kept_iff] at hkept
    refine ⟨fun result hresult => ?_, hleft⟩
    have hrecord := hrecordable _ (List.mem_map_of_mem hresult)
    rw [hmanifest, recordable_posted_iff himported (hpositive result hresult)] at hrecord
    obtain ⟨hlimit, hmemory, hfeedback, houtput⟩ := hrecord
    obtain ⟨hstatus, hvalid⟩ := hkept result hresult
    exact ⟨hlimit, ⟨hstatus, hvalid, hfeedback⟩, hmemory, houtput⟩
  · rintro ⟨hkeeps, hleft⟩
    rw [Table.rows_foldl_save hsorted (by rwa [hkeys]), forall₂_kept_iff]
    constructor
    · rintro _ hreport
      obtain ⟨result, hresult, rfl⟩ := List.mem_map.mp hreport
      obtain ⟨hlimit, ⟨-, -, hfeedback⟩, hmemory, houtput⟩ := hkeeps result hresult
      rw [hmanifest, recordable_posted_iff himported (hpositive result hresult)]
      exact ⟨hlimit, hmemory, hfeedback, houtput⟩
    · intro result hresult
      obtain ⟨-, ⟨hstatus, hvalid, -⟩, -⟩ := hkeeps result hresult
      exact ⟨hstatus, hvalid⟩

/-- The results of a submission arrive as they are exactly if the server can keep what each
answer of the sandbox says, and every row of an earlier attempt is of a case that was
judged again. -/
theorem reported_iff {job : Job} {transcript : List Entry} {results : List CaseResult}
    (hmode : job.mode ≠ "run") (hrun : (execute G job).run.Yields transcript (.ok results))
    (hjudging : db.judging? id = some judging)
    (howned : assertOwned now judge judging.job = .ok ())
    (hpackage : judging.job.package = some package)
    (himported : package.ImportedAs P imported) :
    Reported P now judge id judging.job.submission db results ↔
      (∀ entry ∈ transcript,
          Keeps G.arith (JudgeLoom.manifestCases package.manifest).length entry) ∧
        ∀ row ∈ judging.testCases.rows, row.caseNumber ≠ 0 ∧
          ∃ entry ∈ transcript, caseNumber? entry = some row.caseNumber := by
  rw [execute, if_neg hmode] at hrun
  obtain ⟨first, rest, rfl, hfirst, hledger⟩ := ledger_executeSubmission hrun
  rw [reported_iff_keepsResult hjudging howned hpackage himported hledger.caseNumbers,
    ← hledger.keeps_iff, List.forall_mem_append]
  refine and_congr ⟨fun hrest => ⟨fun entry hentry => (hfirst entry hentry).keeps, hrest⟩,
    fun hall => hall.2⟩ (forall₂_congr fun row hrow => ?_)
  rw [← hledger.exists_caseNumber_iff]
  constructor
  · rintro ⟨entry, hentry, hnumber⟩
    refine ⟨?_, entry, List.mem_append_right _ hentry, hnumber⟩
    have hmem := hledger.exists_caseNumber_iff.mp ⟨entry, hentry, hnumber⟩
    rw [hledger.caseNumbers, List.mem_range'_1] at hmem
    omega
  · rintro ⟨hpositive, entry, hentry, hnumber⟩
    rcases List.mem_append.mp hentry with hentry | hentry
    · exact absurd ((hfirst entry hentry).here _ hnumber) hpositive
    · exact ⟨entry, hentry, hnumber⟩

end Fidelity

/-! ## A sample package on the server -/

/-- Every archive is a manifest with one case and a testlib checker. -/
def bundlePython : Python :=
  { Python.plain (.exact FloatArith.decimalRound) with
    openZip := fun _ => .ok [
      { name := "manifest.json", content := .ok [], fileSize := 1 },
      { name := "1.in", content := .ok [], fileSize := 1 },
      { name := "1.ans", content := .ok [], fileSize := 1 }]
    loads := fun _ => .ok (.obj [
      ("cases", .arr [.obj [
        ("input", .str "1.in"), ("answer", .str "1.ans"), ("points", .int 100)]]),
      ("checker", .obj [("type", .str "testlib"), ("source", .str "int main() \x7b\x7d")])]) }

def bundleProblem : Problem where
  id := 7
  code := "PE"
  points := 100
  timeLimit := 1
  memoryLimit := 262144
  partialScore := false
  shortCircuit := false

/-- What is stored of the sample package. -/
def bundle : PackageImportService.Imported :=
  ((PackageImportService.readArchive bundlePython bundleProblem []).toOption).getD ⟨[], []⟩

def bundlePackage : ProblemPackage where
  id := 1
  problem := 7
  version := 1
  sha256 := "aa"
  manifest := .obj bundle.manifest
  isActive := true

/-- The job of the sample package that judge 7 works on. -/
def bundleJob : JudgeJob where
  id := 1
  submission := 1
  package := some bundlePackage
  language := "CPP17"
  status := .running
  claimedBy := some 7
  leaseExpiresAt := some leaseSeconds
  config :=
    { timeLimit := 1
      memoryLimit := 262144
      shortCircuit := false
      partialScore := false
      mode := .submit
      customInput := ""
      expectedOutput := "" }
  createdAt := 0

def bundleSubmission : Submission where
  id := 1
  user := 1
  problem := 7
  language := "CPP17"
  createdAt := 0

def bundleDatabase : Database where
  submissions := Table.save ∅ bundleSubmission
  jobs := Table.save ∅ bundleJob

theorem importedAs_bundle : bundlePackage.ImportedAs bundlePython bundle :=
  ⟨⟨bundleProblem, Except.eq_ok_getD (by decide +kernel) _⟩, by decide +kernel, rfl⟩

theorem judging_bundle : bundleDatabase.judging? 1 = some ⟨bundleJob, bundleSubmission, ∅⟩ := rfl

theorem owned_bundle : assertOwned 0 7 bundleJob = .ok () := by decide

/-- The checker accepts the output. -/
def acceptedOutput : List Exchange :=
  [compiledTo "main", exchangeOf { status := "Accepted" }, compiledTo "checker",
    exchangeOf { status := "Accepted" }]

/-- The checker finds a presentation error. -/
def presentationError : List Exchange :=
  [compiledTo "main", exchangeOf { status := "Accepted" }, compiledTo "checker",
    exchangeOf { status := "Nonzero Exit Status", exitStatus := 2 }]

/-- An accepted case is reported as it is. -/
theorem reported_iff_accepted :
    ∃ transcript results, (execute sampleRuntime sampleJob).run.Yields transcript (.ok results) ∧
      results.map CaseResult.status = [.AC] ∧
      Reported bundlePython 0 7 1 1 bundleDatabase results := by
  obtain ⟨transcript, outcome, hrun, hcheck⟩ := exists_sampleRun acceptedOutput
    (fun transcript outcome =>
      decide (outcome.toOption.map (List.map CaseResult.status) = some [.AC]) &&
        decide (∀ entry ∈ transcript, Keeps sampleRuntime.arith 1 entry)) (by decide +kernel)
  rw [Bool.and_eq_true, decide_eq_true_iff, decide_eq_true_iff] at hcheck
  obtain ⟨hresults, hkeeps⟩ := hcheck
  cases outcome with
  | error error => cases hresults
  | ok results =>
      refine ⟨transcript, results, hrun, Option.some.inj hresults, ?_⟩
      have hlength : (manifestCases bundlePackage.manifest).length = 1 := by
        rw [importedAs_bundle.length_manifestCases]
        decide +kernel
      exact (reported_iff (by decide) hrun judging_bundle owned_bundle rfl importedAs_bundle).mpr
        ⟨hlength.symm ▸ hkeeps, fun row hrow => absurd hrow List.not_mem_nil⟩

/-- A presentation error is stored as a verdict that nobody gave. -/
theorem presentationError_not_reported :
    ∃ transcript results, (execute sampleRuntime sampleJob).run.Yields transcript (.ok results) ∧
      results.map CaseResult.status = [.PE] ∧
      ¬ Reported bundlePython 0 7 1 1 bundleDatabase results := by
  obtain ⟨transcript, outcome, hrun, hcheck⟩ := exists_sampleRun presentationError
    (fun _ outcome =>
      decide (outcome.toOption.map (List.map CaseResult.status) = some [.PE])) (by decide +kernel)
  cases outcome with
  | error error => cases of_decide_eq_true hcheck
  | ok results =>
      have hstatus : results.map CaseResult.status = [.PE] :=
        Option.some.inj (of_decide_eq_true hcheck)
      refine ⟨transcript, results, hrun, hstatus, fun hreported => ?_⟩
      obtain ⟨result, rfl, hPE⟩ := List.map_eq_singleton_iff.mp hstatus
      obtain ⟨first, rest, -, -, hledger⟩ := ledger_executeSubmission hrun
      have hkeeps := ((reported_iff_keepsResult judging_bundle owned_bundle rfl
        importedAs_bundle hledger.caseNumbers).mp hreported).1
      exact (hkeeps result (List.mem_singleton_self _)).2.1.1 hPE

end JudgeLoom.Go
