import JudgeLoom.Judge.Outcome
import JudgeLoom.Judge.Shadow
import JudgeLoom.Judge.Verdict

/-!
# Replays against the primary judgement

A job and a replay that receive the same reports, one for each case, need not agree.
`record_cases` of a job upserts its reports, that of a replay replaces them, so after two
batches the replay counts the cases of the second one only; and where a job is scored on
the server, a replay takes the first code that is not `AC`, as the judge wrote it.
`agrees_iff` says when the two come to the same.
-/

namespace JudgeLoom

open ScoringService JudgeResultService

/-! ## Reports as rows -/

section Rows

variable {P : Python} {manifestCases : List Json} {reports : List JudgeCaseIn}

/-- Reports of distinct cases are stored as one row each. -/
theorem rows_foldl_upsertCase (hpositive : ∀ report ∈ reports, 0 < report.caseNumber)
    (hnodup : (reports.map JudgeCaseIn.caseNumber).Nodup) :
    (reports.foldl (upsertCase P manifestCases) ∅).rows.Perm
      (reports.map (reportRow P manifestCases)) := by
  induction reports using List.reverseRecOn with
  | nil => exact List.Perm.refl []
  | append_singleton reports report ih =>
      have hlast : 0 < report.caseNumber := hpositive report (by simp)
      rw [List.map_append, List.nodup_append] at hnodup
      have hfresh : lastReport reports (reportRow P manifestCases report).caseNumber = none := by
        refine List.find?_eq_none.mpr fun other hother hsame => ?_
        have hkey : other.caseNumber = report.caseNumber := by
          have hcast : ((reportRow P manifestCases report).caseNumber : ℤ) = report.caseNumber :=
            Int.toNat_of_nonneg hlast.le
          rw [← hcast]
          simpa using hsame
        exact hnodup.2.2 other.caseNumber (List.mem_map_of_mem (List.mem_reverse.mp hother))
          report.caseNumber (by simp) hkey
      have hnumber : 0 < (reportRow P manifestCases report).caseNumber := by
        change 0 < report.caseNumber.toNat
        omega
      have hnone : (reports.foldl (upsertCase P manifestCases) ∅).get?
          (reportRow P manifestCases report).caseNumber = none := by
        rw [get?_foldl_upsertCase reports hnumber, hfresh]
        rfl
      rw [List.foldl_append, List.foldl_cons, List.foldl_nil, upsertCase, if_neg (by omega),
        List.map_append]
      have hrows := ih (fun other hother => hpositive other (List.mem_append_left _ hother)) hnodup.1
      refine (Table.perm_rows_save hnone).trans ((hrows.cons _).trans ?_)
      exact (List.perm_append_singleton _ _).symm

/-- The reports as the score receives them, in the order of their case numbers. -/
def casePayloads (P : Python) (manifestCases : List Json) (reports : List JudgeCaseIn) :
    List CasePayload :=
  (reports.foldl (upsertCase P manifestCases) ∅).rows.map casePayload

theorem caseStatus_casePayload_reportRow (report : JudgeCaseIn) :
    caseStatus (casePayload (reportRow P manifestCases report)) = .ofReport report.status :=
  SubmissionResult.ofReport_value _

/-- The verdicts that the score sees are those of the reports. -/
theorem map_caseStatus_casePayloads (hpositive : ∀ report ∈ reports, 0 < report.caseNumber)
    (hnodup : (reports.map JudgeCaseIn.caseNumber).Nodup) :
    ((casePayloads P manifestCases reports).map caseStatus).Perm
      (reports.map fun report => .ofReport report.status) := by
  have hrows : (reports.foldl (upsertCase P manifestCases) ∅).rows.Perm
      (reports.map (reportRow P manifestCases)) := rows_foldl_upsertCase hpositive hnodup
  have hstatuses := hrows.map (caseStatus ∘ casePayload)
  rw [List.map_map] at hstatuses
  unfold casePayloads
  rw [List.map_map]
  refine hstatuses.trans (List.Perm.of_eq ?_)
  exact List.map_congr_left fun report _ => caseStatus_casePayload_reportRow report

end Rows

/-- A job and its replay receive the same reports, one for each case of the manifest. -/
structure SameReports (m : ScoringManifest) (reports : List JudgeCaseIn)
    (batches : List (List JudgeCaseIn)) : Prop where
  covers : (reports.map JudgeCaseIn.caseNumber).Perm
    ((List.range' 1 m.cases.length).map Nat.cast)
  same : batches.flatten.Perm reports
  nonempty : ∀ batch ∈ batches, batch ≠ []

namespace SameReports

variable {m : ScoringManifest} {reports : List JudgeCaseIn} {batches : List (List JudgeCaseIn)}
  (h : SameReports m reports batches)

include h

theorem length_eq : reports.length = m.cases.length := by
  simpa using h.covers.length_eq

theorem positive : ∀ report ∈ reports, 0 < report.caseNumber := by
  intro report hreport
  obtain ⟨i, hi, hcast⟩ := List.mem_map.mp
    (h.covers.mem_iff.mp (List.mem_map_of_mem (f := JudgeCaseIn.caseNumber) hreport))
  rw [← hcast]
  have := List.mem_range'_1.mp hi
  show 0 < (i : ℤ)
  omega

theorem nodup : (reports.map JudgeCaseIn.caseNumber).Nodup :=
  h.covers.nodup_iff.mpr ((List.nodup_range' 1).map Nat.cast_injective)

/-- The stored rows cover the manifest. -/
theorem covers_casePayloads (P : Python) (manifestCases : List Json) :
    Covers m (casePayloads P manifestCases reports) := by
  have hrows : (reports.foldl (upsertCase P manifestCases) ∅).rows.Perm
      (reports.map (reportRow P manifestCases)) := rows_foldl_upsertCase h.positive h.nodup
  have hnumbers : ((reports.foldl (upsertCase P manifestCases) ∅).rows.map
      SubmissionTestCase.caseNumber).Perm (List.range' 1 m.cases.length) := by
    refine (hrows.map _).trans ?_
    have hcast := h.covers.map Int.toNat
    rw [List.map_map, List.map_map] at hcast
    rw [List.map_map]
    refine hcast.trans (List.Perm.of_eq ?_)
    exact (List.map_congr_left fun i _ => Int.toNat_natCast i).trans (List.map_id _)
  have hsorted := (reports.foldl (upsertCase P manifestCases) ∅).sorted
  have heq := hnumbers.eq_of_pairwise (fun first second _ _ hlt hgt => by omega)
    (List.pairwise_map.mpr hsorted) List.pairwise_lt_range'
  unfold Covers casePayloads
  rw [List.map_map, ← heq, List.map_map]
  rfl

theorem perm_of_singleton {batch : List JudgeCaseIn} (hsingle : batches = [batch]) :
    batch.Perm reports := by
  have hsame := h.same
  rwa [hsingle, List.flatten_singleton] at hsame

/-- A batch with as many reports as there are cases is the only one. -/
theorem batches_eq_singleton {batch : List JudgeCaseIn} (hlast : batch ∈ batches.getLast?)
    (hlength : batch.length = m.cases.length) : batches = [batch] := by
  obtain ⟨others, rfl⟩ := List.getLast?_eq_some_iff.mp hlast
  have htotal := h.same.length_eq
  rw [List.flatten_append, List.length_append, List.flatten_singleton, h.length_eq, hlength] at htotal
  have hothers : others.flatten = [] := List.length_eq_zero_iff.mp (by omega)
  cases others with
  | nil => rfl
  | cons first rest =>
      have hfirst := h.nonempty first (by simp)
      exact absurd (List.append_eq_nil_iff.mp hothers).1 hfirst

end SameReports

/-! ## Finished replays -/

/-- A run at whose end a judge finishes replay `id`. -/
structure FinishedReplay (P : Python) (id : ℕ) where
  start : ReplayWorld
  ops : List ReplayOp
  judge : ℕ
  payload : JudgeFinishIn
  /-- The replay before the last call. -/
  before : ShadowJob
  /-- The replay after the last call. -/
  after : ShadowJob
  before_eq : (start.run P ops).shadows.get? id = some before
  after_eq : (start.run P (ops ++ [.shadow (.finish judge id payload)])).shadows.get? id = some after
  unfinished : before.status ≠ .succeeded
  finished : after.status = .succeeded

namespace FinishedReplay

variable {P : Python} {id : ℕ}

/-- The batches that the replay received since its last claim. -/
def batches (replay : FinishedReplay P id) : List (List JudgeCaseIn) :=
  (ShadowHistory.run P id replay.start replay.ops).batches

/-- A finished replay reflects its last batch. -/
theorem after_spec (replay : FinishedReplay P id) {batch : List JudgeCaseIn}
    (hlast : batch ∈ replay.batches.getLast?) :
    replay.after.result = ShadowJob.verdict batch replay.payload ∧
      replay.after.caseTotal = batch.length ∧ replay.after.casePassed = ShadowJob.accepted batch := by
  have hkept := ShadowHistory.kept_run P id replay.start replay.ops batch hlast
  rw [ShadowHistory.world_run, replay.before_eq] at hkept
  have hbatch : replay.before.caseResults = batch := Option.some.inj hkept
  have hafter := replay.after_eq
  rw [ReplayWorld.run_append_singleton, ReplayWorld.step] at hafter
  split at hafter
  · next shadows hperform =>
      obtain ⟨locked, hlocked, rfl⟩ := ShadowJobService.finish_eq_ok hperform
      obtain rfl : replay.before = locked :=
        Option.some.inj (replay.before_eq.symm.trans hlocked)
      have hid : id = replay.before.id := (Table.key_of_get? hlocked).symm
      dsimp only at hafter
      rw [Table.get?_save, if_pos (show id = (replay.before.succeed _ _ _).id from hid)] at hafter
      rw [← Option.some.inj hafter, ← hbatch]
      exact ⟨rfl, rfl, rfl⟩
  · -- a rejected call would leave the replay unfinished
    rw [replay.before_eq] at hafter
    exact absurd (Option.some.inj hafter ▸ replay.finished) replay.unfinished

end FinishedReplay

/-! ## Agreement -/

theorem SubmissionResult.ofReport_eq_AC {code : String} : ofReport code = AC ↔ code = AC.value := by
  constructor
  · intro h
    unfold ofReport ofValue? at h
    cases hfind : all.find? fun result => result.value = code with
    | none =>
        rw [hfind] at h
        cases h
    | some result =>
        rw [hfind, Option.getD_some] at h
        subst h
        simpa [eq_comm] using List.find?_some hfind
  · rintro rfl
    exact ofReport_value AC

/-- The verdict on the reports of a finished job. -/
theorem FinishedRun.verdict_spec {P : Python} {id : ℕ} (primary : FinishedRun P id)
    {package : ProblemPackage} {m : ScoringManifest} {batches : List (List JudgeCaseIn)}
    (hmode : primary.before.submission.mode = .submit)
    (hpackage : primary.before.job.package = some package)
    (hm : ScoringManifest.ofJson P package.manifest = some m) (hcases : m.cases ≠ [])
    (h : SameReports m primary.reports batches) :
    primary.after.submission.result =
        some ((SubmissionResult.severest
          (primary.reports.map fun report => .ofReport report.status)).getD
            (pointsVerdict P.arith m
              (casePayloads P primary.before.job.manifestCases primary.reports))) ∧
      primary.after.submission.caseTotal = m.cases.length ∧
        primary.after.submission.casePassed = ShadowJob.accepted primary.reports := by
  obtain ⟨hrows, package', scored, hpackage', hscored, hsame⟩ := primary.after_spec hmode
  obtain rfl : package = package' := Option.some.inj (hpackage.symm.trans hpackage')
  have hcovers : Covers m (casePayloads P primary.before.job.manifestCases primary.reports) :=
    h.covers_casePayloads P _
  have hstatuses : ((casePayloads P primary.before.job.manifestCases primary.reports).map
      caseStatus).Perm (primary.reports.map fun report => .ofReport report.status) :=
    map_caseStatus_casePayloads h.positive h.nodup
  obtain ⟨hresult, htotal, hpassed⟩ :
      scored.result = some (scoreManifest P.arith m
          (casePayloads P primary.before.job.manifestCases primary.reports)).result ∧
        scored.caseTotal = m.cases.length ∧
          scored.casePassed = (tally P.arith m
            (casePayloads P primary.before.job.manifestCases primary.reports)).casePassed := by
    rw [scoredOutcome, hrows, score, hm] at hscored
    cases hscored
    exact ⟨rfl, hcovers.orElse_length, rfl⟩
  refine ⟨?_, hsame.caseTotal.trans htotal, ?_⟩
  · rw [hsame.result, hresult, hcovers.result_scoreManifest hcases,
      SubmissionResult.severest_congr hstatuses]
  · rw [hsame.casePassed, hpassed, hcovers.casePassed_tally, hstatuses.countP_eq, List.countP_map]
    refine List.countP_congr fun report _ => ?_
    simp [SubmissionResult.ofReport_eq_AC]

/-- The verdict and the counters of a replay are those of the judgement. -/
structure ShadowJob.Agrees (job : ShadowJob) (submission : Submission) : Prop where
  result : submission.result.map SubmissionResult.value = some job.result
  caseTotal : job.caseTotal = submission.caseTotal
  casePassed : job.casePassed = submission.casePassed

/-- The first code that is not `AC` is the one that the reports are scored with.  If all
are `AC`, the points that the reports are worth have to reach those of the groups. -/
def FirstDecides (A : FloatArith) (m : ScoringManifest) (points : ℚ) (codes : List String) : Prop :=
  match codes.find? fun code => code ≠ SubmissionResult.AC.value with
  | none => totalPossible A m ≤ 0 ∨ totalPossible A m ≤ points
  | some first =>
      first = ((SubmissionResult.severest (codes.map SubmissionResult.ofReport)).getD
        (if m.partialScore = true ∧ 0 < points then .PARTIAL else .WA)).value

theorem value_eq_verdict_iff {A : FloatArith} {m : ScoringManifest} {codes : List String}
    {payloads : List CasePayload}
    (hstatuses : (payloads.map caseStatus).Perm (codes.map SubmissionResult.ofReport)) :
    ((SubmissionResult.severest (codes.map SubmissionResult.ofReport)).getD
        (pointsVerdict A m payloads)).value =
      (codes.find? fun code => code ≠ SubmissionResult.AC.value).getD SubmissionResult.AC.value ↔
        FirstDecides A m (awarded A m payloads) codes := by
  have hall : (∀ case ∈ payloads, caseStatus case = .AC) ↔
      ∀ code ∈ codes, code = SubmissionResult.AC.value := by
    calc (∀ case ∈ payloads, caseStatus case = .AC)
        ↔ ∀ status ∈ payloads.map caseStatus, status = .AC := by simp
      _ ↔ ∀ status ∈ codes.map SubmissionResult.ofReport, status = .AC := by
          simp only [hstatuses.mem_iff]
      _ ↔ ∀ code ∈ codes, code = SubmissionResult.AC.value := by
          simp [SubmissionResult.ofReport_eq_AC]
  unfold FirstDecides
  cases hfirst : codes.find? fun code => code ≠ SubmissionResult.AC.value with
  | none =>
      have hcodes : ∀ code ∈ codes, code = SubmissionResult.AC.value := by
        simpa using List.find?_eq_none.mp hfirst
      have hsevere : SubmissionResult.severest (codes.map SubmissionResult.ofReport) = none := by
        refine SubmissionResult.severest_eq_none_of_forall fun status hstatus => ?_
        obtain ⟨code, hcode, rfl⟩ := List.mem_map.mp hstatus
        exact SubmissionResult.ofReport_eq_AC.mpr (hcodes code hcode)
      rw [hsevere, Option.getD_none, Option.getD_none, pointsVerdict]
      by_cases htotal : totalPossible A m ≤ 0 ∨ totalPossible A m ≤ awarded A m payloads
      · rw [if_pos ⟨hall.mpr hcodes, htotal⟩]
        exact iff_of_true rfl htotal
      · rw [if_neg fun hboth => htotal hboth.2]
        refine iff_of_false ?_ htotal
        split_ifs <;> decide
  | some first =>
      have hnot : ¬ ∀ code ∈ codes, code = SubmissionResult.AC.value := fun hcodes => by
        have hne := List.find?_some hfirst
        rw [hcodes first (List.mem_of_find?_eq_some hfirst)] at hne
        simp at hne
      rw [Option.getD_some, pointsVerdict, if_neg fun hboth => hnot (hall.mp hboth.1)]
      exact eq_comm

/-- A finished replay agrees with the judgement of the same reports exactly if it received
them in one batch and the first code that is not `AC` is the one they are scored with. -/
theorem agrees_iff (P : Python) {id shadow : ℕ} (primary : FinishedRun P id)
    (replay : FinishedReplay P shadow) {package : ProblemPackage} {m : ScoringManifest}
    (hmode : primary.before.submission.mode = .submit)
    (hpackage : primary.before.job.package = some package)
    (hm : ScoringManifest.ofJson P package.manifest = some m) (hcases : m.cases ≠ [])
    (h : SameReports m primary.reports replay.batches) :
    replay.after.Agrees primary.after.submission ↔
      ∃ batch, replay.batches = [batch] ∧
        FirstDecides P.arith m
          (awarded P.arith m (casePayloads P (manifestCases package.manifest) primary.reports))
          (batch.map JudgeCaseIn.status) := by
  have hmanifest : primary.before.job.manifestCases = manifestCases package.manifest := by
    rw [JudgeJob.manifestCases, hpackage]
    rfl
  obtain ⟨hresult, htotal, hpassed⟩ := primary.verdict_spec hmode hpackage hm hcases h
  rw [hmanifest] at hresult
  have hbatches : replay.batches ≠ [] := by
    intro hnil
    have hlength := h.same.length_eq
    rw [hnil, h.length_eq] at hlength
    exact hcases (List.length_eq_zero_iff.mp hlength.symm)
  obtain ⟨batch, hlast⟩ := Option.isSome_iff_exists.mp (List.getLast?_isSome.mpr hbatches)
  obtain ⟨hcode, hcount, haccepted⟩ := replay.after_spec hlast
  have hnonempty : batch ≠ [] := h.nonempty batch (List.mem_of_getLast? hlast)
  rw [ShadowJob.verdict, if_neg hnonempty] at hcode
  have hverdict (hsingle : replay.batches = [batch]) :
      primary.after.submission.result.map SubmissionResult.value = some replay.after.result ↔
        FirstDecides P.arith m
          (awarded P.arith m (casePayloads P (manifestCases package.manifest) primary.reports))
          (batch.map JudgeCaseIn.status) := by
    have hsame : batch.Perm primary.reports := h.perm_of_singleton hsingle
    have hcodes : (primary.reports.map fun report => SubmissionResult.ofReport report.status).Perm
        ((batch.map JudgeCaseIn.status).map SubmissionResult.ofReport) := by
      rw [List.map_map]
      exact (hsame.map _).symm
    rw [hresult, hcode, Option.map_some, Option.some_inj, SubmissionResult.severest_congr hcodes]
    exact value_eq_verdict_iff ((map_caseStatus_casePayloads h.positive h.nodup).trans hcodes)
  constructor
  · rintro ⟨hsame, htotals, -⟩
    have hlength : batch.length = m.cases.length := hcount.symm.trans (htotals.trans htotal)
    have hsingle := h.batches_eq_singleton hlast hlength
    exact ⟨batch, hsingle, (hverdict hsingle).mp hsame⟩
  · rintro ⟨only, hsingle, hfirst⟩
    obtain rfl : batch = only := by
      rw [hsingle] at hlast
      exact (Option.some.inj hlast).symm
    have hsame : batch.Perm primary.reports := h.perm_of_singleton hsingle
    refine ⟨(hverdict hsingle).mpr hfirst, ?_, ?_⟩
    · rw [hcount, hsame.length_eq, h.length_eq, htotal]
    · rw [haccepted, hpassed]
      exact hsame.countP_eq _

/-! ## One batch and two -/

/-- A problem whose package has two cases. -/
def sampleTwoCases : ProblemContext where
  problem := sampleContext.problem
  activePackage := some
    { id := 1
      problem := 1
      version := 1
      sha256 := ""
      manifest := .obj
        [("cases", .arr [.obj [("points", .int 50)], .obj [("points", .int 50)]])]
      isActive := true }

/-- What the score reads of its manifest. -/
def sampleScoring : ScoringManifest where
  cases := [{ points := 50, group := "default" }, { points := 50, group := "default" }]
  groups := []
  partialScore := false

/-- The report that a case is accepted. -/
def sampleReport (caseNumber : ℤ) : JudgeCaseIn where
  caseNumber
  status := "AC"
  points := 50
  totalPoints := 50

/-- Judge 7 reports case after case. -/
def sampleJudging : List Op :=
  [.createSubmission { user := 1, context := sampleTwoCases, language := "python" },
    .claimJob 7 ["python"] 0, .recordCases 7 1 [sampleReport 1], .recordCases 7 1 [sampleReport 2]]

/-- Judge 8 replays the submission after judge 7 finished. -/
def sampleReplaying (batches : List (List JudgeCaseIn)) : List ReplayOp :=
  (sampleJudging ++ [Op.finish 7 1 ""]).map .judging ++
    [.shadow (.createForSubmission 1 sampleTwoCases none), .shadow (.claimJob 8 ["python"] 0)] ++
    batches.map fun cases => .shadow (.recordCases 8 1 cases)

theorem initial_sampleJudging : World.Initial {} := World.initial_empty 0

def sampleJudged : FinishedRun samplePython 1 where
  start := {}
  ops := sampleJudging
  judge := 7
  errorMessage := ""
  before := Option.get _ rfl
  after := Option.get _ rfl
  initial := initial_sampleJudging
  before_eq := (Option.some_get _).symm
  after_eq := (Option.some_get _).symm
  unfinished := by decide
  finished := by decide +kernel

/-- Judge 8 reports as judge 7 did. -/
def sampleBatched : FinishedReplay samplePython 1 where
  start := {}
  ops := sampleReplaying [[sampleReport 1], [sampleReport 2]]
  judge := 8
  payload := {}
  before := Option.get _ rfl
  after := Option.get _ rfl
  before_eq := (Option.some_get _).symm
  after_eq := (Option.some_get _).symm
  unfinished := by decide
  finished := by decide +kernel

/-- Judge 8 sends all its reports at once. -/
def sampleWhole : FinishedReplay samplePython 1 where
  start := {}
  ops := sampleReplaying [[sampleReport 1, sampleReport 2]]
  judge := 8
  payload := {}
  before := Option.get _ rfl
  after := Option.get _ rfl
  before_eq := (Option.some_get _).symm
  after_eq := (Option.some_get _).symm
  unfinished := by decide
  finished := by decide +kernel

/-- Two accepted cases, in one run: a replay that receives them in two batches counts one. -/
theorem batched_replay_differs :
    sampleJudged.before.submission.mode = .submit ∧
      sampleBatched.before.submission = sampleJudged.before.submission.id ∧
        SameReports sampleScoring sampleJudged.reports sampleBatched.batches ∧
          sampleJudged.after.submission.caseTotal = 2 ∧ sampleBatched.after.caseTotal = 1 ∧
            ¬ sampleBatched.after.Agrees sampleJudged.after.submission := by
  refine ⟨by decide, by decide +kernel, ⟨by decide +kernel, ?_, by decide +kernel⟩,
    by decide +kernel, by decide +kernel, fun hagrees => ?_⟩
  · exact List.Perm.refl _
  · exact absurd hagrees.caseTotal (by decide +kernel)

theorem agrees_iff_whole : sampleWhole.after.Agrees sampleJudged.after.submission := by
  refine (agrees_iff samplePython sampleJudged sampleWhole (by decide) rfl (m := sampleScoring) rfl
    (by decide) ⟨by decide +kernel, List.Perm.refl _, by decide +kernel⟩).mpr
      ⟨[sampleReport 1, sampleReport 2], rfl, ?_⟩
  -- both codes are `AC`, and the points reach the total
  show totalPossible _ _ ≤ 0 ∨ totalPossible _ _ ≤ awarded _ _ _
  exact Or.inr (by decide +kernel)

end JudgeLoom
