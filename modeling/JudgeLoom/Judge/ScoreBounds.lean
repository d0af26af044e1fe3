import JudgeLoom.Judge.ImportedScore

/-!
# What a judge can make of its reports

The reports of a judge are not to be trusted: any case numbers, verdicts and points may
come.  In exact arithmetic, with any monotone decimal rounding, a package still gives no
more than its groups are worth (`score_bounds`): the credit of a case is a ratio
between `0` and `1`, whatever the reported points, and sums, minima, caps and roundings
are monotone from there on.  For the same reason a better report never lowers a score
(`score_mono`).

Two statements need no exactness.  A package without partial scores gives points to an
accepted submission only, except where a report says `CE` or `IE`, which the zeroing
passes over (`acceptedIfScored_iff`); and it does not need the reports after the first
case that fails (`score_shortCircuit`).
-/

namespace JudgeLoom

open PackageImportService

namespace ScoringService

variable {A : FloatArith} {m : ScoringManifest} {cases : List CasePayload}

/-! ## Statuses -/

/-- The last report of a case. -/
def lastPayload (cases : List CasePayload) (caseNumber : ℤ) : Option CasePayload :=
  cases.reverse.find? fun case => case.caseNumber = caseNumber

theorem lastPayload_append_singleton (cases : List CasePayload) (case : CasePayload)
    (caseNumber : ℤ) :
    lastPayload (cases ++ [case]) caseNumber =
      if case.caseNumber = caseNumber then some case else lastPayload cases caseNumber := by
  unfold lastPayload
  rw [List.reverse_append, List.reverse_singleton, List.singleton_append, List.find?_cons]
  by_cases h : case.caseNumber = caseNumber <;> simp [h]

theorem get?_statuses (A : FloatArith) (m : ScoringManifest) (cases : List CasePayload)
    (caseNumber : ℤ) :
    (tally A m cases).statuses.get? caseNumber =
      if (caseByNumber m caseNumber).isSome then (lastPayload cases caseNumber).map caseStatus
      else none := by
  rw [statuses_tally]
  induction cases using List.reverseRecOn with
  | nil => simp [known, lastPayload, Dict.ofList]
  | append_singleton cases case ih =>
      rw [lastPayload_append_singleton]
      cases hcase : caseByNumber m case.caseNumber with
      | none =>
          have hknown : known m (cases ++ [case]) = known m cases := by
            rw [known, List.filterMap_append, ← known]
            simp [hcase]
          rw [hknown, ih]
          by_cases hnumber : case.caseNumber = caseNumber
          · rw [← hnumber, hcase]
            rfl
          · rw [if_neg hnumber]
      | some manifestCase =>
          have hknown : known m (cases ++ [case]) = known m cases ++ [(manifestCase, case)] := by
            rw [known, List.filterMap_append, ← known]
            simp [hcase]
          rw [hknown, List.map_append, List.map_singleton, Dict.ofList, List.foldl_append,
            List.foldl_cons, List.foldl_nil, Dict.get?_set, ← Dict.ofList, ih]
          by_cases hnumber : case.caseNumber = caseNumber
          · rw [if_pos hnumber.symm, if_pos hnumber, ← hnumber, hcase]
            rfl
          · rw [if_neg (Ne.symm hnumber), if_neg hnumber]

/-- The last report of some case of the package says that the submission does not compile
or that the judge failed. -/
def Aborted (m : ScoringManifest) (cases : List CasePayload) : Prop :=
  ∃ caseNumber, (caseByNumber m caseNumber).isSome ∧
    ∃ case ∈ lastPayload cases caseNumber, caseStatus case = .CE ∨ caseStatus case = .IE

theorem mem_values_statuses {status : SubmissionResult} :
    status ∈ (tally A m cases).statuses.values ↔
      ∃ caseNumber, (caseByNumber m caseNumber).isSome ∧
        ∃ case ∈ lastPayload cases caseNumber, caseStatus case = status := by
  rw [Dict.mem_values_iff]
  refine exists_congr fun caseNumber => ?_
  rw [get?_statuses]
  by_cases hknown : (caseByNumber m caseNumber).isSome <;> simp [hknown]

theorem verdict_eq_CE_or_IE_iff :
    (verdict A m cases = .CE ∨ verdict A m cases = .IE) ↔ Aborted m cases := by
  have hvalues : Aborted m cases ↔ .CE ∈ (tally A m cases).statuses.values ∨
      .IE ∈ (tally A m cases).statuses.values := by
    rw [mem_values_statuses, mem_values_statuses, ← exists_or]
    refine exists_congr fun caseNumber => ?_
    rw [← and_or_left, ← exists_or]
    simp only [← and_or_left]
  rw [hvalues, verdict, aggregateResult]
  split_ifs <;> simp_all

/-- A report that was sent. -/
theorem mem_of_mem_lastPayload {caseNumber : ℤ} {case : CasePayload}
    (h : case ∈ lastPayload cases caseNumber) : case ∈ cases :=
  List.mem_reverse.mp (List.mem_of_find?_eq_some h)

/-! ## Points without acceptance -/

/-- Only an accepted submission has points, in total or for a subtask. -/
def AcceptedIfScored (summary : ScoreSummary) : Prop :=
  (0 < summary.points ∨ ∃ score ∈ summary.subtaskScores.values, 0 < score) → summary.result = .AC

/-- The reports earn nothing: no group, and no points in total. -/
def EarnsNothing (A : FloatArith) (m : ScoringManifest) (cases : List CasePayload) : Prop :=
  earnedPoints A m cases ≤ 0 ∧ ∀ score ∈ (earned A m cases).values, score ≤ 0

theorem acceptedIfScored_scoreManifest_iff (hstrict : m.partialScore = false) :
    AcceptedIfScored (scoreManifest A m cases) ↔ ¬ Aborted m cases ∨ EarnsNothing A m cases := by
  unfold AcceptedIfScored EarnsNothing
  rw [scoreManifest_eq, finalVerdict_eq, ← verdict_eq_CE_or_IE_iff (A := A)]
  dsimp only
  by_cases hzeroed : Zeroed A m cases
  · -- nothing is left to be scored
    have hnone : ∀ score ∈ ((earned A m cases).mapEntries fun _ _ => (0 : ℚ)).values,
        ¬ 0 < score := by
      intro score hscore
      rw [Dict.values_mapEntries] at hscore
      obtain ⟨entry, -, rfl⟩ := List.mem_map.mp hscore
      exact lt_irrefl 0
    rw [if_pos hzeroed, if_pos hzeroed]
    refine iff_of_true ?_ (Or.inl ?_)
    · rintro (hpoints | ⟨score, hscore, hpositive⟩)
      · exact absurd hpoints (lt_irrefl 0)
      · exact absurd hpositive (hnone score hscore)
    · rw [not_or]
      exact ⟨hzeroed.2.2.1, hzeroed.2.2.2⟩
  · rw [if_neg hzeroed, if_neg hzeroed]
    have hverdict : verdict A m cases = .AC ∨ verdict A m cases = .CE ∨ verdict A m cases = .IE := by
      unfold Zeroed at hzeroed
      tauto
    have hnothing : (earnedPoints A m cases ≤ 0 ∧ ∀ score ∈ (earned A m cases).values, score ≤ 0) ↔
        ¬ (0 < earnedPoints A m cases ∨ ∃ score ∈ (earned A m cases).values, 0 < score) := by
      push Not
      rfl
    rw [hnothing]
    rcases hverdict with hverdict | hverdict | hverdict <;> simp [hverdict]

theorem score_of_ofJson {P : Python} {package : ProblemPackage}
    (hm : ScoringManifest.ofJson P package.manifest = some m) (cases : List CasePayload) :
    score P package cases = .ok (scoreManifest P.arith m cases) := by
  unfold score
  rw [hm]

/-- What scoring reads of the package with two groups. -/
def twoGroupsManifest : ScoringManifest where
  cases := [{ points := 50, group := "g1" }, { points := 50, group := "g2" }]
  groups := [{ id := "g1", mode := "min", points := 50 }, { id := "g2", mode := "sum", points := 50 }]
  partialScore := false

theorem ofJson_twoGroups : ScoringManifest.ofJson (manifestPython (twoGroups "g2"))
    (twoGroupsPackage "g2").manifest = some twoGroupsManifest := by
  rfl

/-- The report on a case that is worth 50 points. -/
def reportOf (caseNumber : ℤ) (status : String) (points : ℚ) : CasePayload :=
  { caseNumber, status, points, totalPoints := some 50 }

/-- A case that passes, and one on which the judge fails. -/
def passedAndAborted : List CasePayload := [reportOf 1 "AC" 50, reportOf 2 "IE" 0]

/-- The part of a case's points that a report is credited. -/
def creditRatio (A : FloatArith) (manifestCase : ScoringCase) (case : CasePayload) : ℚ :=
  let status := caseStatus case
  let reportedTotal := orElse (case.totalPoints.getD manifestCase.points) manifestCase.points
  let reported := if status = .AC ∨ status = .PARTIAL then case.points.getD 0 else 0
  let reported :=
    if status = .AC ∧ reported ≤ 0 then orElse reportedTotal manifestCase.points else reported
  if 0 < reportedTotal then min (max (A.div reported reportedTotal) 0) 1
  else if status = .AC then 1 else 0

theorem reportScore_eq (A : FloatArith) (manifestCase : ScoringCase) (case : CasePayload) :
    reportScore A manifestCase case =
      A.round (A.mul manifestCase.points (creditRatio A manifestCase case)) 4 :=
  rfl

theorem creditRatio_nonneg (A : FloatArith) (manifestCase : ScoringCase) (case : CasePayload) :
    0 ≤ creditRatio A manifestCase case := by
  unfold creditRatio
  dsimp only
  split_ifs <;> simp

/-- A case has a report, or is without one. -/
theorem mem_credits {credit : String × ℚ} (h : credit ∈ credits A m cases) :
    (∃ pair ∈ known m cases, credit.2 = reportScore A pair.1 pair.2) ∨ credit.2 = 0 := by
  rcases List.mem_append.mp h with hknown | hmissing
  · obtain ⟨pair, hpair, rfl⟩ := List.mem_map.mp hknown
    exact Or.inl ⟨pair, hpair, rfl⟩
  · obtain ⟨manifestCase, -, rfl⟩ := List.mem_map.mp hmissing
    exact Or.inr rfl

/-! ## Distinct case numbers -/

theorem caseNumber_mem_range {caseNumber : ℤ} {manifestCase : ScoringCase}
    (h : caseByNumber m caseNumber = some manifestCase) :
    caseNumber ∈ (List.range' 1 m.cases.length).map Nat.cast := by
  unfold caseByNumber at h
  split_ifs at h with hpositive
  obtain ⟨hlt, -⟩ := List.getElem?_eq_some_iff.mp h
  refine List.mem_map.mpr ⟨caseNumber.toNat, List.mem_range'_1.mpr ?_, ?_⟩ <;> omega

theorem map_snd_known (m : ScoringManifest) (cases : List CasePayload) :
    (known m cases).map Prod.snd =
      cases.filter fun case => (caseByNumber m case.caseNumber).isSome := by
  induction cases with
  | nil => rfl
  | cons case rest ih =>
      cases hcase : caseByNumber m case.caseNumber with
      | none => simp [known_cons_of_none hcase, hcase, ih]
      | some manifestCase => simp [known_cons_of_some hcase, hcase, ih]

theorem nodup_caseNumber_known (m : ScoringManifest)
    (hdistinct : (cases.map CasePayload.caseNumber).Nodup) :
    ((known m cases).map fun pair => pair.2.caseNumber).Nodup := by
  have hmap : ((known m cases).map fun pair => pair.2.caseNumber) =
      ((known m cases).map Prod.snd).map CasePayload.caseNumber := by
    rw [List.map_map]
    rfl
  rw [hmap, map_snd_known]
  exact hdistinct.sublist (List.filter_sublist.map _)

/-- Distinct reports are at most as many as the cases. -/
theorem length_known_le (hdistinct : (cases.map CasePayload.caseNumber).Nodup) :
    (known m cases).length ≤ m.cases.length := by
  have hsubset : ((known m cases).map fun pair => pair.2.caseNumber) ⊆
      (List.range' 1 m.cases.length).map Nat.cast := by
    intro caseNumber hnumber
    obtain ⟨pair, hpair, rfl⟩ := List.mem_map.mp hnumber
    exact caseNumber_mem_range (mem_known.mp hpair).2
  have hlength := ((nodup_caseNumber_known m hdistinct).subperm hsubset).length_le
  simpa using hlength

theorem casePassed_le (hdistinct : (cases.map CasePayload.caseNumber).Nodup) :
    (tally A m cases).casePassed ≤ m.cases.length := by
  rw [casePassed_tally]
  calc List.countP _ ((known m cases).map fun pair => caseStatus pair.2)
      ≤ ((known m cases).map fun pair => caseStatus pair.2).length := List.countP_le_length
    _ = (known m cases).length := List.length_map _
    _ ≤ m.cases.length := length_known_le hdistinct

/-! ## Bounds in exact arithmetic -/

end ScoringService

/-- A decimal rounding that keeps the order and zero. -/
structure MonotoneRounding (rounding : ℚ → ℕ → ℚ) : Prop where
  mono : ∀ n, Monotone fun q => rounding q n
  zero : ∀ n, rounding 0 n = 0

theorem MonotoneRounding.nonneg {rounding : ℚ → ℕ → ℚ} (h : MonotoneRounding rounding) {q : ℚ}
    (hq : 0 ≤ q) (n : ℕ) : 0 ≤ rounding q n :=
  (h.zero n).symm.trans_le (h.mono n hq)

theorem monotoneRounding_decimalRound : MonotoneRounding FloatArith.decimalRound :=
  ⟨FloatArith.decimalRound_mono, FloatArith.decimalRound_zero⟩

/-- No case and no group is worth less than nothing. -/
structure ScoringManifest.Nonneg (m : ScoringManifest) : Prop where
  cases : ∀ manifestCase ∈ m.cases, 0 ≤ manifestCase.points
  groups : ∀ group ∈ m.groups, 0 ≤ group.points

namespace ScoringService

variable {rounding : ℚ → ℕ → ℚ} {m : ScoringManifest} {cases : List CasePayload}

theorem credit_nonneg (hrounding : MonotoneRounding rounding) (hm : m.Nonneg)
    {credit : String × ℚ} (h : credit ∈ credits (.exact rounding) m cases) : 0 ≤ credit.2 := by
  rcases mem_credits h with ⟨pair, hpair, hscore⟩ | hzero
  · rw [hscore, reportScore_eq]
    have hpoints := hm.cases _ (mem_cases_of_caseByNumber (mem_known.mp hpair).2)
    exact hrounding.nonneg (mul_nonneg hpoints (creditRatio_nonneg _ _ _)) 4
  · exact hzero.ge

theorem le_minScore {scores : List ℚ} (hnonempty : scores ≠ []) {bound : ℚ} :
    bound ≤ minScore scores ↔ ∀ score ∈ scores, bound ≤ score := by
  have hfold : ∀ (rest : List ℚ) (first : ℚ),
      bound ≤ rest.foldl min first ↔ bound ≤ first ∧ ∀ score ∈ rest, bound ≤ score := by
    intro rest
    induction rest with
    | nil => simp
    | cons head rest ih =>
        intro first
        rw [List.foldl_cons, ih, le_min_iff, List.forall_mem_cons, and_assoc]
  obtain ⟨first, rest, rfl⟩ := List.exists_cons_of_ne_nil hnonempty
  rw [minScore, hfold, List.forall_mem_cons]

/-- What a group collects before its cap. -/
def groupTotal (group : ScoringGroup) (scores : List ℚ) : ℚ :=
  if scores = [] then 0 else if group.mode = "min" then minScore scores else scores.sum

theorem groupScore_exact (group : ScoringGroup) (scores : List ℚ) :
    groupScore (.exact rounding) group scores =
      rounding (min (groupTotal group scores) (max 0 group.points)) 4 := by
  unfold groupScore groupTotal
  rw [FloatArith.exact_sum]
  rfl

theorem groupTotal_nonneg (group : ScoringGroup) {scores : List ℚ}
    (h : ∀ score ∈ scores, 0 ≤ score) : 0 ≤ groupTotal group scores := by
  unfold groupTotal
  split_ifs with hempty hmode
  · exact le_rfl
  · exact (le_minScore hempty).mpr h
  · exact List.sum_nonneg h

theorem groupCredits_nonneg (hrounding : MonotoneRounding rounding) (hm : m.Nonneg)
    (cases : List CasePayload) (groupId : String) :
    ∀ score ∈ groupCredits (.exact rounding) m cases groupId, 0 ≤ score := by
  intro score hscore
  obtain ⟨credit, hcredit, rfl⟩ := List.mem_map.mp hscore
  exact credit_nonneg hrounding hm (List.mem_of_mem_filter hcredit)

/-- A group earns between nothing and its points, rounded. -/
theorem groupScore_mem_Icc (hrounding : MonotoneRounding rounding) {group : ScoringGroup}
    (hgroup : 0 ≤ group.points) {scores : List ℚ} (hscores : ∀ score ∈ scores, 0 ≤ score) :
    0 ≤ groupScore (.exact rounding) group scores ∧
      groupScore (.exact rounding) group scores ≤ rounding group.points 4 := by
  rw [groupScore_exact, max_eq_right hgroup]
  exact ⟨hrounding.nonneg (le_min (groupTotal_nonneg group hscores) hgroup) 4,
    hrounding.mono 4 (min_le_right _ _)⟩

theorem values_earned {A : FloatArith} (hnonempty : m.groups ≠ [])
    (hids : (m.groups.map ScoringGroup.id).Nodup) :
    (earned A m cases).values =
      m.groups.map fun group => groupScore A group (groupCredits A m cases group.id) := by
  rw [earned, Dict.values_mapEntries, entries_groupDefs hnonempty hids, List.map_map]
  rfl

end ScoringService

/-! ## Imported packages -/

section Imported

variable {P : Python} {package : ProblemPackage} {imported : Imported} {rounding : ℚ → ℕ → ℚ}

/-- No case of an imported package is worth less than nothing. -/
theorem points_nonneg_of_readArchive (hexact : P.arith = .exact rounding)
    (hrounding : MonotoneRounding rounding) {problem : Problem} {payload : Bytes}
    (h : readArchive P problem payload = .ok imported) :
    ∀ testCase ∈ imported.cases, 0 ≤ testCase.points := by
  obtain ⟨manifest, defs, hread, -⟩ := readArchive_eq_ok h
  obtain ⟨raw, hrange, hcases⟩ := readZip_eq_ok hread
  have hdefault : 0 ≤ if 0 < problem.points then
      P.arith.round (P.arith.div problem.points raw.length) 2 else 0 := by
    rw [hexact]
    split_ifs with hpositive
    · exact hrounding.nonneg (div_nonneg hpositive.le (Nat.cast_nonneg _)) 2
    · exact le_rfl
  intro testCase hcase
  rw [hcases] at hcase
  obtain ⟨given, hgiven, rfl⟩ := List.mem_map.mp hcase
  dsimp only
  cases hpoints : given.points with
  | none => exact hdefault
  | some points => exact (hrange given hgiven points hpoints).1

theorem ScoringManifest.Reads.nonneg (hexact : P.arith = .exact rounding)
    (hrounding : MonotoneRounding rounding) {m : ScoringManifest} {validated : List GroupDef}
    (h : m.Reads P.arith imported validated)
    (hpoints : ∀ testCase ∈ imported.cases, 0 ≤ testCase.points) : m.Nonneg := by
  constructor
  · intro manifestCase hcase
    rw [h.cases] at hcase
    obtain ⟨testCase, htestCase, rfl⟩ := List.mem_map.mp hcase
    exact hpoints testCase htestCase
  · intro group hgroup
    obtain ⟨validatedAs, hvalidated, hread⟩ := Validates.exists_of_mem_left h.groups hgroup
    rw [← hread.points]
    rcases h.points validatedAs hvalidated with hnonneg | hdefault
    · exact hnonneg
    · rw [hdefault, hexact]
      refine hrounding.nonneg ?_ 2
      rw [FloatArith.exact_sum]
      refine List.sum_nonneg fun points hmem => ?_
      obtain ⟨testCase, htestCase, rfl⟩ := List.mem_map.mp hmem
      exact hpoints testCase htestCase

/-- The manifest that scoring reads of an imported package. -/
structure ScoringManifest.Sound (m : ScoringManifest) : Prop extends m.Nonneg where
  cases_ne_nil : m.cases ≠ []
  groups_ne_nil : m.groups ≠ []
  ids : (m.groups.map ScoringGroup.id).Nodup

theorem ProblemPackage.ImportedAs.exists_sound (himported : package.ImportedAs P imported)
    (hexact : P.arith = .exact rounding) (hrounding : MonotoneRounding rounding) :
    ∃ m, ScoringManifest.ofJson P package.manifest = some m ∧ m.Sound := by
  obtain ⟨⟨problem, hread⟩, -, hmanifest⟩ := himported
  obtain ⟨defs, hgroups⟩ := exists_archiveGroups hread
  obtain ⟨m, hm, hreads⟩ := exists_scoring hread hgroups hmanifest
  exact ⟨m, hm, hreads.nonneg hexact hrounding (points_nonneg_of_readArchive hexact hrounding hread),
    hreads.cases_ne_nil, hreads.groups_ne_nil, hreads.ids_nodup⟩

theorem ProblemPackage.ImportedAs.manifest_cases_ne_nil (himported : package.ImportedAs P imported)
    {m : ScoringManifest} (hm : ScoringManifest.ofJson P package.manifest = some m) :
    m.cases ≠ [] := by
  obtain ⟨⟨problem, hread⟩, -, hmanifest⟩ := himported
  obtain ⟨defs, hgroups⟩ := exists_archiveGroups hread
  obtain ⟨m', hm', hreads⟩ := exists_scoring hread hgroups hmanifest
  rw [hm] at hm'
  cases hm'
  exact hreads.cases_ne_nil

end Imported

namespace ScoringService

variable {rounding : ℚ → ℕ → ℚ} {m : ScoringManifest} {cases : List CasePayload}

/-- The subtask scores of a summary are what the groups earn, or zero. -/
theorem get?_subtaskScores {A : FloatArith} (hm : m.Sound) {groupId : String} {score : ℚ}
    (h : (scoreManifest A m cases).subtaskScores.get? groupId = some score) :
    ∃ group ∈ m.groups, group.id = groupId ∧
      (score = 0 ∨ score = groupScore A group (groupCredits A m cases groupId)) := by
  have hearned {value : ℚ} (hvalue : (earned A m cases).get? groupId = some value) :
      ∃ group ∈ m.groups, group.id = groupId ∧
        value = groupScore A group (groupCredits A m cases groupId) := by
    rw [earned, Dict.get?_mapEntries] at hvalue
    obtain ⟨group, hgroup, rfl⟩ := Option.map_eq_some_iff.mp hvalue
    obtain ⟨hmem, hid⟩ := (get?_groupDefs hm.groups_ne_nil hm.ids).mp hgroup
    exact ⟨group, hmem, hid, rfl⟩
  rw [scoreManifest_eq] at h
  dsimp only at h
  split_ifs at h
  · rw [Dict.get?_mapEntries] at h
    obtain ⟨value, hvalue, rfl⟩ := Option.map_eq_some_iff.mp h
    obtain ⟨group, hmem, hid, -⟩ := hearned hvalue
    exact ⟨group, hmem, hid, Or.inl rfl⟩
  · obtain ⟨group, hmem, hid, hscore⟩ := hearned h
    exact ⟨group, hmem, hid, Or.inr hscore⟩

/-- What a group can earn at most. -/
def worth (rounding : ℚ → ℕ → ℚ) (group : ScoringGroup) : ℚ := rounding group.points 4

theorem earnedPoints_mem_Icc (hrounding : MonotoneRounding rounding) (hm : m.Sound)
    (cases : List CasePayload) :
    0 ≤ earnedPoints (.exact rounding) m cases ∧
      earnedPoints (.exact rounding) m cases ≤ rounding (m.groups.map (worth rounding)).sum 2 := by
  have hbounds : ∀ group ∈ m.groups,
      0 ≤ groupScore (.exact rounding) group
          (groupCredits (.exact rounding) m cases group.id) ∧
        groupScore (.exact rounding) group
            (groupCredits (.exact rounding) m cases group.id) ≤ worth rounding group :=
    fun group hgroup => groupScore_mem_Icc hrounding (hm.groups group hgroup)
      (groupCredits_nonneg hrounding hm.toNonneg cases group.id)
  unfold earnedPoints
  rw [FloatArith.exact_sum, FloatArith.exact_round, values_earned hm.groups_ne_nil hm.ids]
  constructor
  · refine hrounding.nonneg (List.sum_nonneg fun score hscore => ?_) 2
    obtain ⟨group, hgroup, rfl⟩ := List.mem_map.mp hscore
    exact (hbounds group hgroup).1
  · exact hrounding.mono 2 (List.sum_le_sum fun group hgroup => (hbounds group hgroup).2)

/-- Reports cannot give more than the package is worth: a subtask its group's points,
the submission their sum, and no more cases pass than there are. -/
theorem score_bounds (P : Python) {package : ProblemPackage} {imported : Imported}
    (hexact : P.arith = .exact rounding) (hrounding : MonotoneRounding rounding)
    (himported : package.ImportedAs P imported) {cases : List CasePayload}
    (hdistinct : (cases.map CasePayload.caseNumber).Nodup) :
    ∃ m summary, ScoringManifest.ofJson P package.manifest = some m ∧
      score P package cases = .ok summary ∧
        (∀ groupId score, summary.subtaskScores.get? groupId = some score →
          ∃ group ∈ m.groups, group.id = groupId ∧ 0 ≤ score ∧ score ≤ rounding group.points 4) ∧
        0 ≤ summary.points ∧
          summary.points ≤ rounding (m.groups.map fun group => rounding group.points 4).sum 2 ∧
            summary.casePassed ≤ summary.caseTotal := by
  obtain ⟨m, hm, hsound⟩ := himported.exists_sound hexact hrounding
  refine ⟨m, _, hm, score_of_ofJson hm cases, ?_, ?_, ?_, ?_⟩
  all_goals rw [hexact]
  · intro groupId score hscore
    obtain ⟨group, hgroup, hid, hvalue⟩ := get?_subtaskScores hsound hscore
    have hbounds := groupScore_mem_Icc hrounding (hsound.groups group hgroup)
      (groupCredits_nonneg hrounding hsound.toNonneg cases groupId)
    refine ⟨group, hgroup, hid, ?_⟩
    rcases hvalue with rfl | rfl
    · exact ⟨le_rfl, hrounding.nonneg (hsound.groups group hgroup) 4⟩
    · exact hbounds
  · rw [scoreManifest_eq]
    dsimp only
    split_ifs
    · exact le_rfl
    · exact (earnedPoints_mem_Icc hrounding hsound _).1
  · have hearned := earnedPoints_mem_Icc hrounding hsound cases
    rw [scoreManifest_eq]
    dsimp only
    split_ifs
    · exact hearned.1.trans hearned.2
    · exact hearned.2
  · rw [scoreManifest_eq]
    dsimp only
    have hlength : orElse m.cases.length cases.length = m.cases.length := by
      rw [orElse, if_neg (List.length_pos_of_ne_nil hsound.cases_ne_nil).ne']
    rw [hlength]
    exact casePassed_le hdistinct

/-- A report of a thousand points on one case, and of a negative total on the other. -/
def boasts : List CasePayload :=
  [reportOf 1 "AC" 1000,
    { caseNumber := 2, status := "PT", points := some 60, totalPoints := some (-1) }]

theorem nodup_boasts : (boasts.map CasePayload.caseNumber).Nodup := by
  decide +kernel

theorem score_bounds_boasts :
    ∃ summary, score (manifestPython (twoGroups "g2")) (twoGroupsPackage "g2") boasts =
      .ok summary ∧ 0 ≤ summary.points ∧ summary.casePassed ≤ summary.caseTotal := by
  obtain ⟨_, summary, -, hscore, -, hpoints, -, hpassed⟩ :=
    score_bounds _ rfl monotoneRounding_decimalRound importedAs_twoGroups nodup_boasts
  exact ⟨summary, hscore, hpoints, hpassed⟩

/-! ## The order of the reports -/

theorem minScore_perm {scores scores' : List ℚ} (h : scores.Perm scores') :
    minScore scores = minScore scores' := by
  by_cases hempty : scores = []
  · rw [hempty] at h ⊢
    rw [h.nil_eq]
  · have hempty' : scores' ≠ [] := fun heq => hempty (heq ▸ h).eq_nil
    refine eq_of_forall_le_iff fun bound => ?_
    rw [le_minScore hempty, le_minScore hempty']
    simp only [h.mem_iff]

theorem groupTotal_perm (group : ScoringGroup) {scores scores' : List ℚ}
    (h : scores.Perm scores') : groupTotal group scores = groupTotal group scores' := by
  unfold groupTotal
  have hempty : scores = [] ↔ scores' = [] := by
    rw [← List.length_eq_zero_iff, h.length_eq, List.length_eq_zero_iff]
  rw [minScore_perm h, h.sum_eq]
  simp only [hempty]

theorem groupTotal_cons_le (group : ScoringGroup) {score score' : ℚ} (h : score ≤ score')
    (scores : List ℚ) : groupTotal group (score :: scores) ≤ groupTotal group (score' :: scores) := by
  unfold groupTotal
  rw [if_neg (List.cons_ne_nil _ _), if_neg (List.cons_ne_nil _ _)]
  split_ifs with hmode
  · refine (le_minScore (List.cons_ne_nil _ _)).mpr fun other hother => ?_
    have hmin := (le_minScore (List.cons_ne_nil score scores)).mp le_rfl
    rcases List.mem_cons.mp hother with rfl | hrest
    · exact (hmin score List.mem_cons_self).trans h
    · exact hmin other (List.mem_cons_of_mem _ hrest)
  · rw [List.sum_cons, List.sum_cons]
    exact add_le_add_left h _

theorem groupScore_congr (group : ScoringGroup) {scores scores' : List ℚ}
    (h : scores.Perm scores') :
    groupScore (.exact rounding) group scores = groupScore (.exact rounding) group scores' := by
  rw [groupScore_exact, groupScore_exact, groupTotal_perm group h]

section Perm

variable {cases' : List CasePayload}

theorem unreported_congr (m : ScoringManifest)
    (h : ∀ caseNumber, caseNumber ∈ cases.map CasePayload.caseNumber ↔
      caseNumber ∈ cases'.map CasePayload.caseNumber) :
    unreported m cases = unreported m cases' := by
  unfold unreported
  simp only [h]

theorem known_perm (m : ScoringManifest) (h : cases.Perm cases') :
    (known m cases).Perm (known m cases') :=
  h.filterMap _

theorem credits_perm (A : FloatArith) (m : ScoringManifest) (h : cases.Perm cases') :
    (credits A m cases).Perm (credits A m cases') := by
  unfold credits
  rw [unreported_congr m fun _ => (h.map CasePayload.caseNumber).mem_iff]
  exact ((known_perm m h).map _).append_right _

/-- The statuses of distinct reports are those of the known ones. -/
theorem values_statuses {A : FloatArith}
    (hdistinct : (cases.map CasePayload.caseNumber).Nodup) :
    (tally A m cases).statuses.values = (known m cases).map fun pair => caseStatus pair.2 := by
  rw [statuses_tally, Dict.values, Dict.entries_ofList, List.map_map]
  · rfl
  · rw [List.map_map]
    exact nodup_caseNumber_known m hdistinct

theorem earned_perm (m : ScoringManifest) (h : cases.Perm cases') :
    earned (.exact rounding) m cases = earned (.exact rounding) m cases' := by
  unfold earned
  congr 1
  funext groupId group
  exact groupScore_congr group (((credits_perm _ m h).filter _).map _)

theorem foldl_max_perm {α β : Type} [LinearOrder β] (f : α → β) {l l' : List α} (h : l.Perm l')
    (first : β) :
    l.foldl (fun largest a => max largest (f a)) first =
      l'.foldl (fun largest a => max largest (f a)) first :=
  haveI : RightCommutative fun (largest : β) (a : α) => max largest (f a) :=
    ⟨fun largest a b => max_right_comm largest (f a) (f b)⟩
  h.foldl_eq first

/-- The order of distinct reports does not matter. -/
theorem scoreManifest_perm (m : ScoringManifest) (h : cases.Perm cases')
    (hdistinct : (cases.map CasePayload.caseNumber).Nodup) :
    scoreManifest (.exact rounding) m cases = scoreManifest (.exact rounding) m cases' := by
  have hdistinct' : (cases'.map CasePayload.caseNumber).Nodup :=
    (h.map CasePayload.caseNumber).nodup_iff.mp hdistinct
  have hearned : earned (.exact rounding) m cases = earned (.exact rounding) m cases' :=
    earned_perm m h
  have hpoints : earnedPoints (.exact rounding) m cases = earnedPoints (.exact rounding) m cases' := by
    unfold earnedPoints
    rw [hearned]
  have hpassed : (tally (.exact rounding) m cases).casePassed =
      (tally (.exact rounding) m cases').casePassed := by
    rw [casePassed_tally, casePassed_tally]
    exact ((known_perm m h).map _).countP_eq _
  have hverdict : verdict (.exact rounding) m cases = verdict (.exact rounding) m cases' := by
    unfold verdict
    rw [aggregateResult_eq, aggregateResult_eq, values_statuses hdistinct,
      values_statuses hdistinct', SubmissionResult.severest_congr ((known_perm m h).map _), hpoints,
      hpassed, h.length_eq]
  have hfinal : finalVerdict (.exact rounding) m cases = finalVerdict (.exact rounding) m cases' := by
    rw [finalVerdict_eq, finalVerdict_eq, hverdict]
  have hzeroed : Zeroed (.exact rounding) m cases ↔ Zeroed (.exact rounding) m cases' := by
    unfold Zeroed
    rw [hverdict]
  rw [scoreManifest_eq, scoreManifest_eq, hfinal, hearned, hpoints, hpassed, h.length_eq]
  have htime : (tally (.exact rounding) m cases).timeUsed =
      (tally (.exact rounding) m cases').timeUsed := by
    unfold tally
    dsimp only
    rw [foldl_tallyCase, foldl_tallyCase]
    exact foldl_max_perm _ (known_perm m h) _
  have hmemory : (tally (.exact rounding) m cases).memoryUsed =
      (tally (.exact rounding) m cases').memoryUsed := by
    unfold tally
    dsimp only
    rw [foldl_tallyCase, foldl_tallyCase]
    exact foldl_max_perm _ (known_perm m h) _
  rw [htime, hmemory]
  simp only [hzeroed]

end Perm

/-! ## A better report -/

/-- `better` is the list with one report, or the absence of one, replaced by the report
that the case is accepted, with at least the credit it had. -/
inductive Improves (A : FloatArith) (m : ScoringManifest) :
    List CasePayload → List CasePayload → Prop
  | intro (before after : List CasePayload) (old : Option CasePayload) (new : CasePayload)
      (number : ∀ case ∈ old, case.caseNumber = new.caseNumber)
      (accepted : caseStatus new = .AC)
      (credit : ∀ manifestCase ∈ caseByNumber m new.caseNumber,
        old.elim 0 (creditRatio A manifestCase) ≤ creditRatio A manifestCase new) :
      Improves A m (before ++ old.toList ++ after) (before ++ new :: after)

section Improve

variable {rest : List CasePayload} {old : Option CasePayload} {new : CasePayload}

/-- A report on a case that the package does not have changes nothing. -/
theorem credits_of_unknown (A : FloatArith) (rest : List CasePayload)
    (hnew : caseByNumber m new.caseNumber = none)
    (hold : ∀ case ∈ old, case.caseNumber = new.caseNumber) :
    known m (old.toList ++ rest) = known m (new :: rest) ∧
      unreported m (old.toList ++ rest) = unreported m (new :: rest) ∧
        credits A m (old.toList ++ rest) = credits A m (new :: rest) := by
  have hnumbers : ∀ numbered ∈ m.cases.zipIdx 1, (numbered.2 : ℤ) ≠ new.caseNumber := by
    intro numbered hnumbered heq
    rw [← heq, caseByNumber_of_mem_zipIdx hnumbered] at hnew
    cases hnew
  have hunreported : ∀ case : CasePayload, case.caseNumber = new.caseNumber →
      unreported m (case :: rest) = unreported m rest := by
    intro case hcase
    unfold unreported
    congr 1
    refine List.filter_congr fun numbered hnumbered => ?_
    have hne := hnumbers numbered hnumbered
    simp [hcase, hne]
  have hknown : known m (old.toList ++ rest) = known m (new :: rest) := by
    rw [known_cons_of_none hnew]
    cases old with
    | none => rfl
    | some case =>
        exact known_cons_of_none (by rw [hold case rfl]; exact hnew)
  have hmissing : unreported m (old.toList ++ rest) = unreported m (new :: rest) := by
    rw [hunreported new rfl]
    cases old with
    | none => rfl
    | some case => exact hunreported case (hold case rfl)
  refine ⟨hknown, hmissing, ?_⟩
  unfold credits
  rw [hknown, hmissing]

theorem exists_mem_zipIdx {caseNumber : ℤ} {manifestCase : ScoringCase}
    (h : caseByNumber m caseNumber = some manifestCase) :
    ∃ index : ℕ, (manifestCase, index) ∈ m.cases.zipIdx 1 ∧ (index : ℤ) = caseNumber := by
  unfold caseByNumber at h
  split_ifs at h with hpositive
  have hindex : caseNumber.toNat - 1 = (caseNumber - 1).toNat := by omega
  refine ⟨caseNumber.toNat, List.mem_zipIdx_iff_le_and_getElem?_sub.mpr ⟨by omega, ?_⟩, by omega⟩
  rw [hindex]
  exact h

/-- One more report leaves one case less without one. -/
theorem unreported_perm {manifestCase : ScoringCase}
    (hnew : caseByNumber m new.caseNumber = some manifestCase)
    (hfresh : new.caseNumber ∉ rest.map CasePayload.caseNumber) :
    (unreported m rest).Perm (manifestCase :: unreported m (new :: rest)) := by
  obtain ⟨index, hmem, hindex⟩ := exists_mem_zipIdx hnew
  have hnodup : (m.cases.zipIdx 1).Nodup :=
    List.Nodup.of_map Prod.snd (by rw [List.zipIdx_map_snd]; exact List.nodup_range' 1)
  have hsplit : ((m.cases.zipIdx 1).filter fun numbered =>
      (numbered.2 : ℤ) ∉ rest.map CasePayload.caseNumber).Perm
        ((manifestCase, index) :: (m.cases.zipIdx 1).filter fun numbered =>
          (numbered.2 : ℤ) ∉ (new :: rest).map CasePayload.caseNumber) := by
    refine (List.perm_ext_iff_of_nodup (hnodup.filter _) ?_).mpr fun numbered => ?_
    · rw [List.nodup_cons]
      exact ⟨by simp [hindex], hnodup.filter _⟩
    · rw [List.mem_cons, List.mem_filter, List.mem_filter]
      by_cases hnumber : (numbered.2 : ℤ) = new.caseNumber
      · -- the only case with the number of the new report
        have hsame : numbered ∈ m.cases.zipIdx 1 ↔ numbered = (manifestCase, index) := by
          constructor
          · intro hnumbered
            have hget := caseByNumber_of_mem_zipIdx hnumbered
            rw [hnumber, hnew] at hget
            have hsecond : numbered.2 = index := by omega
            exact Prod.ext (Option.some.inj hget).symm hsecond
          · rintro rfl
            exact hmem
        rw [← hsame]
        simp [hnumber, hfresh]
      · have hne : numbered ≠ (manifestCase, index) := by
          rintro rfl
          exact hnumber hindex
        simp [hnumber, hne]
  exact hsplit.map Prod.fst

/-- The credits of a list with one more report: the others', and its own. -/
theorem credits_cons {A : FloatArith} {case : CasePayload} {manifestCase : ScoringCase}
    (hcase : caseByNumber m case.caseNumber = some manifestCase) :
    credits A m (case :: rest) =
      (resolveGroup (groupDefs A m) manifestCase.group, reportScore A manifestCase case) ::
        ((known m rest).map (fun pair =>
            (resolveGroup (groupDefs A m) pair.1.group, reportScore A pair.1 pair.2)) ++
          (unreported m (case :: rest)).map fun missing =>
            (resolveGroup (groupDefs A m) missing.group, 0)) := by
  rw [credits, known_cons_of_some hcase]
  rfl

/-- Replacing the report of a case replaces its credit. -/
theorem exists_credits {A : FloatArith} {manifestCase : ScoringCase}
    (hnew : caseByNumber m new.caseNumber = some manifestCase)
    (hfresh : new.caseNumber ∉ rest.map CasePayload.caseNumber)
    (hold : ∀ case ∈ old, case.caseNumber = new.caseNumber) :
    ∃ group others,
      (credits A m (old.toList ++ rest)).Perm
          ((group, old.elim 0 (reportScore A manifestCase)) :: others) ∧
        credits A m (new :: rest) = (group, reportScore A manifestCase new) :: others := by
  refine ⟨_, _, ?_, credits_cons hnew⟩
  cases old with
  | none =>
      rw [Option.toList_none, List.nil_append, credits]
      refine (((unreported_perm hnew hfresh).map _).append_left _).trans ?_
      exact List.perm_middle
  | some case =>
      have hnumber : case.caseNumber = new.caseNumber := hold case rfl
      have hsame : unreported m (case :: rest) = unreported m (new :: rest) :=
        unreported_congr m fun _ => by rw [List.map_cons, List.map_cons, hnumber]
      rw [Option.toList_some, List.singleton_append, credits_cons (hnumber ▸ hnew), hsame]
      exact List.Perm.refl _

variable {better : List CasePayload} {others : List (String × ℚ)} {group : String}
  {score score' : ℚ}

/-- A group earns no less when one credit is raised. -/
theorem groupScore_le (hrounding : MonotoneRounding rounding) (hle : score ≤ score')
    (hcredits : (credits (.exact rounding) m cases).Perm ((group, score) :: others))
    (hbetter : (credits (.exact rounding) m better).Perm ((group, score') :: others))
    (groupId : String) (definition : ScoringGroup) :
    groupScore (.exact rounding) definition (groupCredits (.exact rounding) m cases groupId) ≤
      groupScore (.exact rounding) definition
        (groupCredits (.exact rounding) m better groupId) := by
  have hlower := (hcredits.filter fun credit => credit.1 = groupId).map Prod.snd
  have hhigher := (hbetter.filter fun credit => credit.1 = groupId).map Prod.snd
  change (groupCredits (.exact rounding) m cases groupId).Perm _ at hlower
  change (groupCredits (.exact rounding) m better groupId).Perm _ at hhigher
  rw [groupScore_congr definition hlower, groupScore_congr definition hhigher, List.filter_cons,
    List.filter_cons]
  dsimp only
  split_ifs
  · rw [List.map_cons, List.map_cons, groupScore_exact, groupScore_exact]
    exact hrounding.mono 4 (min_le_min_right _ (groupTotal_cons_le definition hle _))
  · exact le_rfl

theorem earnedPoints_le (hrounding : MonotoneRounding rounding)
    (hle : ∀ groupId definition,
      groupScore (.exact rounding) definition (groupCredits (.exact rounding) m cases groupId) ≤
        groupScore (.exact rounding) definition
          (groupCredits (.exact rounding) m better groupId)) :
    earnedPoints (.exact rounding) m cases ≤ earnedPoints (.exact rounding) m better := by
  unfold earnedPoints earned
  rw [FloatArith.exact_sum, FloatArith.exact_sum, Dict.values_mapEntries, Dict.values_mapEntries]
  exact hrounding.mono 2 (List.sum_le_sum fun entry _ => hle entry.1 entry.2)

/-- The second summary is at least as good: in points, in total and for every subtask, and
in being accepted. -/
structure AtMost (lower higher : ScoreSummary) : Prop where
  points : lower.points ≤ higher.points
  subtaskScores : ∀ groupId score, lower.subtaskScores.get? groupId = some score →
    ∃ score', higher.subtaskScores.get? groupId = some score' ∧ score ≤ score'
  accepted : lower.result = .AC → higher.result = .AC

end Improve

/-- The verdict `AC`: all cases passed, no status decides by itself, and the points reach
the total. -/
theorem verdict_eq_AC_iff {A : FloatArith} (hcases : m.cases ≠ []) :
    verdict A m cases = .AC ↔
      SubmissionResult.severest (tally A m cases).statuses.values = none ∧
        (tally A m cases).casePassed = m.cases.length ∧
          (totalPossible A m ≤ 0 ∨ totalPossible A m ≤ earnedPoints A m cases) := by
  have hlength : 0 < m.cases.length := List.length_pos_of_ne_nil hcases
  have htotal : orElse m.cases.length cases.length = m.cases.length := by
    rw [orElse, if_neg hlength.ne']
  rw [verdict, aggregateResult_eq, htotal]
  cases hsevere : SubmissionResult.severest (tally A m cases).statuses.values with
  | some result =>
      have hresult : result ∈ SubmissionResult.severities := List.mem_of_find?_eq_some hsevere
      rw [Option.getD_some]
      refine iff_of_false ?_ (by simp)
      rintro rfl
      exact absurd hresult (by decide)
  | none =>
      rw [Option.getD_none]
      split_ifs with haccepted hpoints
      · exact iff_of_true rfl ⟨rfl, haccepted.2.1, haccepted.2.2⟩
      all_goals
        refine iff_of_false (by decide) ?_
        rintro ⟨-, hpassed, hreached⟩
        exact haccepted ⟨hlength, hpassed, hreached⟩

theorem result_eq_AC_iff {A : FloatArith} :
    (scoreManifest A m cases).result = .AC ↔ verdict A m cases = .AC := by
  rw [scoreManifest_eq, finalVerdict_eq]
  dsimp only
  split_ifs with hstrict
  · rw [hstrict.2]
    decide
  · exact Iff.rfl

theorem not_aborted (h : ∀ case ∈ cases, caseStatus case ≠ .CE ∧ caseStatus case ≠ .IE) :
    ¬ Aborted m cases := by
  rintro ⟨caseNumber, -, case, hcase, hstatus⟩
  obtain ⟨hCE, hIE⟩ := h case (mem_of_mem_lastPayload hcase)
  exact hstatus.elim hCE hIE

/-- Without `CE` and `IE` the points are taken away from what is not accepted. -/
theorem zeroed_iff {A : FloatArith}
    (h : ∀ case ∈ cases, caseStatus case ≠ .CE ∧ caseStatus case ≠ .IE) :
    Zeroed A m cases ↔ m.partialScore = false ∧ verdict A m cases ≠ .AC := by
  have habort := mt (verdict_eq_CE_or_IE_iff (A := A)).mp (not_aborted (m := m) h)
  rw [not_or] at habort
  unfold Zeroed
  tauto

section Improve

variable {rest : List CasePayload} {old : Option CasePayload} {new : CasePayload}

/-- A better report keeps an accepted verdict. -/
theorem verdict_improved (hcases : m.cases ≠ [])
    (hdistinct : ((new :: rest).map CasePayload.caseNumber).Nodup)
    (hold : ∀ case ∈ old, case.caseNumber = new.caseNumber) (haccepted : caseStatus new = .AC)
    (hpoints : earnedPoints (.exact rounding) m (old.toList ++ rest) ≤
      earnedPoints (.exact rounding) m (new :: rest))
    (hlower : verdict (.exact rounding) m (old.toList ++ rest) = .AC) :
    verdict (.exact rounding) m (new :: rest) = .AC := by
  have hdistinct' : ((old.toList ++ rest).map CasePayload.caseNumber).Nodup := by
    cases old with
    | none => exact hdistinct.of_cons
    | some case =>
        rw [Option.toList_some, List.singleton_append, List.map_cons, hold case rfl]
        exact hdistinct
  rw [verdict_eq_AC_iff hcases] at hlower ⊢
  obtain ⟨hsevere, hpassed, htotal⟩ := hlower
  rw [values_statuses hdistinct'] at hsevere
  rw [values_statuses hdistinct]
  cases hnew : caseByNumber m new.caseNumber with
  | none =>
      have hknown := (credits_of_unknown (.exact rounding) rest hnew hold).1
      rw [casePassed_tally] at hpassed ⊢
      rw [hknown] at hsevere hpassed
      exact ⟨hsevere, hpassed, htotal.imp_right fun h => h.trans hpoints⟩
  | some manifestCase =>
      have hknown : known m (new :: rest) = (manifestCase, new) :: known m rest :=
        known_cons_of_some hnew
      have hrest : (known m rest).Sublist (known m (old.toList ++ rest)) :=
        (List.sublist_append_right _ _).filterMap _
      refine ⟨?_, le_antisymm (casePassed_le hdistinct) ?_, htotal.imp_right fun h => h.trans hpoints⟩
      · -- the new status decides nothing, and the others were there before
        refine List.find?_eq_none.mpr fun result hresult hcontains => ?_
        have hbefore := List.find?_eq_none.mp hsevere result hresult
        rw [hknown, List.map_cons, haccepted] at hcontains
        have hne : result ≠ .AC := by
          rintro rfl
          exact absurd hresult (by decide)
        simp only [List.contains_cons, Bool.or_eq_true, beq_iff_eq, hne, false_or,
          List.contains_iff_mem] at hcontains hbefore
        exact hbefore ((hrest.map _).subset hcontains)
      · rw [← hpassed, casePassed_tally, casePassed_tally, hknown, List.map_cons, haccepted]
        cases old with
        | none => simp
        | some case =>
            have hcase : caseByNumber m case.caseNumber = some manifestCase := by
              rw [hold case rfl]
              exact hnew
            rw [Option.toList_some, List.singleton_append, known_cons_of_some hcase]
            simp only [List.map_cons, List.countP_cons]
            by_cases hstatus : caseStatus case = .AC <;> simp [hstatus]

/-- A better report gives a summary that is at least as good. -/
theorem atMost_improved (hrounding : MonotoneRounding rounding) (hsound : m.Sound)
    (hdistinct : ((new :: rest).map CasePayload.caseNumber).Nodup)
    (hold : ∀ case ∈ old, case.caseNumber = new.caseNumber) (haccepted : caseStatus new = .AC)
    (hcredit : ∀ manifestCase ∈ caseByNumber m new.caseNumber,
      old.elim 0 (creditRatio (.exact rounding) manifestCase) ≤
        creditRatio (.exact rounding) manifestCase new)
    (hnone : ∀ case ∈ old.toList ++ rest, caseStatus case ≠ .CE ∧ caseStatus case ≠ .IE) :
    AtMost (scoreManifest (.exact rounding) m (old.toList ++ rest))
      (scoreManifest (.exact rounding) m (new :: rest)) := by
  have hgroups : ∀ groupId definition,
      groupScore (.exact rounding) definition
          (groupCredits (.exact rounding) m (old.toList ++ rest) groupId) ≤
        groupScore (.exact rounding) definition
          (groupCredits (.exact rounding) m (new :: rest) groupId) := by
    intro groupId definition
    cases hnew : caseByNumber m new.caseNumber with
    | none =>
        have hcredits := (credits_of_unknown (.exact rounding) rest hnew hold).2.2
        unfold groupCredits
        rw [hcredits]
    | some manifestCase =>
        have hfresh : new.caseNumber ∉ rest.map CasePayload.caseNumber :=
          (List.nodup_cons.mp hdistinct).1
        obtain ⟨group, others, hlower, hhigher⟩ :=
          exists_credits (A := .exact rounding) hnew hfresh hold
        refine groupScore_le hrounding ?_ hlower (List.Perm.of_eq hhigher) groupId definition
        have hpositive : 0 ≤ manifestCase.points :=
          hsound.cases _ (mem_cases_of_caseByNumber hnew)
        have hratio := hcredit manifestCase hnew
        rw [reportScore_eq]
        cases old with
        | none =>
            exact hrounding.nonneg (mul_nonneg hpositive (creditRatio_nonneg _ _ _)) 4
        | some case =>
            exact hrounding.mono 4 (mul_le_mul_of_nonneg_left hratio hpositive)
  have hpoints := earnedPoints_le hrounding hgroups
  have hverdict := verdict_improved hsound.cases_ne_nil hdistinct hold haccepted hpoints
  -- what is zeroed afterwards was zeroed before
  have hzeroed : Zeroed (.exact rounding) m (new :: rest) →
      Zeroed (.exact rounding) m (old.toList ++ rest) := by
    rintro ⟨hstrict, hnotAccepted, -⟩
    exact (zeroed_iff hnone).mpr ⟨hstrict, mt hverdict hnotAccepted⟩
  have hnonneg : ∀ groupId definition, definition ∈ m.groups →
      0 ≤ groupScore (.exact rounding) definition
        (groupCredits (.exact rounding) m (new :: rest) groupId) :=
    fun groupId definition hmem => (groupScore_mem_Icc hrounding (hsound.groups _ hmem)
      (groupCredits_nonneg hrounding hsound.toNonneg _ groupId)).1
  constructor
  · rw [scoreManifest_eq, scoreManifest_eq]
    dsimp only
    split_ifs with hlower hhigher hhigher
    · exact le_rfl
    · exact (earnedPoints_mem_Icc hrounding hsound _).1
    · exact absurd (hzeroed hhigher) hlower
    · exact hpoints
  · intro groupId score hscore
    obtain ⟨group, hmem, hid, -⟩ := get?_subtaskScores hsound hscore
    have hget (A : FloatArith) : (groupDefs A m).get? groupId = some group :=
      (get?_groupDefs hsound.groups_ne_nil hsound.ids).mpr ⟨hmem, hid⟩
    rw [scoreManifest_eq] at hscore ⊢
    dsimp only at hscore ⊢
    by_cases hhigher : Zeroed (.exact rounding) m (new :: rest)
    · rw [if_pos (hzeroed hhigher)] at hscore
      rw [if_pos hhigher]
      simp only [earned, Dict.get?_mapEntries, hget, Option.map_some, Option.some.injEq] at hscore ⊢
      exact ⟨0, rfl, hscore.ge⟩
    · rw [if_neg hhigher]
      simp only [earned, Dict.get?_mapEntries, hget, Option.map_some, Option.some.injEq]
      refine ⟨_, rfl, ?_⟩
      split_ifs at hscore with hlower
      all_goals
        simp only [earned, Dict.get?_mapEntries, hget, Option.map_some, Option.some.injEq] at hscore
        subst hscore
      · exact hnonneg groupId group hmem
      · exact hgroups groupId group
  · rw [result_eq_AC_iff, result_eq_AC_iff]
    exact hverdict

end Improve

section Improves

variable {P : Python} {package : ProblemPackage} {imported : Imported} {better : List CasePayload}

theorem Improves.atMost (hrounding : MonotoneRounding rounding) (hsound : m.Sound)
    (h : Improves (.exact rounding) m cases better)
    (hdistinct : (cases.map CasePayload.caseNumber).Nodup)
    (hbetter : (better.map CasePayload.caseNumber).Nodup)
    (hnone : ∀ case ∈ cases, caseStatus case ≠ .CE ∧ caseStatus case ≠ .IE) :
    AtMost (scoreManifest (.exact rounding) m cases)
      (scoreManifest (.exact rounding) m better) := by
  obtain ⟨before, after, old, new, hnumber, haccepted, hcredit⟩ := h
  -- the order does not matter, so that the report in question may come first
  have hlower : (before ++ old.toList ++ after).Perm (old.toList ++ (before ++ after)) := by
    rw [← List.append_assoc]
    exact List.perm_append_comm.append_right after
  have hhigher : (before ++ new :: after).Perm (new :: (before ++ after)) := List.perm_middle
  rw [scoreManifest_perm m hlower hdistinct, scoreManifest_perm m hhigher hbetter]
  apply atMost_improved hrounding hsound _ hnumber haccepted hcredit
  · exact fun case hcase => hnone case (hlower.mem_iff.mpr hcase)
  · exact (hhigher.map _).nodup_iff.mp hbetter

/-- Replacing the report of a case, or its absence, by an accepted one with at least the
credit it had never makes a summary worse, and the order of the reports does not matter. -/
theorem score_mono (P : Python) (hexact : P.arith = .exact rounding)
    (hrounding : MonotoneRounding rounding) (himported : package.ImportedAs P imported)
    {cases : List CasePayload} (hdistinct : (cases.map CasePayload.caseNumber).Nodup)
    (hnone : ∀ case ∈ cases, caseStatus case ≠ .CE ∧ caseStatus case ≠ .IE) :
    ∃ m summary, ScoringManifest.ofJson P package.manifest = some m ∧
      score P package cases = .ok summary ∧
        (∀ better, Improves P.arith m cases better → (better.map CasePayload.caseNumber).Nodup →
          ∃ summary', score P package better = .ok summary' ∧ AtMost summary summary') ∧
        ∀ cases', cases.Perm cases' → score P package cases' = .ok summary := by
  obtain ⟨m, hm, hsound⟩ := himported.exists_sound hexact hrounding
  refine ⟨m, _, hm, score_of_ofJson hm cases, ?_, ?_⟩
  all_goals rw [hexact]
  · intro better himproves hbetter
    refine ⟨_, score_of_ofJson hm better, ?_⟩
    rw [hexact]
    exact himproves.atMost hrounding hsound hdistinct hbetter hnone
  · intro cases' hperm
    rw [score_of_ofJson hm cases', hexact, scoreManifest_perm m hperm hdistinct]

/-- A case that passes, and a wrong answer on the other. -/
def oneWrong : List CasePayload := [reportOf 1 "AC" 50, reportOf 2 "WA" 0]

theorem nodup_oneWrong : (oneWrong.map CasePayload.caseNumber).Nodup := by
  decide +kernel

theorem improves_oneWrong : Improves (manifestPython (twoGroups "g2")).arith twoGroupsManifest
    oneWrong [reportOf 1 "AC" 50, reportOf 2 "AC" 50] :=
  .intro [reportOf 1 "AC" 50] [] (some (reportOf 2 "WA" 0)) (reportOf 2 "AC" 50)
    (by decide +kernel) (by decide +kernel) (by
      intro manifestCase hcase
      obtain rfl : manifestCase = { points := 50, group := "g2" } := (Option.some.inj hcase).symm
      decide +kernel)

theorem score_mono_oneWrong :
    ∃ summary summary',
      score (manifestPython (twoGroups "g2")) (twoGroupsPackage "g2") oneWrong = .ok summary ∧
        score (manifestPython (twoGroups "g2")) (twoGroupsPackage "g2")
          [reportOf 1 "AC" 50, reportOf 2 "AC" 50] = .ok summary' ∧
          AtMost summary summary' := by
  obtain ⟨m, summary, hm, hscore, hbetter, -⟩ :=
    score_mono _ rfl monotoneRounding_decimalRound importedAs_twoGroups nodup_oneWrong
      (by decide +kernel)
  rw [ofJson_twoGroups] at hm
  cases hm
  obtain ⟨summary', hscore', hle⟩ := hbetter _ improves_oneWrong (by decide +kernel)
  exact ⟨summary, summary', hscore, hscore', hle⟩

end Improves

/-! ## Stopping at the first failure -/

/-- The reports of a worker that stops at the first case that is not accepted. -/
def shortCircuit : List CasePayload → List CasePayload
  | [] => []
  | case :: rest => if caseStatus case = .AC then case :: shortCircuit rest else [case]

theorem shortCircuit_initial (cases : List CasePayload) : shortCircuit cases <+: cases := by
  induction cases with
  | nil => exact List.prefix_rfl
  | cons case rest ih =>
      unfold shortCircuit
      split_ifs
      · exact (List.prefix_cons_inj case).mpr ih
      · exact ⟨rest, rfl⟩

theorem shortCircuit_eq_self (h : ∀ case ∈ cases, caseStatus case = .AC) :
    shortCircuit cases = cases := by
  induction cases with
  | nil => rfl
  | cons case rest ih =>
      rw [List.forall_mem_cons] at h
      rw [shortCircuit, if_pos h.1, ih h.2]

/-- The case that stops the worker is reported. -/
theorem exists_mem_shortCircuit {case : CasePayload} (hcase : case ∈ cases)
    (hfails : caseStatus case ≠ .AC) : ∃ failed ∈ shortCircuit cases, caseStatus failed ≠ .AC := by
  induction cases with
  | nil => cases hcase
  | cons first rest ih =>
      unfold shortCircuit
      split_ifs with hfirst
      · rcases List.mem_cons.mp hcase with rfl | hrest
        · exact absurd hfirst hfails
        · obtain ⟨failed, hmem, hfailed⟩ := ih hrest
          exact ⟨failed, List.mem_cons_of_mem _ hmem, hfailed⟩
      · exact ⟨first, List.mem_singleton_self first, hfirst⟩

/-- Distinct reports with one that is not accepted leave a case that did not pass. -/
theorem verdict_ne_AC {A : FloatArith} (hcases : m.cases ≠ [])
    (hdistinct : (cases.map CasePayload.caseNumber).Nodup) {failed : CasePayload}
    (hmem : failed ∈ cases) (hknown : (caseByNumber m failed.caseNumber).isSome)
    (hfailed : caseStatus failed ≠ .AC) : verdict A m cases ≠ .AC := by
  rw [Ne, verdict_eq_AC_iff hcases]
  rintro ⟨-, hpassed, -⟩
  obtain ⟨manifestCase, hcase⟩ := Option.isSome_iff_exists.mp hknown
  have hfailedKnown : caseStatus failed ∈ (known m cases).map fun pair => caseStatus pair.2 :=
    List.mem_map.mpr ⟨(manifestCase, failed), mem_known.mpr ⟨hmem, hcase⟩, rfl⟩
  have hlength := length_known_le (m := m) hdistinct
  rw [casePassed_tally] at hpassed
  have hall : ((known m cases).map fun pair => caseStatus pair.2).length ≤
      List.countP (fun status => status = .AC) ((known m cases).map fun pair => caseStatus pair.2) := by
    rw [List.length_map]
    omega
  have hcount := List.countP_eq_length.mp (le_antisymm List.countP_le_length hall)
  exact hfailed (of_decide_eq_true (hcount _ hfailedKnown))

theorem scoreManifest_of_zeroed {A : FloatArith} (h : Zeroed A m cases) :
    (scoreManifest A m cases).points = 0 ∧
      (scoreManifest A m cases).subtaskScores = (groupDefs A m).mapEntries fun _ _ => 0 := by
  rw [scoreManifest_eq]
  dsimp only
  rw [if_pos h, if_pos h, earned, Dict.mapEntries_mapEntries]
  exact ⟨rfl, rfl⟩

/-- Without partial scores the reports after the first failure change neither the points
nor whether the submission is accepted. -/
theorem score_shortCircuit (P : Python) {package : ProblemPackage} {imported : Imported}
    (himported : package.ImportedAs P imported)
    (hm : ScoringManifest.ofJson P package.manifest = some m) (hstrict : m.partialScore = false)
    (hcovers : Covers m cases)
    (hnone : ∀ case ∈ cases, caseStatus case ≠ .CE ∧ caseStatus case ≠ .IE) :
    ∃ full short, score P package cases = .ok full ∧
      score P package (shortCircuit cases) = .ok short ∧
        short.points = full.points ∧ short.subtaskScores = full.subtaskScores ∧
          (short.result = .AC ↔ full.result = .AC) := by
  refine ⟨_, _, score_of_ofJson hm _, score_of_ofJson hm _, ?_⟩
  by_cases hall : ∀ case ∈ cases, caseStatus case = .AC
  · rw [shortCircuit_eq_self hall]
    exact ⟨rfl, rfl, Iff.rfl⟩
  · push Not at hall
    obtain ⟨case, hcase, hfails⟩ := hall
    obtain ⟨failed, hfailed, hstatus⟩ := exists_mem_shortCircuit hcase hfails
    have hsublist := (shortCircuit_initial cases).sublist
    have hdistinct := hcovers.nodup.sublist (hsublist.map CasePayload.caseNumber)
    have hcases := himported.manifest_cases_ne_nil hm
    have hknown := hcovers.isSome_caseByNumber
    have hfull : verdict P.arith m cases ≠ .AC :=
      verdict_ne_AC hcases hcovers.nodup hcase (hknown case hcase) hfails
    have hshort : verdict P.arith m (shortCircuit cases) ≠ .AC :=
      verdict_ne_AC hcases hdistinct hfailed (hknown failed (hsublist.subset hfailed)) hstatus
    have hzeroed := scoreManifest_of_zeroed ((zeroed_iff hnone).mpr ⟨hstrict, hfull⟩)
    have hzeroed' := scoreManifest_of_zeroed
      ((zeroed_iff fun case hmem => hnone case (hsublist.subset hmem)).mpr ⟨hstrict, hshort⟩)
    rw [hzeroed.1, hzeroed.2, hzeroed'.1, hzeroed'.2, result_eq_AC_iff, result_eq_AC_iff]
    exact ⟨rfl, rfl, iff_of_false hshort hfull⟩

/-- The first case fails, and the second one is not run. -/
theorem score_shortCircuit_firstFails :
    ∃ full short,
      score (manifestPython (twoGroups "g2")) (twoGroupsPackage "g2")
          [reportOf 1 "WA" 0, reportOf 2 "AC" 50] = .ok full ∧
        score (manifestPython (twoGroups "g2")) (twoGroupsPackage "g2") [reportOf 1 "WA" 0] =
            .ok short ∧
          short.points = full.points ∧ short.subtaskScores = full.subtaskScores ∧
            (short.result = .AC ↔ full.result = .AC) :=
  score_shortCircuit _ importedAs_twoGroups ofJson_twoGroups rfl (by rfl) (by decide +kernel)

end ScoringService

end JudgeLoom
