import JudgeLoom.Judge.Scoring

/-!
# The verdict on a full set of reports

Reports that cover a manifest name each of its cases once, in order.  On them the two
loops of `ScoringService.score` leave nothing but lists: the statuses are those of the
reports (`statuses_tally`), no case is missing, and the points of a group are those of
its cases (`caseScores_tally`).  The verdict is then the most severe of the reported
ones, if there is one that decides by itself, and otherwise depends on the points that
the reports are awarded (`result_scoreManifest`).
-/

namespace JudgeLoom

namespace SubmissionResult

/-- The verdicts that decide by themselves, in the order in which they are looked for. -/
def severities : List SubmissionResult := [CE, IE, TLE, MLE, RTE, OLE]

/-- The most severe of the verdicts that decide by themselves. -/
def severest (statuses : List SubmissionResult) : Option SubmissionResult :=
  severities.find? fun result => statuses.contains result

theorem severest_eq_none_of_forall {statuses : List SubmissionResult}
    (h : ∀ status ∈ statuses, status = AC) : severest statuses = none := by
  refine List.find?_eq_none.mpr fun result hresult hcontains => ?_
  have hmem : result ∈ statuses := by simpa using hcontains
  rw [h result hmem] at hresult
  exact absurd hresult (by decide)

theorem severest_congr {first second : List SubmissionResult} (h : first.Perm second) :
    severest first = severest second := by
  unfold severest
  congr 1
  funext result
  exact Bool.eq_iff_iff.mpr (by simp [h.mem_iff])

end SubmissionResult

namespace ScoringService

/-! ## Points -/

/-- The verdict that a report is taken for. -/
def caseStatus (case : CasePayload) : SubmissionResult :=
  .ofReport (case.status.getD SubmissionResult.IR.value)

/-- The score of a manifest case with its report. -/
def reportScore (A : FloatArith) (manifestCase : ScoringCase) (case : CasePayload) : ℚ :=
  caseScore A manifestCase.points (caseStatus case) (case.points.getD 0)
    (orElse (case.totalPoints.getD manifestCase.points) manifestCase.points)

/-- The scores of the cases of a list, each with its group. -/
def reportScores (A : FloatArith) (defs : Dict String ScoringGroup)
    (manifestCases : List ScoringCase) (cases : List CasePayload) : List (String × ℚ) :=
  (manifestCases.zip cases).map fun pair =>
    (resolveGroup defs pair.1.group, reportScore A pair.1 pair.2)

/-- The points of a group: its cases' scores, capped and rounded. -/
def groupPoints (A : FloatArith) (m : ScoringManifest) (cases : List CasePayload)
    (group : String × ScoringGroup) : ℚ :=
  groupScore A group.2
    (((reportScores A (groupDefs A m) m.cases cases).filter fun score =>
      score.1 = group.1).map Prod.snd)

/-- The points that the reports are worth, whatever the verdict makes of them. -/
def awarded (A : FloatArith) (m : ScoringManifest) (cases : List CasePayload) : ℚ :=
  A.round (A.sum ((groupDefs A m).entries.map (groupPoints A m cases))) 2

/-- The points of all groups. -/
def totalPossible (A : FloatArith) (m : ScoringManifest) : ℚ :=
  A.sum ((groupsOf A m).map ScoringGroup.points)

/-! ## The two loops -/

/-- The reported cases that the manifest has, with their reports. -/
def known (m : ScoringManifest) (cases : List CasePayload) : List (ScoringCase × CasePayload) :=
  cases.filterMap fun case => (caseByNumber m case.caseNumber).map fun manifestCase =>
    (manifestCase, case)

/-- The cases of the manifest without a report. -/
def unreported (m : ScoringManifest) (cases : List CasePayload) : List ScoringCase :=
  ((m.cases.zipIdx 1).filter fun numbered =>
    (numbered.2 : ℤ) ∉ cases.map CasePayload.caseNumber).map Prod.fst

/-- The scores that are credited, in order, each with its group. -/
def credits (A : FloatArith) (m : ScoringManifest) (cases : List CasePayload) :
    List (String × ℚ) :=
  ((known m cases).map fun pair =>
      (resolveGroup (groupDefs A m) pair.1.group, reportScore A pair.1 pair.2)) ++
    (unreported m cases).map fun manifestCase =>
      (resolveGroup (groupDefs A m) manifestCase.group, 0)

/-- The scores credited to a group. -/
def groupCredits (A : FloatArith) (m : ScoringManifest) (cases : List CasePayload)
    (groupId : String) : List ℚ :=
  ((credits A m cases).filter fun credit => credit.1 = groupId).map Prod.snd

variable {A : FloatArith} {m : ScoringManifest} {defs : Dict String ScoringGroup}
  {cases : List CasePayload}

theorem known_cons_of_some {case : CasePayload} {manifestCase : ScoringCase}
    (h : caseByNumber m case.caseNumber = some manifestCase) :
    known m (case :: cases) = (manifestCase, case) :: known m cases := by
  unfold known
  rw [List.filterMap_cons, h, Option.map_some]

theorem known_cons_of_none {case : CasePayload} (h : caseByNumber m case.caseNumber = none) :
    known m (case :: cases) = known m cases := by
  unfold known
  rw [List.filterMap_cons, h, Option.map_none]

theorem mem_known {pair : ScoringCase × CasePayload} : pair ∈ known m cases ↔
    pair.2 ∈ cases ∧ caseByNumber m pair.2.caseNumber = some pair.1 := by
  unfold known
  rw [List.mem_filterMap]
  constructor
  · rintro ⟨case, hcase, hpair⟩
    obtain ⟨manifestCase, hmanifest, rfl⟩ := Option.map_eq_some_iff.mp hpair
    exact ⟨hcase, hmanifest⟩
  · rintro ⟨hcase, hmanifest⟩
    exact ⟨pair.2, hcase, Option.map_eq_some_iff.mpr ⟨pair.1, hmanifest, rfl⟩⟩

/-- The case of a number. -/
theorem caseByNumber_natCast_succ (m : ScoringManifest) (index : ℕ) :
    caseByNumber m ((index + 1 : ℕ) : ℤ) = m.cases[index]? := by
  have hpositive : (1 : ℤ) ≤ ((index + 1 : ℕ) : ℤ) := by omega
  have hindex : (((index + 1 : ℕ) : ℤ) - 1).toNat = index := by omega
  rw [caseByNumber, if_pos hpositive, hindex]

theorem known_eq_zip {manifestCases : List ScoringCase} :
    ∀ {cases : List CasePayload},
      (cases.map fun case => caseByNumber m case.caseNumber) = manifestCases.map some →
        known m cases = manifestCases.zip cases := by
  induction manifestCases with
  | nil =>
      intro cases hcases
      obtain rfl : cases = [] := List.map_eq_nil_iff.mp hcases
      rfl
  | cons manifestCase rest ih =>
      intro cases hcases
      cases cases with
      | nil => simp at hcases
      | cons case cases =>
          rw [List.map_cons, List.map_cons, List.cons.injEq] at hcases
          rw [known_cons_of_some hcases.1, ih hcases.2, List.zip_cons_cons]

/-- A numbered case of the manifest is the case of its number. -/
theorem caseByNumber_of_mem_zipIdx {numbered : ScoringCase × ℕ}
    (h : numbered ∈ m.cases.zipIdx 1) : caseByNumber m (numbered.2 : ℤ) = some numbered.1 := by
  obtain ⟨hle, hget⟩ := List.mem_zipIdx_iff_le_and_getElem?_sub.mp h
  have hnumber : numbered.2 = numbered.2 - 1 + 1 := by omega
  rw [hnumber, caseByNumber_natCast_succ]
  exact hget

theorem tallyCase_of_some {case : CasePayload} {manifestCase : ScoringCase}
    (h : caseByNumber m case.caseNumber = some manifestCase) (tally : Tally) :
    tallyCase A m defs tally case =
      { caseScores := tally.caseScores.push (resolveGroup defs manifestCase.group)
          (reportScore A manifestCase case)
        statuses := tally.statuses.set case.caseNumber (caseStatus case)
        timeUsed := max tally.timeUsed (case.timeUsed.getD 0)
        memoryUsed := max tally.memoryUsed (case.memoryUsed.getD 0)
        casePassed :=
          if caseStatus case = .AC then tally.casePassed + 1 else tally.casePassed } := by
  unfold tallyCase
  rw [h]
  rfl

/-- The first loop leaves what the known reports say. -/
theorem foldl_tallyCase (cases : List CasePayload) (tally : Tally) :
    cases.foldl (tallyCase A m defs) tally =
      { caseScores := ((known m cases).map fun pair =>
            (resolveGroup defs pair.1.group, reportScore A pair.1 pair.2)).foldl
          (fun d push => d.push push.1 push.2) tally.caseScores
        statuses := ((known m cases).map fun pair =>
            (pair.2.caseNumber, caseStatus pair.2)).foldl
          (fun d pair => d.set pair.1 pair.2) tally.statuses
        timeUsed := (known m cases).foldl (fun t pair => max t (pair.2.timeUsed.getD 0))
          tally.timeUsed
        memoryUsed := (known m cases).foldl (fun t pair => max t (pair.2.memoryUsed.getD 0))
          tally.memoryUsed
        casePassed := tally.casePassed +
          ((known m cases).map fun pair => caseStatus pair.2).countP fun status =>
            status = .AC } := by
  induction cases generalizing tally with
  | nil => rfl
  | cons case cases ih =>
      rw [List.foldl_cons, ih]
      cases hcase : caseByNumber m case.caseNumber with
      | none =>
          rw [known_cons_of_none hcase, tallyCase, hcase]
      | some manifestCase =>
          rw [known_cons_of_some hcase, tallyCase_of_some hcase]
          simp only [List.map_cons, List.foldl_cons, List.countP_cons, decide_eq_true_eq,
            Tally.mk.injEq, true_and]
          split_ifs <;> omega

/-- The second loop adds a zero for every case without a report. -/
theorem foldl_tallyMissing {statuses : Dict ℤ SubmissionResult}
    (caseScores : Dict String (List ℚ)) (numbered : List (ScoringCase × ℕ)) :
    numbered.foldl (tallyMissing defs statuses) caseScores =
      ((numbered.filter fun pair => ¬ statuses.contains (pair.2 : ℤ)).map fun pair =>
        (resolveGroup defs pair.1.group, (0 : ℚ))).foldl (fun d push => d.push push.1 push.2)
          caseScores := by
  induction numbered generalizing caseScores with
  | nil => rfl
  | cons pair rest ih =>
      rw [List.foldl_cons, ih, List.filter_cons, tallyMissing]
      by_cases hreported : statuses.contains (pair.2 : ℤ) <;> simp [hreported]

/-! ## Groups -/

theorem groupsOf_ne_nil (A : FloatArith) (m : ScoringManifest) : groupsOf A m ≠ [] := by
  unfold groupsOf
  split_ifs with h
  · exact List.cons_ne_nil _ _
  · exact h

theorem keys_groupDefs_ne_nil (A : FloatArith) (m : ScoringManifest) :
    (groupDefs A m).keys ≠ [] := by
  obtain ⟨group, rest, hgroups⟩ := List.exists_cons_of_ne_nil (groupsOf_ne_nil A m)
  refine List.ne_nil_of_mem (a := group.id) ?_
  rw [groupDefs, Dict.mem_keys_ofList, hgroups]
  exact List.mem_cons_self

/-- Every case is scored in a group of the manifest. -/
theorem resolveGroup_mem_keys (h : defs.keys ≠ []) (group : String) :
    resolveGroup defs group ∈ defs.keys := by
  unfold resolveGroup
  split_ifs with hgroup hdefault
  · exact Dict.contains_iff.mp hgroup
  · exact Dict.contains_iff.mp hdefault
  · obtain ⟨key, rest, hkeys⟩ := List.exists_cons_of_ne_nil h
    rw [hkeys]
    exact List.mem_cons_self

theorem fst_mem_keys_of_mem_credits {credit : String × ℚ} (h : credit ∈ credits A m cases) :
    credit.1 ∈ (groupDefs A m).keys := by
  have hresolve := resolveGroup_mem_keys (keys_groupDefs_ne_nil A m)
  rcases List.mem_append.mp h with hknown | hmissing
  · obtain ⟨pair, -, rfl⟩ := List.mem_map.mp hknown
    exact hresolve _
  · obtain ⟨manifestCase, -, rfl⟩ := List.mem_map.mp hmissing
    exact hresolve _

/-! ## The tally -/

theorem statuses_tally : (tally A m cases).statuses =
    Dict.ofList ((known m cases).map fun pair => (pair.2.caseNumber, caseStatus pair.2)) := by
  unfold tally
  dsimp only
  rw [foldl_tallyCase]
  rfl

theorem casePassed_tally : (tally A m cases).casePassed =
    ((known m cases).map fun pair => caseStatus pair.2).countP fun status => status = .AC := by
  unfold tally
  dsimp only
  rw [foldl_tallyCase]
  exact Nat.zero_add _

/-- A numbered case has a status if it is reported. -/
theorem contains_statuses_tally {numbered : ScoringCase × ℕ} (h : numbered ∈ m.cases.zipIdx 1) :
    (tally A m cases).statuses.contains (numbered.2 : ℤ) = true ↔
      (numbered.2 : ℤ) ∈ cases.map CasePayload.caseNumber := by
  rw [Dict.contains_iff, statuses_tally, Dict.mem_keys_ofList, List.map_map]
  simp only [List.mem_map, Function.comp_apply]
  constructor
  · rintro ⟨pair, hpair, hnumber⟩
    exact ⟨pair.2, (mem_known.mp hpair).1, hnumber⟩
  · rintro ⟨case, hcase, hnumber⟩
    refine ⟨(numbered.1, case), mem_known.mpr ⟨hcase, ?_⟩, hnumber⟩
    rw [hnumber]
    exact caseByNumber_of_mem_zipIdx h

/-- A group collects the scores that are credited to it. -/
theorem caseScores_tally (A : FloatArith) (m : ScoringManifest) (cases : List CasePayload) :
    (tally A m cases).caseScores =
      (groupDefs A m).mapEntries fun groupId _ => groupCredits A m cases groupId := by
  have hpushed : (tally A m cases).caseScores =
      (credits A m cases).foldl (fun d push => d.push push.1 push.2)
        ((groupDefs A m).mapEntries fun _ _ => []) := by
    have hmissing : (m.cases.zipIdx 1).filter (fun numbered =>
        ¬ (tally A m cases).statuses.contains (numbered.2 : ℤ)) =
          (m.cases.zipIdx 1).filter fun numbered =>
            (numbered.2 : ℤ) ∉ cases.map CasePayload.caseNumber :=
      List.filter_congr fun numbered hnumbered =>
        decide_eq_decide.mpr (not_congr (contains_statuses_tally hnumbered))
    unfold tally at hmissing ⊢
    dsimp only at hmissing ⊢
    rw [foldl_tallyMissing, hmissing, foldl_tallyCase, credits, List.foldl_append, unreported,
      List.map_map]
    rfl
  have hkeys : ∀ push ∈ credits A m cases,
      push.1 ∈ ((groupDefs A m).mapEntries fun _ _ => ([] : List ℚ)).keys := by
    intro push hpush
    rw [Dict.keys_mapEntries]
    exact fst_mem_keys_of_mem_credits hpush
  rw [hpushed]
  refine Dict.ext_get? ?_ fun groupId hgroup => ?_
  · rw [Dict.keys_foldl_push _ hkeys, Dict.keys_mapEntries, Dict.keys_mapEntries]
  · rw [Dict.keys_foldl_push _ hkeys] at hgroup
    rw [Dict.get?_foldl_push _ hkeys hgroup, Dict.get?_mapEntries, Dict.get?_mapEntries]
    rw [Dict.keys_mapEntries] at hgroup
    obtain ⟨group, hget⟩ := Dict.mem_keys_iff.mp hgroup
    rw [hget]
    rfl

/-! ## The score sheet -/

/-- The subtask scores before the verdict. -/
def earned (A : FloatArith) (m : ScoringManifest) (cases : List CasePayload) : Dict String ℚ :=
  (groupDefs A m).mapEntries fun groupId group =>
    groupScore A group (groupCredits A m cases groupId)

/-- The points before the verdict. -/
def earnedPoints (A : FloatArith) (m : ScoringManifest) (cases : List CasePayload) : ℚ :=
  A.round (A.sum (earned A m cases).values) 2

/-- The verdict before a partial one is ruled out. -/
def verdict (A : FloatArith) (m : ScoringManifest) (cases : List CasePayload) :
    SubmissionResult :=
  aggregateResult (tally A m cases).statuses (earnedPoints A m cases) (totalPossible A m)
    (orElse m.cases.length cases.length) (tally A m cases).casePassed

/-- The points are taken away. -/
def Zeroed (A : FloatArith) (m : ScoringManifest) (cases : List CasePayload) : Prop :=
  m.partialScore = false ∧ verdict A m cases ≠ .AC ∧ verdict A m cases ≠ .CE ∧
    verdict A m cases ≠ .IE

instance : Decidable (Zeroed A m cases) := inferInstanceAs (Decidable (_ ∧ _))

theorem mapEntries_groupScore (A : FloatArith) (m : ScoringManifest) (cases : List CasePayload) :
    ((tally A m cases).caseScores.mapEntries fun groupId scores => groupScore A
      (((groupDefs A m).get? groupId).getD { id := groupId, mode := "sum", points := 0 }) scores) =
        earned A m cases := by
  rw [caseScores_tally]
  refine Dict.ext_entries ?_
  change ((groupDefs A m).entries.map _).map _ = (groupDefs A m).entries.map _
  rw [List.map_map]
  refine List.map_congr_left fun entry hentry => ?_
  have hget : (groupDefs A m).get? entry.1 = some entry.2 := Dict.get?_eq_some.mpr hentry
  change (entry.1, groupScore A (((groupDefs A m).get? entry.1).getD _) _) = _
  rw [hget]
  rfl

/-- The verdict of the summary. -/
def finalVerdict (A : FloatArith) (m : ScoringManifest) (cases : List CasePayload) :
    SubmissionResult :=
  if Zeroed A m cases ∧ verdict A m cases = .PARTIAL then .WA else verdict A m cases

theorem finalVerdict_eq (A : FloatArith) (m : ScoringManifest) (cases : List CasePayload) :
    finalVerdict A m cases =
      if m.partialScore = false ∧ verdict A m cases = .PARTIAL then .WA
      else verdict A m cases := by
  have hzeroed : Zeroed A m cases ∧ verdict A m cases = .PARTIAL ↔
      m.partialScore = false ∧ verdict A m cases = .PARTIAL := by
    constructor
    · rintro ⟨⟨hstrict, -⟩, hverdict⟩
      exact ⟨hstrict, hverdict⟩
    · rintro ⟨hstrict, hverdict⟩
      refine ⟨⟨hstrict, ?_⟩, hverdict⟩
      rw [hverdict]
      decide
  exact if_congr hzeroed rfl rfl

/-- The summary, from what the reports earn and the verdict on it. -/
theorem scoreManifest_eq (A : FloatArith) (m : ScoringManifest) (cases : List CasePayload) :
    scoreManifest A m cases =
      { points := if Zeroed A m cases then 0 else earnedPoints A m cases
        subtaskScores :=
          if Zeroed A m cases then (earned A m cases).mapEntries fun _ _ => 0
          else earned A m cases
        result := finalVerdict A m cases
        status :=
          if finalVerdict A m cases = .CE ∨ finalVerdict A m cases = .IE then .error
          else .completed
        caseTotal := orElse m.cases.length cases.length
        casePassed := (tally A m cases).casePassed
        timeUsed := (tally A m cases).timeUsed
        memoryUsed := (tally A m cases).memoryUsed } := by
  have hzeroed : (!m.partialScore && decide (verdict A m cases ≠ .AC ∧ verdict A m cases ≠ .CE ∧
      verdict A m cases ≠ .IE)) = decide (Zeroed A m cases) := by
    rw [Bool.eq_iff_iff, decide_eq_true_iff]
    simp [Zeroed]
  unfold scoreManifest
  dsimp only
  rw [mapEntries_groupScore, ← earnedPoints, ← totalPossible, ← verdict, hzeroed]
  simp only [decide_eq_true_eq]
  rfl

/-! ## Covering reports -/

/-- The reports name each case of the manifest once, in order. -/
def Covers (m : ScoringManifest) (cases : List CasePayload) : Prop :=
  cases.map CasePayload.caseNumber = (List.range' 1 m.cases.length).map Nat.cast

namespace Covers

variable (h : Covers m cases)

include h

theorem length_eq : cases.length = m.cases.length := by
  simpa using congrArg List.length h

theorem nodup : (cases.map CasePayload.caseNumber).Nodup := by
  rw [h]
  exact (List.nodup_range' 1).map Nat.cast_injective

theorem caseByNumber_eq :
    (cases.map fun case => caseByNumber m case.caseNumber) = m.cases.map some := by
  calc (cases.map fun case => caseByNumber m case.caseNumber)
      = (cases.map CasePayload.caseNumber).map (caseByNumber m) := by rw [List.map_map]; rfl
    _ = (List.range' 1 m.cases.length).map fun i : ℕ => caseByNumber m (i : ℤ) := by
        rw [h, List.map_map]; rfl
    _ = m.cases.map some := by
        apply List.ext_getElem
        · simp
        · intro i hi hi'
          have hlt : i < m.cases.length := by simpa using hi'
          have hget := caseByNumber_natCast_succ m i
          rw [List.getElem_map, List.getElem_map, List.getElem_range', one_mul, add_comm, hget,
            List.getElem?_eq_getElem hlt]

theorem isSome_caseByNumber : ∀ case ∈ cases, (caseByNumber m case.caseNumber).isSome := by
  intro case hcase
  have hmem : caseByNumber m case.caseNumber ∈ m.cases.map some :=
    h.caseByNumber_eq ▸ List.mem_map_of_mem hcase
  obtain ⟨manifestCase, -, hsome⟩ := List.mem_map.mp hmem
  rw [← hsome]
  rfl

theorem known_eq : known m cases = m.cases.zip cases :=
  known_eq_zip h.caseByNumber_eq

/-- No case is without a report. -/
theorem unreported_eq : unreported m cases = [] := by
  unfold unreported
  rw [List.map_eq_nil_iff, List.filter_eq_nil_iff]
  intro numbered hnumbered hmissing
  refine (of_decide_eq_true hmissing) ?_
  rw [h]
  refine List.mem_map.mpr ⟨numbered.2, List.mem_range'_1.mpr ?_, rfl⟩
  have hle := List.le_snd_of_mem_zipIdx hnumbered
  have hlt := List.snd_lt_add_of_mem_zipIdx hnumbered
  omega

theorem map_known {β : Type} (f : CasePayload → β) :
    (known m cases).map (fun pair => f pair.2) = cases.map f := by
  rw [h.known_eq]
  calc (m.cases.zip cases).map (fun pair => f pair.2)
      = ((m.cases.zip cases).map Prod.snd).map f := by rw [List.map_map]; rfl
    _ = cases.map f := by rw [List.map_snd_zip h.length_eq.le]

theorem credits_eq : credits A m cases = reportScores A (groupDefs A m) m.cases cases := by
  rw [credits, h.unreported_eq, h.known_eq, List.map_nil, List.append_nil]
  rfl

/-- The points before the verdict are those that the reports are awarded. -/
theorem earnedPoints_eq : earnedPoints A m cases = awarded A m cases := by
  unfold earnedPoints awarded earned
  rw [Dict.values_mapEntries]
  unfold groupCredits groupPoints
  rw [h.credits_eq]

theorem casePassed_tally :
    (tally A m cases).casePassed = (cases.map caseStatus).countP fun status => status = .AC := by
  rw [ScoringService.casePassed_tally, h.map_known caseStatus]

theorem values_statuses : (tally A m cases).statuses.values = cases.map caseStatus := by
  have hpairs := h.map_known fun case => (case.caseNumber, caseStatus case)
  rw [statuses_tally, hpairs, Dict.values, Dict.entries_ofList, List.map_map]
  · rfl
  · rw [List.map_map]
    exact h.nodup

end Covers

/-! ## The verdict -/

theorem aggregateResult_eq (statuses : Dict ℤ SubmissionResult) (points total : ℚ)
    (caseTotal casePassed : ℕ) :
    aggregateResult statuses points total caseTotal casePassed =
      (SubmissionResult.severest statuses.values).getD
        (if 0 < caseTotal ∧ casePassed = caseTotal ∧ (total ≤ 0 ∨ total ≤ points) then .AC
        else if 0 < points then .PARTIAL
        else .WA) := by
  unfold aggregateResult SubmissionResult.severest SubmissionResult.severities
  simp only [List.find?_cons]
  split_ifs <;> simp_all

/-- The verdict on reports of which none decides by itself. -/
def pointsVerdict (A : FloatArith) (m : ScoringManifest) (cases : List CasePayload) :
    SubmissionResult :=
  if (∀ case ∈ cases, caseStatus case = .AC) ∧
      (totalPossible A m ≤ 0 ∨ totalPossible A m ≤ awarded A m cases) then .AC
  else if m.partialScore = true ∧ 0 < awarded A m cases then .PARTIAL
  else .WA

namespace Covers

variable (h : Covers m cases)

include h

theorem orElse_length : orElse m.cases.length cases.length = m.cases.length := by
  rw [h.length_eq]
  unfold orElse
  split_ifs <;> rfl

theorem casePassed_eq_iff :
    (tally A m cases).casePassed = m.cases.length ↔ ∀ case ∈ cases, caseStatus case = .AC := by
  rw [h.casePassed_tally, ← h.length_eq, ← List.length_map caseStatus, List.countP_eq_length]
  simp

theorem verdict_eq (hcases : m.cases ≠ []) :
    verdict A m cases =
      (SubmissionResult.severest (cases.map caseStatus)).getD
        (if (∀ case ∈ cases, caseStatus case = .AC) ∧
            (totalPossible A m ≤ 0 ∨ totalPossible A m ≤ awarded A m cases) then .AC
        else if 0 < awarded A m cases then .PARTIAL
        else .WA) := by
  have hlength : 0 < m.cases.length := List.length_pos_of_ne_nil hcases
  rw [verdict, aggregateResult_eq, h.values_statuses, h.earnedPoints_eq, h.orElse_length]
  congr 1
  simp only [hlength, true_and, h.casePassed_eq_iff]

/-- The verdict on reports that cover a manifest. -/
theorem result_scoreManifest (hcases : m.cases ≠ []) :
    (scoreManifest A m cases).result =
      (SubmissionResult.severest (cases.map caseStatus)).getD (pointsVerdict A m cases) := by
  rw [scoreManifest_eq]
  dsimp only
  rw [finalVerdict_eq, h.verdict_eq hcases]
  cases hsevere : SubmissionResult.severest (cases.map caseStatus) with
  | some result =>
      -- a verdict that decides by itself is not touched by the zeroing
      have hresult : result ∈ SubmissionResult.severities := List.mem_of_find?_eq_some hsevere
      have hstrict : result ≠ .PARTIAL := by
        rintro rfl
        exact absurd hresult (by decide)
      rw [Option.getD_some, Option.getD_some, if_neg fun hzeroed => hstrict hzeroed.2]
  | none =>
      rw [Option.getD_none, Option.getD_none, pointsVerdict]
      cases m.partialScore <;> split_ifs <;> simp_all

end Covers

end ScoringService

end JudgeLoom
