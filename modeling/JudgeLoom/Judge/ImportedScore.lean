import JudgeLoom.Judge.Verdict
import JudgeLoom.Problems.Manifest
import Mathlib.Data.List.DropRight

/-!
# What scoring reads of an imported package

`PackageImportService` validates the groups of a manifest and stores them as they are;
`ScoringService` reads them again.  Item by item both arrive at the same mode and the
same points (`Validates`), so a score of an imported package is never an exception
(`exists_scoring`).  On the ids they differ: the import strips them.

`scoredWhereNamed_iff` says for which packages that goes unnoticed.
-/

namespace JudgeLoom

open PackageImportService

/-- Stripped once is stripped. -/
theorem strip_strip (text : String) : strip (strip text) = strip text := by
  let trimmed := (text.toList.dropWhile isSpace).rdropWhile isSpace
  have hinitial : trimmed <+: text.toList.dropWhile isSpace := List.rdropWhile_prefix _ _
  have hleft : trimmed.dropWhile isSpace = trimmed := by
    rw [List.dropWhile_eq_self_iff]
    intro hpos
    have hfirst := List.dropWhile_get_zero_not isSpace text.toList (hpos.trans_le hinitial.length_le)
    rw [List.get_eq_getElem] at hfirst
    simpa [hinitial.getElem hpos] using hfirst
  have hright : trimmed.rdropWhile isSpace = trimmed := List.rdropWhile_idempotent _ _
  unfold strip
  rw [String.toList_ofList]
  change String.ofList ((trimmed.dropWhile isSpace).rdropWhile isSpace) = String.ofList trimmed
  rw [hleft, hright]

/-! ## Validated groups -/

/-- A group as scoring reads it, and the same group as the import validated it. -/
structure Validates (group : ScoringGroup) (validated : GroupDef) : Prop where
  id : validated.id = strip group.id
  mode : validated.mode = group.mode
  points : validated.points = group.points

namespace Validates

variable {groups : List ScoringGroup} {validated : List GroupDef}

theorem map_strip_id (h : List.Forall₂ Validates groups validated) :
    (groups.map fun group => strip group.id) = validated.map GroupDef.id := by
  induction h with
  | nil => rfl
  | cons hhead _ ih => rw [List.map_cons, List.map_cons, ih, hhead.id]

theorem exists_of_mem (h : List.Forall₂ Validates groups validated) {group : GroupDef}
    (hgroup : group ∈ validated) : ∃ read ∈ groups, Validates read group := by
  induction h with
  | nil => cases hgroup
  | cons hhead _ ih =>
      rcases List.mem_cons.mp hgroup with rfl | hrest
      · exact ⟨_, List.mem_cons_self, hhead⟩
      · obtain ⟨read, hread, hvalidates⟩ := ih hrest
        exact ⟨read, List.mem_cons_of_mem _ hread, hvalidates⟩

theorem exists_of_mem_left (h : List.Forall₂ Validates groups validated) {read : ScoringGroup}
    (hread : read ∈ groups) : ∃ group ∈ validated, Validates read group := by
  induction h with
  | nil => cases hread
  | cons hhead _ ih =>
      rcases List.mem_cons.mp hread with rfl | hrest
      · exact ⟨_, List.mem_cons_self, hhead⟩
      · obtain ⟨group, hgroup, hvalidates⟩ := ih hrest
        exact ⟨group, List.mem_cons_of_mem _ hgroup, hvalidates⟩

end Validates

namespace PackageImportService

variable {P : Python}

/-- `validateGroup` accepts what scoring can read. -/
theorem validateGroup_eq_ok {defs defs' : List GroupDef} {item : Json}
    (h : validateGroup P defs item = .ok defs') :
    ∃ group validated, ScoringGroup.ofJson P item = some group ∧ Validates group validated ∧
      0 ≤ validated.points ∧ validated.id ∉ defs.map GroupDef.id ∧
        defs' = defs ++ [validated] := by
  unfold validateGroup at h
  split at h
  · next members =>
      dsimp only at h
      split_ifs at h with hempty hduplicate hmode
      obtain ⟨points, hpoints, h⟩ := Except.bind_eq_ok.mp h
      cases h
      obtain ⟨hfloat, hnonneg, -⟩ := parsePoints_eq_ok hpoints
      have hread : pointsOf P (.obj members) = some points := by
        unfold pointsOf Json.get?
        dsimp only
        rw [hfloat]
      -- an item without an id is validated under the empty id, which is refused
      obtain ⟨value, hvalue⟩ : ∃ value, Json.lookup members "id" = some value := by
        cases hlookup : Json.lookup members "id" with
        | some value => exact ⟨value, rfl⟩
        | none =>
            rw [hlookup] at hempty
            exact absurd rfl hempty
      refine ⟨{ id := value.toStr P
                mode := ((Json.lookup members "mode").map (Json.toStr P)).getD "sum"
                points },
        _, ?_, ⟨?_, rfl, rfl⟩, hnonneg, hduplicate, rfl⟩
      · unfold ScoringGroup.ofJson
        rw [hread, Option.map_some, Json.get?, Json.get?, hvalue]
        rfl
      · rw [hvalue]
        rfl
  · cases h

/-- Validated items, in order. -/
theorem foldlM_validateGroup {items : List Json} :
    ∀ {defs defs' : List GroupDef}, items.foldlM (validateGroup P) defs = .ok defs' →
      ∃ groups validated, items.mapM (ScoringGroup.ofJson P) = some groups ∧
        List.Forall₂ Validates groups validated ∧ defs' = defs ++ validated ∧
          (∀ group ∈ validated, 0 ≤ group.points) ∧
            ((defs.map GroupDef.id).Nodup → (defs'.map GroupDef.id).Nodup) := by
  induction items with
  | nil =>
      intro defs defs' h
      cases h
      exact ⟨[], [], rfl, .nil, (List.append_nil _).symm, by simp, id⟩
  | cons item rest ih =>
      intro defs defs' h
      rw [List.foldlM_cons] at h
      obtain ⟨middle, hitem, hrest⟩ := Except.bind_eq_ok.mp h
      obtain ⟨group, first, hread, hfirst, hnonneg, hfresh, rfl⟩ := validateGroup_eq_ok hitem
      obtain ⟨groups, validated, hgroups, hall, rfl, hpoints, hnodup⟩ := ih hrest
      refine ⟨group :: groups, first :: validated, ?_, .cons hfirst hall, by simp,
        List.forall_mem_cons.mpr ⟨hnonneg, hpoints⟩, fun hdefs => ?_⟩
      · rw [List.mapM_cons, hread, hgroups]
        rfl
      · refine hnodup ?_
        rw [List.map_append, List.map_singleton]
        exact List.nodup_append.mpr ⟨hdefs, List.nodup_singleton _, by
          rintro id hid _ (_ | ⟨_, hnil⟩) rfl
          · exact hfresh hid
          · exact absurd hnil List.not_mem_nil⟩

/-- The groups of an archive, as the import validates them. -/
def archiveGroups (P : Python) (problem : Problem) (payload : Bytes) :
    Except ServiceError (List GroupDef) := do
  let (manifest, cases) ← readZip P problem payload
  validateGroups P manifest cases

/-- The group of a package whose manifest has none. -/
def defaultGroup (A : FloatArith) (cases : List (ArchiveCase ℚ)) : GroupDef where
  id := "default"
  mode := "sum"
  points := A.round (A.sum (cases.map ArchiveCase.points)) 2

/-- The default group in the stored manifest. -/
def defaultItem (A : FloatArith) (cases : List (ArchiveCase ℚ)) : Json :=
  .obj [("id", .str "default"), ("points", .float (.finite (defaultGroup A cases).points)),
    ("mode", .str "sum")]

/-- The groups that a package is imported with. -/
def validatedGroups (A : FloatArith) (cases : List (ArchiveCase ℚ)) (defs : List GroupDef) :
    List GroupDef :=
  if defs = [] then [defaultGroup A cases] else defs

theorem lookup_setDefault_of_ne {members : List (String × Json)} {key name : String} {value : Json}
    (h : name ≠ key) :
    Json.lookup (setDefault members name value) key = Json.lookup members key := by
  unfold setDefault
  split_ifs
  · rfl
  · rw [Json.lookup_append, Json.lookup_singleton, if_neg h, Option.none_or]

/-- The stored manifest keeps the groups of the archive, or has the default group. -/
theorem lookup_groups_buildManifest (A : FloatArith) (problem : Problem)
    (manifest : List (String × Json)) (cases : List (ArchiveCase ℚ)) :
    Json.lookup (buildManifest A problem manifest cases) "groups" =
      if ((Json.lookup manifest "groups").getD .null).truthy then Json.lookup manifest "groups"
      else some (.arr [defaultItem A cases]) := by
  have hkeep (result : List (String × Json)) (value : Json) :
      Json.lookup (result ++ [("cases", value)]) "groups" = Json.lookup result "groups" := by
    rw [Json.lookup_append, Json.lookup_singleton, if_neg (by decide), Option.none_or]
  unfold buildManifest
  dsimp only
  simp (disch := decide) only [hkeep, lookup_setDefault_of_ne]
  split_ifs with htruthy
  · simp (disch := decide) only [hkeep, lookup_setDefault_of_ne]
  · rw [Json.lookup_append, Json.lookup_singleton, if_pos rfl, Option.some_or]
    rfl

/-- The part of `validateGroups` that works on the items of the list. -/
def validateItems (P : Python) (cases : List (ArchiveCase ℚ)) (items : List Json) :
    Except ServiceError (List GroupDef) :=
  (items.foldlM (validateGroup P) []).bind fun defs =>
    if defs ≠ [] then
      if ((cases.map ArchiveCase.group).filter fun group =>
          group ∉ defs.map GroupDef.id).dedup ≠ [] then
        .error (.validation ("Manifest cases reference unknown groups: " ++
          String.intercalate ", " ((((cases.map ArchiveCase.group).filter fun group =>
            group ∉ defs.map GroupDef.id).dedup).sortBy id)))
      else .ok defs
    else if (cases.map ArchiveCase.group).any fun group => group ≠ "default" then
      .error (.validation
        "Manifest cases use custom groups but no group definitions were provided.")
    else .ok []

theorem validateGroups_eq (P : Python) (manifest : List (String × Json))
    (cases : List (ArchiveCase ℚ)) :
    validateGroups P manifest cases =
      match getNotNone manifest "groups" with
      | none => validateItems P cases []
      | some (.arr items) => validateItems P cases items
      | some _ => .error (.validation "manifest groups must be a list.") := by
  unfold validateGroups
  cases getNotNone manifest "groups" with
  | none => rfl
  | some value => cases value <;> rfl

/-- The items that were validated are stored, unless there are none. -/
theorem exists_items (problem : Problem) {manifest : List (String × Json)}
    {cases : List (ArchiveCase ℚ)} {defs : List GroupDef}
    (h : validateGroups P manifest cases = .ok defs) :
    ∃ items, validateItems P cases items = .ok defs ∧
      manifestGroups (.obj (buildManifest P.arith problem manifest cases)) =
        if items = [] then [defaultItem P.arith cases] else items := by
  rw [validateGroups_eq] at h
  unfold manifestGroups Json.get?
  dsimp only
  rw [lookup_groups_buildManifest]
  unfold getNotNone at h
  cases hlookup : Json.lookup manifest "groups" with
  | none =>
      rw [hlookup] at h
      exact ⟨[], h, rfl⟩
  | some value =>
      rw [hlookup] at h
      cases value with
      | null => exact ⟨[], h, rfl⟩
      | arr items =>
          refine ⟨items, h, ?_⟩
          cases items <;> rfl
      | _ => cases h

/-- The validated items, among which every case finds its group. -/
theorem validateItems_eq_ok {cases : List (ArchiveCase ℚ)} {items : List Json}
    {defs : List GroupDef} (h : validateItems P cases items = .ok defs) :
    ∃ groups, items.mapM (ScoringGroup.ofJson P) = some groups ∧
      List.Forall₂ Validates groups defs ∧ (∀ group ∈ defs, 0 ≤ group.points) ∧
        (defs.map GroupDef.id).Nodup ∧
          ∀ testCase ∈ cases,
            if defs = [] then testCase.group = "default"
            else testCase.group ∈ defs.map GroupDef.id := by
  obtain ⟨found, hfold, h⟩ := Except.bind_eq_ok.mp h
  obtain ⟨groups, validated, hgroups, hall, hfound, hpoints, hnodup⟩ := foldlM_validateGroup hfold
  obtain rfl : found = validated := hfound
  have hdistinct : (found.map GroupDef.id).Nodup := hnodup List.nodup_nil
  split_ifs at h with hnonempty hunknown hcustom
  · cases h
    refine ⟨groups, hgroups, hall, hpoints, hdistinct, fun testCase hcase => ?_⟩
    rw [if_neg hnonempty]
    by_contra hmissing
    apply hunknown
    apply List.ne_nil_of_mem (a := testCase.group)
    rw [List.mem_dedup, List.mem_filter]
    exact ⟨List.mem_map_of_mem hcase, by simpa using hmissing⟩
  · rw [not_not] at hnonempty
    subst hnonempty
    cases h
    refine ⟨groups, hgroups, hall, hpoints, hdistinct, fun testCase hcase => ?_⟩
    rw [if_pos rfl]
    by_contra hne
    apply hcustom
    rw [List.any_eq_true]
    exact ⟨_, List.mem_map_of_mem hcase, by simpa using hne⟩

end PackageImportService

/-! ## The scoring manifest -/

variable {P : Python} {package : ProblemPackage} {imported : Imported}

theorem pointsOf_of_float {members : List (String × Json)} {points : ℚ}
    (h : Json.lookup members "points" = some (.float (.finite points))) :
    pointsOf P (.obj members) = some points := by
  have hzero : (Json.int 0).toFloat P = .ok (.finite 0) := by
    simp [Json.toFloat, P.arith.overflows_zero, P.arith.fl_zero]
  unfold pointsOf Json.get?
  dsimp only
  rw [h, Option.getD_some]
  unfold Json.orDefault Json.truthy
  by_cases hpoints : points = 0
  · rw [hpoints]
    simp [hzero]
  · simp [hpoints, Json.toFloat]

theorem ScoringCase.ofJson_caseJson (P : Python) (index : ℕ) (testCase : ArchiveCase ℚ) :
    ScoringCase.ofJson P (caseJson index testCase) =
      some { points := testCase.points, group := testCase.group } := by
  unfold ScoringCase.ofJson caseJson
  rw [pointsOf_of_float rfl]
  rfl

/-- What scoring reads of the stored groups is what was validated. -/
theorem exists_scoringGroups (problem : Problem) {manifest : List (String × Json)}
    {cases : List (ArchiveCase ℚ)} {defs : List GroupDef}
    (h : validateGroups P manifest cases = .ok defs) :
    ∃ groups,
      (manifestGroups (.obj (buildManifest P.arith problem manifest cases))).mapM
          (ScoringGroup.ofJson P) = some groups ∧
        List.Forall₂ Validates groups (validatedGroups P.arith cases defs) ∧
          ((validatedGroups P.arith cases defs).map GroupDef.id).Nodup ∧
            (∀ group ∈ validatedGroups P.arith cases defs,
              0 ≤ group.points ∨ group = defaultGroup P.arith cases) ∧
              ∀ testCase ∈ cases,
                testCase.group ∈ (validatedGroups P.arith cases defs).map GroupDef.id := by
  obtain ⟨items, hitems, hstored⟩ := exists_items problem h
  obtain ⟨groups, hgroups, hall, hpoints, hnodup, hcases⟩ := validateItems_eq_ok hitems
  have hlength : items.length = defs.length :=
    (List.length_of_mapM_eq_some hgroups).symm.trans hall.length_eq
  have hempty : items = [] ↔ defs = [] := by
    rw [← List.length_eq_zero_iff, hlength, List.length_eq_zero_iff]
  unfold validatedGroups
  rw [hstored]
  have hdefault : "default" = strip "default" := by decide +kernel
  by_cases hdefs : defs = []
  · simp only [hdefs, if_pos (hempty.mpr hdefs), if_pos] at hcases ⊢
    refine ⟨[{ id := "default", mode := "sum", points := (defaultGroup P.arith cases).points }],
      ?_, .cons ⟨hdefault, rfl, rfl⟩ .nil, List.nodup_singleton _, by simp, ?_⟩
    · rw [List.mapM_cons, ScoringGroup.ofJson, defaultItem, pointsOf_of_float rfl]
      rfl
    · intro testCase hcase
      rw [hcases testCase hcase]
      exact List.mem_singleton_self _
  · simp only [if_neg hdefs, if_neg (mt hempty.mp hdefs)] at hcases ⊢
    exact ⟨groups, hgroups, hall, hnodup, fun group hgroup => Or.inl (hpoints group hgroup), hcases⟩

/-- The groups of an imported package could be validated. -/
theorem exists_archiveGroups {problem : Problem} {payload : Bytes}
    (h : readArchive P problem payload = .ok imported) :
    ∃ defs, archiveGroups P problem payload = .ok defs := by
  obtain ⟨manifest, defs, hread, -, -, -, hgroups⟩ := readArchive_eq_ok h
  refine ⟨defs, ?_⟩
  rw [archiveGroups, hread]
  exact hgroups

/-- The scoring manifest of an imported package. -/
structure ScoringManifest.Reads (A : FloatArith) (m : ScoringManifest) (imported : Imported)
    (validated : List GroupDef) : Prop where
  cases : m.cases =
    imported.cases.map fun testCase => { points := testCase.points, group := testCase.group }
  cases_ne_nil : m.cases ≠ []
  groups : List.Forall₂ Validates m.groups validated
  ids : (validated.map GroupDef.id).Nodup
  points : ∀ group ∈ validated, 0 ≤ group.points ∨ group = defaultGroup A imported.cases
  named : ∀ testCase ∈ imported.cases, testCase.group ∈ validated.map GroupDef.id

theorem mapM_scoringCase (P : Python) (cases : List (ArchiveCase ℚ)) :
    (cases.mapIdx fun index => caseJson (index + 1)).mapM (ScoringCase.ofJson P) =
      some (cases.map fun testCase => { points := testCase.points, group := testCase.group }) := by
  calc (cases.mapIdx fun index => caseJson (index + 1)).mapM (ScoringCase.ofJson P)
      = cases.zipIdx.mapM fun numbered =>
          ScoringCase.ofJson P (caseJson (numbered.2 + 1) numbered.1) := by
        rw [List.mapIdx_eq_zipIdx_map, List.mapM_map]
        rfl
    _ = some (cases.zipIdx.map fun numbered =>
          { points := numbered.1.points, group := numbered.1.group }) :=
        List.mapM_eq_some_map fun numbered _ => ScoringCase.ofJson_caseJson P _ _
    _ = some ((cases.zipIdx.map Prod.fst).map fun testCase =>
          { points := testCase.points, group := testCase.group }) := by rw [List.map_map]; rfl
    _ = _ := by rw [List.zipIdx_map_fst]

/-- Scoring can read every package that was imported. -/
theorem exists_scoring {problem : Problem} {defs : List GroupDef}
    (hread : readArchive P problem package.archive = .ok imported)
    (hgroups : archiveGroups P problem package.archive = .ok defs)
    (hmanifest : package.manifest = .obj imported.manifest) :
    ∃ m, ScoringManifest.ofJson P package.manifest = some m ∧
      m.Reads P.arith imported (validatedGroups P.arith imported.cases defs) := by
  obtain ⟨manifest, defs', hzip, hbuilt, hnonempty, -, hvalid⟩ := readArchive_eq_ok hread
  rw [archiveGroups, hzip] at hgroups
  obtain rfl : defs' = defs := Except.ok.inj (hvalid.symm.trans hgroups)
  obtain ⟨groups, hstored, hall, hids, hpoints, hnamed⟩ :=
    exists_scoringGroups problem hvalid
  have hcases : (JudgeLoom.manifestCases package.manifest).mapM (ScoringCase.ofJson P) =
      some (imported.cases.map fun testCase =>
        { points := testCase.points, group := testCase.group }) := by
    rw [hmanifest, hbuilt, JudgeLoom.manifestCases, Json.get?, lookup_cases_buildManifest]
    exact mapM_scoringCase P imported.cases
  have hread' : (manifestGroups package.manifest).mapM (ScoringGroup.ofJson P) = some groups := by
    rw [hmanifest, hbuilt]
    exact hstored
  let m : ScoringManifest :=
    { cases := imported.cases.map fun testCase =>
        { points := testCase.points, group := testCase.group }
      groups
      partialScore := ((package.manifest.get? "partial_score").getD (.bool false)).truthy }
  refine ⟨m, ?_, ⟨rfl, ?_, hall, hids, hpoints, hnamed⟩⟩
  · unfold ScoringManifest.ofJson
    rw [hcases, hread']
    rfl
  · exact mt List.map_eq_nil_iff.mp hnonempty

/-! ## Cases in their groups -/

namespace ScoringService

/-- The scores of the cases that name a group. -/
def namedCredits (A : FloatArith) (m : ScoringManifest) (cases : List CasePayload)
    (groupId : String) : List ℚ :=
  (((known m cases).filter fun pair => pair.1.group = groupId).map fun pair =>
      reportScore A pair.1 pair.2) ++
    ((unreported m cases).filter fun manifestCase => manifestCase.group = groupId).map fun _ => 0

/-- Every case is scored in the group it names: the group is known, and its subtask is
worth, on any reports, what the cases that name it have, in the mode and up to the points
that were validated. -/
def ScoredWhereNamed (A : FloatArith) (m : ScoringManifest) (validated : List GroupDef) : Prop :=
  ∀ manifestCase ∈ m.cases,
    (groupDefs A m).contains manifestCase.group = true ∧
      ∃ group ∈ validated, group.id = manifestCase.group ∧
        ∀ reports, (earned A m reports).get? group.id =
          some (groupScore A { id := group.id, mode := group.mode, points := group.points }
            (namedCredits A m reports group.id))

variable {A : FloatArith} {m : ScoringManifest} {cases : List CasePayload}

theorem mem_cases_of_caseByNumber {caseNumber : ℤ} {manifestCase : ScoringCase}
    (h : caseByNumber m caseNumber = some manifestCase) : manifestCase ∈ m.cases := by
  unfold caseByNumber at h
  split_ifs at h
  exact List.mem_of_getElem? h

theorem mem_cases_of_mem_unreported {manifestCase : ScoringCase}
    (h : manifestCase ∈ unreported m cases) : manifestCase ∈ m.cases := by
  obtain ⟨numbered, hnumbered, rfl⟩ := List.mem_map.mp h
  have hmem := List.mem_map_of_mem (f := Prod.fst) (List.mem_of_mem_filter hnumbered)
  rwa [List.zipIdx_map_fst] at hmem

theorem resolveGroup_of_contains {defs : Dict String ScoringGroup} {group : String}
    (h : defs.contains group = true) : resolveGroup defs group = group := by
  rw [resolveGroup, if_pos h]

/-- Without the fallback a group has the credits of the cases that name it. -/
theorem groupCredits_eq_namedCredits
    (h : ∀ manifestCase ∈ m.cases, (groupDefs A m).contains manifestCase.group = true)
    (cases : List CasePayload) (groupId : String) :
    groupCredits A m cases groupId = namedCredits A m cases groupId := by
  have hknown : (known m cases).map (fun pair =>
      (resolveGroup (groupDefs A m) pair.1.group, reportScore A pair.1 pair.2)) =
        (known m cases).map fun pair => (pair.1.group, reportScore A pair.1 pair.2) := by
    refine List.map_congr_left fun pair hpair => ?_
    rw [resolveGroup_of_contains (h _ (mem_cases_of_caseByNumber (mem_known.mp hpair).2))]
  have hmissing : (unreported m cases).map (fun manifestCase =>
      (resolveGroup (groupDefs A m) manifestCase.group, (0 : ℚ))) =
        (unreported m cases).map fun manifestCase => (manifestCase.group, 0) := by
    refine List.map_congr_left fun manifestCase hcase => ?_
    rw [resolveGroup_of_contains (h _ (mem_cases_of_mem_unreported hcase))]
  unfold groupCredits credits namedCredits
  rw [hknown, hmissing, List.filter_append, List.map_append, List.filter_map, List.filter_map,
    List.map_map, List.map_map]
  rfl

theorem groupsOf_of_ne_nil (h : m.groups ≠ []) : groupsOf A m = m.groups := by
  rw [groupsOf, if_neg h]

/-- The groups of a manifest with distinct ids, as `score` lists them. -/
theorem entries_groupDefs (hnonempty : m.groups ≠ [])
    (hids : (m.groups.map ScoringGroup.id).Nodup) :
    (groupDefs A m).entries = m.groups.map fun group => (group.id, group) := by
  rw [groupDefs, groupsOf_of_ne_nil hnonempty]
  refine Dict.entries_ofList ?_
  rw [List.map_map]
  exact hids

theorem get?_groupDefs (hnonempty : m.groups ≠ []) (hids : (m.groups.map ScoringGroup.id).Nodup)
    {groupId : String} {group : ScoringGroup} :
    (groupDefs A m).get? groupId = some group ↔ group ∈ m.groups ∧ group.id = groupId := by
  rw [Dict.get?_eq_some, entries_groupDefs hnonempty hids, List.mem_map]
  constructor
  · rintro ⟨other, hother, heq⟩
    cases heq
    exact ⟨hother, rfl⟩
  · rintro ⟨hgroup, rfl⟩
    exact ⟨group, hgroup, rfl⟩

end ScoringService

namespace ScoringManifest.Reads

open ScoringService

variable {A : FloatArith} {m : ScoringManifest} {validated : List GroupDef}

theorem map_strip_id (h : m.Reads A imported validated) :
    (m.groups.map fun group => strip group.id) = validated.map GroupDef.id :=
  Validates.map_strip_id h.groups

theorem ids_nodup (h : m.Reads A imported validated) :
    (m.groups.map ScoringGroup.id).Nodup := by
  have hstripped := h.ids
  rw [← h.map_strip_id] at hstripped
  exact List.Nodup.of_map strip (by rw [List.map_map]; exact hstripped)

/-- The group that was validated as `group`. -/
theorem exists_validates (h : m.Reads A imported validated) {group : GroupDef}
    (hgroup : group ∈ validated) : ∃ read ∈ m.groups, Validates read group :=
  Validates.exists_of_mem h.groups hgroup

theorem named_case (h : m.Reads A imported validated) {manifestCase : ScoringCase}
    (hcase : manifestCase ∈ m.cases) : ∃ group ∈ validated, group.id = manifestCase.group := by
  rw [h.cases] at hcase
  obtain ⟨testCase, htestCase, rfl⟩ := List.mem_map.mp hcase
  obtain ⟨group, hgroup, hid⟩ := List.mem_map.mp (h.named testCase htestCase)
  exact ⟨group, hgroup, hid⟩

theorem groups_ne_nil (h : m.Reads A imported validated) : m.groups ≠ [] := by
  obtain ⟨manifestCase, hcase⟩ := List.exists_mem_of_ne_nil _ h.cases_ne_nil
  obtain ⟨group, hgroup, -⟩ := h.named_case hcase
  obtain ⟨read, hread, -⟩ := h.exists_validates hgroup
  exact List.ne_nil_of_mem hread

/-- Every case is scored in the group it names exactly if scoring knows the groups that
the cases name under the ids that were validated. -/
theorem scoredWhereNamed_iff (h : m.Reads A imported validated) :
    ScoredWhereNamed A m validated ↔ ∀ group ∈ m.groups,
      strip group.id ∈ m.cases.map ScoringCase.group → strip group.id = group.id := by
  constructor
  · intro hscored group hgroup hnamed
    obtain ⟨manifestCase, hcase, hid⟩ := List.mem_map.mp hnamed
    have hcontains := (hscored manifestCase hcase).1
    rw [Dict.contains_iff, Dict.mem_keys_iff] at hcontains
    obtain ⟨other, hother⟩ := hcontains
    obtain ⟨hmem, hotherId⟩ := (get?_groupDefs h.groups_ne_nil h.ids_nodup).mp hother
    -- both were validated under the same id, so they are the same group
    have hsame : strip other.id = strip group.id := by
      rw [hotherId, hid, strip_strip]
    have hstripped := h.ids
    rw [← h.map_strip_id] at hstripped
    have hother : other = group := List.inj_on_of_nodup_map hstripped hmem hgroup hsame
    rw [← hid, ← hotherId, hother]
  · intro hexact
    have hfound : ∀ manifestCase ∈ m.cases, ∃ group ∈ validated, group.id = manifestCase.group ∧
        ∃ read, (groupDefs A m).get? manifestCase.group = some read ∧ Validates read group := by
      intro manifestCase hcase
      obtain ⟨group, hgroup, hid⟩ := h.named_case hcase
      obtain ⟨read, hread, hvalidates⟩ := h.exists_validates hgroup
      have hstrip : strip read.id = manifestCase.group := hvalidates.id.symm.trans hid
      have hreadId : read.id = manifestCase.group := by
        rw [← hstrip]
        exact (hexact read hread (hstrip ▸ List.mem_map_of_mem hcase)).symm
      exact ⟨group, hgroup, hid, read,
        (get?_groupDefs h.groups_ne_nil h.ids_nodup).mpr ⟨hread, hreadId⟩, hvalidates⟩
    have hcontains : ∀ manifestCase ∈ m.cases,
        (groupDefs A m).contains manifestCase.group = true := by
      intro manifestCase hcase
      obtain ⟨-, -, -, read, hread, -⟩ := hfound manifestCase hcase
      exact Dict.contains_iff.mpr (Dict.mem_keys_iff.mpr ⟨read, hread⟩)
    intro manifestCase hcase
    obtain ⟨group, hgroup, hid, read, hread, hvalidates⟩ := hfound manifestCase hcase
    refine ⟨hcontains manifestCase hcase, group, hgroup, hid, fun reports => ?_⟩
    rw [earned, Dict.get?_mapEntries, hid, hread, Option.map_some,
      groupCredits_eq_namedCredits hcontains]
    unfold groupScore
    rw [hvalidates.mode, hvalidates.points]

end ScoringManifest.Reads

/-- `str(group.get("id", "default"))`. -/
def groupId (P : Python) (item : Json) : String :=
  ((item.get? "id").map (Json.toStr P)).getD "default"

/-- Scoring reads the package, and scores every case in the group it names. -/
def ProblemPackage.ScoresWhereNamed (P : Python) (package : ProblemPackage)
    (validated : List GroupDef) : Prop :=
  ∃ m, ScoringManifest.ofJson P package.manifest = some m ∧
    ScoringService.ScoredWhereNamed P.arith m validated

theorem ScoringManifest.map_id_groups {m : ScoringManifest} {manifest : Json}
    (h : ScoringManifest.ofJson P manifest = some m) :
    m.groups.map ScoringGroup.id = (manifestGroups manifest).map (groupId P) := by
  unfold ScoringManifest.ofJson at h
  obtain ⟨cases, -, h⟩ := Option.bind_eq_some_iff.mp h
  obtain ⟨groups, hgroups, h⟩ := Option.bind_eq_some_iff.mp h
  cases h
  refine List.map_of_mapM_eq_some hgroups fun item group hitem => ?_
  obtain ⟨points, -, rfl⟩ := Option.map_eq_some_iff.mp hitem
  rfl

/-- The packages whose cases are all scored in the group they name: those in which the id
of every group that a case names is stored without white space around it. -/
theorem scoresWhereNamed_iff (P : Python) {package : ProblemPackage} {imported : Imported}
    {problem : Problem} {defs : List GroupDef} (himported : package.ImportedAs P imported)
    (hread : readArchive P problem package.archive = .ok imported)
    (hgroups : archiveGroups P problem package.archive = .ok defs) :
    package.ScoresWhereNamed P (validatedGroups P.arith imported.cases defs) ↔
      ∀ item ∈ manifestGroups package.manifest,
        strip (groupId P item) ∈ imported.cases.map ArchiveCase.group →
          strip (groupId P item) = groupId P item := by
  obtain ⟨m, hm, hreads⟩ := exists_scoring hread hgroups himported.2.2
  have hscores : package.ScoresWhereNamed P (validatedGroups P.arith imported.cases defs) ↔
      ScoringService.ScoredWhereNamed P.arith m (validatedGroups P.arith imported.cases defs) := by
    constructor
    · rintro ⟨other, hother, hscored⟩
      obtain rfl : m = other := Option.some.inj (hm.symm.trans hother)
      exact hscored
    · exact fun hscored => ⟨m, hm, hscored⟩
  have hcases : m.cases.map ScoringCase.group = imported.cases.map ArchiveCase.group := by
    rw [hreads.cases, List.map_map]
    rfl
  have hids (p : String → Prop) : (∀ group ∈ m.groups, p group.id) ↔
      ∀ item ∈ manifestGroups package.manifest, p (groupId P item) := by
    have hmap := ScoringManifest.map_id_groups hm
    rw [← List.forall_mem_map, hmap, List.forall_mem_map]
  rw [hscores, hreads.scoredWhereNamed_iff, hcases]
  exact hids fun id => strip id ∈ imported.cases.map ArchiveCase.group → strip id = id

/-! ## Two groups -/

/-- An archive with two cases and the given manifest. -/
def manifestPython (manifest : Json) : Python :=
  { Python.plain (.exact FloatArith.decimalRound) with
    openZip := fun _ => .ok (["manifest.json", "1.in", "1.out", "2.in", "2.out"].map fun name =>
      { name, content := .ok [], fileSize := 0 })
    loads := fun _ => .ok manifest }

/-- Two cases worth 50 points each, in the groups `g1` and `g2`; the first group counts its
worst case, the second one has the given id. -/
def twoGroups (secondId : String) : Json :=
  .obj [
    ("cases", .arr (["1", "2"].map fun name =>
      .obj [("input", .str (name ++ ".in")), ("answer", .str (name ++ ".out")),
        ("points", .int 50), ("group", .str ("g" ++ name))])),
    ("groups", .arr [
      .obj [("id", .str "g1"), ("points", .int 50), ("mode", .str "min")],
      .obj [("id", .str secondId), ("points", .int 50)]]),
    ("partial_score", .bool false)]

def twoGroupsProblem : Problem where
  id := 1
  code := "GROUPS"
  points := 100
  timeLimit := 1
  memoryLimit := 262144
  partialScore := false
  shortCircuit := false

def twoGroupsImport (secondId : String) : Imported :=
  ((readArchive (manifestPython (twoGroups secondId)) twoGroupsProblem []).toOption).getD ⟨[], []⟩

example : (twoGroupsImport "g2").cases.map ArchiveCase.group = ["g1", "g2"] := by decide +kernel

def twoGroupsPackage (secondId : String) : ProblemPackage where
  id := 1
  problem := 1
  version := 1
  sha256 := ""
  manifest := .obj (twoGroupsImport secondId).manifest

def twoGroupsValidated : List GroupDef :=
  [{ id := "g1", mode := "min", points := 50 }, { id := "g2", mode := "sum", points := 50 }]

theorem importedAs_twoGroups : (twoGroupsPackage "g2").ImportedAs (manifestPython (twoGroups "g2"))
    (twoGroupsImport "g2") :=
  ⟨⟨twoGroupsProblem, Except.eq_ok_getD (by decide +kernel) _⟩, by decide +kernel, rfl⟩

theorem importedAs_twoGroups_spaced :
    (twoGroupsPackage " g2 ").ImportedAs (manifestPython (twoGroups " g2 "))
      (twoGroupsImport " g2 ") :=
  ⟨⟨twoGroupsProblem, Except.eq_ok_getD (by decide +kernel) _⟩, by decide +kernel, rfl⟩

theorem archiveGroups_twoGroups :
    archiveGroups (manifestPython (twoGroups "g2")) twoGroupsProblem [] =
      .ok twoGroupsValidated := by
  rfl

theorem scoresWhereNamed_iff_twoGroups :
    (twoGroupsPackage "g2").ScoresWhereNamed (manifestPython (twoGroups "g2"))
      twoGroupsValidated :=
  (scoresWhereNamed_iff _ importedAs_twoGroups (Except.eq_ok_getD (by decide +kernel) _)
    archiveGroups_twoGroups).mpr (by decide +kernel)

/-- Spaces around the id of a group: the import validates the group as `g2`, scoring does
not know `g2`. -/
theorem twoGroups_spaced_not_scoresWhereNamed :
    (twoGroupsPackage " g2 ").ImportedAs (manifestPython (twoGroups " g2 "))
        (twoGroupsImport " g2 ") ∧
      archiveGroups (manifestPython (twoGroups " g2 ")) twoGroupsProblem [] =
          .ok twoGroupsValidated ∧
        ¬ (twoGroupsPackage " g2 ").ScoresWhereNamed (manifestPython (twoGroups " g2 "))
          twoGroupsValidated := by
  refine ⟨importedAs_twoGroups_spaced, by rfl, ?_⟩
  rintro ⟨m, hm, hscored⟩
  have hunknown : ((ScoringManifest.ofJson (manifestPython (twoGroups " g2 "))
      (twoGroupsPackage " g2 ").manifest).all fun m => m.cases.any fun manifestCase =>
        !(ScoringService.groupDefs (manifestPython (twoGroups " g2 ")).arith m).contains
          manifestCase.group) = true := by
    decide +kernel
  rw [hm, Option.all_some, List.any_eq_true] at hunknown
  obtain ⟨manifestCase, hcase, hmissing⟩ := hunknown
  rw [(hscored manifestCase hcase).1] at hmissing
  cases hmissing

end JudgeLoom
