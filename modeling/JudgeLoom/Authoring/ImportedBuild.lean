import JudgeLoom.Authoring.BuiltPackage
import JudgeLoom.Problems.Exceptions

/-!
# A built package on the server

The server reads an uploaded archive by rules of its own.  It takes every built package of
which the contents and the texts of the sources are not too large for it
(`imports_iff_importable`), and what it stores are the cases of the spec with the files
that were built.  The sizes are its own: it sums contents and not declared sizes, and it
measures a source by the text that the manifest has of it, where bytes that are no UTF-8
have become longer.

An imported package is in the end run by a worker, and then the three programs have read
the same archive: `agrees_iff_fits` says that the worker runs what was imported unless its
limits are too low.
-/

namespace JudgeLoom.Authoring

open PackageImportService

variable {T : Toolchain Go.PackageManifest} {spec s : Spec}

/-- An entry, as the Python reader lists it. -/
def zipEntry (entry : String × Go.Bytes) : ZipEntry where
  name := entry.1
  content := .ok entry.2
  fileSize := entry.2.length

/-! ## Names -/

/-- A name that the importer leaves as it is. -/
structure SafeName (name : String) : Prop where
  normalized : normalizeName name = name
  relative : PurePosixPath.isAbsolute name = false
  inside : ".." ∉ PurePosixPath.parts name
  drive : ((PurePosixPath.parts name).head?.any fun part => part.toList.getLast? = some ':') = false
  file : name.toList.getLast? ≠ some '/'
  kept : "__MACOSX".toList.isPrefixOf name.toList = false

theorem safeFileNames_eq_ok {names : List String} (h : ∀ name ∈ names, SafeName name) :
    safeFileNames names = .ok names := by
  induction names with
  | nil => rfl
  | cons name rest ih =>
      obtain ⟨hname, hrest⟩ := List.forall_mem_cons.mp h
      have hinside : ¬ (PurePosixPath.isAbsolute name = true ∨ ".." ∈ PurePosixPath.parts name ∨
          ((PurePosixPath.parts name).head?.any fun part =>
            part.toList.getLast? = some ':') = true) := by
        rw [hname.relative, hname.drive]
        simpa using hname.inside
      have hkept : ¬ (name.toList.getLast? = some '/' ∨
          "__MACOSX".toList.isPrefixOf name.toList = true) := by
        rw [hname.kept]
        simpa using hname.file
      unfold safeFileNames
      dsimp only
      rw [hname.normalized, if_neg hinside, ih hrest, Except.ok_bind, if_neg hkept]
      rfl

theorem safeName_manifest : SafeName "manifest.json" := by
  constructor <;> decide

/-- The parts of the name of a data file. -/
theorem parts_data (number : ℕ) {ending : String} (hending : ending ∈ endings) :
    PurePosixPath.parts ("data/" ++ twoDigits number ++ ending) =
      ["data", twoDigits number ++ ending] ∧ 3 ≤ (twoDigits number ++ ending).toList.length := by
  have hspec : ∀ e ∈ endings, '/' ∉ e.toList ∧ 3 ≤ e.toList.length := by decide
  obtain ⟨hslash, hlength⟩ := hspec ending hending
  have hchars : ("data/" ++ twoDigits number ++ ending).toList =
      ['d', 'a', 't', 'a'] ++ '/' :: (twoDigits number ++ ending).toList := by
    rw [String.append_assoc, String.toList_append]
    rfl
  have hlong : 3 ≤ (twoDigits number ++ ending).toList.length := by
    rw [String.toList_append, List.length_append]
    omega
  have hnone : '/' ∉ (twoDigits number ++ ending).toList := by
    rw [String.toList_append, List.mem_append, not_or]
    exact ⟨fun hdigit => absurd (isDigit_twoDigits hdigit) (by decide), hslash⟩
  have hshort : ∀ text : String, text.toList.length < 3 → twoDigits number ++ ending ≠ text := by
    rintro text htext rfl
    omega
  refine ⟨?_, hlong⟩
  have hdata : '/' ∉ ['d', 'a', 't', 'a'] := by decide
  rw [PurePosixPath.parts, hchars, List.splitOn_append_cons_self, List.splitOn_eq_singleton hnone,
    List.splitOn_eq_singleton hdata, List.singleton_append, List.map_cons, List.map_singleton,
    String.ofList_toList]
  rw [List.filter_cons_of_pos (by decide), List.filter_cons_of_pos, List.filter_nil]
  exact decide_eq_true ⟨hshort "" (by decide), hshort "." (by decide)⟩

theorem safeName_data (number : ℕ) {ending : String} (hending : ending ∈ endings) :
    SafeName ("data/" ++ twoDigits number ++ ending) := by
  have hspec : ∀ e ∈ endings, '\\' ∉ e.toList ∧ e.toList ≠ [] ∧
      e.toList.getLast? ≠ some '/' := by decide
  obtain ⟨hback, hne, hlast⟩ := hspec ending hending
  obtain ⟨hparts, hlong⟩ := parts_data number hending
  refine ⟨?_, ?_, ?_, ?_, ?_, ?_⟩
  · have hsame : ∀ c ∈ ("data/" ++ twoDigits number ++ ending).toList,
        (if c = '\\' then '/' else c) = c := by
      intro c hc
      refine if_neg ?_
      rintro rfl
      rw [String.toList_append, String.toList_append, List.mem_append, List.mem_append] at hc
      rcases hc with (hdata | hdigit) | hend
      · exact absurd hdata (by decide)
      · exact absurd (isDigit_twoDigits hdigit) (by decide)
      · exact hback hend
    rw [normalizeName, List.map_congr_left hsame, List.map_id', String.ofList_toList]
  · rw [PurePosixPath.isAbsolute, String.append_assoc, String.toList_append]
    rfl
  · rw [hparts, List.mem_cons, List.mem_singleton, not_or]
    refine ⟨by decide, fun heq => ?_⟩
    rw [← heq] at hlong
    exact absurd hlong (by decide)
  · rw [hparts]
    have hdata : decide ("data".toList.getLast? = some ':') = false := by decide
    exact hdata
  · rw [String.toList_append, List.getLast?_append_of_ne_nil _ hne]
    exact hlast
  · rw [String.append_assoc, String.toList_append]
    rfl

/-- The importer keeps the names of a built package. -/
theorem BuiltPackage.safeName (package : BuiltPackage T s) {entry : String × Go.Bytes}
    (h : entry ∈ package.entries) : SafeName entry.1 := by
  rcases package.mem_entries.mp h with rfl | ⟨index, c, -, rfl | rfl⟩
  · exact safeName_manifest
  · exact safeName_data _ (by decide)
  · exact safeName_data _ (by decide)

/-- The importer reads an entry under its name. -/
theorem BuiltPackage.readEntry_entry (package : BuiltPackage T s) {entry : String × Go.Bytes}
    (h : entry ∈ package.entries) :
    readEntry (package.entries.map zipEntry) entry.1 = .ok entry.2 := by
  unfold readEntry
  cases hfind : (package.entries.map zipEntry).reverse.find? fun other =>
      other.name = entry.1 with
  | none =>
      have hnone := List.find?_eq_none.mp hfind (zipEntry entry)
        (List.mem_reverse.mpr (List.mem_map_of_mem h))
      exact absurd (decide_eq_true rfl) hnone
  | some found =>
      have hname := List.find?_some hfind
      obtain ⟨other, hother, rfl⟩ := List.mem_map.mp
        (List.mem_reverse.mp (List.mem_of_find?_eq_some hfind))
      have hsame : other.1 = entry.1 := of_decide_eq_true hname
      have hnames : (zipFile other).names = (zipFile entry).names := by
        rw [Go.PackageStore.ZipFile.names, Go.PackageStore.ZipFile.names,
          Go.PackageStore.ZipFile.normalized, Go.PackageStore.ZipFile.normalized, zipFile, zipFile,
          hsame]
      obtain rfl := package.entry_unique h hother hnames
      rfl

/-! ## The manifest -/

theorem lookup_manifest (m : PackageManifest) :
    Json.lookup (manifestMembers m) "cases" = some (.arr (m.cases.map ManifestCase.tree)) ∧
      Json.lookup (manifestMembers m) "groups" = some (.arr (m.groups.map GroupSpec.tree)) ∧
      Json.lookup (manifestMembers m) "checker" = some m.checker.tree ∧
      Json.lookup (manifestMembers m) "validator" = m.validator.map ManifestChecker.tree := by
  cases hvalidator : m.validator <;> simp [manifestMembers, hvalidator, Json.lookup]

variable {P : Python}

/-- Numbers that the worker can read are numbers for the server. -/
theorem toFloat_numberTree {q : ℚ} (h : Readable P.arith q) :
    (numberTree q).toFloat P = .ok (.finite q) := by
  unfold numberTree
  split
  · next hinteger =>
      have hq : (q.num : ℚ) = q := Rat.coe_int_num_of_den_eq_one hinteger.1
      rw [Json.toFloat, hq, h.2, if_neg Bool.false_ne_true, h.1]
  · rfl

/-- A zero is replaced by itself. -/
theorem orDefault_numberTree (q : ℚ) : (numberTree q).orDefault (.int 0) = numberTree q := by
  by_cases htruthy : (numberTree q).truthy = true
  · rw [Json.orDefault, if_pos htruthy]
  · have hzero : q = 0 := by
      unfold numberTree at htruthy
      split at htruthy
      · next hinteger =>
          rw [← Rat.coe_int_num_of_den_eq_one hinteger.1]
          simpa [Json.truthy] using htruthy
      · simpa [Json.truthy] using htruthy
    rw [Json.orDefault, if_neg htruthy, hzero, numberTree, if_pos ⟨rfl, by norm_num⟩]
    rfl

theorem parsePoints_numberTree {q : ℚ} (hreadable : Readable P.arith q) (hvalid : validPoints q)
    (notNumeric outOfRange : String) :
    parsePoints P (numberTree q) notNumeric outOfRange = .ok q := by
  have hrange : ¬ (q < 0 ∨ maxManifestPoints < q) := by
    rw [not_or, not_lt, not_lt]
    exact hvalid
  unfold parsePoints
  rw [toFloat_numberTree hreadable]
  exact if_neg hrange

/-- What the importer stores of a case. -/
def BuiltCase.archiveCase (P : Python) (number : ℕ) (c : BuiltCase) : ArchiveCase ℚ where
  input := inputName number
  answer := answerName number
  group := c.spec.group
  points := c.spec.points.getD 0
  inputSha256 := P.sha256 c.input
  answerSha256 := P.sha256 c.answer

/-- A case of the manifest is read as it was built. -/
theorem BuiltPackage.manifestCase_eq_ok (package : BuiltPackage T s) (hvalid : s.Valid)
    (hpoints : ∀ testCase ∈ s.cases, ∃ points, testCase.points = some points ∧
      Readable P.arith points) {index : ℕ} {c : BuiltCase} (hc : package.cases[index]? = some c) :
    PackageImportService.manifestCase P (package.entries.map zipEntry)
        (package.entries.map Prod.fst) (c.manifestCase T (index + 1)).tree =
      .ok { c.archiveCase P (index + 1) with points := c.spec.points } := by
  obtain ⟨points, hsome, hreadable⟩ := hpoints _ (package.spec_mem hc)
  have hcase := hvalid.validCases _ (package.spec_mem hc)
  have hrange : validPoints points := by
    obtain ⟨other, hother, hrange⟩ := hcase.points
    rw [hsome] at hother
    cases hother
    exact hrange
  have hgroup : c.spec.group ≠ "" := by
    obtain ⟨group, hmem, hid⟩ := List.mem_map.mp hcase.group
    rw [← hid]
    intro hempty
    have hname := (hvalid.validGroups group hmem).name
    rw [hempty] at hname
    exact absurd hname (by decide)
  have hinput := package.mem_entries.mpr (Or.inr ⟨index, c, hc, Or.inl rfl⟩)
  have hanswer := package.mem_entries.mpr (Or.inr ⟨index, c, hc, Or.inr rfl⟩)
  have hinputName : inputName (index + 1) ≠ "" := by
    rw [inputName, String.append_assoc, ne_eq, ← String.toList_inj, String.toList_append]
    exact List.cons_ne_nil _ _
  have hanswerName : answerName (index + 1) ≠ "" := by
    rw [answerName, String.append_assoc, ne_eq, ← String.toList_inj, String.toList_append]
    exact List.cons_ne_nil _ _
  have hmembers : ∃ members, (c.manifestCase T (index + 1)).tree = .obj members ∧
      Json.lookup members "input" = some (.str (inputName (index + 1))) ∧
      Json.lookup members "answer" = some (.str (answerName (index + 1))) ∧
      Json.lookup members "group" = some (.str c.spec.group) ∧
      Json.lookup members "points" = some (numberTree points) := by
    refine ⟨_, rfl, ?_, ?_, ?_, ?_⟩
    any_goals rfl
    simp [Json.lookup, BuiltCase.manifestCase, hsome]
  obtain ⟨members, htree, hlookInput, hlookAnswer, hlookGroup, hlookPoints⟩ := hmembers
  have hgiven : getNotNone members "points" = some (numberTree points) := by
    have hnumber : numberTree points ≠ .null := by
      unfold numberTree
      split <;> exact fun h => by cases h
    unfold getNotNone
    rw [hlookPoints]
    split
    · next hnull => exact absurd (Option.some.inj hnull) hnumber
    · rfl
  have htext : (Json.orDefault (.str c.spec.group) (.str "default")).toStr P = c.spec.group := by
    rw [Json.orDefault, if_pos]
    · rfl
    · simpa [Json.truthy] using hgroup
  have hthere : ∀ name content, (name, content) ∈ package.entries →
      name ∈ package.entries.map Prod.fst := fun name content h => List.mem_map.mpr ⟨_, h, rfl⟩
  rw [htree, PackageImportService.manifestCase]
  dsimp only
  simp only [hlookInput, hlookAnswer, hlookGroup, hgiven, Option.some_or, Option.map_some,
    Option.getD_some, Json.toStr_str, htext]
  rw [if_neg (by simp [hinputName, hanswerName]), if_neg]
  · rw [parsePoints_numberTree hreadable hrange, package.readEntry_entry hinput,
      package.readEntry_entry hanswer, hsome]
    rfl
  · rw [not_or, not_not, not_not]
    exact ⟨hthere _ _ hinput, hthere _ _ hanswer⟩

/-! ## The cases -/

theorem manifestCasesFrom_eq_mapIdx (number : ℕ) (cases : List BuiltCase) :
    manifestCasesFrom T number cases =
      cases.mapIdx fun index c => c.manifestCase T (number + index) := by
  induction cases generalizing number with
  | nil => rfl
  | cons c rest ih =>
      rw [manifestCasesFrom, ih, List.mapIdx_cons]
      simp only [Nat.add_zero, Nat.add_comm, Nat.add_left_comm]

/-- What is made of each element in two ways, compared place by place. -/
theorem forall₂_mapIdx {α β γ : Type*} {R : β → γ → Prop} {f : ℕ → α → β} {g : ℕ → α → γ}
    {l : List α} (h : ∀ index a, l[index]? = some a → R (f index a) (g index a)) :
    List.Forall₂ R (l.mapIdx f) (l.mapIdx g) := by
  induction l generalizing f g with
  | nil => exact .nil
  | cons a rest ih =>
      rw [List.mapIdx_cons, List.mapIdx_cons]
      exact .cons (h 0 a rfl) (ih fun index b hb => h (index + 1) b hb)

/-- The cases that the importer stores. -/
def BuiltPackage.archiveCases (P : Python) (package : BuiltPackage T s) : List (ArchiveCase ℚ) :=
  package.cases.mapIdx fun index c => c.archiveCase P (index + 1)

theorem BuiltPackage.manifestCases_eq_ok (package : BuiltPackage T s) (hvalid : s.Valid)
    (hpoints : ∀ testCase ∈ s.cases, ∃ points, testCase.points = some points ∧
      Readable P.arith points) (problem : Problem) :
    PackageImportService.manifestCases P (package.entries.map zipEntry)
        (package.entries.map Prod.fst) (manifestMembers package.manifest) problem =
      .ok (some (package.archiveCases P)) := by
  have htrees : package.manifest.cases.map ManifestCase.tree =
      package.cases.mapIdx fun index c => (c.manifestCase T (index + 1)).tree := by
    have hcases : package.manifest.cases = manifestCasesFrom T 1 package.cases := rfl
    rw [hcases, manifestCasesFrom_eq_mapIdx]
    exact List.ext_getElem (by simp) fun index _ _ => by simp [Nat.add_comm]
  have hread : (package.cases.mapIdx fun index c => (c.manifestCase T (index + 1)).tree).mapM
      (PackageImportService.manifestCase P (package.entries.map zipEntry)
        (package.entries.map Prod.fst)) =
      .ok (package.cases.mapIdx fun index c =>
        { c.archiveCase P (index + 1) with points := c.spec.points }) :=
    Except.mapM_eq_ok_of_forall₂ (forall₂_mapIdx fun index c hc =>
      package.manifestCase_eq_ok hvalid hpoints hc)
  have hdefault : applyDefaultPoints P.arith problem (package.cases.mapIdx fun index c =>
      { c.archiveCase P (index + 1) with points := c.spec.points }) =
      package.archiveCases P := by
    refine List.ext_getElem (by simp [applyDefaultPoints, archiveCases]) fun index hindex _ => ?_
    have hlt : index < package.cases.length := by simpa [applyDefaultPoints] using hindex
    obtain ⟨points, hsome, -⟩ := hpoints _ (package.spec_mem (List.getElem?_eq_getElem hlt))
    simp [applyDefaultPoints, archiveCases, BuiltCase.archiveCase, hsome]
  obtain ⟨hlookup, -⟩ := lookup_manifest package.manifest
  rw [htrees] at hlookup
  have hne : package.cases.mapIdx (fun index c => (c.manifestCase T (index + 1)).tree) ≠ [] := by
    rw [ne_eq, List.mapIdx_eq_nil_iff]
    exact package.cases_ne_nil hvalid
  obtain ⟨item, rest, hcons⟩ := List.exists_cons_of_ne_nil hne
  rw [hcons] at hlookup hread
  unfold PackageImportService.manifestCases
  rw [hlookup]
  dsimp only
  rw [hread, Except.ok_bind, hdefault]
  rfl

/-! ## The groups -/

/-- The points of the groups of a spec that was read from JSON are floats. -/
def FloatGroups (A : FloatArith) (spec : Spec) : Prop :=
  ∀ group ∈ spec.groups, A.IsFloat group.points

theorem readable_groups {A : FloatArith} {quote : String → String}
    (hmillion : A.overflows 1000000 = false) (hfloats : FloatGroups A spec)
    (hvalid : (spec.applyDefaults A).validate quote A = .ok s) :
    ∀ group ∈ s.groups, Readable A group.points := by
  obtain ⟨h, generator, solution, rfl⟩ := valid_of_validate hvalid
  intro group hgroup
  obtain ⟨hnonneg, hle⟩ := (h.validGroups group hgroup).points
  refine ⟨?_, overflows_of_le hmillion hnonneg hle⟩
  have hgroups : group ∈ (spec.applyDefaults A).groups := hgroup
  unfold Spec.applyDefaults at hgroups
  dsimp only at hgroups
  split at hgroups
  · rw [List.mem_singleton.mp hgroups]
    exact A.isFloat_fl _
  · obtain ⟨given, hgiven, rfl⟩ := List.mem_map.mp hgroups
    exact hfloats given hgiven

theorem isSpace_of_isAlphanumeric {c : Char} (h : isAlphanumeric c = true) :
    JudgeLoom.isSpace c = false := by
  have hrange : 48 ≤ c.toNat ∧ c.toNat ≤ 57 ∨ 65 ≤ c.toNat ∧ c.toNat ≤ 90 ∨
      97 ≤ c.toNat ∧ c.toNat ≤ 122 := by
    simp only [isAlphanumeric, Char.le_def, UInt32.le_iff_toNat_le, Bool.or_eq_true,
      Bool.and_eq_true, decide_eq_true_eq] at h
    have h' : ((48 ≤ c.toNat ∧ c.toNat ≤ 57) ∨ 65 ≤ c.toNat ∧ c.toNat ≤ 90) ∨
        97 ≤ c.toNat ∧ c.toNat ≤ 122 := h
    omega
  simp only [JudgeLoom.isSpace, Bool.or_eq_false_iff, Bool.and_eq_false_imp,
    decide_eq_false_iff_not, decide_eq_true_eq]
  omega

theorem strip_of_no_space {text : String} (h : ∀ c ∈ text.toList, JudgeLoom.isSpace c = false) :
    strip text = text := by
  have hkeep : ∀ l : List Char, (∀ c ∈ l, JudgeLoom.isSpace c = false) →
      l.dropWhile JudgeLoom.isSpace = l := by
    intro l hl
    cases l with
    | nil => rfl
    | cons first rest =>
        rw [List.dropWhile_cons_of_neg]
        rw [hl first List.mem_cons_self]
        exact Bool.false_ne_true
  unfold strip
  rw [hkeep _ h, hkeep _ fun c hc => h c (List.mem_reverse.mp hc), List.reverse_reverse,
    String.ofList_toList]

theorem groups_ne_nil {A : FloatArith} {quote : String → String}
    (hvalid : (spec.applyDefaults A).validate quote A = .ok s) : s.groups ≠ [] := by
  obtain ⟨-, generator, solution, rfl⟩ := valid_of_validate hvalid
  exact Spec.groups_applyDefaults_ne_nil A spec

/-- A name has no white space, and is not empty. -/
theorem of_matchesName {extra : List Char} {limit : ℕ} {text : String}
    (hextra : ∀ c ∈ extra, JudgeLoom.isSpace c = false)
    (h : matchesName extra limit text = true) : text ≠ "" ∧ strip text = text := by
  unfold matchesName at h
  split at h
  · cases h
  · next first rest hchars =>
      rw [Bool.and_eq_true, Bool.and_eq_true, List.all_eq_true] at h
      obtain ⟨⟨hfirst, hrest⟩, -⟩ := h
      refine ⟨?_, strip_of_no_space ?_⟩
      · rintro rfl
        cases hchars
      · rw [hchars, List.forall_mem_cons]
        refine ⟨isSpace_of_isAlphanumeric hfirst, fun c hc => ?_⟩
        rcases Bool.or_eq_true _ _ ▸ hrest c hc with hletter | hother
        · exact isSpace_of_isAlphanumeric hletter
        · exact hextra c (by simpa using hother)

def GroupSpec.groupDef (group : GroupSpec) : GroupDef where
  id := group.id
  mode := group.mode
  points := group.points

theorem validateGroup_tree {group : GroupSpec} (hvalid : group.Valid)
    (hreadable : Readable P.arith group.points) {defs : List GroupDef}
    (hnew : group.id ∉ defs.map GroupDef.id) :
    validateGroup P defs group.tree = .ok (defs ++ [group.groupDef]) := by
  have hletters : ∀ c ∈ ['_', '-'], JudgeLoom.isSpace c = false := by simp [JudgeLoom.isSpace]
  obtain ⟨hne, hstrip⟩ := of_matchesName hletters hvalid.name
  have hmode : group.mode ≠ "" ∧ group.mode ∈ ["sum", "min"] := by
    rcases hvalid.mode with heq | heq <;> rw [heq] <;> decide
  have hmembers : ∃ members, group.tree = .obj members ∧
      Json.lookup members "id" = some (.str group.id) ∧
      Json.lookup members "points" = some (numberTree group.points) ∧
      Json.lookup members "mode" = some (.str group.mode) := by
    refine ⟨_, rfl, ?_, ?_, ?_⟩ <;> rw [if_neg hmode.1] <;> rfl
  obtain ⟨members, htree, hid, hpoints, hmodeValue⟩ := hmembers
  have hparse : ∀ notNumeric outOfRange : String,
      parsePoints P ((numberTree group.points).orDefault (.int 0)) notNumeric outOfRange =
        .ok group.points := by
    intro notNumeric outOfRange
    rw [orDefault_numberTree]
    exact parsePoints_numberTree hreadable hvalid.points _ _
  rw [htree, validateGroup]
  simp only [hid, hpoints, hmodeValue, Option.map_some, Option.getD_some, Json.toStr_str, hstrip,
    hparse]
  rw [if_neg hne, if_neg hnew, if_neg (not_not.mpr hmode.2)]
  rfl

theorem foldlM_validateGroup {groups : List GroupSpec} {defs : List GroupDef}
    (hvalid : ∀ group ∈ groups, group.Valid ∧ Readable P.arith group.points)
    (hnodup : (groups.map GroupSpec.id).Nodup)
    (hnew : ∀ group ∈ groups, group.id ∉ defs.map GroupDef.id) :
    (groups.map GroupSpec.tree).foldlM (validateGroup P) defs =
      .ok (defs ++ groups.map GroupSpec.groupDef) := by
  induction groups generalizing defs with
  | nil => rw [List.map_nil, List.map_nil, List.append_nil]; rfl
  | cons group rest ih =>
      obtain ⟨⟨hgroup, hreadable⟩, hrest⟩ := List.forall_mem_cons.mp hvalid
      obtain ⟨hfirst, hothers⟩ := List.forall_mem_cons.mp hnew
      rw [List.map_cons, List.nodup_cons] at hnodup
      rw [List.map_cons, List.foldlM_cons, validateGroup_tree hgroup hreadable hfirst,
        Except.ok_bind, ih hrest hnodup.2 fun other hother => ?_]
      · rw [List.append_assoc, List.singleton_append, List.map_cons]
      · rw [List.map_append, List.mem_append, not_or]
        refine ⟨hothers other hother, fun hsame => hnodup.1 ?_⟩
        rw [List.map_singleton, List.mem_singleton] at hsame
        exact List.mem_map.mpr ⟨other, hother, hsame⟩

/-- The importer takes the groups of a built package. -/
theorem BuiltPackage.validateGroups_eq_ok (package : BuiltPackage T s) (hvalid : s.Valid)
    (hgroups : ∀ group ∈ s.groups, Readable P.arith group.points) (hne : s.groups ≠ []) :
    PackageImportService.validateGroups P (manifestMembers package.manifest)
      (package.archiveCases P) = .ok (s.groups.map GroupSpec.groupDef) := by
  obtain ⟨-, hlookup, -⟩ := lookup_manifest package.manifest
  have hitems : getNotNone (manifestMembers package.manifest) "groups" =
      some (.arr (s.groups.map GroupSpec.tree)) := by
    unfold getNotNone
    rw [hlookup]
    rfl
  have hfold : (s.groups.map GroupSpec.tree).foldlM (validateGroup P) [] =
      .ok ([] ++ s.groups.map GroupSpec.groupDef) :=
    foldlM_validateGroup (fun group hgroup => ⟨hvalid.validGroups group hgroup,
      hgroups group hgroup⟩) hvalid.groupIds fun _ _ => List.not_mem_nil
  have hids : (s.groups.map GroupSpec.groupDef).map GroupDef.id = s.groups.map GroupSpec.id :=
    List.map_map
  have hknown : ((package.archiveCases P).map ArchiveCase.group).filter
      (fun group => group ∉ s.groups.map GroupSpec.id) = [] := by
    rw [List.filter_eq_nil_iff]
    intro group hgroup
    obtain ⟨stored, hstored, rfl⟩ := List.mem_map.mp hgroup
    obtain ⟨index, hindex, rfl⟩ := List.mem_mapIdx.mp hstored
    have hcase := hvalid.validCases _
      (package.spec_mem (List.getElem?_eq_getElem hindex))
    rw [decide_eq_true_eq, not_not]
    exact hcase.group
  unfold PackageImportService.validateGroups
  rw [hitems]
  dsimp only
  rw [Except.ok_bind, hfold, Except.ok_bind, List.nil_append, if_pos, hids, hknown]
  · rfl
  · rwa [ne_eq, List.map_eq_nil_iff]

/-! ## The sources -/

/-- The importer takes the source of a program of the package. -/
def ImportableSource (source : Go.Bytes) : Prop :=
  strip (Utf8.decode source) ≠ "" ∧
    (Utf8.decode source).utf8ByteSize ≤ maxValidatorSourceBytes

/-- The importer takes the package. -/
structure Importable (package : BuiltPackage T s) : Prop where
  size : package.declaredSize ≤ maxUncompressedBytes
  checker : s.checker.type = "testlib" → ImportableSource s.checker.source
  validator : ∀ validator ∈ s.validator, validator.type = "testlib" →
    ImportableSource validator.source

theorem lookup_checker (checker : ManifestChecker) : ∃ members, checker.tree = .obj members ∧
    Json.lookup members "type" = some (.str checker.type) ∧
    Json.lookup members "source" =
      if checker.source = [] then none else some (.str (Utf8.decode checker.source)) := by
  refine ⟨_, rfl, ?_, ?_⟩
  · by_cases h : checker.source = [] <;> simp [h, Json.lookup]
  · by_cases h : checker.source = [] <;> simp [h, Json.lookup]

theorem validateSource_eq_ok_iff {checker : ManifestChecker} {members : List (String × Json)}
    (hmembers : Json.lookup members "source" =
      if checker.source = [] then none else some (.str (Utf8.decode checker.source)))
    (required tooLarge : String) :
    validateSource members required tooLarge = .ok () ↔ ImportableSource checker.source := by
  unfold validateSource ImportableSource
  rw [hmembers]
  by_cases hsource : checker.source = []
  · rw [if_pos hsource, hsource]
    exact iff_of_false (fun h => by cases h) fun h => h.1 rfl
  · rw [if_neg hsource]
    dsimp only
    split_ifs with hblank hlarge
    · exact iff_of_false (fun h => by cases h) fun h => h.1 hblank
    · exact iff_of_false (fun h => by cases h) fun h => absurd h.2 (not_le.mpr hlarge)
    · exact iff_of_true rfl ⟨hblank, not_lt.mp hlarge⟩

theorem validateChecker_eq_ok_iff (package : BuiltPackage T s) (hvalid : s.Valid) :
    validateChecker P (manifestMembers package.manifest) = .ok () ↔
      (s.checker.type = "testlib" → ImportableSource s.checker.source) := by
  obtain ⟨-, -, hlookup, -⟩ := lookup_manifest package.manifest
  obtain ⟨members, htree, htype, hsource⟩ := lookup_checker package.manifest.checker
  have hsome : getNotNone (manifestMembers package.manifest) "checker" = some (.obj members) := by
    unfold getNotNone
    rw [hlookup, htree]
  have hkind : typeOf P members "exact" = lower s.checker.type := by
    rw [typeOf, htype, Option.map_some, Option.getD_some, Json.toStr_str]
    rfl
  have hsourceOk := fun required tooLarge => validateSource_eq_ok_iff hsource required tooLarge
  unfold validateChecker
  rw [hsome]
  dsimp only
  rw [hkind]
  have hlower : ∀ type ∈ ["exact", "none", "testlib"], lower type = type := by decide
  rcases hvalid.checker with heq | heq | ⟨heq, -⟩
  · rw [heq, hlower _ (by decide), if_neg (by decide), if_neg (by decide)]
    exact iff_of_true rfl fun h => absurd h (by decide)
  · rw [heq, hlower _ (by decide), if_neg (by decide), if_neg (by decide)]
    exact iff_of_true rfl fun h => absurd h (by decide)
  · rw [heq, hlower _ (by decide), if_neg (by decide), if_pos (by decide), imp_iff_right rfl]
    exact hsourceOk _ _

theorem validateValidator_eq_ok_iff (package : BuiltPackage T s) :
    validateValidator P (manifestMembers package.manifest) = .ok () ↔
      ∀ validator ∈ s.validator, validator.type = "testlib" →
        ImportableSource validator.source := by
  obtain ⟨-, -, -, hlookup⟩ := lookup_manifest package.manifest
  have hvalidator : package.manifest.validator =
      (s.validator.filter (·.type = "testlib")).map fun validator =>
        { type := "testlib", source := validator.source } := rfl
  rw [hvalidator, Option.map_map] at hlookup
  have hlower : lower "testlib" = "testlib" := by decide
  unfold validateValidator getNotNone
  rw [hlookup]
  cases hfilter : s.validator.filter (·.type = "testlib") with
  | none =>
      refine iff_of_true rfl fun validator hmem htype => ?_
      have hnone := Option.filter_eq_none_iff.mp hfilter validator hmem
      exact absurd (decide_eq_true htype) hnone
  | some validator =>
      obtain ⟨hmem, htype⟩ := Option.filter_eq_some_iff.mp hfilter
      obtain ⟨members, htree, htypeMember, hsource⟩ :=
        lookup_checker { type := "testlib", source := validator.source }
      have hkind : typeOf P members "none" = "testlib" := by
        rw [typeOf, htypeMember, Option.map_some, Option.getD_some, Json.toStr_str]
        exact hlower
      rw [Option.map_some, Function.comp_apply, htree]
      dsimp only
      rw [hkind, if_neg (by decide), if_pos rfl]
      refine (validateSource_eq_ok_iff hsource _ _).trans ⟨fun h other hother _ => ?_, fun h => ?_⟩
      · rw [Option.mem_def, hmem] at hother
        cases hother
        exact h
      · exact h validator hmem (of_decide_eq_true htype)

/-! ## Importing -/

/-- What is stored of a built package. -/
def BuiltPackage.imported (P : Python) (package : BuiltPackage T s) (problem : Problem) :
    Imported where
  manifest := buildManifest P.arith problem (manifestMembers package.manifest)
    (package.archiveCases P)
  cases := package.archiveCases P

theorem sum_fileSize (cases : List BuiltCase) (first : ℕ) :
    (((dataEntries first (cases.map BuiltCase.input) (cases.map BuiltCase.answer)).map
      zipEntry).map ZipEntry.fileSize).sum = (cases.map BuiltCase.size).sum := by
  induction cases generalizing first with
  | nil => rfl
  | cons c rest ih =>
      simp only [List.map_cons, dataEntries, List.sum_cons, ih, BuiltCase.size, zipEntry]
      omega

theorem readZip_eq_ok_iff (package : BuiltPackage T s) (hvalid : s.Valid)
    (hpoints : ∀ testCase ∈ s.cases, ∃ points, testCase.points = some points ∧
      Readable P.arith points)
    (hopen : P.openZip package.archive = .ok (package.entries.map zipEntry))
    (hloads : P.loads package.text = .ok (manifestTree package.manifest)) {problem : Problem}
    {result : List (String × Json) × List (ArchiveCase ℚ)} :
    readZip P problem package.archive = .ok result ↔
      Importable package ∧ result = (manifestMembers package.manifest, package.archiveCases P) := by
  have hnames : (package.entries.map zipEntry).map ZipEntry.name = package.entries.map Prod.fst :=
    List.map_map
  have hsafe : safeFileNames (package.entries.map Prod.fst) =
      .ok (package.entries.map Prod.fst) := by
    refine safeFileNames_eq_ok fun name hname => ?_
    obtain ⟨entry, hentry, rfl⟩ := List.mem_map.mp hname
    exact package.safeName hentry
  have hsize : ((package.entries.map zipEntry).map ZipEntry.fileSize).sum =
      package.declaredSize := by
    rw [BuiltPackage.entries, List.map_cons, List.map_cons, List.sum_cons, sum_fileSize,
      BuiltPackage.declaredSize, Nat.add_comm]
    rfl
  have htext : ("manifest.json", package.text) ∈ package.entries :=
    package.mem_entries.mpr (Or.inl rfl)
  have hmanifest : readManifest P (package.entries.map zipEntry)
      (package.entries.map Prod.fst) = .ok (manifestMembers package.manifest) := by
    have hmem : ¬ "manifest.json" ∉ package.entries.map Prod.fst :=
      not_not.mpr (List.mem_map.mpr ⟨_, htext, rfl⟩)
    unfold readManifest
    rw [if_neg hmem, package.readEntry_entry htext, Except.ok_bind, hloads]
    rfl
  have hcases := package.manifestCases_eq_ok hvalid hpoints problem
  have hmapped : (P.openZip package.archive).mapError ServiceError.python =
      .ok (package.entries.map zipEntry) := by
    rw [hopen]
    rfl
  unfold readZip
  rw [hmapped, Except.ok_bind, hnames, hsafe, Except.ok_bind, hsize]
  split_ifs with hlarge
  · refine iff_of_false (fun h => by cases h) fun h => absurd h.1.size (not_le.mpr hlarge)
  · rw [hmanifest, Except.ok_bind]
    constructor
    · intro h
      obtain ⟨_, hchecker, h⟩ := Except.bind_eq_ok.mp h
      obtain ⟨_, hvalidator, h⟩ := Except.bind_eq_ok.mp h
      rw [hcases, Except.ok_bind] at h
      cases h
      exact ⟨⟨not_lt.mp hlarge, (validateChecker_eq_ok_iff package hvalid).mp hchecker,
        (validateValidator_eq_ok_iff package).mp hvalidator⟩, rfl⟩
    · rintro ⟨h, rfl⟩
      rw [(validateChecker_eq_ok_iff package hvalid).mpr h.checker, Except.ok_bind,
        (validateValidator_eq_ok_iff package).mpr h.validator, Except.ok_bind, hcases]
      rfl

/-- The importer takes a built package exactly if it is importable, and stores the cases that
were built. -/
theorem readArchive_iff (package : BuiltPackage T s) (hvalid : s.Valid) (hne : s.groups ≠ [])
    (hpoints : ∀ testCase ∈ s.cases, ∃ points, testCase.points = some points ∧
      Readable P.arith points)
    (hgroups : ∀ group ∈ s.groups, Readable P.arith group.points)
    (hopen : P.openZip package.archive = .ok (package.entries.map zipEntry))
    (hloads : P.loads package.text = .ok (manifestTree package.manifest)) {problem : Problem}
    {imported : Imported} :
    readArchive P problem package.archive = .ok imported ↔
      Importable package ∧ imported = package.imported P problem := by
  have hread : ∀ result, readZip P problem package.archive = .ok result ↔ Importable package ∧
      result = (manifestMembers package.manifest, package.archiveCases P) := fun _ =>
    readZip_eq_ok_iff package hvalid hpoints hopen hloads
  have hnonempty : package.archiveCases P ≠ [] := by
    rw [BuiltPackage.archiveCases, ne_eq, List.mapIdx_eq_nil_iff]
    exact package.cases_ne_nil hvalid
  have hlength : ¬ maxTestCases < (package.archiveCases P).length := by
    rw [BuiltPackage.archiveCases, List.length_mapIdx, package.length_cases]
    exact not_lt.mpr hvalid.cases.2
  have hdefs := package.validateGroups_eq_ok hvalid hgroups hne
  unfold readArchive
  constructor
  · intro h
    obtain ⟨result, hzip, h⟩ := Except.bind_eq_ok.mp h
    obtain ⟨himportable, rfl⟩ := (hread _).mp (catchBadZipFile_eq_ok.mp hzip)
    dsimp only at h
    rw [if_neg hnonempty, if_neg hlength, hdefs, Except.ok_bind] at h
    simp only [pure, Except.pure, Except.ok.injEq] at h
    exact ⟨himportable, h.symm⟩
  · rintro ⟨himportable, rfl⟩
    rw [catchBadZipFile_eq_ok.mpr ((hread _).mpr ⟨himportable, rfl⟩), Except.ok_bind]
    dsimp only
    rw [if_neg hnonempty, if_neg hlength, hdefs]
    rfl

/-- A member of the manifest is stored, unless it is one of the two that are made anew. -/
theorem lookup_buildManifest {A : FloatArith} {problem : Problem} {members : List (String × Json)}
    {cases : List (ArchiveCase ℚ)} {key : String} {value : Json}
    (hkey : key ≠ "cases" ∧ key ≠ "groups") (h : Json.lookup members key = some value) :
    Json.lookup (buildManifest A problem members cases) key = some value := by
  unfold buildManifest
  dsimp only
  split
  · rw [Json.lookup_append, Json.lookup_singleton, if_neg hkey.1.symm, Option.none_or]
    simp only [lookup_setDefault, h, Option.some_or]
  · rw [Json.lookup_append, Json.lookup_singleton, if_neg hkey.2.symm, Option.none_or,
      Json.lookup_append, Json.lookup_singleton, if_neg hkey.1.symm, Option.none_or]
    simp only [lookup_setDefault, h, Option.some_or]

/-- The importer sees the checker of the spec. -/
theorem checkerKind_imported (package : BuiltPackage T s) (hvalid : s.Valid) (problem : Problem) :
    checkerKind P (package.imported P problem).manifest = .ofType s.checker.type := by
  obtain ⟨-, -, hlookup, -⟩ := lookup_manifest package.manifest
  obtain ⟨members, htree, htype, -⟩ := lookup_checker package.manifest.checker
  have hstored : getNotNone (package.imported P problem).manifest "checker" =
      some (.obj members) := by
    unfold getNotNone
    rw [BuiltPackage.imported, lookup_buildManifest (by decide) hlookup, htree]
  have hlower : ∀ type ∈ ["exact", "none", "testlib"], lower type = type := by decide
  have hkind : typeOf P members "exact" = lower s.checker.type := by
    rw [typeOf, htype, Option.map_some, Option.getD_some, Json.toStr_str]
    rfl
  unfold checkerKind
  rw [hstored]
  dsimp only
  rw [hkind]
  rcases hvalid.checker with heq | heq | ⟨heq, -⟩
  · rw [heq, hlower _ (by decide)]
  · rw [heq, hlower _ (by decide)]
  · rw [heq, hlower _ (by decide)]

/-! ## Agreement -/

/-- A relation to elements that know their place. -/
theorem forall₂_mapIdx_right {α β γ : Type*} {R : α → β → Prop} {S : α → γ → Prop}
    {f : ℕ → β → γ} {l : List α} {m : List β} (h : List.Forall₂ R l m)
    (hstep : ∀ index a b, m[index]? = some b → R a b → S a (f index b)) :
    List.Forall₂ S l (m.mapIdx f) := by
  induction h generalizing f with
  | nil => exact .nil
  | cons hfirst _ ih =>
      rw [List.mapIdx_cons]
      exact .cons (hstep 0 _ _ rfl hfirst) (ih fun index a b hb => hstep (index + 1) a b hb)

section Agreement

open Go.PackageStore (Lib Store Awaits IsDigest)

variable {package : BuiltPackage T s} {L : Lib} {J : Go.JsonReader} {store : Store}
  {cwd : Go.Location} {fs start : Go.Files} {job : Go.Job} {problem : Problem}

/-- What was built is what was imported. -/
theorem sameCases_of_asBuilt (hopen : P.openZip package.archive = .ok (package.entries.map zipEntry))
    (hvalid : s.Valid) {manifest : Go.PackageManifest}
    (h : AsBuilt L store cwd package fs manifest) :
    List.Forall₂ (Go.SameCase P T.toRuntime L store cwd package.archive fs
        (.ofType (Go.checkerSpec job manifest).type))
        (Go.packageCases job manifest) (package.imported P problem).cases ∧
      CheckerKind.ofType (Go.checkerSpec job manifest).type =
        checkerKind P (package.imported P problem).manifest := by
  have hread : ∀ entry ∈ package.entries,
      PackageImportService.readFile P package.archive entry.1 = .ok entry.2 := by
    intro entry hentry
    rw [PackageImportService.readFile, hopen]
    exact package.readEntry_entry hentry
  have htype : (Go.checkerSpec job manifest).type = s.checker.type := by
    have hne : manifest.checker.type ≠ "" := by
      rw [h.checker]
      rcases hvalid.checker with heq | heq | ⟨heq, -⟩ <;>
        · dsimp only
          rw [heq]
          decide
    rw [Go.checkerSpec, if_neg hne, h.checker]
  refine ⟨?_, by rw [htype, checkerKind_imported package hvalid]⟩
  rw [Go.packageCases, if_neg h.nonempty]
  refine forall₂_mapIdx_right h.cases fun index testCase c hc hrun => ?_
  have hinput := package.mem_entries.mpr (Or.inr ⟨index, c, hc, Or.inl rfl⟩)
  have hanswer := package.mem_entries.mpr (Or.inr ⟨index, c, hc, Or.inr rfl⟩)
  refine ⟨?_, ⟨c.input, hread _ hinput, hrun.input, hrun.inputHash⟩, c.answer,
    hread _ hanswer, hrun.answer, fun _ => hrun.answerHash⟩
  rw [BuiltCase.archiveCase, ← hrun.points]
  rfl

end Agreement

/-! ## The package of the sample -/

def samplePython : Python :=
  { Python.plain .binary64 with
    openZip := fun _ => .ok (samplePackage.entries.map zipEntry)
    loads := fun _ => .ok (manifestTree samplePackage.manifest) }

def sampleProblem : Problem where
  id := 1
  code := "P"
  points := 100
  timeLimit := 2
  memoryLimit := 262144
  partialScore := false
  shortCircuit := false

def sampleStored : ProblemPackage where
  id := 1
  problem := 1
  version := 1
  sha256 := ""
  manifest := .obj (samplePackage.imported samplePython sampleProblem).manifest

theorem floatGroups_sample : FloatGroups .binary64 sampleSpec :=
  List.forall_mem_nil _

theorem importable_sample : Importable samplePackage where
  size := by decide
  checker h := absurd h (by decide)
  validator _ h := by cases h

theorem importedAs_sample :
    sampleStored.ImportedAs samplePython (samplePackage.imported samplePython sampleProblem) := by
  have hpoints := readable_points (A := .binary64) overflows_million floatPoints_sample
    validate_sampleSpec
  have hgroups := readable_groups (A := .binary64) overflows_million floatGroups_sample
    validate_sampleSpec
  exact ⟨⟨sampleProblem, (readArchive_iff (P := samplePython) samplePackage
    (valid_of_validate validate_sampleSpec).1 (groups_ne_nil validate_sampleSpec) hpoints hgroups
    rfl rfl).mpr ⟨importable_sample, rfl⟩⟩, by decide, rfl⟩

end JudgeLoom.Authoring
