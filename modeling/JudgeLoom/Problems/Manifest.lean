import JudgeLoom.Problems.Import

/-!
# The manifest of an imported package

What the services may rely on about a package that `import_zip` created: its stored
manifest lists the cases that were read from its archive, at least one and at most
`maxTestCases`, and the database could store them.
-/

namespace JudgeLoom

open PackageImportService

/-- The package was imported: its manifest was read from its archive. -/
def ProblemPackage.ImportedAs (P : Python) (package : ProblemPackage)
    (imported : PackageImportService.Imported) : Prop :=
  (∃ problem, readArchive P problem package.archive = .ok imported) ∧
    imported.storable = true ∧ package.manifest = .obj imported.manifest

namespace PackageImportService

theorem catchBadZipFile_eq_ok {α : Type} {result : Except ServiceError α} {a : α} :
    catchBadZipFile result = .ok a ↔ result = .ok a := by
  unfold catchBadZipFile
  split <;> simp

/-- What `readArchive` returns is the manifest of the archive, completed, and its cases. -/
theorem readArchive_eq_ok {P : Python} {problem : Problem} {payload : Bytes}
    {imported : Imported} (h : readArchive P problem payload = .ok imported) :
    ∃ manifest defs, readZip P problem payload = .ok (manifest, imported.cases) ∧
      imported.manifest = buildManifest P.arith problem manifest imported.cases ∧
        imported.cases ≠ [] ∧ imported.cases.length ≤ maxTestCases ∧
          validateGroups P manifest imported.cases = .ok defs := by
  unfold readArchive at h
  obtain ⟨⟨manifest, cases⟩, hread, h⟩ := Except.bind_eq_ok.mp h
  dsimp only at h
  split at h
  · cases h
  · next hnonempty =>
      split at h
      · cases h
      · next hlength =>
          obtain ⟨groups, hgroups, h⟩ := Except.bind_eq_ok.mp h
          simp only [pure, Except.pure, Except.ok.injEq] at h
          subst h
          refine ⟨manifest, groups, catchBadZipFile_eq_ok.mp hread, ?_, hnonempty,
            not_lt.mp hlength, hgroups⟩
          dsimp only

/-! ## Points -/

theorem parsePoints_eq_ok {P : Python} {value : Json} {notNumeric outOfRange : String} {points : ℚ}
    (h : parsePoints P value notNumeric outOfRange = .ok points) :
    value.toFloat P = .ok (.finite points) ∧ 0 ≤ points ∧ points ≤ maxManifestPoints := by
  unfold parsePoints at h
  split at h
  · cases h
  · cases h
  · cases h
  · next q hvalue =>
      split_ifs at h with hrange
      cases h
      rw [not_or, not_lt, not_lt] at hrange
      exact ⟨hvalue, hrange⟩
  · cases h

/-- Explicit points are in the allowed range. -/
theorem points_of_manifestCase {P : Python} {entries : List ZipEntry} {fileNames : List String}
    {item : Json} {testCase : ArchiveCase (Option ℚ)}
    (h : manifestCase P entries fileNames item = .ok testCase) :
    ∀ points ∈ testCase.points, 0 ≤ points ∧ points ≤ maxManifestPoints := by
  unfold manifestCase at h
  split at h
  · next members =>
      dsimp only at h
      split_ifs at h
      split at h
      all_goals
        obtain ⟨points, hpoints, h⟩ := Except.bind_eq_ok.mp h
        obtain ⟨_, -, h⟩ := Except.bind_eq_ok.mp h
        obtain ⟨_, -, h⟩ := Except.bind_eq_ok.mp h
        cases h
        intro given hgiven
      · cases hpoints
        cases hgiven
      · obtain ⟨parsed, hparsed, rfl⟩ := Except.map_eq_ok.mp hpoints
        cases hgiven
        exact (parsePoints_eq_ok hparsed).2
  · cases h

theorem points_of_fileCase {P : Python} {entries : List ZipEntry} {pair : FilePair}
    {testCase : ArchiveCase (Option ℚ)} (h : fileCase P entries pair = .ok testCase) :
    testCase.points = none := by
  unfold fileCase at h
  obtain ⟨_, -, h⟩ := Except.bind_eq_ok.mp h
  obtain ⟨_, -, h⟩ := Except.bind_eq_ok.mp h
  cases h
  rfl

/-- Cases with points of their own, all in the allowed range, or without. -/
def InRange (raw : List (ArchiveCase (Option ℚ))) : Prop :=
  ∀ testCase ∈ raw, ∀ points ∈ testCase.points, 0 ≤ points ∧ points ≤ maxManifestPoints

theorem manifestCases_eq_ok {P : Python} {entries : List ZipEntry} {fileNames : List String}
    {manifest : List (String × Json)} {problem : Problem} {cases : List (ArchiveCase ℚ)}
    (h : manifestCases P entries fileNames manifest problem = .ok (some cases)) :
    ∃ raw, InRange raw ∧ cases = applyDefaultPoints P.arith problem raw := by
  unfold manifestCases at h
  split at h
  · obtain ⟨raw, hraw, h⟩ := Except.bind_eq_ok.mp h
    cases h
    refine ⟨raw, fun testCase hcase => ?_, rfl⟩
    obtain ⟨item, -, hitem⟩ := Except.exists_of_mem_mapM hraw hcase
    exact points_of_manifestCase hitem
  · cases h

theorem fileCases_eq_ok {P : Python} {entries : List ZipEntry} {fileNames : List String}
    {problem : Problem} {cases : List (ArchiveCase ℚ)}
    (h : fileCases P entries fileNames problem = .ok cases) :
    ∃ raw, InRange raw ∧ cases = applyDefaultPoints P.arith problem raw := by
  unfold fileCases at h
  obtain ⟨pairs, -, h⟩ := Except.bind_eq_ok.mp h
  obtain ⟨valid, -, h⟩ := Except.bind_eq_ok.mp h
  split_ifs at h
  obtain ⟨raw, hraw, h⟩ := Except.bind_eq_ok.mp h
  cases h
  refine ⟨raw, fun testCase hcase points hpoints => ?_, rfl⟩
  obtain ⟨pair, -, hpair⟩ := Except.exists_of_mem_mapM hraw hcase
  rw [points_of_fileCase hpair] at hpoints
  cases hpoints

/-- The cases that are read get default points where they have none of their own. -/
theorem readZip_eq_ok {P : Python} {problem : Problem} {payload : Bytes}
    {manifest : List (String × Json)} {cases : List (ArchiveCase ℚ)}
    (h : readZip P problem payload = .ok (manifest, cases)) :
    ∃ raw, InRange raw ∧ cases = applyDefaultPoints P.arith problem raw := by
  unfold readZip at h
  obtain ⟨entries, -, h⟩ := Except.bind_eq_ok.mp h
  obtain ⟨fileNames, -, h⟩ := Except.bind_eq_ok.mp h
  split_ifs at h
  obtain ⟨manifest', -, h⟩ := Except.bind_eq_ok.mp h
  obtain ⟨_, -, h⟩ := Except.bind_eq_ok.mp h
  obtain ⟨_, -, h⟩ := Except.bind_eq_ok.mp h
  obtain ⟨listed, hlisted, h⟩ := Except.bind_eq_ok.mp h
  cases listed with
  | some cases' =>
      cases h
      exact manifestCases_eq_ok hlisted
  | none =>
      obtain ⟨cases', hcases, h⟩ := Except.bind_eq_ok.mp h
      cases h
      exact fileCases_eq_ok hcases

/-- The stored manifest lists the cases that were read. -/
theorem lookup_cases_buildManifest (A : FloatArith) (problem : Problem)
    (manifest : List (String × Json)) (cases : List (ArchiveCase ℚ)) :
    Json.lookup (buildManifest A problem manifest cases) "cases" =
      some (.arr (cases.mapIdx fun index => caseJson (index + 1))) := by
  unfold buildManifest
  dsimp only
  split
  · rw [Json.lookup_append, Json.lookup_singleton, if_pos rfl, Option.some_or]
  · rw [Json.lookup_append, Json.lookup_singleton, if_neg (by decide), Option.none_or,
      Json.lookup_append, Json.lookup_singleton, if_pos rfl, Option.some_or]

end PackageImportService

namespace ProblemPackage.ImportedAs

variable {P : Python} {package : ProblemPackage} {imported : PackageImportService.Imported}

theorem manifestCases_eq (h : package.ImportedAs P imported) :
    JudgeLoom.manifestCases package.manifest =
      imported.cases.mapIdx fun index => caseJson (index + 1) := by
  obtain ⟨⟨problem, hread⟩, -, hmanifest⟩ := h
  obtain ⟨manifest, defs, -, hbuilt, -⟩ := readArchive_eq_ok hread
  rw [hmanifest, hbuilt, JudgeLoom.manifestCases, Json.get?, lookup_cases_buildManifest]

theorem length_manifestCases (h : package.ImportedAs P imported) :
    (JudgeLoom.manifestCases package.manifest).length = imported.cases.length := by
  rw [h.manifestCases_eq, List.length_mapIdx]

theorem cases_ne_nil (h : package.ImportedAs P imported) : imported.cases ≠ [] := by
  obtain ⟨⟨problem, hread⟩, -, -⟩ := h
  obtain ⟨manifest, defs, -, -, hnonempty, -⟩ := readArchive_eq_ok hread
  exact hnonempty

theorem length_cases_le (h : package.ImportedAs P imported) :
    imported.cases.length ≤ maxTestCases := by
  obtain ⟨⟨problem, hread⟩, -, -⟩ := h
  obtain ⟨manifest, defs, -, -, -, hlength, -⟩ := readArchive_eq_ok hread
  exact hlength

/-- The group of a case fits into its column. -/
theorem storable_group (h : package.ImportedAs P imported) {testCase : ArchiveCase ℚ}
    (hcase : testCase ∈ imported.cases) :
    testCase.group.length ≤ 32 ∧ storableText testCase.group = true := by
  obtain ⟨-, hstorable, -⟩ := h
  unfold PackageImportService.Imported.storable at hstorable
  rw [Bool.and_eq_true, List.all_eq_true] at hstorable
  obtain ⟨index, hindex, rfl⟩ := List.getElem_of_mem hcase
  have hrow := hstorable.2 _ (List.mem_mapIdx.mpr ⟨index, hindex, rfl⟩)
  simp only [ProblemTestCase.storable, Bool.and_eq_true, decide_eq_true_iff] at hrow
  exact ⟨hrow.1.1.1.2, hrow.2⟩

end ProblemPackage.ImportedAs

end JudgeLoom
