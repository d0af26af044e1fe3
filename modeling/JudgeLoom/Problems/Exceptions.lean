import JudgeLoom.Problems.FileOrder

/-!
# The exceptions that an import lets through

`import_zip` declares one exception, `ValidationError`, and turns into it what the ZIP
reader, the JSON parser and `float` raise on most archives.  The definitions below say of
which archives it does not, function by function in the order of the reads: `ReadFails` is
the block that is guarded by `except BadZipFile`, `GroupsFail` the groups, and
`Unstorable` the rows.  In each list the first item that does not pass decides, so that
every condition says of the items before that they pass.
-/

namespace JudgeLoom

/-- Every exception but `core.exceptions.ValidationError`. -/
def ServiceError.Undeclared : ServiceError → Prop
  | .validation _ => False
  | _ => True

namespace PackageImportService

/-! ## Reading entries -/

/-- An exception that the block guarded by `except BadZipFile` lets through. -/
def Uncaught (error : ServiceError) : Prop := error.Undeclared ∧ error ≠ .python .badZipFile

/-- A kind of exceptions that has `OverflowError`, and no validation error. -/
structure LetsOverflow (kind : ServiceError → Prop) : Prop where
  validation : ∀ message, ¬ kind (.validation message)
  overflow : kind (.python .overflowError)

theorem letsOverflow_uncaught : LetsOverflow Uncaught :=
  ⟨fun _ h => h.1, trivial, by decide⟩

theorem letsOverflow_undeclared : LetsOverflow ServiceError.Undeclared :=
  ⟨fun _ h => h, trivial⟩

theorem LetsOverflow.not_raises {kind : ServiceError → Prop} (h : LetsOverflow kind) {α : Type}
    (message : String) :
    ¬ (Except.error (.validation message) : Except ServiceError α).Raises kind :=
  fun hraises => h.validation message (Except.raises_error.mp hraises)

/-- No entry has the name, or reading the one that it names raises an exception that is
not handled. -/
def Unreadable (handled : List PyError) (entries : List ZipEntry) (name : String) : Prop :=
  (∀ entry ∈ entries, entry.name ≠ name) ∨
    ∃ entry, (entries.reverse.find? fun entry => entry.name = name) = some entry ∧
      ∃ error, entry.content = .error error ∧ error ∉ handled

/-- The entry that the name names can be read. -/
def Readable (entries : List ZipEntry) (name : String) : Prop :=
  ∃ entry, (entries.reverse.find? fun entry => entry.name = name) = some entry ∧
    ∃ bytes, entry.content = .ok bytes

/-- Of the two files of a case, the input is read first. -/
def CaseUnreadable (entries : List ZipEntry) (input answer : String) : Prop :=
  Unreadable [.badZipFile] entries input ∨
    Readable entries input ∧ Unreadable [.badZipFile] entries answer

section Entries

variable {P : Python} {entries : List ZipEntry} {name : String}

theorem raises_catchBadZipFile {α : Type} {result : Except ServiceError α} :
    (catchBadZipFile result).Raises ServiceError.Undeclared ↔ result.Raises Uncaught := by
  unfold catchBadZipFile Uncaught
  split
  · simp [ServiceError.Undeclared]
  · next h =>
      constructor
      · rintro ⟨error, rfl, herror⟩
        exact ⟨error, rfl, herror, fun heq => h (heq ▸ rfl)⟩
      · rintro ⟨error, rfl, herror, -⟩
        exact ⟨error, rfl, herror⟩

theorem find?_name_eq_none :
    (entries.reverse.find? fun entry => entry.name = name) = none ↔
      ∀ entry ∈ entries, entry.name ≠ name := by
  simp

theorem raises_readEntry {kind : ServiceError → Prop} (handled : List PyError)
    (hkind : ∀ error, kind (.python error) ↔ error ∉ handled) (hkey : .keyError ∉ handled) :
    (readEntry entries name).Raises kind ↔ Unreadable handled entries name := by
  unfold readEntry Unreadable
  rw [← find?_name_eq_none]
  cases entries.reverse.find? fun entry => entry.name = name with
  | none => simp [hkind, hkey]
  | some entry =>
      dsimp only
      rw [Except.raises_mapError]
      simp [Except.Raises, hkind]

theorem exists_readEntry_iff : (∃ bytes, readEntry entries name = .ok bytes) ↔
    Readable entries name := by
  unfold readEntry Readable
  cases entries.reverse.find? fun entry => entry.name = name with
  | none => simp
  | some entry => simp [Except.mapError_eq_ok]

theorem uncaught_python (error : PyError) : Uncaught (.python error) ↔ error ∉ [.badZipFile] := by
  simp [Uncaught, ServiceError.Undeclared]

theorem raises_readEntry_uncaught :
    (readEntry entries name).Raises Uncaught ↔ Unreadable [.badZipFile] entries name :=
  raises_readEntry _ uncaught_python (by decide)

/-- The two reads of a case. -/
theorem raises_readFiles {α : Type} {input answer : String} {build : Bytes → Bytes → α} :
    (do let inputBytes ← readEntry entries input
        let answerBytes ← readEntry entries answer
        return build inputBytes answerBytes : Except ServiceError α).Raises Uncaught ↔
      CaseUnreadable entries input answer := by
  simp only [Except.raises_bind, raises_readEntry_uncaught, pure, Except.pure,
    Except.not_raises_ok, and_false, exists_false, or_false]
  rw [CaseUnreadable, ← exists_readEntry_iff, exists_and_right]

theorem exists_readFiles_iff {α : Type} {input answer : String} {build : Bytes → Bytes → α} :
    (∃ a, (do let inputBytes ← readEntry entries input
              let answerBytes ← readEntry entries answer
              return build inputBytes answerBytes : Except ServiceError α) = .ok a) ↔
      Readable entries input ∧ Readable entries answer := by
  simp only [Except.bind_eq_ok, pure, Except.pure, Except.ok.injEq, ← exists_readEntry_iff]
  constructor
  · rintro ⟨_, inputBytes, hinput, answerBytes, hanswer, -⟩
    exact ⟨⟨inputBytes, hinput⟩, answerBytes, hanswer⟩
  · rintro ⟨⟨inputBytes, hinput⟩, answerBytes, hanswer⟩
    exact ⟨_, inputBytes, hinput, answerBytes, hanswer, rfl⟩

/-! ## Checks that raise nothing else -/

@[simp] theorem not_uncaught_validation (message : String) : ¬ Uncaught (.validation message) :=
  fun h => h.1

theorem not_raises_validation {α : Type} (message : String) :
    ¬ (Except.error (.validation message) : Except ServiceError α).Raises Uncaught := by
  simp

theorem not_raises_safeFileNames (names : List String) :
    ¬ (safeFileNames names).Raises Uncaught := by
  induction names with
  | nil => exact Except.not_raises_ok
  | cons name rest ih =>
      rw [safeFileNames]
      split_ifs
      · exact not_raises_validation _
      all_goals
        rw [Except.raises_bind]
        rintro (hrest | ⟨names, -, hnames⟩)
        · exact ih hrest
        · exact Except.not_raises_ok hnames

theorem not_raises_validateSource (members : List (String × Json)) (required tooLarge : String) :
    ¬ (validateSource members required tooLarge).Raises Uncaught := by
  unfold validateSource
  split
  · split_ifs
    · exact not_raises_validation _
    · exact not_raises_validation _
    · exact Except.not_raises_ok
  · exact not_raises_validation _

theorem not_raises_validateChecker (P : Python) (manifest : List (String × Json)) :
    ¬ (validateChecker P manifest).Raises Uncaught := by
  unfold validateChecker
  split
  · exact Except.not_raises_ok
  · dsimp only
    split_ifs
    · exact not_raises_validateSource _ _ _
    · exact Except.not_raises_ok
    · exact not_raises_validation _
  · exact not_raises_validation _

theorem not_raises_validateValidator (P : Python) (manifest : List (String × Json)) :
    ¬ (validateValidator P manifest).Raises Uncaught := by
  unfold validateValidator
  split
  · exact Except.not_raises_ok
  · dsimp only
    split_ifs
    · exact not_raises_validateSource _ _ _
    · exact Except.not_raises_ok
    · exact not_raises_validation _
  · exact not_raises_validation _

end Entries

/-! ## The manifest -/

/-- `manifest.json` is listed, and reading or parsing it raises something else than
`BadZipFile` and the decoding errors. -/
def ManifestFails (P : Python) (entries : List ZipEntry) (fileNames : List String) : Prop :=
  "manifest.json" ∈ fileNames ∧
    (Unreadable [.badZipFile, .decodeError] entries "manifest.json" ∨
      ∃ payload, readEntry entries "manifest.json" = .ok payload ∧
        ∃ error, P.loads payload = .error error ∧ error ∉ [.badZipFile, .decodeError])

/-- A whole number that is too large for a float. -/
def Huge (P : Python) (value : Json) : Prop := ∃ z : ℤ, value = .int z ∧ P.arith.overflows z

/-- A finite number within the allowed range, to `float`. -/
def ValidPoints (P : Python) (value : Json) : Prop :=
  ∃ points, value.toFloat P = .ok (.finite points) ∧ 0 ≤ points ∧ points ≤ maxManifestPoints

section Manifest

variable {P : Python} {entries : List ZipEntry} {fileNames : List String}

theorem raises_readManifest :
    (readManifest P entries fileNames).Raises Uncaught ↔ ManifestFails P entries fileNames := by
  let kind : ServiceError → Prop := fun error => Uncaught error ∧ error ≠ .python .decodeError
  have hkind : ∀ error, kind (.python error) ↔ error ∉ [.badZipFile, .decodeError] := by
    intro error
    simp only [kind, uncaught_python]
    simp
  by_cases hlisted : "manifest.json" ∈ fileNames
  · have hread : (do let payload ← readEntry entries "manifest.json"
                     (P.loads payload).mapError ServiceError.python).Raises kind ↔
        ManifestFails P entries fileNames := by
      rw [Except.raises_bind, raises_readEntry _ hkind (by decide), ManifestFails,
        and_iff_right hlisted]
      simp only [Except.raises_mapError]
      simp only [Except.Raises, hkind]
    rw [← hread, readManifest, if_neg (not_not.mpr hlisted)]
    -- the handler lets through what is neither caught here nor by the block
    cases (do let payload ← readEntry entries "manifest.json"
              (P.loads payload).mapError ServiceError.python : Except ServiceError Json) with
    | ok manifest => cases manifest <;> simp
    | error error =>
        rw [Except.raises_error]
        by_cases hdecode : error = .python .decodeError
        · subst hdecode
          simp [kind]
        · dsimp only
          split
          · next heq => exact absurd (Except.error.inj heq) hdecode
          · next heq =>
              obtain rfl := Except.error.inj heq
              rw [Except.raises_error]
              exact (and_iff_left hdecode).symm
          · next heq => cases heq
          · next heq => cases heq
  · rw [readManifest, if_pos hlisted]
    exact iff_of_false Except.not_raises_ok fun h => hlisted h.1

/-- The exceptions of `float`. -/
theorem toFloat_eq_error {value : Json} {error : PyError} (h : value.toFloat P = .error error) :
    error = .typeError ∨ error = .valueError ∨ error = .overflowError ∧ Huge P value := by
  cases value with
  | int z =>
      rw [Json.toFloat] at h
      split_ifs at h with hoverflows
      exact Or.inr (Or.inr ⟨(Except.error.inj h).symm, z, rfl, hoverflows⟩)
  | str text =>
      rw [Json.toFloat] at h
      cases hparsed : P.parseFloat text with
      | none =>
          rw [hparsed] at h
          exact Or.inr (Or.inl (Except.error.inj h).symm)
      | some x =>
          rw [hparsed] at h
          cases h
  | bool b => cases h
  | float x => cases h
  | null => exact Or.inl (Except.error.inj h).symm
  | arr items => exact Or.inl (Except.error.inj h).symm
  | obj members => exact Or.inl (Except.error.inj h).symm

theorem Huge.toFloat_eq {value : Json} (h : Huge P value) :
    value.toFloat P = .error .overflowError := by
  obtain ⟨z, rfl, hoverflows⟩ := h
  exact if_pos hoverflows

theorem raises_parsePoints {kind : ServiceError → Prop} (hkind : LetsOverflow kind) {value : Json}
    {notNumeric outOfRange : String} :
    (parsePoints P value notNumeric outOfRange).Raises kind ↔ Huge P value := by
  constructor
  · intro h
    unfold parsePoints at h
    cases hfloat : value.toFloat P with
    | error error =>
        rw [hfloat] at h
        obtain rfl | rfl | ⟨-, hhuge⟩ := toFloat_eq_error hfloat
        · exact absurd h (hkind.not_raises _)
        · exact absurd h (hkind.not_raises _)
        · exact hhuge
    | ok x =>
        rw [hfloat] at h
        cases x with
        | finite points =>
            dsimp only at h
            split_ifs at h
            · exact absurd h (hkind.not_raises _)
            · exact absurd h Except.not_raises_ok
        | inf negative => exact absurd h (hkind.not_raises _)
        | nan => exact absurd h (hkind.not_raises _)
  · intro h
    rw [parsePoints, h.toFloat_eq]
    exact Except.raises_error.mpr hkind.overflow

theorem exists_parsePoints_iff {value : Json} {notNumeric outOfRange : String} :
    (∃ points, parsePoints P value notNumeric outOfRange = .ok points) ↔ ValidPoints P value := by
  constructor
  · rintro ⟨points, hpoints⟩
    exact ⟨points, parsePoints_eq_ok hpoints⟩
  · rintro ⟨points, hfloat, hrange⟩
    refine ⟨points, ?_⟩
    rw [parsePoints, hfloat]
    exact if_neg (not_or.mpr ⟨not_lt.mpr hrange.1, not_lt.mpr hrange.2⟩)

end Manifest

/-! ## Cases -/

/-- `str(item.get("input", ""))`. -/
def caseInput (P : Python) (members : List (String × Json)) : String :=
  ((Json.lookup members "input").map (Json.toStr P)).getD ""

/-- `str(item.get("answer", item.get("output", "")))`. -/
def caseAnswer (P : Python) (members : List (String × Json)) : String :=
  (((Json.lookup members "answer").or (Json.lookup members "output")).map (Json.toStr P)).getD ""

/-- The item gives the two paths of its files. -/
structure NamesFiles (P : Python) (fileNames : List String) (members : List (String × Json)) :
    Prop where
  input_ne : caseInput P members ≠ ""
  answer_ne : caseAnswer P members ≠ ""
  input_mem : caseInput P members ∈ fileNames
  answer_mem : caseAnswer P members ∈ fileNames

/-- The points of the item, if it gives any, are in range. -/
def PointsPass (P : Python) (members : List (String × Json)) : Prop :=
  ∀ value ∈ getNotNone members "points", ValidPoints P value

/-- The item is a case. -/
structure CasePasses (P : Python) (entries : List ZipEntry) (fileNames : List String)
    (members : List (String × Json)) : Prop where
  names : NamesFiles P fileNames members
  points : PointsPass P members
  input : Readable entries (caseInput P members)
  answer : Readable entries (caseAnswer P members)

/-- The item raises an exception that is let through: its points are too large for a
float, or its files cannot be read. -/
def CaseFails (P : Python) (entries : List ZipEntry) (fileNames : List String)
    (members : List (String × Json)) : Prop :=
  NamesFiles P fileNames members ∧
    ((∃ value ∈ getNotNone members "points", Huge P value) ∨
      PointsPass P members ∧
        CaseUnreadable entries (caseInput P members) (caseAnswer P members))

/-- The first item that is no case raises an exception that is let through. -/
def ListedFail (P : Python) (entries : List ZipEntry) (fileNames : List String)
    (items : List Json) : Prop :=
  ∃ before members after, items = before ++ .obj members :: after ∧
    (∀ item ∈ before, ∃ earlier, item = .obj earlier ∧ CasePasses P entries fileNames earlier) ∧
      CaseFails P entries fileNames members

/-- The stem of a pair holds digits that `int` rejects, or the first pair whose files are
not both readable raises an exception that is let through. -/
def PairsFail (P : Python) (entries : List ZipEntry) (fileNames : List String) : Prop :=
  Distinct fileNames ∧
    (¬ Numbered P fileNames ∨
      ∃ before pair after, Arranged P fileNames (before ++ pair :: after) ∧
        (∀ earlier ∈ before, Readable entries earlier.input ∧ Readable entries earlier.answer) ∧
          CaseUnreadable entries pair.input pair.answer)

section Cases

variable {P : Python} {entries : List ZipEntry} {fileNames : List String}
  {members : List (String × Json)} {problem : Problem}

/-- The points of an item, if it gives any. -/
def casePoints (P : Python) (members : List (String × Json)) : Except ServiceError (Option ℚ) :=
  (getNotNone members "points").elim (.ok none) fun points =>
    (parsePoints P points ("Manifest case points must be numeric: " ++ points.repr P)
      "Manifest case points must be finite and within the allowed range.").map some

theorem raises_casePoints :
    (casePoints P members).Raises Uncaught ↔
      ∃ value ∈ getNotNone members "points", Huge P value := by
  unfold casePoints
  cases getNotNone members "points" with
  | none => simp
  | some value => simp [Except.raises_map, raises_parsePoints letsOverflow_uncaught]

theorem exists_casePoints_iff :
    (∃ points, casePoints P members = .ok points) ↔ PointsPass P members := by
  unfold casePoints PointsPass
  cases getNotNone members "points" with
  | none => simp
  | some value =>
      simp only [Option.elim_some, Option.mem_some_iff, forall_eq']
      rw [Except.exists_map_eq_ok]
      exact exists_parsePoints_iff

/-- An item that gives both paths: its points are read, and then its files. -/
theorem manifestCase_eq (h : NamesFiles P fileNames members) :
    manifestCase P entries fileNames (.obj members) = (do
      let points ← casePoints P members
      let inputBytes ← readEntry entries (caseInput P members)
      let answerBytes ← readEntry entries (caseAnswer P members)
      return {
        input := caseInput P members
        answer := caseAnswer P members
        group :=
          (((Json.lookup members "group").getD .null).orDefault (.str "default")).toStr P
        points
        inputSha256 := P.sha256 inputBytes
        answerSha256 := P.sha256 answerBytes }) := by
  have hgiven : ¬ (caseInput P members = "" ∨ caseAnswer P members = "") :=
    not_or.mpr ⟨h.input_ne, h.answer_ne⟩
  have hlisted : ¬ (caseInput P members ∉ fileNames ∨ caseAnswer P members ∉ fileNames) :=
    not_or.mpr ⟨not_not.mpr h.input_mem, not_not.mpr h.answer_mem⟩
  refine ((if_neg hgiven).trans (if_neg hlisted)).trans ?_
  unfold casePoints
  cases getNotNone members "points" <;> rfl

theorem manifestCase_of_not_namesFiles (entries : List ZipEntry)
    (h : ¬ NamesFiles P fileNames members) :
    ∃ message, manifestCase P entries fileNames (.obj members) = .error (.validation message) := by
  by_cases hgiven : caseInput P members = "" ∨ caseAnswer P members = ""
  · exact ⟨_, if_pos hgiven⟩
  · by_cases hlisted : caseInput P members ∉ fileNames ∨ caseAnswer P members ∉ fileNames
    · exact ⟨_, (if_neg hgiven).trans (if_pos hlisted)⟩
    · rw [not_or] at hgiven hlisted
      exact absurd ⟨hgiven.1, hgiven.2, not_not.mp hlisted.1, not_not.mp hlisted.2⟩ h

theorem raises_manifestCase :
    (manifestCase P entries fileNames (.obj members)).Raises Uncaught ↔
      CaseFails P entries fileNames members := by
  by_cases hnames : NamesFiles P fileNames members
  · rw [manifestCase_eq hnames, CaseFails, and_iff_right hnames, Except.raises_bind,
      raises_casePoints]
    simp only [raises_readFiles]
    rw [exists_and_right, exists_casePoints_iff]
  · obtain ⟨message, hmessage⟩ := manifestCase_of_not_namesFiles entries hnames
    rw [hmessage]
    exact iff_of_false (not_raises_validation _) fun h => hnames h.1

theorem exists_manifestCase_iff :
    (∃ testCase, manifestCase P entries fileNames (.obj members) = .ok testCase) ↔
      CasePasses P entries fileNames members := by
  by_cases hnames : NamesFiles P fileNames members
  · rw [manifestCase_eq hnames]
    constructor
    · rintro ⟨testCase, h⟩
      obtain ⟨points, hpoints, h⟩ := Except.bind_eq_ok.mp h
      obtain ⟨hinput, hanswer⟩ := exists_readFiles_iff.mp ⟨testCase, h⟩
      exact ⟨hnames, exists_casePoints_iff.mp ⟨points, hpoints⟩, hinput, hanswer⟩
    · rintro ⟨-, hpass, hinput, hanswer⟩
      obtain ⟨points, hpoints⟩ := exists_casePoints_iff.mpr hpass
      rw [hpoints, Except.ok_bind]
      exact exists_readFiles_iff.mpr ⟨hinput, hanswer⟩
  · obtain ⟨message, hmessage⟩ := manifestCase_of_not_namesFiles entries hnames
    rw [hmessage]
    exact iff_of_false (by simp) fun h => hnames h.names

/-- An item that is no object is rejected. -/
theorem exists_members_of_manifestCase {item : Json}
    (h : (∃ testCase, manifestCase P entries fileNames item = .ok testCase) ∨
      (manifestCase P entries fileNames item).Raises Uncaught) :
    ∃ members, item = .obj members := by
  have hreject : ∀ result : Except ServiceError (ArchiveCase (Option ℚ)),
      result = .error (.validation "Each manifest case must be an object.") →
        ¬ ((∃ testCase, result = .ok testCase) ∨ result.Raises Uncaught) := by
    rintro _ rfl (⟨testCase, hok⟩ | hraises)
    · cases hok
    · exact not_raises_validation _ hraises
  cases item with
  | obj members => exact ⟨members, rfl⟩
  | null => exact absurd h (hreject _ rfl)
  | bool b => exact absurd h (hreject _ rfl)
  | int z => exact absurd h (hreject _ rfl)
  | float x => exact absurd h (hreject _ rfl)
  | str text => exact absurd h (hreject _ rfl)
  | arr items => exact absurd h (hreject _ rfl)

theorem raises_mapM_manifestCase {items : List Json} :
    (items.mapM (manifestCase P entries fileNames)).Raises Uncaught ↔
      ListedFail P entries fileNames items := by
  rw [Except.raises_mapM]
  constructor
  · rintro ⟨before, item, after, rfl, hbefore, hitem⟩
    obtain ⟨members, rfl⟩ := exists_members_of_manifestCase (Or.inr hitem)
    refine ⟨before, members, after, rfl, fun earlier hearlier => ?_, raises_manifestCase.mp hitem⟩
    obtain ⟨members', rfl⟩ := exists_members_of_manifestCase (Or.inl (hbefore earlier hearlier))
    exact ⟨members', rfl, exists_manifestCase_iff.mp (hbefore _ hearlier)⟩
  · rintro ⟨before, members, after, rfl, hbefore, hitem⟩
    refine ⟨before, .obj members, after, rfl, fun earlier hearlier => ?_,
      raises_manifestCase.mpr hitem⟩
    obtain ⟨members', rfl, hpasses⟩ := hbefore earlier hearlier
    exact exists_manifestCase_iff.mpr hpasses

theorem raises_manifestCases {manifest : List (String × Json)} :
    (manifestCases P entries fileNames manifest problem).Raises Uncaught ↔
      ∃ items, Json.lookup manifest "cases" = some (.arr items) ∧
        ListedFail P entries fileNames items := by
  unfold manifestCases
  split
  · next item rest hcases =>
      rw [Except.raises_bind, raises_mapM_manifestCase, hcases]
      simp [pure, Except.pure]
  · next hcases =>
      refine iff_of_false Except.not_raises_ok ?_
      rintro ⟨items, hitems, before, members, after, rfl, -⟩
      cases before with
      | nil => exact hcases _ _ hitems
      | cons first before => exact hcases _ _ hitems

/-- No case is listed. -/
theorem manifestCases_eq_none_iff {manifest : List (String × Json)} :
    manifestCases P entries fileNames manifest problem = .ok none ↔
      ∀ item rest, Json.lookup manifest "cases" ≠ some (.arr (item :: rest)) := by
  unfold manifestCases
  split
  · next item rest hcases =>
      refine iff_of_false (fun h => ?_) fun h => h item rest hcases
      obtain ⟨cases, -, hnone⟩ := Except.bind_eq_ok.mp h
      cases hnone
  · next hcases => exact iff_of_true rfl fun item rest => hcases item rest

theorem raises_fileCase {pair : FilePair} :
    (fileCase P entries pair).Raises Uncaught ↔ CaseUnreadable entries pair.input pair.answer :=
  raises_readFiles

theorem not_raises_pairFile (pairs : Dict String StemFiles) (name : String) :
    ¬ (pairFile pairs name).Raises Uncaught := by
  rw [pairFile_eq]
  cases kindOf name with
  | none => exact Except.not_raises_ok
  | some kind =>
      rw [Option.elim_some]
      split_ifs
      · exact not_raises_validation _
      · exact Except.not_raises_ok

/-- Whatever `int` raises is let through. -/
theorem uncaught_of_numberPair {pair : String × String × String} {error : ServiceError}
    (h : numberPair P pair = .error error) : Uncaught error := by
  have hnumber : stemNumber P pair.1 = .error error := by
    unfold numberPair at h
    cases hstem : stemNumber P pair.1 with
    | ok number =>
        rw [hstem] at h
        cases h
    | error other =>
        rw [hstem] at h
        exact congrArg Except.error (Except.error.inj h)
  unfold stemNumber at hnumber
  dsimp only at hnumber
  split_ifs at hnumber
  · cases hnumber
    exact (uncaught_python _).mpr (by decide)
  · split at hnumber
    · cases hnumber
    · cases hnumber
      exact (uncaught_python _).mpr (by decide)

theorem raises_validCases_iff {pairs : Dict String StemFiles} (hholds : Holds fileNames pairs)
    (hdistinct : Distinct fileNames) :
    (validCases P pairs.entries).Raises Uncaught ↔ ¬ Numbered P fileNames := by
  rw [← exists_validCases_iff hholds hdistinct, validCases_eq]
  exact Except.raises_mapM_iff_of_forall fun pair _ error => uncaught_of_numberPair

/-- Arranged pairs are read in their order, and the first that cannot be read decides. -/
theorem raises_fileCases_of_arranged {pairs : List FilePair} (h : Arranged P fileNames pairs) :
    (fileCases P entries fileNames problem).Raises Uncaught ↔
      ∃ before pair after, pairs = before ++ pair :: after ∧
        (∀ earlier ∈ before, Readable entries earlier.input ∧ Readable entries earlier.answer) ∧
          CaseUnreadable entries pair.input pair.answer := by
  rw [fileCases_of_arranged h, Except.raises_map, Except.raises_mapM]
  simp only [raises_fileCase]
  have hpasses : ∀ pair, (∃ testCase, fileCase P entries pair = .ok testCase) ↔
      Readable entries pair.input ∧ Readable entries pair.answer := fun _ => exists_readFiles_iff
  simp only [hpasses]

theorem raises_fileCases :
    (fileCases P entries fileNames problem).Raises Uncaught ↔ PairsFail P entries fileNames := by
  constructor
  · intro h
    have hraises := h
    unfold fileCases at h
    obtain hpairs | ⟨pairs, hpairs, h⟩ := Except.raises_bind.mp h
    · obtain ⟨-, name, -, middle, -, -, hname⟩ := Except.raises_foldlM.mp hpairs
      exact absurd hname (not_raises_pairFile _ _)
    · have hdistinct := exists_foldlM_pairFile_iff.mp ⟨pairs, hpairs⟩
      refine ⟨hdistinct, ?_⟩
      obtain hvalid | ⟨valid, hvalid, h⟩ := Except.raises_bind.mp h
      · exact Or.inl ((raises_validCases_iff (holds_foldlM hpairs) hdistinct).mp hvalid)
      · split_ifs at h with hnil hmany
        · exact absurd h (not_raises_validation _)
        · exact absurd h (not_raises_validation _)
        · have harranged := arranged_sortBy hpairs hvalid hnil hmany
          obtain ⟨before, pair, after, heq, hfirst⟩ :=
            (raises_fileCases_of_arranged harranged).mp hraises
          exact Or.inr ⟨before, pair, after, heq ▸ harranged, hfirst⟩
  · rintro ⟨hdistinct, hnumbered | ⟨before, pair, after, harranged, hfirst⟩⟩
    · obtain ⟨pairs, hpairs⟩ := exists_foldlM_pairFile_iff.mpr hdistinct
      unfold fileCases
      rw [hpairs, Except.ok_bind, Except.raises_bind]
      exact Or.inl ((raises_validCases_iff (holds_foldlM hpairs) hdistinct).mpr hnumbered)
    · exact (raises_fileCases_of_arranged harranged).mpr ⟨before, pair, after, rfl, hfirst⟩

end Cases

/-! ## Groups -/

/-- `str(item.get("id", "")).strip()`. -/
def groupId (P : Python) (members : List (String × Json)) : String :=
  strip (((Json.lookup members "id").map (Json.toStr P)).getD "")

/-- `str(item.get("mode", "sum"))`. -/
def groupMode (P : Python) (members : List (String × Json)) : String :=
  ((Json.lookup members "mode").map (Json.toStr P)).getD "sum"

/-- `item.get("points", 0) or 0`. -/
def groupPoints (members : List (String × Json)) : Json :=
  ((Json.lookup members "points").getD (.int 0)).orDefault (.int 0)

/-- The group has an id of its own and a mode, and points that are too large for a float. -/
def GroupFails (P : Python) (defs : List GroupDef) (members : List (String × Json)) : Prop :=
  groupId P members ≠ "" ∧ groupId P members ∉ defs.map GroupDef.id ∧
    groupMode P members ∈ ["sum", "min"] ∧ Huge P (groupPoints members)

/-- The first group that does not pass raises an exception that is let through. -/
def GroupsFail (P : Python) (manifest : List (String × Json)) : Prop :=
  ∃ before members after defs,
    getNotNone manifest "groups" = some (.arr (before ++ .obj members :: after)) ∧
      before.foldlM (validateGroup P) [] = .ok defs ∧ GroupFails P defs members

section Groups

variable {P : Python} {defs : List GroupDef} {members manifest : List (String × Json)}
  {cases : List (ArchiveCase ℚ)} {kind : ServiceError → Prop}

theorem raises_validateGroup (hkind : LetsOverflow kind) :
    (validateGroup P defs (.obj members)).Raises kind ↔ GroupFails P defs members := by
  have heq : validateGroup P defs (.obj members) =
      if groupId P members = "" then .error (.validation "Manifest group id is required.")
      else if groupId P members ∈ defs.map GroupDef.id then
        .error (.validation ("Duplicate manifest group id: " ++ groupId P members))
      else if groupMode P members ∉ ["sum", "min"] then
        .error (.validation ("Unsupported manifest group mode: " ++ groupMode P members))
      else do
        let points ← parsePoints P (groupPoints members)
          ("Manifest group points must be numeric: " ++ groupId P members)
          ("Manifest group points must be finite and within range: " ++ groupId P members)
        return defs ++ [{ id := groupId P members, mode := groupMode P members, points }] :=
    rfl
  rw [heq, GroupFails]
  by_cases hid : groupId P members = ""
  · rw [if_pos hid]
    exact iff_of_false (hkind.not_raises _) fun h => h.1 hid
  · rw [if_neg hid, and_iff_right hid]
    by_cases hduplicate : groupId P members ∈ defs.map GroupDef.id
    · rw [if_pos hduplicate]
      exact iff_of_false (hkind.not_raises _) fun h => h.1 hduplicate
    · rw [if_neg hduplicate, and_iff_right hduplicate]
      by_cases hmode : groupMode P members ∈ ["sum", "min"]
      · rw [if_neg (not_not.mpr hmode), and_iff_right hmode, Except.raises_bind,
          raises_parsePoints hkind]
        exact or_iff_left fun ⟨_, _, hraises⟩ => Except.not_raises_ok hraises
      · rw [if_pos hmode]
        exact iff_of_false (hkind.not_raises _) fun h => hmode h.1

theorem exists_members_of_validateGroup (hkind : LetsOverflow kind) {item : Json}
    (h : (validateGroup P defs item).Raises kind) : ∃ members, item = .obj members := by
  cases item with
  | obj members => exact ⟨members, rfl⟩
  | null => exact absurd h (hkind.not_raises _)
  | bool b => exact absurd h (hkind.not_raises _)
  | int z => exact absurd h (hkind.not_raises _)
  | float x => exact absurd h (hkind.not_raises _)
  | str text => exact absurd h (hkind.not_raises _)
  | arr items => exact absurd h (hkind.not_raises _)

theorem raises_foldlM_validateGroup (hkind : LetsOverflow kind) {items : List Json} :
    (items.foldlM (validateGroup P) []).Raises kind ↔
      ∃ before members after defs, items = before ++ .obj members :: after ∧
        before.foldlM (validateGroup P) [] = .ok defs ∧ GroupFails P defs members := by
  rw [Except.raises_foldlM]
  constructor
  · rintro ⟨before, item, after, defs, rfl, hbefore, hitem⟩
    obtain ⟨members, rfl⟩ := exists_members_of_validateGroup hkind hitem
    exact ⟨before, members, after, defs, rfl, hbefore, (raises_validateGroup hkind).mp hitem⟩
  · rintro ⟨before, members, after, defs, rfl, hbefore, hitem⟩
    exact ⟨before, .obj members, after, defs, rfl, hbefore, (raises_validateGroup hkind).mpr hitem⟩

/-- `raw_groups`. -/
def rawGroups (manifest : List (String × Json)) : Except ServiceError (List Json) :=
  match getNotNone manifest "groups" with
  | none => .ok []
  | some (.arr items) => .ok items
  | some _ => .error (.validation "manifest groups must be a list.")

/-- The groups of the cases are known. -/
def knownGroups (cases : List (ArchiveCase ℚ)) (defs : List GroupDef) :
    Except ServiceError (List GroupDef) :=
  let caseGroups := cases.map ArchiveCase.group
  if defs ≠ [] then
    let unknown := (caseGroups.filter fun group => group ∉ defs.map GroupDef.id).dedup
    if unknown ≠ [] then
      .error (.validation ("Manifest cases reference unknown groups: " ++
        String.intercalate ", " (unknown.sortBy id)))
    else .ok defs
  else if caseGroups.any fun group => group ≠ "default" then
    .error (.validation
      "Manifest cases use custom groups but no group definitions were provided.")
  else .ok []

theorem validateGroups_eq_bind (P : Python) (manifest : List (String × Json))
    (cases : List (ArchiveCase ℚ)) :
    validateGroups P manifest cases = (do
      let items ← rawGroups manifest
      let defs ← items.foldlM (validateGroup P) []
      knownGroups cases defs) := by
  unfold validateGroups rawGroups
  cases getNotNone manifest "groups" with
  | none => rfl
  | some value => cases value <;> rfl

theorem not_raises_knownGroups (hkind : LetsOverflow kind) (cases : List (ArchiveCase ℚ))
    (defs : List GroupDef) : ¬ (knownGroups cases defs).Raises kind := by
  unfold knownGroups
  dsimp only
  split_ifs
  · exact hkind.not_raises _
  · exact Except.not_raises_ok
  · exact hkind.not_raises _
  · exact Except.not_raises_ok

theorem raises_validateGroups (hkind : LetsOverflow kind) :
    (validateGroups P manifest cases).Raises kind ↔ GroupsFail P manifest := by
  unfold GroupsFail
  rw [validateGroups_eq_bind]
  constructor
  · intro h
    unfold rawGroups at h
    obtain hitems | ⟨items, hitems, h⟩ := Except.raises_bind.mp h
    · split at hitems
      · exact absurd hitems Except.not_raises_ok
      · exact absurd hitems Except.not_raises_ok
      · exact absurd hitems (hkind.not_raises _)
    · obtain hdefs | ⟨defs, -, h⟩ := Except.raises_bind.mp h
      · obtain ⟨before, members, after, defs, rfl, hbefore, hfails⟩ :=
          (raises_foldlM_validateGroup hkind).mp hdefs
        refine ⟨before, members, after, defs, ?_, hbefore, hfails⟩
        split at hitems
        · exact absurd (congrArg List.length (Except.ok.inj hitems)) (by simp)
        · next hgroups => rw [hgroups, Except.ok.inj hitems]
        · cases hitems
      · exact absurd h (not_raises_knownGroups hkind cases defs)
  · rintro ⟨before, members, after, defs, hgroups, hbefore, hfails⟩
    have hitems : rawGroups manifest = .ok (before ++ .obj members :: after) := by
      rw [rawGroups, hgroups]
    rw [hitems, Except.ok_bind, Except.raises_bind]
    exact Or.inl ((raises_foldlM_validateGroup hkind).mpr
      ⟨before, members, after, defs, rfl, hbefore, hfails⟩)

end Groups

/-! ## Archives -/

/-- The archive can be opened, and its names and its size are allowed. -/
structure Opened (P : Python) (payload : Bytes) (entries : List ZipEntry) : Prop where
  archive : P.openZip payload = .ok entries
  safe : ∀ entry ∈ entries, IsSafe entry.name
  size : (entries.map ZipEntry.fileSize).sum ≤ maxUncompressedBytes

/-- The manifest is read, and its checker and its validator are accepted. -/
structure ManifestPasses (P : Python) (entries : List ZipEntry)
    (manifest : List (String × Json)) : Prop where
  read : readManifest P entries (fileNamesOf entries) = .ok manifest
  checker : validateChecker P manifest = .ok ()
  validator : validateValidator P manifest = .ok ()

/-- The block that reads the archive raises an exception that is let through. -/
inductive ReadFails (P : Python) (payload : Bytes) : Prop
  | archive {error : PyError} (opening : P.openZip payload = .error error)
      (herror : error ≠ .badZipFile)
  | manifest {entries : List ZipEntry} (opened : Opened P payload entries)
      (fails : ManifestFails P entries (fileNamesOf entries))
  | listed {entries : List ZipEntry} {manifest : List (String × Json)} {items : List Json}
      (opened : Opened P payload entries) (passes : ManifestPasses P entries manifest)
      (cases : Json.lookup manifest "cases" = some (.arr items))
      (fails : ListedFail P entries (fileNamesOf entries) items)
  | paired {entries : List ZipEntry} {manifest : List (String × Json)}
      (opened : Opened P payload entries) (passes : ManifestPasses P entries manifest)
      (cases : ∀ item rest, Json.lookup manifest "cases" ≠ some (.arr (item :: rest)))
      (fails : PairsFail P entries (fileNamesOf entries))

section Archives

variable {P : Python} {problem : Problem} {payload : Bytes}

/-- An archive that can be opened: its manifest is read, and then its cases. -/
theorem readZip_of_opened {entries : List ZipEntry} (h : Opened P payload entries) :
    readZip P problem payload = (do
      let manifest ← readManifest P entries (fileNamesOf entries)
      validateChecker P manifest
      validateValidator P manifest
      let cases ← manifestCases P entries (fileNamesOf entries) manifest problem
      match cases with
      | some cases => return (manifest, cases)
      | none => return (manifest, ← fileCases P entries (fileNamesOf entries) problem)) := by
  have hopen : (P.openZip payload).mapError ServiceError.python = .ok entries :=
    Except.mapError_eq_ok.mpr h.archive
  have hnames : safeFileNames (entries.map ZipEntry.name) = .ok (fileNamesOf entries) :=
    safeFileNames_eq_ok_iff.mpr ⟨List.forall_mem_map.mpr h.safe, rfl⟩
  rw [readZip, hopen, Except.ok_bind, hnames, Except.ok_bind]
  exact if_neg h.size.not_gt

theorem raises_readZip : (readZip P problem payload).Raises Uncaught ↔ ReadFails P payload := by
  unfold readZip
  constructor
  · intro h
    obtain hopen | ⟨entries, hopen, h⟩ := Except.raises_bind.mp h
    · obtain ⟨error, hopen, herror⟩ := Except.raises_mapError.mp hopen
      exact .archive hopen (by simpa using (uncaught_python error).mp herror)
    obtain hnames | ⟨fileNames, hnames, h⟩ := Except.raises_bind.mp h
    · exact absurd hnames (not_raises_safeFileNames _)
    obtain ⟨hsafe, rfl⟩ := safeFileNames_eq_ok_iff.mp hnames
    split_ifs at h with hsize
    · exact absurd h (not_raises_validation _)
    have hopened : Opened P payload entries :=
      ⟨Except.mapError_eq_ok.mp hopen, List.forall_mem_map.mp hsafe, not_lt.mp hsize⟩
    obtain hread | ⟨manifest, hread, h⟩ := Except.raises_bind.mp h
    · exact .manifest hopened (raises_readManifest.mp hread)
    obtain hchecker | ⟨⟨⟩, hchecker, h⟩ := Except.raises_bind.mp h
    · exact absurd hchecker (not_raises_validateChecker _ _)
    obtain hvalidator | ⟨⟨⟩, hvalidator, h⟩ := Except.raises_bind.mp h
    · exact absurd hvalidator (not_raises_validateValidator _ _)
    have hpasses : ManifestPasses P entries manifest := ⟨hread, hchecker, hvalidator⟩
    obtain hcases | ⟨cases', hcases, h⟩ := Except.raises_bind.mp h
    · obtain ⟨items, hitems, hfails⟩ := raises_manifestCases.mp hcases
      exact .listed hopened hpasses hitems hfails
    cases cases' with
    | some cases' => exact absurd h Except.not_raises_ok
    | none =>
        obtain hfiles | ⟨files, -, h⟩ := Except.raises_bind.mp h
        · exact .paired hopened hpasses (manifestCases_eq_none_iff.mp hcases)
            (raises_fileCases.mp hfiles)
        · exact absurd h Except.not_raises_ok
  · intro h
    cases h with
    | @archive error hopen herror =>
        refine Except.raises_bind.mpr (Or.inl (Except.raises_mapError.mpr ⟨error, hopen, ?_⟩))
        exact (uncaught_python error).mpr (by simpa using herror)
    | manifest hopened hfails =>
        rw [← readZip, readZip_of_opened hopened, Except.raises_bind]
        exact Or.inl (raises_readManifest.mpr hfails)
    | listed hopened hpasses hcases hfails =>
        rw [← readZip, readZip_of_opened hopened, hpasses.read, Except.ok_bind, hpasses.checker,
          Except.ok_bind, hpasses.validator, Except.ok_bind, Except.raises_bind]
        exact Or.inl (raises_manifestCases.mpr ⟨_, hcases, hfails⟩)
    | paired hopened hpasses hcases hfails =>
        rw [← readZip, readZip_of_opened hopened, hpasses.read, Except.ok_bind, hpasses.checker,
          Except.ok_bind, hpasses.validator, Except.ok_bind, manifestCases_eq_none_iff.mpr hcases,
          Except.ok_bind, Except.raises_bind]
        exact Or.inl (raises_fileCases.mpr hfails)

end Archives

/-! ## Rows -/

/-- The members of a manifest that stay when some keys are written can be stored. -/
def StorableBut (keys : List String) (members : List (String × Json)) : Prop :=
  ∀ key value, key ∉ keys → Json.lookup members key = some value →
    storableText key = true ∧ value.storable = true

/-- The rows of a case can be stored. -/
structure CaseStorable (testCase : ArchiveCase ℚ) : Prop where
  input : testCase.input.length ≤ 255 ∧ storableText testCase.input
  answer : testCase.answer.length ≤ 255 ∧ storableText testCase.answer
  group : testCase.group.length ≤ 32 ∧ storableText testCase.group
  digests : storableText testCase.inputSha256 ∧ storableText testCase.answerSha256

/-- The keys of a manifest that an import replaces: the cases, and groups that are
missing or empty. -/
def replacedKeys (manifest : List (String × Json)) : List String :=
  if ((Json.lookup manifest "groups").getD .null).truthy then ["cases"] else ["cases", "groups"]

/-- What is stored of a manifest, a problem code that it lacks and its cases. -/
structure RowsStorable (problem : Problem) (manifest : List (String × Json))
    (cases : List (ArchiveCase ℚ)) : Prop where
  members : StorableBut (replacedKeys manifest) manifest
  code : Json.lookup manifest "problem_code" = none → storableText problem.code
  rows : ∀ testCase ∈ cases, CaseStorable testCase

/-- A manifest with the members that it lacks, but for its cases and groups. -/
def defaults (problem : Problem) (manifest : List (String × Json)) : List (String × Json) :=
  let result := setDefault manifest "schema" (.int 1)
  let result := setDefault result "problem_code" (.str problem.code)
  let result := setDefault result "time_limit" (.float (.finite problem.timeLimit))
  let result := setDefault result "memory_limit" (.int problem.memoryLimit)
  let result := setDefault result "checker" (.obj [("type", .str "exact")])
  let result := setDefault result "partial_score" (.bool problem.partialScore)
  setDefault result "short_circuit" (.bool problem.shortCircuit)

section Rows

variable {keys : List String} {members : List (String × Json)} {key : String} {value : Json}

theorem lookup_cons_eq_some {members : List (String × Json)} {member : String × Json}
    {key : String} {value : Json} :
    Json.lookup (member :: members) key = some value ↔
      Json.lookup members key = some value ∨
        Json.lookup members key = none ∧ member.1 = key ∧ member.2 = value := by
  rw [← List.singleton_append, Json.lookup_append, Json.lookup_singleton]
  cases Json.lookup members key with
  | some other => simp
  | none =>
      rw [Option.none_or]
      by_cases hkey : member.1 = key <;> simp [hkey]

theorem lookup_eq_none_iff : Json.lookup members key = none ↔
    members.any (fun member => member.1 = key) = false := by
  simp [Json.lookup]

/-- The members that a dictionary holds decide. -/
theorem storableMembers_iff : Json.storableMembers members = true ↔ StorableBut [] members := by
  induction members with
  | nil => exact iff_of_true rfl fun key value _ h => by cases h
  | cons member rest ih =>
      obtain ⟨name, content⟩ := member
      rw [Json.storableMembers, Bool.and_eq_true, ih, Bool.or_eq_true, Bool.and_eq_true]
      unfold StorableBut
      constructor
      · rintro ⟨hfirst, hrest⟩ key value hkey hlookup
        obtain hlookup | ⟨hnone, rfl, rfl⟩ := lookup_cons_eq_some.mp hlookup
        · exact hrest key value hkey hlookup
        · rw [lookup_eq_none_iff] at hnone
          rw [hnone] at hfirst
          exact hfirst.resolve_left (by simp)
      · intro h
        refine ⟨?_, fun key value hkey hlookup =>
          h key value hkey (lookup_cons_eq_some.mpr (Or.inl hlookup))⟩
        by_cases hnone : Json.lookup rest name = none
        · exact Or.inr (h name content List.not_mem_nil
            (lookup_cons_eq_some.mpr (Or.inr ⟨hnone, rfl, rfl⟩)))
        · rw [lookup_eq_none_iff, Bool.not_eq_false] at hnone
          exact Or.inl hnone

theorem storableBut_concat : StorableBut keys (members ++ [(key, value)]) ↔
    StorableBut (key :: keys) members ∧
      (key ∉ keys → storableText key = true ∧ value.storable = true) := by
  unfold StorableBut
  simp only [Json.lookup_append, Json.lookup_singleton, List.mem_cons, not_or]
  constructor
  · intro h
    refine ⟨fun other content hother hlookup => h other content hother.2 ?_, fun hkey =>
      h key value hkey ?_⟩
    · rw [if_neg fun heq => hother.1 heq.symm, Option.none_or, hlookup]
    · rw [if_pos rfl, Option.some_or]
  · rintro ⟨hmembers, hkey⟩ other content hother hlookup
    by_cases heq : key = other
    · subst heq
      rw [if_pos rfl, Option.some_or] at hlookup
      cases hlookup
      exact hkey hother
    · rw [if_neg heq, Option.none_or] at hlookup
      exact hmembers other content ⟨fun h => heq h.symm, hother⟩ hlookup

theorem lookup_setDefault (members : List (String × Json)) (key : String) (value : Json)
    (other : String) : Json.lookup (setDefault members key value) other =
      (Json.lookup members other).or (if key = other then some value else none) := by
  unfold setDefault
  split_ifs with hsome heq heq
  · subst heq
    obtain ⟨found, hfound⟩ := Option.isSome_iff_exists.mp hsome
    rw [hfound, Option.some_or]
  · rw [Option.or_none]
  · subst heq
    rw [Json.lookup_append, Json.lookup_singleton, if_pos rfl,
      Option.not_isSome_iff_eq_none.mp hsome, Option.some_or, Option.none_or]
  · rw [Json.lookup_append, Json.lookup_singleton, if_neg heq, Option.none_or, Option.or_none]

theorem storableBut_setDefault (hkey : key ∉ keys) :
    StorableBut keys (setDefault members key value) ↔
      StorableBut keys members ∧
        (Json.lookup members key = none → storableText key = true ∧ value.storable = true) := by
  unfold StorableBut
  simp only [lookup_setDefault]
  constructor
  · intro h
    refine ⟨fun other content hother hlookup => h other content hother ?_, fun hnone =>
      h key value hkey ?_⟩
    · rw [hlookup, Option.some_or]
    · rw [hnone, Option.none_or, if_pos rfl]
  · rintro ⟨hmembers, hdefault⟩ other content hother hlookup
    cases hfound : Json.lookup members other with
    | some found =>
        rw [hfound, Option.some_or] at hlookup
        exact hmembers other content hother (hfound.trans hlookup)
    | none =>
        rw [hfound, Option.none_or] at hlookup
        split_ifs at hlookup with heq
        subst heq
        cases hlookup
        exact hdefault hfound

theorem storableText_repr (n : ℕ) : storableText n.repr = true := by
  have hdigits : ∀ c ∈ Nat.toDigits 10 n, c.isDigit := fun c hc =>
    Nat.isDigit_of_mem_toDigits (by decide) (by decide) hc
  have hchars : n.repr.toList = Nat.toDigits 10 n := String.toList_ofList
  unfold storableText
  rw [hchars, Bool.not_eq_true', List.contains_eq_mem, decide_eq_false_iff_not]
  intro hzero
  exact absurd (hdigits _ hzero) (by decide)

theorem storableItems_iff {items : List Json} :
    Json.storableItems items = true ↔ ∀ item ∈ items, item.storable = true := by
  induction items with
  | nil => exact iff_of_true rfl (List.forall_mem_nil _)
  | cons item rest ih => rw [Json.storableItems, Bool.and_eq_true, ih, List.forall_mem_cons]

/-- A property of what is made of each element, at any place. -/
theorem forall_mem_mapIdx_iff {α β : Type*} {f : ℕ → α → β} {p : β → Prop} {q : α → Prop}
    (h : ∀ index a, p (f index a) ↔ q a) (l : List α) :
    (∀ b ∈ l.mapIdx f, p b) ↔ ∀ a ∈ l, q a := by
  constructor
  · intro hall a ha
    obtain ⟨index, hindex, rfl⟩ := List.getElem_of_mem ha
    exact (h index _).mp (hall _ (List.mem_mapIdx.mpr ⟨index, hindex, rfl⟩))
  · intro hall b hb
    obtain ⟨index, hindex, rfl⟩ := List.mem_mapIdx.mp hb
    exact (h index _).mpr (hall _ (List.getElem_mem hindex))

theorem storable_caseJson (index : ℕ) (testCase : ArchiveCase ℚ) :
    (caseJson index testCase).storable = true ↔
      storableText testCase.input ∧ storableText testCase.answer ∧
        storableText testCase.inputSha256 ∧ storableText testCase.answerSha256 ∧
          storableText testCase.group := by
  have hkey : ∀ text ∈ ["id", "input", "answer", "input_sha256", "answer_sha256", "points",
      "group"], storableText text = true := by decide
  simp only [List.forall_mem_cons] at hkey
  simp [caseJson, Json.storable, Json.storableMembers, storableText_repr, hkey]

/-- The rows and their copies in the manifest. -/
theorem storable_cases_iff (cases : List (ArchiveCase ℚ)) :
    (Json.storable (.arr (cases.mapIdx fun index => caseJson (index + 1))) = true ∧
        (testCaseRows cases).all ProblemTestCase.storable = true) ↔
      ∀ testCase ∈ cases, CaseStorable testCase := by
  rw [Json.storable, storableItems_iff, List.all_eq_true, testCaseRows,
    forall_mem_mapIdx_iff fun index testCase => storable_caseJson (index + 1) testCase,
    forall_mem_mapIdx_iff (q := fun testCase => ProblemTestCase.storable
      { order := 1
        inputFile := testCase.input
        outputFile := testCase.answer
        inputSha256 := testCase.inputSha256
        outputSha256 := testCase.answerSha256
        points := testCase.points
        group := testCase.group }) fun index testCase => Iff.rfl, ← forall₂_and]
  refine forall₂_congr fun testCase _ => ?_
  simp only [ProblemTestCase.storable, Bool.and_eq_true, decide_eq_true_eq]
  constructor
  · rintro ⟨⟨hinput, hanswer, hinputDigest, hanswerDigest, hgroup⟩, ⟨⟨⟨⟨⟨hi, ha⟩, hg⟩, -⟩, -⟩, -⟩⟩
    exact ⟨⟨hi, hinput⟩, ⟨ha, hanswer⟩, ⟨hg, hgroup⟩, hinputDigest, hanswerDigest⟩
  · rintro ⟨⟨hi, hinput⟩, ⟨ha, hanswer⟩, ⟨hg, hgroup⟩, hinputDigest, hanswerDigest⟩
    exact ⟨⟨hinput, hanswer, hinputDigest, hanswerDigest, hgroup⟩,
      ⟨⟨⟨⟨⟨hi, ha⟩, hg⟩, hinput⟩, hanswer⟩, hgroup⟩⟩

/-- Of the defaults only the problem's code may be a text that cannot be stored. -/
theorem storableBut_defaults (hkeys : keys ⊆ ["cases", "groups"]) (problem : Problem)
    (manifest : List (String × Json)) :
    StorableBut keys (defaults problem manifest) ↔ StorableBut keys manifest ∧
      (Json.lookup manifest "problem_code" = none → storableText problem.code) := by
  have hnot : ∀ key ∉ ["cases", "groups"], key ∉ keys := fun key hkey h => hkey (hkeys h)
  have hskip : ∀ members key value, key ∉ ["cases", "groups"] → storableText key = true →
      Json.storable value = true →
        (StorableBut keys (setDefault members key value) ↔ StorableBut keys members) :=
    fun members key value hkey htext hvalue =>
      (storableBut_setDefault (hnot key hkey)).trans (and_iff_left fun _ => ⟨htext, hvalue⟩)
  have hcode : storableText "problem_code" = true := by decide
  unfold defaults
  dsimp only
  rw [hskip _ _ _ (by decide) (by decide) rfl, hskip _ _ _ (by decide) (by decide) rfl,
    hskip _ _ _ (by decide) (by decide) (by decide), hskip _ _ _ (by decide) (by decide) rfl,
    hskip _ _ _ (by decide) (by decide) rfl, storableBut_setDefault (hnot _ (by decide)),
    hskip _ _ _ (by decide) (by decide) rfl, lookup_setDefault, if_neg (by decide), Option.or_none,
    Json.storable, and_iff_right hcode]

/-- What the database accepts. -/
theorem storable_iff (A : FloatArith) (problem : Problem) (manifest : List (String × Json))
    (cases : List (ArchiveCase ℚ)) :
    Imported.storable { manifest := buildManifest A problem manifest cases, cases } = true ↔
      RowsStorable problem manifest cases := by
  have hgroups : Json.lookup (defaults problem manifest ++
      [("cases", .arr (cases.mapIdx fun index => caseJson (index + 1)))]) "groups" =
        Json.lookup manifest "groups" := by
    rw [Json.lookup_append, Json.lookup_singleton, if_neg (by decide), Option.none_or]
    unfold defaults
    simp [lookup_setDefault]
  have hcases : storableText "cases" = true := by decide
  have hkey : storableText "groups" = true := by decide
  have hne : ¬ "cases" = "groups" := by decide
  have hdefault : ∀ points, Json.storable (.arr [.obj [("id", .str "default"),
      ("points", .float (.finite points)), ("mode", .str "sum")]]) = true := fun _ => by rfl
  have hrows : RowsStorable problem manifest cases ↔
      (StorableBut (replacedKeys manifest) manifest ∧
        (Json.lookup manifest "problem_code" = none → storableText problem.code)) ∧
          ∀ testCase ∈ cases, CaseStorable testCase :=
    ⟨fun h => ⟨⟨h.members, h.code⟩, h.rows⟩, fun h => ⟨h.1.1, h.1.2, h.2⟩⟩
  rw [Imported.storable, Bool.and_eq_true, storableMembers_iff, hrows, ← storable_cases_iff]
  unfold buildManifest replacedKeys
  dsimp only
  rw [← defaults, hgroups]
  split_ifs with htruthy
  · rw [storableBut_concat, storableBut_defaults (by simp), and_assoc, and_assoc, and_assoc]
    simp only [List.not_mem_nil, not_false_eq_true, forall_const, hcases, true_and]
  · rw [storableBut_concat, storableBut_concat, storableBut_defaults (by simp)]
    simp only [List.not_mem_nil, not_false_eq_true, forall_const, hcases, hkey, hne, hdefault,
      true_and, and_true, and_assoc, List.mem_singleton]

end Rows

/-! ## Imports -/

/-- The import of a new archive raises something else than `ValidationError`: while it is
read, for its groups, or because the database does not take its rows. -/
def Escapes (P : Python) (problem : Problem) (archiveName : String) (payload : Bytes) : Prop :=
  validateUpload archiveName payload = .ok () ∧
    (ReadFails P payload ∨
      ∃ manifest cases, readZip P problem payload = .ok (manifest, cases) ∧ cases ≠ [] ∧
        cases.length ≤ maxTestCases ∧
          (GroupsFail P manifest ∨
            (∃ defs, validateGroups P manifest cases = .ok defs) ∧
              ¬ RowsStorable problem manifest cases))

section Imports

variable {P : Python} {problem : Problem} {payload : Bytes}

theorem not_raises_validateUpload (archiveName : String) (payload : Bytes) :
    ¬ (validateUpload archiveName payload).Raises ServiceError.Undeclared := by
  unfold validateUpload
  split_ifs
  · exact letsOverflow_undeclared.not_raises _
  · exact Except.not_raises_ok
  · exact letsOverflow_undeclared.not_raises _

theorem raises_readArchive :
    (readArchive P problem payload).Raises ServiceError.Undeclared ↔
      ReadFails P payload ∨
        ∃ manifest cases, readZip P problem payload = .ok (manifest, cases) ∧ cases ≠ [] ∧
          cases.length ≤ maxTestCases ∧ GroupsFail P manifest := by
  unfold readArchive
  rw [Except.raises_bind, raises_catchBadZipFile, raises_readZip, Prod.exists]
  refine or_congr_right (exists₂_congr fun manifest cases => ?_)
  rw [catchBadZipFile_eq_ok]
  refine and_congr_right fun _ => ?_
  dsimp only
  by_cases hnil : cases = []
  · rw [if_pos hnil]
    exact iff_of_false (letsOverflow_undeclared.not_raises _) fun h => h.1 hnil
  · rw [if_neg hnil, and_iff_right hnil]
    by_cases hmany : maxTestCases < cases.length
    · rw [if_pos hmany]
      exact iff_of_false (letsOverflow_undeclared.not_raises _) fun h => hmany.not_ge h.1
    · rw [if_neg hmany, and_iff_right (not_lt.mp hmany), Except.raises_bind,
        raises_validateGroups letsOverflow_undeclared]
      exact or_iff_left fun ⟨_, _, hraises⟩ => Except.not_raises_ok hraises

/-- The archive is read, but the database does not take its rows. -/
theorem exists_unstorable_iff :
    (∃ imported, readArchive P problem payload = .ok imported ∧ ¬ imported.storable = true) ↔
      ∃ manifest cases, readZip P problem payload = .ok (manifest, cases) ∧ cases ≠ [] ∧
        cases.length ≤ maxTestCases ∧ (∃ defs, validateGroups P manifest cases = .ok defs) ∧
          ¬ RowsStorable problem manifest cases := by
  constructor
  · rintro ⟨imported, hread, hstorable⟩
    obtain ⟨manifest, defs, hzip, hmanifest, hnil, hmany, hgroups⟩ := readArchive_eq_ok hread
    refine ⟨manifest, imported.cases, hzip, hnil, hmany, ⟨defs, hgroups⟩, fun hrows => ?_⟩
    rw [← storable_iff P.arith, ← hmanifest] at hrows
    exact hstorable hrows
  · rintro ⟨manifest, cases, hzip, hnil, hmany, ⟨defs, hgroups⟩, hrows⟩
    refine ⟨{ manifest := buildManifest P.arith problem manifest cases, cases }, ?_, ?_⟩
    · rw [readArchive, catchBadZipFile_eq_ok.mpr hzip, Except.ok_bind]
      dsimp only
      rw [if_neg hnil, if_neg hmany.not_gt, hgroups]
      rfl
    · rwa [storable_iff]

theorem escapes_iff {archiveName : String} :
    Escapes P problem archiveName payload ↔ validateUpload archiveName payload = .ok () ∧
      ((readArchive P problem payload).Raises ServiceError.Undeclared ∨
        ∃ imported, readArchive P problem payload = .ok imported ∧ ¬ imported.storable = true) := by
  rw [Escapes, raises_readArchive, exists_unstorable_iff, or_assoc, ← exists_or]
  simp only [← exists_or, ← and_or_left]

end Imports

end PackageImportService

end JudgeLoom
