import JudgeLoom.Problems.FileCases

/-!
# The order of the entries of an archive

The files of an archive without a manifest are read by name, and the last entry of a name
wins.  A name is unique among the files, but a file whose name ends in a backslash is read
as the directory of that name, of which there may be several.  So the order of the entries
matters exactly if the entries of one of these names differ (`orderFree_iff_readsAlike`).
To see that it then does, move an entry to the end: its name reads this entry now.

Without backslashes the cases are the pairs of the files (`pairsFiles_of_casesFromFiles`).
-/

namespace JudgeLoom

namespace PackageImportService

/-! ## Names and entries -/

/-- A path that stays inside the archive. -/
def IsSafe (name : String) : Prop :=
  ¬ (PurePosixPath.isAbsolute (normalizeName name) ∨
    ".." ∈ PurePosixPath.parts (normalizeName name) ∨
    (PurePosixPath.parts (normalizeName name)).head?.any fun part => part.toList.getLast? = some ':')

/-- No directory, and nothing that macOS adds. -/
def isFile (name : String) : Bool :=
  name.toList.getLast? ≠ some '/' && !"__MACOSX".toList.isPrefixOf name.toList

theorem safeFileNames_eq_ok_iff {names fileNames : List String} :
    safeFileNames names = .ok fileNames ↔
      (∀ name ∈ names, IsSafe name) ∧ fileNames = (names.filter isFile).map normalizeName := by
  induction names generalizing fileNames with
  | nil => simp [safeFileNames, eq_comm]
  | cons name rest ih =>
      rw [safeFileNames, List.forall_mem_cons, List.filter_cons]
      by_cases hsafe : IsSafe name
      · rw [if_neg hsafe, Except.bind_eq_ok, and_iff_right hsafe]
        have hfile : isFile name = true ↔
            ¬ (name.toList.getLast? = some '/' ∨ "__MACOSX".toList.isPrefixOf name.toList) := by
          simp only [isFile, Bool.and_eq_true, decide_eq_true_eq, Bool.not_eq_true', not_or,
            Bool.not_eq_true, ne_eq]
        by_cases hskip : name.toList.getLast? = some '/' ∨
            "__MACOSX".toList.isPrefixOf name.toList
        · rw [if_neg fun h => hfile.mp h hskip, ← ih]
          simp only [if_pos hskip]
          exact ⟨fun ⟨_, hrest, heq⟩ => Except.ok.inj heq ▸ hrest, fun hrest => ⟨_, hrest, rfl⟩⟩
        · rw [if_pos (hfile.mpr hskip), List.map_cons]
          simp only [if_neg hskip]
          constructor
          · rintro ⟨names, hrest, heq⟩
            obtain ⟨hall, rfl⟩ := ih.mp hrest
            exact ⟨hall, (Except.ok.inj heq).symm⟩
          · rintro ⟨hall, rfl⟩
            exact ⟨_, ih.mpr ⟨hall, rfl⟩, rfl⟩
      · rw [if_pos (not_not.mp hsafe)]
        exact iff_of_false (by simp) fun h => hsafe h.1.1

/-- A text of other characters is where it was before the backslashes were replaced. -/
theorem isPrefix_of_map {text chars : List Char} (htext : '/' ∉ text)
    (h : text <+: chars.map fun c => if c = '\\' then '/' else c) : text <+: chars := by
  induction text generalizing chars with
  | nil => exact List.nil_prefix
  | cons first rest ih =>
      cases chars with
      | nil => simp at h
      | cons c chars =>
          rw [List.map_cons, List.cons_prefix_cons] at h
          obtain ⟨hfirst, hrest⟩ := h
          rw [List.mem_cons, not_or] at htext
          split_ifs at hfirst with hbackslash
          · exact absurd hfirst.symm htext.1
          · exact List.cons_prefix_cons.mpr ⟨hfirst, ih htext.2 hrest⟩

theorem toList_normalizeName (name : String) : (normalizeName name).toList =
    name.toList.map fun c => if c = '\\' then '/' else c := by
  rw [normalizeName, String.toList_ofList]

theorem normalizeName_normalizeName (name : String) :
    normalizeName (normalizeName name) = normalizeName name := by
  rw [normalizeName, toList_normalizeName, List.map_map, normalizeName]
  refine congrArg String.ofList (List.map_congr_left fun c _ => ?_)
  dsimp only [Function.comp_apply]
  split_ifs with h h'
  · rfl
  · rfl
  · rfl

/-- A file stays a file, unless its name ends in a backslash. -/
theorem isFile_normalizeName {name : String} (h : isFile name)
    (hlast : name.toList.getLast? ≠ some '\\') : isFile (normalizeName name) := by
  simp only [isFile, Bool.and_eq_true, decide_eq_true_eq, Bool.not_eq_true'] at h ⊢
  constructor
  · rw [toList_normalizeName, List.getLast?_map]
    cases hget : name.toList.getLast? with
    | none => simp
    | some c =>
        rw [hget] at hlast h
        have hc : c ≠ '\\' := fun heq => hlast (heq ▸ rfl)
        rw [Option.map_some, if_neg hc]
        exact h.1
  · by_contra hinitial
    rw [Bool.not_eq_false, List.isPrefixOf_iff_prefix, toList_normalizeName] at hinitial
    have hraw := isPrefix_of_map (by decide) hinitial
    rw [← List.isPrefixOf_iff_prefix, h.2] at hraw
    cases hraw

/-- The names that `_safe_file_names` leaves. -/
def fileNamesOf (entries : List ZipEntry) : List String :=
  ((entries.map ZipEntry.name).filter isFile).map normalizeName

/-- A file of a pair has a name of its own in the archive. -/
theorem length_filter_name_le {entries : List ZipEntry} {kind : FileKind} {stem name : String}
    (hlast : ∀ entry ∈ entries, entry.name.toList.getLast? ≠ some '\\')
    (hname : namesOf (fileNamesOf entries) kind stem = [name]) :
    (entries.filter fun entry => entry.name = name).length ≤ 1 := by
  unfold fileNamesOf at hname
  obtain ⟨hmem, hkind⟩ := List.mem_filter.mp (hname ▸ List.mem_singleton_self name)
  obtain ⟨raw, hraw, hnormal⟩ := List.mem_map.mp hmem
  obtain ⟨hentry, hfile⟩ := List.mem_filter.mp hraw
  obtain ⟨entry, hentryMem, rfl⟩ := List.mem_map.mp hentry
  have hself : normalizeName name = name := hnormal ▸ normalizeName_normalizeName entry.name
  have hisFile : isFile name := hnormal ▸ isFile_normalizeName hfile (hlast entry hentryMem)
  calc (entries.filter fun entry => entry.name = name).length
      = entries.countP fun entry => entry.name = name := List.countP_eq_length_filter.symm
    _ ≤ entries.countP fun entry => (kindOf (normalizeName entry.name) = some kind &&
          PurePosixPath.stem (normalizeName entry.name) = stem) && isFile entry.name := by
        refine List.countP_mono_left fun other _ hother => ?_
        rw [of_decide_eq_true hother, hself, hkind, hisFile]
        rfl
    _ = [name].length := by
        rw [← hname, namesOf, ← List.countP_eq_length_filter, List.countP_map, List.countP_filter,
          List.countP_map]
        simp only [Function.comp_def]
    _ ≤ 1 := le_rfl

/-! ## The order of the entries -/

/-- `_file_cases` on the names and the contents of the entries. -/
def casesFromFiles (P : Python) (problem : Problem) (entries : List ZipEntry) :
    Except ServiceError (List (ArchiveCase ℚ)) := do
  let fileNames ← safeFileNames (entries.map ZipEntry.name)
  fileCases P entries fileNames problem

/-- What a case keeps of the content of an entry; `none` if it cannot be read. -/
def digest? (P : Python) (entry : ZipEntry) : Option String :=
  entry.content.toOption.map P.sha256

/-- What a case keeps of the content that is read under a name. -/
def digestOf (P : Python) (entries : List ZipEntry) (name : String) : Option String :=
  (readEntry entries name).toOption.map P.sha256

/-- The names under which the files of the pairs are read. -/
def readNames (pairs : List FilePair) : List String :=
  pairs.flatMap fun pair => [pair.input, pair.answer]

/-- The cases are the same for every order of the entries, or none of them has cases. -/
def OrderFree (P : Python) (problem : Problem) (entries : List ZipEntry) : Prop :=
  ∀ entries', entries.Perm entries' → ∀ cases,
    casesFromFiles P problem entries = .ok cases ↔ casesFromFiles P problem entries' = .ok cases

/-- If the names make cases, then one of the names is never read, or each of them has one
content. -/
def ReadsAlike (P : Python) (entries : List ZipEntry) : Prop :=
  ∀ pairs, (∀ entry ∈ entries, IsSafe entry.name) → Arranged P (fileNamesOf entries) pairs →
    (∃ name ∈ readNames pairs, ∀ entry ∈ entries, entry.name = name → digest? P entry = none) ∨
      ∀ name ∈ readNames pairs, ∀ entry ∈ entries, ∀ other ∈ entries,
        entry.name = name → other.name = name → digest? P entry = digest? P other

section Order

variable {P : Python} {problem : Problem} {entries entries' : List ZipEntry}
  {cases : List (ArchiveCase ℚ)} {name : String} {pairs : List FilePair}
  {raw : List (ArchiveCase (Option ℚ))}

theorem casesFromFiles_eq_ok_iff :
    casesFromFiles P problem entries = .ok cases ↔
      (∀ entry ∈ entries, IsSafe entry.name) ∧
        ∃ pairs raw, Arranged P (fileNamesOf entries) pairs ∧
          pairs.mapM (fileCase P entries) = .ok raw ∧
            applyDefaultPoints P.arith problem raw = cases := by
  unfold casesFromFiles
  rw [Except.bind_eq_ok]
  simp only [safeFileNames_eq_ok_iff, List.forall_mem_map, and_assoc, ← fileCases_eq_ok_iff]
  constructor
  · rintro ⟨fileNames, hsafe, rfl, hcases⟩
    exact ⟨hsafe, hcases⟩
  · rintro ⟨hsafe, hcases⟩
    exact ⟨_, hsafe, rfl, hcases⟩

/-- An archive without a manifest has these cases. -/
theorem readZip_eq_ok_iff {payload : Bytes} {manifest : List (String × Json)}
    (hopen : P.openZip payload = .ok entries)
    (hmanifest : "manifest.json" ∉ fileNamesOf entries) :
    readZip P problem payload = .ok (manifest, cases) ↔
      (entries.map ZipEntry.fileSize).sum ≤ maxUncompressedBytes ∧ manifest = [] ∧
        casesFromFiles P problem entries = .ok cases := by
  have hok : (Except.ok entries : Except PyError (List ZipEntry)).mapError ServiceError.python =
      .ok entries := rfl
  unfold readZip casesFromFiles
  rw [hopen, hok, Except.ok_bind]
  cases hnames : safeFileNames (entries.map ZipEntry.name) with
  | error error => exact iff_of_false (by simp [bind, Except.bind]) (by simp [bind, Except.bind])
  | ok fileNames =>
      obtain ⟨-, rfl⟩ := safeFileNames_eq_ok_iff.mp hnames
      have hread : readManifest P entries (fileNamesOf entries) = .ok [] := if_pos hmanifest
      rw [Except.ok_bind, Except.ok_bind, ← fileNamesOf, hread]
      split_ifs with hsize
      · exact iff_of_false (by simp) fun h => hsize.not_ge h.1
      · rw [and_iff_right (not_lt.mp hsize)]
        change (fileCases P entries (fileNamesOf entries) problem >>= fun cases =>
          Except.ok ([], cases)) = _ ↔ _
        rw [Except.bind_eq_ok]
        simp [eq_comm, and_comm]

theorem digestOf_eq (P : Python) (entries : List ZipEntry) (name : String) :
    digestOf P entries name =
      (entries.reverse.find? fun entry => entry.name = name).bind (digest? P) := by
  unfold digestOf readEntry
  cases entries.reverse.find? fun entry => entry.name = name with
  | none => rfl
  | some entry =>
      dsimp only [Option.bind_some, digest?]
      cases entry.content <;> rfl

theorem digestOf_append (P : Python) (entries more : List ZipEntry) (name : String) :
    digestOf P (entries ++ more) name = ((more.reverse.find? fun entry => entry.name = name).or
      (entries.reverse.find? fun entry => entry.name = name)).bind (digest? P) := by
  rw [digestOf_eq, List.reverse_append, List.find?_append]

theorem digestOf_concat_self (P : Python) (entries : List ZipEntry) (entry : ZipEntry) :
    digestOf P (entries ++ [entry]) entry.name = digest? P entry := by
  rw [digestOf_append]
  simp

/-- What is read under a name is the content of one of its entries. -/
theorem exists_digestOf_eq {entry : ZipEntry} (hentry : entry ∈ entries) :
    ∃ found ∈ entries, found.name = entry.name ∧ digestOf P entries entry.name = digest? P found := by
  rw [digestOf_eq]
  cases hfind : entries.reverse.find? fun other => other.name = entry.name with
  | none =>
      have hnone := List.find?_eq_none.mp hfind entry (List.mem_reverse.mpr hentry)
      simp at hnone
  | some found =>
      exact ⟨found, List.mem_reverse.mp (List.mem_of_find?_eq_some hfind),
        by simpa using List.find?_some hfind, rfl⟩

theorem digestOf_eq_none_of_forall (h : ∀ entry ∈ entries, entry.name = name → digest? P entry = none) :
    digestOf P entries name = none := by
  rw [digestOf_eq]
  cases hfind : entries.reverse.find? fun entry => entry.name = name with
  | none => rfl
  | some found =>
      exact h found (List.mem_reverse.mp (List.mem_of_find?_eq_some hfind))
        (by simpa using List.find?_some hfind)

/-- A name with one content has it in every order. -/
theorem digestOf_perm (hperm : entries.Perm entries')
    (hsame : ∀ entry ∈ entries, ∀ other ∈ entries,
      entry.name = name → other.name = name → digest? P entry = digest? P other) :
    digestOf P entries name = digestOf P entries' name := by
  by_cases hexists : ∃ entry ∈ entries, entry.name = name
  · obtain ⟨entry, hentry, rfl⟩ := hexists
    obtain ⟨found, hfound, hname, hread⟩ := exists_digestOf_eq (P := P) hentry
    obtain ⟨found', hfound', hname', hread'⟩ :=
      exists_digestOf_eq (P := P) (hperm.mem_iff.mp hentry)
    rw [hread, hread']
    exact hsame found hfound found' (hperm.mem_iff.mpr hfound') hname hname'
  · have hnone : ∀ entry ∈ entries, entry.name = name → digest? P entry = none :=
      fun entry hentry hname => absurd ⟨entry, hentry, hname⟩ hexists
    rw [digestOf_eq_none_of_forall hnone, digestOf_eq_none_of_forall fun entry hentry =>
      hnone entry (hperm.mem_iff.mpr hentry)]

/-- The case of a pair of readable files. -/
theorem fileCase_eq_ok_iff {pair : FilePair} {testCase : ArchiveCase (Option ℚ)} :
    fileCase P entries pair = .ok testCase ↔
      ∃ inputSha256 answerSha256, digestOf P entries pair.input = some inputSha256 ∧
        digestOf P entries pair.answer = some answerSha256 ∧
          testCase = ⟨pair.input, pair.answer, "default", none, inputSha256, answerSha256⟩ := by
  unfold fileCase digestOf
  cases readEntry entries pair.input with
  | error error => exact iff_of_false (by simp [bind, Except.bind]) (by simp [Except.toOption])
  | ok input =>
      cases readEntry entries pair.answer with
      | error error => exact iff_of_false (by simp [bind, Except.bind]) (by simp [Except.toOption])
      | ok answer =>
          constructor
          · intro h
            exact ⟨_, _, rfl, rfl, (Except.ok.inj h).symm⟩
          · rintro ⟨inputSha256, answerSha256, hinput, hanswer, rfl⟩
            cases hinput
            cases hanswer
            rfl

/-- The files of the cases are those of the pairs. -/
theorem files_of_mapM (problem : Problem) (hraw : pairs.mapM (fileCase P entries) = .ok raw) :
    (applyDefaultPoints P.arith problem raw).map (fun testCase =>
      (testCase.input, testCase.answer)) = pairs.map fun pair => (pair.input, pair.answer) := by
  unfold applyDefaultPoints
  dsimp only
  rw [List.map_map]
  refine Except.map_of_mapM hraw fun pair testCase hcase => ?_
  obtain ⟨inputSha256, answerSha256, -, -, rfl⟩ := fileCase_eq_ok_iff.mp hcase
  rfl

theorem mem_readNames : name ∈ readNames pairs ↔ ∃ pair ∈ pairs, name = pair.input ∨ name = pair.answer := by
  simp [readNames]

/-- The digests of a case are those of its files. -/
theorem digestOf_of_mem (h : casesFromFiles P problem entries = .ok cases)
    {testCase : ArchiveCase ℚ} (hcase : testCase ∈ cases) :
    digestOf P entries testCase.input = some testCase.inputSha256 ∧
      digestOf P entries testCase.answer = some testCase.answerSha256 := by
  obtain ⟨-, pairs, raw, -, hraw, rfl⟩ := casesFromFiles_eq_ok_iff.mp h
  obtain ⟨rawCase, hrawCase, rfl⟩ := List.mem_map.mp hcase
  obtain ⟨pair, -, hpair⟩ := Except.exists_of_mem_mapM hraw hrawCase
  obtain ⟨inputSha256, answerSha256, hinput, hanswer, rfl⟩ := fileCase_eq_ok_iff.mp hpair
  exact ⟨hinput, hanswer⟩

/-- Every file of a pair belongs to a case. -/
theorem exists_mem_of_mem_readNames (h : casesFromFiles P problem entries = .ok cases)
    (hpairs : Arranged P (fileNamesOf entries) pairs) (hname : name ∈ readNames pairs) :
    ∃ testCase ∈ cases, name = testCase.input ∨ name = testCase.answer := by
  obtain ⟨-, others, raw, hothers, hraw, rfl⟩ := casesFromFiles_eq_ok_iff.mp h
  obtain ⟨pair, hpair, hfile⟩ := mem_readNames.mp hname
  have hmem : pair ∈ others := (hothers.mem_iff pair).mpr ((hpairs.mem_iff pair).mp hpair)
  have hfiles : (pair.input, pair.answer) ∈ others.map fun pair => (pair.input, pair.answer) :=
    List.mem_map_of_mem hmem
  rw [← files_of_mapM problem hraw] at hfiles
  obtain ⟨testCase, hcase, heq⟩ := List.mem_map.mp hfiles
  obtain ⟨hinput, hanswer⟩ := Prod.mk.inj heq
  refine ⟨testCase, hcase, ?_⟩
  rwa [hinput, hanswer]

/-- Two archives with the same cases read the same content under each name. -/
theorem digestOf_eq_of_cases (h : casesFromFiles P problem entries = .ok cases)
    (h' : casesFromFiles P problem entries' = .ok cases)
    (hpairs : Arranged P (fileNamesOf entries) pairs) (hname : name ∈ readNames pairs) :
    digestOf P entries name = digestOf P entries' name := by
  obtain ⟨testCase, hcase, rfl | rfl⟩ := exists_mem_of_mem_readNames h hpairs hname
  · rw [(digestOf_of_mem h hcase).1, (digestOf_of_mem h' hcase).1]
  · rw [(digestOf_of_mem h hcase).2, (digestOf_of_mem h' hcase).2]

theorem exists_casesFromFiles (hsafe : ∀ entry ∈ entries, IsSafe entry.name)
    (hpairs : Arranged P (fileNamesOf entries) pairs)
    (hread : ∀ name ∈ readNames pairs, digestOf P entries name ≠ none) :
    ∃ cases, casesFromFiles P problem entries = .ok cases := by
  have hcases : ∀ pair ∈ pairs, ∃ testCase, fileCase P entries pair = .ok testCase := by
    intro pair hpair
    obtain ⟨inputSha256, hinput⟩ := Option.ne_none_iff_exists'.mp
      (hread pair.input (mem_readNames.mpr ⟨pair, hpair, .inl rfl⟩))
    obtain ⟨answerSha256, hanswer⟩ := Option.ne_none_iff_exists'.mp
      (hread pair.answer (mem_readNames.mpr ⟨pair, hpair, .inr rfl⟩))
    exact ⟨_, fileCase_eq_ok_iff.mpr ⟨inputSha256, answerSha256, hinput, hanswer, rfl⟩⟩
  obtain ⟨raw, hraw⟩ := Except.exists_mapM hcases
  exact ⟨_, casesFromFiles_eq_ok_iff.mpr ⟨hsafe, pairs, raw, hpairs, hraw, rfl⟩⟩

theorem fileNamesOf_perm (hperm : entries.Perm entries') :
    (fileNamesOf entries).Perm (fileNamesOf entries') :=
  ((hperm.map _).filter _).map _

theorem Arranged.of_perm (hpairs : Arranged P (fileNamesOf entries) pairs)
    (hperm : entries.Perm entries') : Arranged P (fileNamesOf entries') pairs :=
  hpairs.perm (fileNamesOf_perm hperm)

/-- The cases survive a permutation, if no name is read differently. -/
theorem casesFromFiles_perm (hperm : entries.Perm entries') (halike : ReadsAlike P entries)
    (h : casesFromFiles P problem entries = .ok cases) :
    casesFromFiles P problem entries' = .ok cases := by
  obtain ⟨hsafe, pairs, raw, hpairs, hraw, hcases⟩ := casesFromFiles_eq_ok_iff.mp h
  have hsame : ∀ name ∈ readNames pairs, digestOf P entries name = digestOf P entries' name := by
    intro name hname
    rcases halike pairs hsafe hpairs with ⟨unread, hunread, hnone⟩ | hsame
    · -- the file that is never read belongs to a case
      exfalso
      have hdigest := digestOf_eq_none_of_forall hnone
      obtain ⟨testCase, hcase, rfl | rfl⟩ := exists_mem_of_mem_readNames h hpairs hunread
      · rw [(digestOf_of_mem h hcase).1] at hdigest
        cases hdigest
      · rw [(digestOf_of_mem h hcase).2] at hdigest
        cases hdigest
    · exact digestOf_perm hperm (hsame name hname)
  refine casesFromFiles_eq_ok_iff.mpr ⟨fun entry hentry => hsafe entry (hperm.mem_iff.mpr hentry),
    pairs, raw, hpairs.of_perm hperm, ?_, hcases⟩
  refine (Except.mapM_eq_ok_congr fun pair hpair testCase => ?_).mp hraw
  rw [fileCase_eq_ok_iff, fileCase_eq_ok_iff,
    hsame pair.input (mem_readNames.mpr ⟨pair, hpair, .inl rfl⟩),
    hsame pair.answer (mem_readNames.mpr ⟨pair, hpair, .inr rfl⟩)]

theorem ReadsAlike.perm (hperm : entries.Perm entries') (halike : ReadsAlike P entries) :
    ReadsAlike P entries' := by
  intro pairs hsafe hpairs
  have hmem : ∀ entry, entry ∈ entries' → entry ∈ entries := fun entry => hperm.mem_iff.mpr
  rcases halike pairs (fun entry hentry => hsafe entry (hperm.mem_iff.mp hentry))
    (hpairs.of_perm hperm.symm) with ⟨name, hname, hnone⟩ | hsame
  · exact .inl ⟨name, hname, fun entry hentry => hnone entry (hmem entry hentry)⟩
  · exact .inr fun name hname entry hentry other hother =>
      hsame name hname entry (hmem entry hentry) other (hmem other hother)

/-- Some order reads every name that can be read: the one with the readable entries at the
end. -/
theorem exists_perm_digestOf (P : Python) (entries : List ZipEntry) :
    ∃ entries', entries.Perm entries' ∧ ∀ entry ∈ entries, digest? P entry ≠ none →
      digestOf P entries' entry.name ≠ none := by
  refine ⟨_, (List.filter_append_perm (fun entry => (digest? P entry).isNone) entries).symm,
    fun entry hentry hdigest => ?_⟩
  have hmem : entry ∈ entries.filter fun entry => !(digest? P entry).isNone :=
    List.mem_filter.mpr ⟨hentry, by simpa [Option.isSome_iff_ne_none] using hdigest⟩
  obtain ⟨found, hfound⟩ : ∃ found, (entries.filter fun entry =>
      !(digest? P entry).isNone).reverse.find? (fun other => other.name = entry.name) = some found :=
    Option.isSome_iff_exists.mp (List.find?_isSome.mpr
      ⟨entry, List.mem_reverse.mpr hmem, decide_eq_true rfl⟩)
  rw [digestOf_append, hfound, Option.some_or, Option.bind_some]
  have hreadable := (List.mem_filter.mp (List.mem_reverse.mp (List.mem_of_find?_eq_some hfound))).2
  simpa [Option.isSome_iff_ne_none] using hreadable

/-- The order does not matter exactly if the entries of each name that is read are alike. -/
theorem orderFree_iff_readsAlike : OrderFree P problem entries ↔ ReadsAlike P entries := by
  constructor
  · intro hfree pairs hsafe hpairs
    rw [or_iff_not_imp_left]
    intro hreadable
    push Not at hreadable
    -- every name is read in some order
    obtain ⟨readable, hperm, hread⟩ := exists_perm_digestOf P entries
    obtain ⟨cases, hcases⟩ : ∃ cases, casesFromFiles P problem readable = .ok cases := by
      refine exists_casesFromFiles (fun entry hentry => hsafe entry (hperm.mem_iff.mpr hentry))
        (hpairs.of_perm hperm) fun name hname => ?_
      obtain ⟨entry, hentry, rfl, hdigest⟩ := hreadable name hname
      exact hread entry hentry hdigest
    have hfirst : casesFromFiles P problem entries = .ok cases := (hfree readable hperm cases).mpr hcases
    -- an entry that is moved to the end is what its name reads
    have hlast : ∀ name ∈ readNames pairs, ∀ entry ∈ entries, entry.name = name →
        digest? P entry = digestOf P entries name := by
      rintro _ hname entry hentry rfl
      obtain ⟨before, after, rfl⟩ := List.append_of_mem hentry
      have hmove : (before ++ entry :: after).Perm (before ++ after ++ [entry]) := by
        rw [List.append_assoc]
        exact (List.perm_append_singleton entry after).symm.append_left before
      have hmoved := (hfree _ hmove cases).mp hfirst
      rw [digestOf_eq_of_cases hfirst hmoved hpairs hname, digestOf_concat_self]
    intro name hname entry hentry other hother hentryName hotherName
    rw [hlast name hname entry hentry hentryName, hlast name hname other hother hotherName]
  · intro halike entries' hperm cases
    exact ⟨casesFromFiles_perm hperm halike, casesFromFiles_perm hperm.symm (halike.perm hperm)⟩

/-- Without a backslash at the end of a name, a name that is read has one entry. -/
theorem readsAlike_of_getLast (P : Python)
    (hlast : ∀ entry ∈ entries, entry.name.toList.getLast? ≠ some '\\') : ReadsAlike P entries := by
  refine fun pairs _ hpairs => .inr fun name hname entry hentry other hother hentryName hotherName => ?_
  have hone : (entries.filter fun entry => entry.name = name).length ≤ 1 := by
    obtain ⟨pair, hpair, rfl | rfl⟩ := mem_readNames.mp hname
    · exact length_filter_name_le hlast ((hpairs.mem_iff pair).mp hpair).input
    · exact length_filter_name_le hlast ((hpairs.mem_iff pair).mp hpair).answer
  have hentryMem : entry ∈ entries.filter fun entry => entry.name = name :=
    List.mem_filter.mpr ⟨hentry, decide_eq_true hentryName⟩
  have hotherMem : other ∈ entries.filter fun entry => entry.name = name :=
    List.mem_filter.mpr ⟨hother, decide_eq_true hotherName⟩
  rw [List.eq_singleton_of_mem hone hentryMem, List.mem_singleton] at hotherMem
  rw [hotherMem]

end Order

/-! ## What the cases are -/

/-- A test file of an archive with the names `names`. -/
structure IsTestFile (names : List String) (kind : FileKind) (stem name : String) : Prop where
  mem : name ∈ names
  isFile : isFile name
  kind : kindOf name = some kind
  stem : PurePosixPath.stem name = stem

/-- The number of a file's stem, and the stem. -/
def nameKey (P : Python) (name : String) : ℕ ×ₗ String :=
  toLex ((stemNumber P (PurePosixPath.stem name)).toOption.getD 0, PurePosixPath.stem name)

/-- The cases are the pairs of an input and an answer with one stem, each of them once, in
the order of their numbers and stems. -/
structure PairsFiles (P : Python) (names : List String) (cases : List (ArchiveCase ℚ)) : Prop where
  paired : ∀ testCase ∈ cases, ∃ stem number, IsTestFile names .input stem testCase.input ∧
    IsTestFile names .answer stem testCase.answer ∧ stemNumber P stem = .ok number
  complete : ∀ stem input answer, IsTestFile names .input stem input →
    IsTestFile names .answer stem answer →
      ∃ testCase ∈ cases, testCase.input = input ∧ testCase.answer = answer
  once : (cases.map fun testCase => PurePosixPath.stem testCase.input).Nodup
  sorted : cases.Pairwise fun first second => nameKey P first.input < nameKey P second.input

section Files

variable {P : Python} {problem : Problem} {entries : List ZipEntry}
  {cases : List (ArchiveCase ℚ)} {name stem : String} {kind : FileKind}

theorem normalizeName_of_not_mem (h : '\\' ∉ name.toList) : normalizeName name = name := by
  rw [← String.toList_inj, toList_normalizeName]
  refine (List.map_congr_left fun c hc => ?_).trans (List.map_id _)
  have hne : c ≠ '\\' := fun heq => h (heq ▸ hc)
  rw [if_neg hne]
  rfl

theorem mem_namesOf_iff (hplain : ∀ entry ∈ entries, '\\' ∉ entry.name.toList) :
    name ∈ namesOf (fileNamesOf entries) kind stem ↔
      IsTestFile (entries.map ZipEntry.name) kind stem name := by
  have hnormal : fileNamesOf entries = (entries.map ZipEntry.name).filter isFile := by
    refine (List.map_congr_left fun name hname => ?_).trans (List.map_id _)
    obtain ⟨entry, hentry, rfl⟩ := List.mem_map.mp (List.mem_filter.mp hname).1
    exact normalizeName_of_not_mem (hplain entry hentry)
  rw [hnormal, namesOf, List.mem_filter, List.mem_filter, Bool.and_eq_true, decide_eq_true_eq,
    decide_eq_true_eq]
  constructor
  · rintro ⟨⟨hmem, hfile⟩, hkind, hstem⟩
    exact ⟨hmem, hfile, hkind, hstem⟩
  · rintro ⟨hmem, hfile, hkind, hstem⟩
    exact ⟨⟨hmem, hfile⟩, hkind, hstem⟩

/-- The pairs are the inputs and the answers with one stem. -/
theorem of_iff_isTestFile (hplain : ∀ entry ∈ entries, '\\' ∉ entry.name.toList)
    (hdistinct : Distinct (fileNamesOf entries)) {pair : FilePair} :
    pair.Of P (fileNamesOf entries) ↔
      IsTestFile (entries.map ZipEntry.name) .input pair.stem pair.input ∧
        IsTestFile (entries.map ZipEntry.name) .answer pair.stem pair.answer ∧
          stemNumber P pair.stem = .ok pair.number := by
  rw [← mem_namesOf_iff hplain, ← mem_namesOf_iff hplain]
  constructor
  · rintro ⟨hinput, hanswer, hnumber⟩
    rw [hinput, hanswer]
    exact ⟨List.mem_singleton_self _, List.mem_singleton_self _, hnumber⟩
  · rintro ⟨hinput, hanswer, hnumber⟩
    exact ⟨List.eq_singleton_of_mem (hdistinct ..) hinput,
      List.eq_singleton_of_mem (hdistinct ..) hanswer, hnumber⟩

/-- The cases of an archive whose names have no backslash. -/
theorem pairsFiles_of_casesFromFiles (hplain : ∀ entry ∈ entries, '\\' ∉ entry.name.toList)
    (h : casesFromFiles P problem entries = .ok cases) :
    PairsFiles P (entries.map ZipEntry.name) cases := by
  obtain ⟨-, pairs, raw, hpairs, hraw, rfl⟩ := casesFromFiles_eq_ok_iff.mp h
  have hfiles := files_of_mapM problem hraw
  set cases := applyDefaultPoints P.arith problem raw
  have hof : ∀ pair, pair ∈ pairs ↔ _ :=
    fun pair => (hpairs.mem_iff pair).trans (of_iff_isTestFile hplain hpairs.distinct)
  have hstem : ∀ pair ∈ pairs, PurePosixPath.stem pair.input = pair.stem :=
    fun pair hpair => ((hof pair).mp hpair).1.stem
  have hkey : ∀ pair ∈ pairs, nameKey P pair.input = pair.key := by
    intro pair hpair
    unfold nameKey FilePair.key
    rw [hstem pair hpair, ((hof pair).mp hpair).2.2]
    rfl
  have hsorted : cases.Pairwise fun first second =>
      nameKey P first.input < nameKey P second.input := by
    have hinputs : cases.map ArchiveCase.input = pairs.map FilePair.input := by
      have hfst := congrArg (List.map Prod.fst) hfiles
      rwa [List.map_map, List.map_map] at hfst
    have hstrict : (pairs.map FilePair.input).Pairwise fun first second =>
        nameKey P first < nameKey P second := by
      refine List.pairwise_map.mpr ((hpairs.sorted.and hpairs.nodup).imp_of_mem ?_)
      intro first second hfirst hsecond hboth
      obtain ⟨hle, hne⟩ := hboth
      rw [hkey first hfirst, hkey second hsecond]
      -- two pairs with one key have one stem
      refine hle.lt_of_ne fun heq => hne ?_
      exact ((hpairs.mem_iff first).mp hfirst).eq_of_stem_eq ((hpairs.mem_iff second).mp hsecond)
        (congrArg Prod.snd (toLex_inj.mp heq))
    rw [← hinputs, List.pairwise_map] at hstrict
    exact hstrict
  refine ⟨fun testCase hcase => ?_, fun stem input answer hinput hanswer => ?_, ?_, ?_⟩
  · have hmem : (testCase.input, testCase.answer) ∈ cases.map fun testCase =>
        (testCase.input, testCase.answer) := List.mem_map_of_mem hcase
    rw [hfiles] at hmem
    obtain ⟨pair, hpair, heq⟩ := List.mem_map.mp hmem
    obtain ⟨hinput, hanswer⟩ := Prod.mk.inj heq
    rw [← hinput, ← hanswer]
    exact ⟨pair.stem, pair.number, (hof pair).mp hpair⟩
  · obtain ⟨number, hnumber⟩ := hpairs.numbered stem input answer
      (List.eq_singleton_of_mem (hpairs.distinct ..) ((mem_namesOf_iff hplain).mpr hinput))
      (List.eq_singleton_of_mem (hpairs.distinct ..) ((mem_namesOf_iff hplain).mpr hanswer))
    have hpair : ({ number, stem, input, answer } : FilePair) ∈ pairs :=
      (hof _).mpr ⟨hinput, hanswer, hnumber⟩
    have hmem := List.mem_map_of_mem (f := fun pair : FilePair => (pair.input, pair.answer)) hpair
    rw [← hfiles] at hmem
    obtain ⟨testCase, hcase, heq⟩ := List.mem_map.mp hmem
    exact ⟨testCase, hcase, Prod.mk.inj heq⟩
  · refine List.pairwise_map.mpr (hsorted.imp fun hlt heq => hlt.ne ?_)
    unfold nameKey
    rw [heq]
  · exact hsorted

/-- The cases do not depend on the order of the entries, and without backslashes they are
the pairs of the files, exactly if the entries of each name that is read are alike. -/
theorem orderFree_and_pairsFiles_iff (P : Python) (problem : Problem) (entries : List ZipEntry) :
    (OrderFree P problem entries ∧
      ∀ cases, (∀ entry ∈ entries, '\\' ∉ entry.name.toList) →
        casesFromFiles P problem entries = .ok cases →
          PairsFiles P (entries.map ZipEntry.name) cases) ↔ ReadsAlike P entries := by
  rw [orderFree_iff_readsAlike, and_iff_left_iff_imp]
  exact fun _ cases hplain h => pairsFiles_of_casesFromFiles hplain h

end Files

/-- A digest that tells the length. -/
def lengthDigest : Python :=
  { Python.plain .binary64 with sha256 := fun bytes => toString bytes.length }

def onePairProblem : Problem where
  id := 1
  code := "PAIR"
  points := 100
  timeLimit := 1
  memoryLimit := 262144
  partialScore := false
  shortCircuit := false

/-- A file whose name ends in a backslash, next to two directories of one name. -/
def backslashEntries (first second : Bytes) : List ZipEntry :=
  [{ name := "x.in\\", content := .ok [], fileSize := 0 },
    { name := "x.in/", content := .ok first, fileSize := 0 },
    { name := "x.in/", content := .ok second, fileSize := 0 },
    { name := "x.out", content := .ok [], fileSize := 0 }]

/-- The digest of the input is that of the second directory. -/
theorem backslash_not_orderFree :
    ¬ OrderFree lengthDigest onePairProblem (backslashEntries [] [0]) := by
  intro hfree
  have hswap : (backslashEntries [] [0]).Perm (backslashEntries [0] []) :=
    List.Perm.cons _ (List.Perm.swap ..)
  have hcases := (hfree _ hswap [{
    input := "x.in/"
    answer := "x.out"
    group := "default"
    points := 100
    inputSha256 := "1"
    answerSha256 := "0" }]).mp (by decide +kernel)
  exact absurd hcases (by decide +kernel)

end PackageImportService

end JudgeLoom
