import JudgeLoom.Problems.Manifest

/-!
# The cases of an archive without a manifest

`_file_cases` walks through the names of an archive and pairs inputs with answers by their
stem in a dictionary that grows on the way.  What comes out does not depend on the order
of the names: a stem with two inputs or two answers is an error, so that the dictionary
holds for every stem what the list of names has for it (`holds_foldlM`), and the sort
by the number and the stem leaves one arrangement only (`fileCases_eq_ok_iff`).
-/

namespace JudgeLoom

namespace PackageImportService

/-! ## Pairs -/

/-- The two kinds of test files. -/
inductive FileKind
  | input
  | answer
  deriving DecidableEq

/-- The kind of a file, by its extension. -/
def kindOf (name : String) : Option FileKind :=
  let extension := lower (PurePosixPath.suffix name)
  if extension = ".in" then some .input
  else if extension = ".out" ∨ extension = ".ans" then some .answer
  else none

def StemFiles.get (files : StemFiles) : FileKind → Option String
  | .input => files.input
  | .answer => files.answer

def StemFiles.put (files : StemFiles) (kind : FileKind) (name : String) : StemFiles :=
  match kind with
  | .input => { files with input := some name }
  | .answer => { files with answer := some name }

theorem StemFiles.get_put (files : StemFiles) (kind other : FileKind) (name : String) :
    (files.put kind name).get other = if other = kind then some name else files.get other := by
  cases kind <;> cases other <;> rfl

/-- The files of a stem, of one kind. -/
def namesOf (names : List String) (kind : FileKind) (stem : String) : List String :=
  names.filter fun name => kindOf name = some kind && PurePosixPath.stem name = stem

/-- No stem has two files of one kind. -/
def Distinct (names : List String) : Prop :=
  ∀ kind stem, (namesOf names kind stem).length ≤ 1

/-- The dictionary holds what the names have for each stem. -/
def Holds (names : List String) (pairs : Dict String StemFiles) : Prop :=
  ∀ kind stem, ((pairs.get? stem).getD {}).get kind = (namesOf names kind stem).head?

section Pairs

variable {names : List String} {name : String} {pairs pairs' : Dict String StemFiles}

theorem namesOf_concat (names : List String) (name : String) (kind : FileKind) (stem : String) :
    namesOf (names ++ [name]) kind stem = namesOf names kind stem ++
      if kindOf name = some kind ∧ PurePosixPath.stem name = stem then [name] else [] := by
  unfold namesOf
  rw [List.filter_append, List.filter_singleton]
  by_cases hkind : kindOf name = some kind <;> by_cases hstem : PurePosixPath.stem name = stem <;>
    simp [hkind, hstem]

/-- One step of the loop. -/
theorem pairFile_eq (pairs : Dict String StemFiles) (name : String) :
    pairFile pairs name = (kindOf name).elim (.ok pairs) fun kind =>
      if (((pairs.get? (PurePosixPath.stem name)).getD {}).get kind).isSome then
        .error (.validation ("Duplicate testcase stem detected: " ++ PurePosixPath.stem name))
      else .ok (pairs.set (PurePosixPath.stem name)
        (((pairs.get? (PurePosixPath.stem name)).getD {}).put kind name)) := by
  unfold pairFile kindOf
  dsimp only
  by_cases hin : lower (PurePosixPath.suffix name) = ".in"
  · rw [if_pos hin, if_pos hin]
    rfl
  · rw [if_neg hin, if_neg hin]
    by_cases hout : lower (PurePosixPath.suffix name) = ".out" ∨
        lower (PurePosixPath.suffix name) = ".ans"
    · rw [if_pos hout, if_pos hout]
      rfl
    · rw [if_neg hout, if_neg hout]
      rfl

/-- A name of no kind, or the first one of its kind and stem, is accepted. -/
theorem exists_pairFile_iff (hholds : Holds names pairs) (hdistinct : Distinct names) :
    (∃ pairs', pairFile pairs name = .ok pairs') ↔ Distinct (names ++ [name]) := by
  have hconcat := namesOf_concat names name
  rw [pairFile_eq]
  cases hkind : kindOf name with
  | none =>
      refine iff_of_true ⟨pairs, rfl⟩ fun kind stem => ?_
      rw [hconcat, hkind, if_neg (by simp), List.append_nil]
      exact hdistinct kind stem
  | some kind =>
      rw [Option.elim_some, hholds kind]
      split_ifs with hsome
      · -- the stem has a file of this kind already
        refine iff_of_false (by simp) fun hnew => ?_
        have hlength := hnew kind (PurePosixPath.stem name)
        have hpositive : 0 < (namesOf names kind (PurePosixPath.stem name)).length := by
          rw [List.length_pos_iff_ne_nil]
          rintro hnil
          rw [hnil] at hsome
          cases hsome
        rw [hconcat, if_pos ⟨hkind, rfl⟩, List.length_append, List.length_singleton] at hlength
        omega
      · refine iff_of_true ⟨_, rfl⟩ fun other stem => ?_
        rw [hconcat, List.length_append]
        split_ifs with hsame
        · obtain ⟨hother, rfl⟩ := hsame
          obtain rfl : kind = other := Option.some.inj (hkind.symm.trans hother)
          have hnil : namesOf names kind (PurePosixPath.stem name) = [] := by
            simpa using hsome
          rw [hnil]
          exact le_rfl
        · exact hdistinct other stem

theorem Holds.pairFile (hholds : Holds names pairs) (h : pairFile pairs name = .ok pairs') :
    Holds (names ++ [name]) pairs' := by
  intro other stem
  rw [pairFile_eq] at h
  rw [namesOf_concat]
  cases hkind : kindOf name with
  | none =>
      rw [hkind] at h
      cases h
      rw [if_neg (by simp), List.append_nil]
      exact hholds other stem
  | some kind =>
      rw [hkind, Option.elim_some, hholds kind] at h
      split_ifs at h with hsome
      cases h
      have hnil : namesOf names kind (PurePosixPath.stem name) = [] := by
        simpa using hsome
      rw [Dict.get?_set]
      by_cases hstem : stem = PurePosixPath.stem name
      · rw [if_pos hstem, Option.getD_some, StemFiles.get_put, hholds other, hstem]
        by_cases hother : other = kind
        · rw [if_pos hother, hother, if_pos ⟨rfl, rfl⟩, hnil]
          rfl
        · rw [if_neg hother, if_neg fun hsame => hother (Option.some.inj hsame.1).symm,
            List.append_nil]
      · rw [if_neg hstem, if_neg fun hsame => hstem hsame.2.symm, List.append_nil]
        exact hholds other stem

theorem holds_empty : Holds [] ∅ := by
  intro kind stem
  cases kind <;> rfl

theorem Distinct.of_concat (h : Distinct (names ++ [name])) : Distinct names := by
  intro kind stem
  have hlength := h kind stem
  rw [namesOf_concat, List.length_append] at hlength
  omega

theorem holds_foldlM (h : names.foldlM PackageImportService.pairFile ∅ = .ok pairs) :
    Holds names pairs := by
  induction names using List.reverseRecOn generalizing pairs with
  | nil =>
      cases h
      exact holds_empty
  | append_singleton names name ih =>
      rw [List.foldlM_append] at h
      obtain ⟨middle, hmiddle, hlast⟩ := Except.bind_eq_ok.mp h
      simp only [List.foldlM_cons, List.foldlM_nil, bind_pure] at hlast
      exact (ih hmiddle).pairFile hlast

/-- The loop goes through exactly if no stem has two files of one kind. -/
theorem exists_foldlM_pairFile_iff :
    (∃ pairs, names.foldlM PackageImportService.pairFile ∅ = .ok pairs) ↔ Distinct names := by
  induction names using List.reverseRecOn with
  | nil => exact iff_of_true ⟨∅, rfl⟩ fun kind stem => Nat.zero_le 1
  | append_singleton names name ih =>
      have hconcat : ∀ pairs,
          (names ++ [name]).foldlM PackageImportService.pairFile ∅ = .ok pairs ↔
            ∃ middle, names.foldlM PackageImportService.pairFile ∅ = .ok middle ∧
              PackageImportService.pairFile middle name = .ok pairs := by
        intro pairs
        rw [List.foldlM_append, Except.bind_eq_ok]
        simp only [List.foldlM_cons, List.foldlM_nil, bind_pure]
      simp only [hconcat]
      constructor
      · rintro ⟨pairs, middle, hmiddle, hlast⟩
        exact (exists_pairFile_iff (holds_foldlM hmiddle) (ih.mp ⟨middle, hmiddle⟩)).mp ⟨pairs, hlast⟩
      · intro hdistinct
        obtain ⟨middle, hmiddle⟩ := ih.mpr hdistinct.of_concat
        obtain ⟨pairs, hpairs⟩ :=
          (exists_pairFile_iff (holds_foldlM hmiddle) hdistinct.of_concat).mpr hdistinct
        exact ⟨pairs, middle, hmiddle, hpairs⟩

/-- A stem that has both files, with them. -/
def completePair : String × StemFiles → Option (String × String × String)
  | (stem, { input := some input, answer := some answer }) => some (stem, input, answer)
  | _ => none

theorem completePair_eq_some {entry : String × StemFiles} {stem input answer : String} :
    completePair entry = some (stem, input, answer) ↔
      entry = (stem, { input := some input, answer := some answer }) := by
  rcases entry with ⟨key, input' | input', answer' | answer'⟩ <;> simp [completePair]

def numberPair (P : Python) (pair : String × String × String) : Except ServiceError FilePair :=
  (stemNumber P pair.1).map fun number =>
    { number, stem := pair.1, input := pair.2.1, answer := pair.2.2 }

/-- The stems that have both files are numbered one after the other. -/
theorem validCases_eq (P : Python) (entries : List (String × StemFiles)) :
    validCases P entries = (entries.filterMap completePair).mapM (numberPair P) := by
  induction entries with
  | nil => rfl
  | cons entry rest ih =>
      rcases entry with ⟨stem, _ | input, _ | answer⟩
      case some.some =>
        have hcomplete : completePair (stem, { input := some input, answer := some answer }) =
            some (stem, input, answer) := rfl
        rw [validCases, ih, List.filterMap_cons, hcomplete, List.mapM_cons, numberPair]
        cases stemNumber P stem <;> rfl
      all_goals
        rw [List.filterMap_cons]
        exact ih

/-- The dictionary has exactly the stems with one file of each kind. -/
theorem mem_completePairs (hholds : Holds names pairs) (hdistinct : Distinct names)
    {stem input answer : String} :
    (stem, input, answer) ∈ pairs.entries.filterMap completePair ↔
      namesOf names .input stem = [input] ∧ namesOf names .answer stem = [answer] := by
  have hsingle : ∀ kind name, namesOf names kind stem = [name] ↔
      (namesOf names kind stem).head? = some name := by
    intro kind name
    have hlength := hdistinct kind stem
    cases hnames : namesOf names kind stem with
    | nil => simp
    | cons first rest =>
        rw [hnames, List.length_cons] at hlength
        obtain rfl : rest = [] := List.eq_nil_of_length_eq_zero (by omega)
        simp
  rw [List.mem_filterMap, hsingle, hsingle, ← hholds .input, ← hholds .answer]
  constructor
  · rintro ⟨entry, hentry, hcomplete⟩
    rw [completePair_eq_some] at hcomplete
    rw [hcomplete, ← Dict.get?_eq_some] at hentry
    rw [hentry]
    exact ⟨rfl, rfl⟩
  · rintro ⟨hinput, hanswer⟩
    cases hget : pairs.get? stem with
    | none =>
        rw [hget] at hinput
        cases hinput
    | some files =>
        rw [hget] at hinput hanswer
        obtain ⟨input', answer'⟩ := files
        change input' = some input at hinput
        change answer' = some answer at hanswer
        subst hinput hanswer
        exact ⟨_, Dict.get?_eq_some.mp hget, rfl⟩

theorem nodup_completePairs (pairs : Dict String StemFiles) :
    (pairs.entries.filterMap completePair).Nodup := by
  refine List.Nodup.filterMap ?_ (List.Nodup.of_map _ pairs.nodup)
  rintro entry entry' ⟨stem, input, answer⟩ h h'
  rw [Option.mem_def, completePair_eq_some] at h h'
  rw [h, h']

/-- The pair is made of the only input and the only answer of its stem. -/
structure FilePair.Of (P : Python) (names : List String) (pair : FilePair) : Prop where
  input : namesOf names .input pair.stem = [pair.input]
  answer : namesOf names .answer pair.stem = [pair.answer]
  number : stemNumber P pair.stem = .ok pair.number

theorem mem_validCases_iff {P : Python} (hholds : Holds names pairs) (hdistinct : Distinct names)
    {valid : List FilePair} (hvalid : validCases P pairs.entries = .ok valid) {pair : FilePair} :
    pair ∈ valid ↔ pair.Of P names := by
  rw [validCases_eq] at hvalid
  constructor
  · intro hpair
    obtain ⟨⟨stem, input, answer⟩, hmem, hnumber⟩ := Except.exists_of_mem_mapM hvalid hpair
    obtain ⟨number, hstem, rfl⟩ := Except.map_eq_ok.mp hnumber
    obtain ⟨hinput, hanswer⟩ := (mem_completePairs hholds hdistinct).mp hmem
    exact ⟨hinput, hanswer, hstem⟩
  · intro hpair
    have hmem := (mem_completePairs hholds hdistinct).mpr ⟨hpair.input, hpair.answer⟩
    obtain ⟨found, hfound, hnumber⟩ := Except.exists_mem_of_mapM hvalid hmem
    rw [numberPair, hpair.number] at hnumber
    cases hnumber
    exact hfound

theorem nodup_of_validCases {P : Python} {valid : List FilePair}
    (hvalid : validCases P pairs.entries = .ok valid) : valid.Nodup := by
  rw [validCases_eq] at hvalid
  refine List.Nodup.of_map (fun pair => (pair.stem, pair.input, pair.answer)) ?_
  rw [Except.map_of_mapM hvalid (k := id) fun triple pair hpair => ?_]
  · rw [List.map_id]
    exact nodup_completePairs pairs
  · obtain ⟨number, -, rfl⟩ := Except.map_eq_ok.mp hpair
    rfl

theorem FilePair.Of.eq_of_stem_eq {P : Python} {first second : FilePair} (h : first.Of P names)
    (h' : second.Of P names) (hstem : first.stem = second.stem) : first = second := by
  have hinput := h.input
  have hanswer := h.answer
  have hnumber := h.number
  rw [hstem, h'.input] at hinput
  rw [hstem, h'.answer] at hanswer
  rw [hstem, h'.number] at hnumber
  obtain ⟨number, stem, input, answer⟩ := first
  obtain ⟨number', stem', input', answer'⟩ := second
  cases hstem
  cases hinput
  cases hanswer
  cases hnumber
  rfl

end Pairs

/-! ## The list of cases -/

/-- The key that the pairs are sorted by. -/
def FilePair.key (pair : FilePair) : ℕ ×ₗ String := toLex (pair.number, pair.stem)

section Cases

variable {P : Python} {problem : Problem} {entries entries' : List ZipEntry}
  {fileNames fileNames' : List String} {cases : List (ArchiveCase ℚ)}

/-- Every stem that has both files has a number. -/
def Numbered (P : Python) (names : List String) : Prop :=
  ∀ stem input answer, namesOf names .input stem = [input] → namesOf names .answer stem = [answer] →
    ∃ number, stemNumber P stem = .ok number

/-- The pairs of the names, in the order of their numbers and stems. -/
structure Arranged (P : Python) (names : List String) (pairs : List FilePair) : Prop where
  distinct : Distinct names
  numbered : Numbered P names
  mem_iff : ∀ pair, pair ∈ pairs ↔ pair.Of P names
  nodup : pairs.Nodup
  sorted : pairs.Pairwise fun first second => first.key ≤ second.key
  nonempty : pairs ≠ []
  length_le : pairs.length ≤ maxTestCases

/-- Two pairs with one key are one pair. -/
theorem eq_of_key_eq {pairs : List FilePair} (hmem : ∀ pair, pair ∈ pairs ↔ pair.Of P fileNames) :
    ∀ first ∈ pairs, ∀ second ∈ pairs, first.key = second.key → first = second := by
  intro first hfirst second hsecond hkey
  have hstem := congrArg Prod.snd (toLex_inj.mp hkey)
  exact ((hmem first).mp hfirst).eq_of_stem_eq ((hmem second).mp hsecond) hstem

/-- The complete pairs of the dictionary have numbers exactly if those of the names do. -/
theorem exists_validCases_iff {pairs : Dict String StemFiles} (hholds : Holds fileNames pairs)
    (hdistinct : Distinct fileNames) :
    (∃ valid, validCases P pairs.entries = .ok valid) ↔ Numbered P fileNames := by
  rw [validCases_eq]
  constructor
  · rintro ⟨valid, hvalid⟩ stem input answer hinput hanswer
    obtain ⟨pair, -, hnumber⟩ := Except.exists_mem_of_mapM hvalid
      ((mem_completePairs hholds hdistinct).mpr ⟨hinput, hanswer⟩)
    obtain ⟨number, hnumber, -⟩ := Except.map_eq_ok.mp hnumber
    exact ⟨number, hnumber⟩
  · intro hnumbered
    refine Except.exists_mapM ?_
    rintro ⟨stem, input, answer⟩ htriple
    obtain ⟨hinput, hanswer⟩ := (mem_completePairs hholds hdistinct).mp htriple
    obtain ⟨number, hnumber⟩ := hnumbered stem input answer hinput hanswer
    exact ⟨_, Except.map_eq_ok.mpr ⟨number, hnumber, rfl⟩⟩

/-- The pairs that `_file_cases` sorts are arranged then. -/
theorem arranged_sortBy {pairs : Dict String StemFiles} {valid : List FilePair}
    (hpairs : fileNames.foldlM pairFile ∅ = .ok pairs)
    (hvalid : validCases P pairs.entries = .ok valid) (hnil : valid ≠ [])
    (hmany : ¬ maxTestCases < valid.length) :
    Arranged P fileNames (valid.sortBy FilePair.key) := by
  have hdistinct := exists_foldlM_pairFile_iff.mp ⟨pairs, hpairs⟩
  have hholds := holds_foldlM hpairs
  have hmem : ∀ pair, pair ∈ valid ↔ pair.Of P fileNames :=
    fun pair => mem_validCases_iff hholds hdistinct hvalid
  refine ⟨hdistinct, (exists_validCases_iff hholds hdistinct).mp ⟨valid, hvalid⟩,
    fun pair => List.mem_sortBy.trans (hmem pair), (nodup_of_validCases hvalid).sortBy FilePair.key,
    valid.pairwise_sortBy FilePair.key, ?_, ?_⟩
  · rw [← List.length_pos_iff_ne_nil, List.length_sortBy]
    exact List.length_pos_iff_ne_nil.mpr hnil
  · rw [List.length_sortBy]
    exact not_lt.mp hmany

/-- Arranged pairs are the ones that `_file_cases` reads, in this order. -/
theorem fileCases_of_arranged {sorted : List FilePair} (harranged : Arranged P fileNames sorted) :
    fileCases P entries fileNames problem = (sorted.mapM (fileCase P entries)).map
      (applyDefaultPoints P.arith problem) := by
  have hdistinct := harranged.distinct
  obtain ⟨pairs, hpairs⟩ := exists_foldlM_pairFile_iff.mpr hdistinct
  have hholds := holds_foldlM hpairs
  obtain ⟨valid, hvalid⟩ := (exists_validCases_iff hholds hdistinct).mpr harranged.numbered
  have hmem : ∀ pair, pair ∈ valid ↔ pair.Of P fileNames :=
    fun pair => mem_validCases_iff hholds hdistinct hvalid
  -- the arrangement is the only one
  have hperm : sorted.Perm valid :=
    (List.perm_ext_iff_of_nodup harranged.nodup (nodup_of_validCases hvalid)).mpr
      fun pair => (harranged.mem_iff pair).trans (hmem pair).symm
  have hsorted : sorted = valid.sortBy FilePair.key :=
    List.eq_sortBy_of_perm (eq_of_key_eq hmem) harranged.sorted hperm
  have hnil : valid ≠ [] := fun heq => harranged.nonempty (heq ▸ hperm).eq_nil
  have hmany : ¬ maxTestCases < valid.length := by
    rw [← hperm.length_eq]
    exact not_lt.mpr harranged.length_le
  unfold fileCases
  rw [hpairs, Except.ok_bind, hvalid, Except.ok_bind, if_neg hnil, if_neg hmany, hsorted]
  unfold FilePair.key
  dsimp only
  cases (valid.sortBy fun pair => toLex (pair.number, pair.stem)).mapM (fileCase P entries) <;> rfl

/-- What `_file_cases` returns, without the dictionary. -/
theorem fileCases_eq_ok_iff :
    fileCases P entries fileNames problem = .ok cases ↔
      ∃ pairs raw, Arranged P fileNames pairs ∧ pairs.mapM (fileCase P entries) = .ok raw ∧
        applyDefaultPoints P.arith problem raw = cases := by
  constructor
  · intro h
    unfold fileCases at h
    obtain ⟨pairs, hpairs, h⟩ := Except.bind_eq_ok.mp h
    obtain ⟨valid, hvalid, h⟩ := Except.bind_eq_ok.mp h
    split_ifs at h with hnil hmany
    obtain ⟨raw, hraw, h⟩ := Except.bind_eq_ok.mp h
    exact ⟨_, raw, arranged_sortBy hpairs hvalid hnil hmany, hraw, Except.ok.inj h⟩
  · rintro ⟨sorted, raw, harranged, hraw, rfl⟩
    rw [fileCases_of_arranged harranged, hraw]
    rfl

/-- The order of the names does not matter. -/
theorem Arranged.perm {pairs : List FilePair} (h : Arranged P fileNames pairs)
    (hperm : fileNames.Perm fileNames') : Arranged P fileNames' pairs := by
  have hnames : ∀ kind stem, namesOf fileNames' kind stem = namesOf fileNames kind stem :=
    fun kind stem => ((hperm.filter _).eq_of_length_le_one (h.distinct kind stem)).symm
  refine { h with distinct := fun kind stem => ?_, numbered := ?_, mem_iff := fun pair => ?_ }
  · rw [hnames]
    exact h.distinct kind stem
  · intro stem input answer hinput hanswer
    rw [hnames] at hinput hanswer
    exact h.numbered stem input answer hinput hanswer
  · rw [h.mem_iff]
    constructor
    · exact fun hof => ⟨(hnames ..).trans hof.input, (hnames ..).trans hof.answer, hof.number⟩
    · exact fun hof =>
        ⟨(hnames ..).symm.trans hof.input, (hnames ..).symm.trans hof.answer, hof.number⟩

end Cases

end PackageImportService

end JudgeLoom
