import JudgeLoom.Authoring.Certificate
import JudgeLoom.Authoring.ManifestTree
import JudgeLoom.Worker.ImportedPackage

/-!
# A built archive in the worker's cache

The names of the entries of a built package are `manifest.json` and, in the directory
`data`, the numbers of the cases with two endings.  They lead inside the directory of the
package, none of them stands in the way of another, and different numbers give different
names; so the worker extracts the archive and finds each file under its name
(`extractable_zipFiles`, `fileAt_entry`).

The two ends of the archive format, `zip.Writer` and `zip.NewReader`, are parameters, and
so are the two ends of JSON.  What is assumed of them is that the archive and the manifest
of the package are read as they were written.
-/

namespace JudgeLoom.Authoring

open Utf8 (encode)
open SlashPath (elements Ordinary clean join locate)
open Go.PackageStore (ZipFile Lib Store)

/-! ## Numbers -/

theorem toList_twoDigits (number : ℕ) : (twoDigits number).toList =
    (if number < 10 then ['0'] else []) ++ Nat.toDigits 10 number := by
  have hchars : (toString number).toList = Nat.toDigits 10 number := String.toList_ofList
  unfold twoDigits
  split
  · rw [String.toList_append, hchars]
    rfl
  · rw [hchars, List.nil_append]

theorem isDigit_twoDigits {number : ℕ} {c : Char} (h : c ∈ (twoDigits number).toList) :
    c.isDigit := by
  rw [toList_twoDigits, List.mem_append] at h
  rcases h with hzero | hdigit
  · split at hzero
    · rw [List.mem_singleton.mp hzero]
      decide
    · cases hzero
  · exact Nat.isDigit_of_mem_toDigits (by decide) (by decide) hdigit

/-- The number can be read off. -/
theorem ofDigitChars_twoDigits (number : ℕ) :
    Nat.ofDigitChars 10 (twoDigits number).toList 0 = number := by
  have hzero : Nat.ofDigitChars 10 (if number < 10 then ['0'] else []) 0 = 0 := by
    split <;> rfl
  rw [toList_twoDigits, Nat.ofDigitChars_append, hzero, Nat.ofDigitChars_ten_toDigits]

theorem twoDigits_injective : Function.Injective twoDigits := by
  intro number other h
  rw [← ofDigitChars_twoDigits number, h, ofDigitChars_twoDigits]

/-! ## Names -/

theorem encode_append (front back : String) : encode (front ++ back) = encode front ++ encode back := by
  rw [Utf8.encode, String.toList_append, Utf8.encodeChars, List.flatMap_append]
  rfl

theorem encode_injective : Function.Injective encode :=
  Function.LeftInverse.injective Utf8.decode_encode

/-- The bytes of a number are digits. -/
theorem digit_of_mem_encode {number : ℕ} {byte : UInt8} (h : byte ∈ encode (twoDigits number)) :
    48 ≤ byte ∧ byte ≤ 57 := by
  obtain ⟨c, hc, hbyte⟩ := List.mem_flatMap.mp h
  have hrange : 48 ≤ c.toNat ∧ c.toNat ≤ 57 := by
    simpa [Char.isDigit, UInt32.le_iff_toNat_le] using isDigit_twoDigits hc
  have hval : c.val.toNat = c.toNat := rfl
  rw [String.utf8EncodeChar, if_pos (by omega), List.mem_singleton, hval] at hbyte
  have hnat : byte.toNat = c.toNat := by
    rw [hbyte, UInt8.toNat_ofNat']
    omega
  rw [UInt8.le_iff_toNat_le, UInt8.le_iff_toNat_le, hnat]
  exact hrange

/-- The endings of the data files. -/
def endings : List String := [".in", ".ans"]

theorem endings_spec : ∀ ending ∈ endings,
    47 ∉ encode ending ∧ 92 ∉ encode ending ∧ 3 ≤ (encode ending).length := by
  decide

variable {number : ℕ} {ending : String}

/-- The name of a data file is made of two names. -/
theorem elements_dataName (hending : ending ∈ endings) :
    elements (encode ("data/" ++ twoDigits number ++ ending)) =
      [encode "data", encode (twoDigits number ++ ending)] := by
  obtain ⟨hsep, -, -⟩ := endings_spec ending hending
  have hname : encode ("data/" ++ twoDigits number ++ ending) =
      encode "data" ++ PathSyntax.sep :: encode (twoDigits number ++ ending) := by
    rw [String.append_assoc, encode_append]
    rfl
  have hdata : PathSyntax.sep ∉ encode "data" := by decide
  have hlast : PathSyntax.sep ∉ encode (twoDigits number ++ ending) := by
    rw [encode_append, List.mem_append, not_or]
    exact ⟨fun hdigit => absurd (digit_of_mem_encode hdigit).1 (by decide), hsep⟩
  rw [hname, SlashPath.elements_append_sep, SlashPath.elements_of_sep_notMem hdata,
    SlashPath.elements_of_sep_notMem hlast]
  rfl

theorem ordinary_dataName (hending : ending ∈ endings) :
    ∀ name ∈ elements (encode ("data/" ++ twoDigits number ++ ending)), Ordinary name := by
  obtain ⟨-, -, hlength⟩ := endings_spec ending hending
  rw [elements_dataName hending, List.forall_mem_cons, List.forall_mem_singleton]
  refine ⟨by decide, ?_⟩
  have hlong : 3 ≤ (encode (twoDigits number ++ ending)).length := by
    rw [encode_append, List.length_append]
    omega
  refine ⟨?_, fun hup => ?_⟩
  · rintro (hnil | hdot)
    · rw [hnil] at hlong
      exact absurd hlong (by decide)
    · rw [hdot] at hlong
      exact absurd hlong (by decide)
  · rw [hup] at hlong
    exact absurd hlong (by decide)

/-- There is no backslash in it. -/
theorem slashed_dataName (hending : ending ∈ endings) :
    Go.PackageStore.slashed (encode ("data/" ++ twoDigits number ++ ending)) =
      encode ("data/" ++ twoDigits number ++ ending) := by
  obtain ⟨-, hback, -⟩ := endings_spec ending hending
  have hdata : 92 ∉ encode "data/" := by decide
  refine (List.map_congr_left fun byte hbyte => if_neg ?_).trans (List.map_id _)
  rintro rfl
  rw [encode_append, encode_append, List.mem_append, List.mem_append] at hbyte
  rcases hbyte with (hbyte | hdigit) | hbyte
  · exact hdata hbyte
  · exact absurd (digit_of_mem_encode hdigit).2 (by decide)
  · exact hback hbyte

/-! ## Entries -/

/-- An entry, as the reader of the archive lists it. -/
def zipFile (entry : String × Go.Bytes) : ZipFile where
  name := encode entry.1
  uncompressedSize64 := .ofNat entry.2.length
  opened := .ok (.ok entry.2)

/-- Such an entry leads to these names. -/
structure LeadsInside (entry : String × Go.Bytes) (names : Go.Location) : Prop where
  normalized : (zipFile entry).normalized = encode entry.1
  elements : elements (encode entry.1) = names
  ordinary : ∀ name ∈ names, Ordinary name
  notRefused : ¬ Go.PackageStore.Refused (zipFile entry).normalized

theorem LeadsInside.names {entry : String × Go.Bytes} {names : Go.Location}
    (h : LeadsInside entry names) : (zipFile entry).names = names := by
  rw [ZipFile.names, h.normalized, h.elements]

theorem leadsInside_manifest (text : Go.Bytes) :
    LeadsInside ("manifest.json", text) [Go.PackageStore.manifestName] := by
  have hnormalized : (zipFile ("manifest.json", text)).normalized = encode "manifest.json" := by
    have hclean : clean (Go.PackageStore.slashed (encode "manifest.json")) =
        encode "manifest.json" := by
      decide
    rw [ZipFile.normalized, zipFile]
    dsimp only
    exact hclean
  have helements : elements (encode "manifest.json") = [Go.PackageStore.manifestName] := by
    decide
  refine ⟨hnormalized, helements, by decide, ?_⟩
  rw [hnormalized]
  decide

theorem leadsInside_data (hending : ending ∈ endings) (content : Go.Bytes) :
    LeadsInside ("data/" ++ twoDigits number ++ ending, content)
      [encode "data", encode (twoDigits number ++ ending)] := by
  have hordinary : ∀ name ∈ elements (encode ("data/" ++ twoDigits number ++ ending)),
      Ordinary name := ordinary_dataName hending
  have hnormalized : (zipFile ("data/" ++ twoDigits number ++ ending, content)).normalized =
      encode ("data/" ++ twoDigits number ++ ending) := by
    rw [ZipFile.normalized, zipFile, slashed_dataName hending]
    exact SlashPath.clean_of_ordinary hordinary
  refine ⟨hnormalized, elements_dataName hending, elements_dataName hending ▸ hordinary, ?_⟩
  have hstart : encode ("data/" ++ twoDigits number ++ ending) =
      100 :: 97 :: 116 :: 97 :: 47 :: encode (twoDigits number ++ ending) := by
    rw [String.append_assoc, encode_append]
    rfl
  rw [hnormalized, hstart, Go.PackageStore.Refused]
  simp [SlashPath.isAbs, Go.PackageStore.hasDrivePrefix, PathSyntax.sep]

/-! ## The entries of a package -/

variable {Manifest : Type} {T : Toolchain Manifest} {s : Spec}

theorem mem_dataEntries {cases : List BuiltCase} {entry : String × Go.Bytes} {first : ℕ} :
    entry ∈ dataEntries first (cases.map BuiltCase.input) (cases.map BuiltCase.answer) ↔
      ∃ index c, cases[index]? = some c ∧
        (entry = (inputName (first + index), c.input) ∨
          entry = (answerName (first + index), c.answer)) := by
  induction cases generalizing first with
  | nil => simp [dataEntries]
  | cons c rest ih =>
      rw [List.map_cons, List.map_cons, dataEntries, List.mem_cons, List.mem_cons, ih]
      constructor
      · rintro (rfl | rfl | ⟨index, other, hother, hentry⟩)
        · exact ⟨0, c, rfl, Or.inl rfl⟩
        · exact ⟨0, c, rfl, Or.inr rfl⟩
        · refine ⟨index + 1, other, hother, ?_⟩
          rwa [show first + (index + 1) = first + 1 + index by omega]
      · rintro ⟨index, other, hother, hentry⟩
        cases index with
        | zero =>
            cases hother
            rcases hentry with rfl | rfl
            · exact Or.inl rfl
            · exact Or.inr (Or.inl rfl)
        | succ index =>
            rw [show first + (index + 1) = first + 1 + index by omega] at hentry
            exact Or.inr (Or.inr ⟨index, other, hother, hentry⟩)

theorem length_dataEntries (cases : List BuiltCase) (first : ℕ) :
    (dataEntries first (cases.map BuiltCase.input) (cases.map BuiltCase.answer)).length =
      2 * cases.length := by
  induction cases generalizing first with
  | nil => rfl
  | cons c rest ih =>
      rw [List.map_cons, List.map_cons, dataEntries, List.length_cons, List.length_cons, ih,
        List.length_cons]
      omega

/-- The entries of a package, one kind after the other. -/
theorem BuiltPackage.mem_entries (package : BuiltPackage T s) {entry : String × Go.Bytes} :
    entry ∈ package.entries ↔ entry = ("manifest.json", package.text) ∨
      ∃ index c, package.cases[index]? = some c ∧
        (entry = (inputName (index + 1), c.input) ∨ entry = (answerName (index + 1), c.answer)) := by
  rw [entries, List.mem_cons, mem_dataEntries]
  simp only [Nat.add_comm]

/-- Where the entries lead. -/
theorem BuiltPackage.leadsInside (package : BuiltPackage T s) {entry : String × Go.Bytes}
    (h : entry ∈ package.entries) :
    (entry = ("manifest.json", package.text) ∧
        LeadsInside entry [Go.PackageStore.manifestName]) ∨
      ∃ index c, package.cases[index]? = some c ∧ ∃ ending ∈ endings,
        entry.1 = "data/" ++ twoDigits (index + 1) ++ ending ∧
        entry.2 = (if ending = ".in" then c.input else c.answer) ∧
        LeadsInside entry [encode "data", encode (twoDigits (index + 1) ++ ending)] := by
  rcases package.mem_entries.mp h with rfl | ⟨index, c, hc, rfl | rfl⟩
  · exact Or.inl ⟨rfl, leadsInside_manifest _⟩
  · exact Or.inr ⟨index, c, hc, ".in", by decide, rfl, rfl, leadsInside_data (by decide) _⟩
  · exact Or.inr ⟨index, c, hc, ".ans", by decide, rfl, rfl, leadsInside_data (by decide) _⟩

/-- Different files have different names. -/
theorem dataName_injective {number' : ℕ} {ending' : String} (hending : ending ∈ endings)
    (hending' : ending' ∈ endings)
    (h : twoDigits number ++ ending = twoDigits number' ++ ending') :
    number = number' ∧ ending = ending' := by
  have hnone : ∀ e ∈ endings, e.toList.takeWhile Char.isDigit = [] := by decide
  have htake : ∀ (n : ℕ), ∀ e ∈ endings,
      (twoDigits n ++ e).toList.takeWhile Char.isDigit = (twoDigits n).toList := by
    intro n e he
    rw [String.toList_append, List.takeWhile_append_of_pos fun c hc => isDigit_twoDigits hc,
      hnone e he, List.append_nil]
  have hdigits : twoDigits number = twoDigits number' := by
    rw [← String.toList_inj, ← htake number ending hending, h, htake number' ending' hending']
  refine ⟨twoDigits_injective hdigits, ?_⟩
  rw [hdigits, ← String.toList_inj, String.toList_append, String.toList_append] at h
  exact String.toList_inj.mp (List.append_cancel_left h)

/-- Entries with the same names are the same. -/
theorem BuiltPackage.entry_unique (package : BuiltPackage T s)
    {entry other : String × Go.Bytes} (hentry : entry ∈ package.entries)
    (hother : other ∈ package.entries) (h : (zipFile other).names = (zipFile entry).names) :
    other = entry := by
  rcases package.leadsInside hentry with
    ⟨rfl, hinside⟩ | ⟨index, c, hc, ending, hending, hname, hcontent, hinside⟩
  · rcases package.leadsInside hother with ⟨rfl, -⟩ | ⟨_, _, _, _, _, _, _, hinside'⟩
    · rfl
    · rw [hinside.names, hinside'.names] at h
      cases congrArg List.length h
  · rcases package.leadsInside hother with
      ⟨-, hinside'⟩ | ⟨index', c', hc', ending', hending', hname', hcontent', hinside'⟩
    · rw [hinside.names, hinside'.names] at h
      cases congrArg List.length h
    · rw [hinside.names, hinside'.names, List.cons.injEq, List.cons.injEq] at h
      obtain ⟨hnumber, rfl⟩ := dataName_injective hending' hending (encode_injective h.2.1)
      obtain rfl : index' = index := by omega
      rw [hc] at hc'
      cases hc'
      exact Prod.ext (hname'.trans hname.symm) (hcontent'.trans hcontent.symm)

/-- The worker can extract a built package. -/
theorem BuiltPackage.extractable (package : BuiltPackage T s) :
    Go.PackageStore.Extractable (package.entries.map zipFile) where
  names := by
    rw [List.forall_mem_map]
    intro entry hentry
    rcases package.leadsInside hentry with ⟨-, h⟩ | ⟨_, _, _, _, _, _, _, h⟩
    · exact h.notRefused
    · exact h.notRefused
  links := by
    rw [List.forall_mem_map]
    intro entry _ hlink
    cases hlink
  contents := by
    rw [List.forall_mem_map]
    exact fun entry _ _ => ⟨entry.2, rfl⟩
  apart := by
    have hmanifest : Go.PackageStore.manifestName ≠ encode "data" := by decide
    -- an entry is in the directory of the package, or in `data`
    have hdirectory : ∀ entry ∈ package.entries,
        (zipFile entry).directory <+: [encode "data"] := by
      intro entry hentry
      have hdropLast : (zipFile entry).directory = (zipFile entry).names.dropLast := rfl
      rw [hdropLast]
      rcases package.leadsInside hentry with ⟨-, h⟩ | ⟨_, _, _, _, _, _, _, h⟩
      · rw [h.names]
        exact List.nil_prefix
      · rw [h.names]
        exact List.prefix_refl _
    unfold Go.PackageStore.Apart
    simp only [List.forall_mem_map]
    intro entry hentry other hother _ hbelow
    have hprefix := hbelow.trans (hdirectory other hother)
    rcases package.leadsInside hentry with ⟨-, h⟩ | ⟨_, _, _, _, _, _, _, h⟩
    · rw [h.names, List.cons_prefix_cons] at hprefix
      exact hmanifest hprefix.1
    · rw [h.names] at hprefix
      exact absurd hprefix.length_le (by simp)

/-- The worker finds each file of a built package under its name. -/
theorem BuiltPackage.fileAt_entry (package : BuiltPackage T s) {entry : String × Go.Bytes}
    (h : entry ∈ package.entries) :
    Go.PackageStore.fileAt (package.entries.map zipFile) (zipFile entry).names =
      some entry.2 := by
  have hthere : zipFile entry ∈ package.entries.map zipFile := List.mem_map_of_mem h
  obtain ⟨content, hfile⟩ := Go.PackageStore.exists_fileAt hthere rfl
  obtain ⟨file, hmem, -, hnames, hcontent⟩ := Go.PackageStore.of_fileAt hfile
  obtain ⟨other, hother, rfl⟩ := List.mem_map.mp hmem
  obtain rfl := package.entry_unique h hother hnames
  rw [hfile, ← hcontent]
  rfl

/-! ## Sizes -/

/-- The sizes that the archive declares. -/
def BuiltPackage.declaredSize (package : BuiltPackage T s) : ℕ :=
  (package.cases.map BuiltCase.size).sum + package.text.length

theorem BuiltPackage.length_entries (package : BuiltPackage T s) :
    (package.entries.map zipFile).length = 2 * s.cases.length + 1 := by
  rw [List.length_map, entries, List.length_cons, length_dataEntries, package.length_cases]

theorem declaredSize_dataEntries (cases : List BuiltCase) (first : ℕ)
    (h : (cases.map BuiltCase.size).sum < 2 ^ 64) :
    Go.PackageStore.declaredSize ((dataEntries first (cases.map BuiltCase.input)
      (cases.map BuiltCase.answer)).map zipFile) = (cases.map BuiltCase.size).sum := by
  induction cases generalizing first with
  | nil => rfl
  | cons c rest ih =>
      rw [List.map_cons, List.sum_cons, BuiltCase.size] at h
      have hrest := ih (first + 1) (by omega)
      unfold Go.PackageStore.declaredSize at hrest ⊢
      rw [List.map_cons, List.map_cons, dataEntries, List.map_cons, List.map_cons, List.map_cons,
        List.map_cons, List.sum_cons, List.sum_cons, hrest, List.map_cons, List.sum_cons,
        BuiltCase.size]
      simp only [zipFile, UInt64.toNat_ofNat']
      rw [Nat.mod_eq_of_lt (by omega), Nat.mod_eq_of_lt (by omega), Nat.add_assoc]

/-- The declared sizes of the entries, as the size check sums them. -/
theorem BuiltPackage.declaredSize_entries (package : BuiltPackage T s)
    (h : package.text.length < 2 ^ 63) :
    Go.PackageStore.declaredSize (package.entries.map zipFile) % 2 ^ 64 =
      package.declaredSize := by
  have hsize := package.size
  have hdata := declaredSize_dataEntries package.cases 1 (by omega)
  unfold Go.PackageStore.declaredSize at hdata ⊢
  rw [entries, List.map_cons, List.map_cons, List.sum_cons, hdata, BuiltPackage.declaredSize]
  simp only [zipFile, UInt64.toNat_ofNat']
  rw [Nat.mod_eq_of_lt (a := package.text.length) (by omega), Nat.mod_eq_of_lt (by omega)]
  omega

end JudgeLoom.Authoring
