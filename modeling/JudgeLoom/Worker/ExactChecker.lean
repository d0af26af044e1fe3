import JudgeLoom.Worker.Checker

/-!
# What the built-in comparison ignores

`normalize` replaces, splits, trims, joins and trims again.  `lines` reads a text the
way it is meant, as lines that end with LF or CRLF, and `significantLines` are the
trimmed lines without the empty ones at the end.  A normalised text spells its
significant lines out (`normalize_eq`), and they can be read off it, so the comparison
accepts exactly if the significant lines agree.

Normalising twice is another matter.  Trimming a line can leave a CR at its end, which
the LF after it then turns into a line end of its own.  `normalize_normalize_iff` says
that this is the only way in which a second pass changes anything.
-/

namespace JudgeLoom.Go.Checker

/-! ## Lines -/

/-- The lines of a text, which end at LF or CRLF. -/
def lines : Bytes → List Bytes
  | [] => [[]]
  | 13 :: 10 :: rest => [] :: lines rest
  | 10 :: rest => [] :: lines rest
  | byte :: rest => (lines rest).modifyHead (byte :: ·)

/-- A line without the blanks and tabs at its end. -/
def trimLine (line : Bytes) : Bytes := line.rdropWhile fun byte => byte = 32 ∨ byte = 9

/-- The trimmed lines of a text without the empty ones at its end. -/
def significantLines (data : Bytes) : List Bytes :=
  ((lines data).map trimLine).rdropWhile (· = [])

/-- The line that a terminated line is read as: a CR at its end belongs to the CRLF. -/
def dropCR (line : Bytes) : Bytes := if line.getLast? = some 13 then line.dropLast else line

theorem lines_ne_nil (data : Bytes) : lines data ≠ [] := by
  fun_induction lines data with
  | case1 => exact List.cons_ne_nil _ _
  | case2 => exact List.cons_ne_nil _ _
  | case3 => exact List.cons_ne_nil _ _
  | case4 byte rest _ _ ih =>
      intro h
      exact ih (List.modifyHead_eq_nil_iff.mp h)

/-- Replacing CRLF and splitting at LF gives the lines of the text. -/
theorem splitOn_unixLines (data : Bytes) : (unixLines data).splitOn 10 = lines data := by
  fun_induction lines data with
  | case1 => rfl
  | case2 rest ih =>
      rw [unixLines, List.splitOn_cons_eq_if_modifyHead, if_pos (beq_self_eq_true 10), ih]
  | case3 rest ih =>
      rw [unixLines, List.splitOn_cons_eq_if_modifyHead, if_pos (beq_self_eq_true 10), ih]
      simp
  | case4 byte rest hcrlf hlf ih =>
      have hne : ¬ (byte == 10) = true := by simpa using hlf
      rw [unixLines, List.splitOn_cons_eq_if_modifyHead, if_neg hne, ih]
      exact hcrlf

theorem lf_notMem_of_mem_lines {data : Bytes} : ∀ line ∈ lines data, 10 ∉ line := by
  fun_induction lines data with
  | case1 => simp
  | case2 rest ih => simpa using ih
  | case3 rest ih => simpa using ih
  | case4 byte rest _ hlf ih =>
      have hne : (10 : UInt8) ≠ byte := Ne.symm (by simpa using hlf)
      intro line hline
      cases hlines : lines rest with
      | nil => exact absurd hlines (lines_ne_nil rest)
      | cons first others =>
          rw [hlines] at hline ih
          rcases List.mem_cons.mp hline with rfl | hline
          · rw [List.mem_cons, not_or]
            exact ⟨hne, ih first List.mem_cons_self⟩
          · exact ih line (List.mem_cons_of_mem _ hline)

theorem lines_cons {byte : UInt8} {rest : Bytes} (hlf : byte ≠ 10)
    (hcrlf : byte = 13 → rest.head? ≠ some 10) :
    lines (byte :: rest) = (lines rest).modifyHead (byte :: ·) := by
  apply lines.eq_4 byte rest _ hlf
  intro after hbyte hrest
  exact hcrlf hbyte (by rw [hrest, List.head?_cons])

theorem dropCR_cons {byte : UInt8} {line : Bytes} (h : byte = 13 → line ≠ []) :
    dropCR (byte :: line) = byte :: dropCR line := by
  cases line with
  | nil => simp [dropCR, show byte ≠ 13 from fun hbyte => h hbyte rfl]
  | cons second line =>
      simp only [dropCR, List.getLast?_cons_cons, List.dropLast_cons₂]
      split <;> rfl

/-- A text without LF is one line. -/
theorem lines_of_lf_notMem {line : Bytes} (hline : 10 ∉ line) : lines line = [line] := by
  induction line with
  | nil => rfl
  | cons byte line ih =>
      rw [List.mem_cons, not_or] at hline
      rw [lines_cons (Ne.symm hline.1), ih hline.2, List.modifyHead_cons]
      intro _ hhead
      exact hline.2 (List.mem_of_mem_head? hhead)

/-- The first line of a text, up to its LF, and the lines after it. -/
theorem lines_append_lf {line : Bytes} (hline : 10 ∉ line) (rest : Bytes) :
    lines (line ++ 10 :: rest) = dropCR line :: lines rest := by
  induction line with
  | nil => rfl
  | cons byte line ih =>
      rw [List.mem_cons, not_or] at hline
      by_cases hcr : byte = 13 ∧ line = []
      · -- the line is the CR of a CRLF
        rw [hcr.1, hcr.2]
        rfl
      · have hnext : byte = 13 → (line ++ 10 :: rest).head? ≠ some 10 := by
          intro hbyte hhead
          cases line with
          | nil => exact hcr ⟨hbyte, rfl⟩
          | cons second line =>
              exact hline.2 (Option.some.inj hhead ▸ List.mem_cons_self)
        rw [List.cons_append, lines_cons (Ne.symm hline.1) hnext, ih hline.2,
          List.modifyHead_cons, dropCR_cons fun hbyte hnil => hcr ⟨hbyte, hnil⟩]

/-- The lines of lines that are spelled out: each but the last may lose a CR. -/
theorem lines_intercalate {spelled : List Bytes} {last : Bytes}
    (hspelled : ∀ line ∈ spelled, 10 ∉ line) (hlast : 10 ∉ last) :
    lines ([10].intercalate (spelled ++ [last])) = spelled.map dropCR ++ [last] := by
  induction spelled with
  | nil => rw [List.nil_append, List.intercalate_singleton, lines_of_lf_notMem hlast]; rfl
  | cons line rest ih =>
      rw [List.forall_mem_cons] at hspelled
      rw [List.cons_append, List.intercalate_cons_of_ne_nil (by simp), List.append_assoc,
        List.singleton_append, lines_append_lf hspelled.1, ih hspelled.2]
      rfl

/-! ## Significant lines -/

/-- Lines that a normalised text can have: trimmed, and none empty at the end. -/
structure Significant (spelled : List Bytes) : Prop where
  lf_notMem : ∀ line ∈ spelled, 10 ∉ line
  trimmed : ∀ line ∈ spelled, trimLine line = line
  last : spelled.getLast? ≠ some []

theorem significant_significantLines (data : Bytes) : Significant (significantLines data) := by
  have hmem : ∀ line ∈ significantLines data, ∃ line' ∈ lines data, trimLine line' = line :=
    fun line hline => List.mem_map.mp ((List.rdropWhile_prefix _ _).subset hline)
  constructor
  · intro line hline hlf
    obtain ⟨line', hline', rfl⟩ := hmem line hline
    exact lf_notMem_of_mem_lines line' hline' ((List.rdropWhile_prefix _ _).subset hlf)
  · intro line hline
    obtain ⟨line', -, rfl⟩ := hmem line hline
    exact List.rdropWhile_idempotent _ _
  · intro hlast
    have hne : significantLines data ≠ [] := by
      intro hnil
      rw [hnil] at hlast
      cases hlast
    refine List.rdropWhile_last_not (fun line => line = []) ((lines data).map trimLine) hne ?_
    exact decide_eq_true (List.getLast_of_getLast?_eq_some hlast)

theorem intercalate_concat {before : List Bytes} (hbefore : before ≠ []) (last : Bytes) :
    [10].intercalate (before ++ [last]) = [10].intercalate before ++ 10 :: last := by
  induction before with
  | nil => exact absurd rfl hbefore
  | cons first rest ih =>
      by_cases hrest : rest = []
      · rw [hrest]
        simp
      · rw [List.cons_append, List.intercalate_cons_of_ne_nil (by simp), ih hrest,
          List.intercalate_cons_of_ne_nil hrest]
        simp

/-- Spelling lines out and dropping the LFs at the end leaves out the empty lines there. -/
theorem rdropWhile_intercalate {spelled : List Bytes} (h : ∀ line ∈ spelled, 10 ∉ line) :
    ([10].intercalate spelled).rdropWhile (· = 10) =
      [10].intercalate (spelled.rdropWhile (· = [])) := by
  induction spelled using List.reverseRecOn with
  | nil => rfl
  | append_singleton before last ih =>
      rw [List.forall_mem_append, List.forall_mem_singleton] at h
      by_cases hlast : last = []
      · rw [List.rdropWhile_concat_pos _ _ _ (by simpa using hlast), ← ih h.1, hlast]
        by_cases hbefore : before = []
        · rw [hbefore]
          rfl
        · rw [intercalate_concat hbefore]
          exact List.rdropWhile_concat_pos _ _ _ (by simp)
      · rw [List.rdropWhile_concat_neg _ _ _ (by simpa using hlast)]
        -- the last byte is one of the last line
        obtain ⟨init, byte, hinit⟩ := List.eq_nil_or_concat last |>.resolve_left hlast
        obtain ⟨front, hfront⟩ : ∃ front, [10].intercalate (before ++ [last]) = front ++ [byte] := by
          by_cases hbefore : before = []
          · exact ⟨init, by rw [hbefore, List.nil_append, List.intercalate_singleton, hinit,
              List.concat_eq_append]⟩
          · exact ⟨[10].intercalate before ++ 10 :: init, by
              rw [intercalate_concat hbefore, hinit]; simp⟩
        have hbyte : byte ≠ 10 := by
          rintro rfl
          exact h.2 (by rw [hinit]; simp)
        rw [hfront]
        exact List.rdropWhile_concat_neg _ _ _ (by simpa using hbyte)

theorem normalize_eq (data : Bytes) : normalize data = [10].intercalate (significantLines data) := by
  have hlf : ∀ line ∈ (lines data).map trimLine, 10 ∉ line := by
    intro line hline hmem
    obtain ⟨line', hline', rfl⟩ := List.mem_map.mp hline
    exact lf_notMem_of_mem_lines line' hline' ((List.rdropWhile_prefix _ _).subset hmem)
  rw [significantLines, ← rdropWhile_intercalate hlf, ← splitOn_unixLines]
  rfl

namespace Significant

variable {spelled other : List Bytes}

/-- Lines that a normalised text spells out can be read off it. -/
theorem eq_of_intercalate_eq (hspelled : Significant spelled) (hother : Significant other)
    (h : [10].intercalate spelled = [10].intercalate other) : spelled = other := by
  -- no line and one empty line are spelled alike, but only the former is significant
  have hempty : ∀ {lines : List Bytes}, Significant lines → [10].intercalate lines = [] →
      lines = [] := by
    intro lines hlines hnil
    by_contra hne
    have hsplit := List.splitOn_intercalate 10 hlines.lf_notMem hne
    rw [hnil] at hsplit
    exact hlines.last (by rw [← hsplit]; rfl)
  by_cases hnil : spelled = []
  · rw [hnil] at h ⊢
    exact (hempty hother h.symm).symm
  · have hnil' : other ≠ [] := by
      rintro rfl
      exact hnil (hempty hspelled h)
    rw [← List.splitOn_intercalate 10 hspelled.lf_notMem hnil, h,
      List.splitOn_intercalate 10 hother.lf_notMem hnil']

/-- Reading lines that are spelled out trims each but the last once more, after the CR of
a CRLF is gone. -/
theorem significantLines_intercalate (h : Significant spelled) :
    significantLines ([10].intercalate spelled) =
      spelled.dropLast.map (fun line => trimLine (dropCR line)) ++ spelled.getLast?.toList := by
  rcases List.eq_nil_or_concat spelled with rfl | ⟨before, last, rfl⟩
  · rfl
  · rw [List.concat_eq_append] at h ⊢
    have hlast : last ≠ [] := fun hnil => h.last (by rw [hnil, List.getLast?_concat])
    have hlf := List.forall_mem_append.mp h.lf_notMem
    rw [significantLines, lines_intercalate hlf.1 (hlf.2 last List.mem_cons_self),
      List.map_append, List.map_map, List.map_singleton, h.trimmed last (by simp),
      List.rdropWhile_concat_neg _ _ _ (by simpa using hlast)]
    simp [Function.comp_def]

/-- They are read back unless one of them, not the last, ends in CR. -/
theorem significantLines_intercalate_iff (h : Significant spelled) :
    significantLines ([10].intercalate spelled) = spelled ↔
      ∀ line ∈ spelled.dropLast, line.getLast? ≠ some 13 := by
  have hsplit : spelled.dropLast.map id ++ spelled.getLast?.toList = spelled := by
    rcases List.eq_nil_or_concat spelled with rfl | ⟨before, last, rfl⟩
    · rfl
    · simp
  have hiff : significantLines ([10].intercalate spelled) = spelled ↔
      ∀ line ∈ spelled.dropLast, trimLine (dropCR line) = line := by
    rw [h.significantLines_intercalate]
    nth_rewrite 3 [← hsplit]
    rw [List.append_cancel_right_eq, List.map_inj_left]
    rfl
  rw [hiff]
  refine forall₂_congr fun line hline => ?_
  constructor
  · intro heq hcr
    -- without the CR the line is shorter
    have hlength : (trimLine (dropCR line)).length ≤ line.length - 1 := by
      rw [dropCR, if_pos hcr, ← List.length_dropLast]
      exact (List.rdropWhile_prefix _ _).length_le
    have hpos : 0 < line.length := List.length_pos_of_mem (List.mem_of_getLast? hcr)
    rw [heq] at hlength
    omega
  · intro hcr
    rw [dropCR, if_neg hcr]
    exact h.trimmed line (List.dropLast_subset _ hline)

end Significant

/-! ## The comparison -/

/-- A second pass over the normalised text finds the same lines. -/
def KeepsLines (data : Bytes) : Prop :=
  ∀ line ∈ (significantLines data).dropLast, line.getLast? ≠ some 13

theorem normalize_eq_normalize_iff {data other : Bytes} :
    normalize data = normalize other ↔ significantLines data = significantLines other := by
  rw [normalize_eq, normalize_eq]
  constructor
  · intro h
    exact (significant_significantLines data).eq_of_intercalate_eq
      (significant_significantLines other) h
  · intro h
    rw [h]

theorem normalize_normalize_iff {data : Bytes} :
    normalize (normalize data) = normalize data ↔ KeepsLines data := by
  rw [normalize_eq_normalize_iff, normalize_eq data]
  exact (significant_significantLines data).significantLines_intercalate_iff

theorem exact_accepts_iff {answer output : Bytes} :
    (exact answer output).status = .AC ↔ normalize answer = normalize output := by
  unfold exact
  split
  · next h => exact ⟨fun _ => h, fun _ => rfl⟩
  · next h =>
      constructor
      · intro hstatus
        cases hstatus
      · intro heq
        exact absurd heq h

/-- The built-in comparison accepts exactly if the texts agree line by line in their
significant lines.  Normalising a text again, or comparing its normalised form in its
place, makes no difference exactly if none of its significant lines, the last one
excepted, ends in CR. -/
theorem exact_significantLines :
    (∀ answer output, (exact answer output).status = .AC ↔
      significantLines answer = significantLines output) ∧
    ∀ data, (normalize (normalize data) = normalize data ↔ KeepsLines data) ∧
      ((∀ other, exact (normalize data) other = exact data other ∧
        exact other (normalize data) = exact other data) ↔ KeepsLines data) := by
  refine ⟨fun answer output => exact_accepts_iff.trans normalize_eq_normalize_iff, fun data =>
    ⟨normalize_normalize_iff, ?_⟩⟩
  rw [← normalize_normalize_iff]
  constructor
  · intro h
    -- a text is accepted as its own answer
    have hself : (exact data data).status = .AC := exact_accepts_iff.mpr rfl
    rw [← (h data).1] at hself
    exact exact_accepts_iff.mp hself
  · intro h other
    unfold exact
    rw [h]
    exact ⟨rfl, rfl⟩

/-- A CR before a trailing blank: the normalised text `x CR LF y` is normalised again to
`x LF y`, so it is not accepted in place of the text it came from. -/
theorem normalize_not_idempotent :
    normalize (normalize [120, 13, 32, 10, 121]) ≠ normalize [120, 13, 32, 10, 121] ∧
    (exact [120, 13, 32, 10, 121] [120, 13, 32, 10, 121]).status = .AC ∧
    (exact (normalize [120, 13, 32, 10, 121]) [120, 13, 32, 10, 121]).status = .WA := by
  decide

end JudgeLoom.Go.Checker
