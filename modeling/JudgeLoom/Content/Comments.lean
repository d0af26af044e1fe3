import JudgeLoom.Library.Except
import JudgeLoom.Problems.Models

/-!
# Comments and their paths

Comments of a post are threaded by materialized paths: a root has one segment of three
digits, a reply has its parent's path and one segment more.  `nextSegment` counts the
siblings on from the largest one.

`int(text)` is modelled for texts of ASCII characters; `create_comment` writes no other
segments.
-/

namespace JudgeLoom

inductive CommentVisibility
  | visible
  | hidden
  | deleted
  deriving DecidableEq, Repr

structure Comment where
  id : ℕ
  post : ℕ
  author : ℕ
  parent : Option ℕ := none
  body : String
  visibility : CommentVisibility := .visible
  score : ℤ := 0
  path : String
  deriving DecidableEq

/-- `path.split(".")`. -/
def segments (path : String) : List String := (path.toList.splitOn '.').map String.ofList

/-- `int(text)`. -/
def parseInt (text : String) : Option ℤ :=
  let stripped := (strip text).toList
  let digits := if stripped.head? ∈ [some '-', some '+'] then stripped.tail else stripped
  let groups := digits.splitOn '_'
  if groups.all fun group => group ≠ [] ∧ group.all Char.isDigit then
    let value : ℤ := Nat.ofDigitChars 10 groups.flatten 0
    some (if stripped.head? = some '-' then -value else value)
  else none

/-- `f"{value:03d}"`, for values that are not negative. -/
def zeroPadded (value : ℕ) : String := String.ofList ((Nat.toDigits 10 value).leftpad 3 '0')

/-- `f"{path}.{segment}"`. -/
def replyPath (path segment : String) : String := path ++ "." ++ segment

namespace Comment

def depth (comment : Comment) : ℕ :=
  if comment.path = "" then 0 else (segments comment.path).length

end Comment

namespace CommentService

def maxDepth : ℕ := 10

def maxSegmentValue : ℤ := 999

def nextSegment (siblingPaths : List String) : Except ServiceError String :=
  if siblingPaths = [] then .ok "001"
  else do
    let currentMax ← siblingPaths.foldlM (fun currentMax siblingPath =>
      match parseInt ((segments siblingPath).getLastD "") with
      | none => .error (.validation "Invalid comment path segment encountered.")
      | some numericValue => .ok (max currentMax numericValue)) (0 : ℤ)
    let nextValue := currentMax + 1
    if maxSegmentValue < nextValue then
      .error (.validation "Too many sibling comments at this depth.")
    else .ok (zeroPadded nextValue.toNat)

/-- What `create_comment` requires of the parent. -/
def checkParent (post : ℕ) : Option Comment → Except ServiceError Unit
  | none => .ok ()
  | some parent =>
      if parent.post ≠ post then
        .error (.validation "Parent comment does not belong to this post.")
      else if maxDepth ≤ parent.depth then .error (.validation "Maximum comment depth reached.")
      else .ok ()

def newPath (parent : Option Comment) (segment : String) : String :=
  match parent with
  | none => segment
  | some parent => replyPath parent.path segment

end CommentService

/-! ## Segments -/

/-- Three digits. -/
def IsSegment (text : String) : Prop := text.length = 3 ∧ ∀ c ∈ text.toList, c.isDigit

theorem isSpace_of_isDigit {c : Char} (hc : c.isDigit) : isSpace c = false := by
  have hrange : 48 ≤ c.toNat ∧ c.toNat ≤ 57 := by
    simpa [Char.isDigit, UInt32.le_iff_toNat_le] using hc
  simp only [isSpace, Bool.or_eq_false_iff, Bool.and_eq_false_imp, decide_eq_false_iff_not,
    decide_eq_true_eq]
  omega

theorem strip_digits {text : String} (h : ∀ c ∈ text.toList, c.isDigit) : strip text = text := by
  have hkeep : ∀ {l : List Char}, (∀ c ∈ l, c.isDigit) → l.dropWhile isSpace = l := by
    intro l hl
    cases l with
    | nil => rfl
    | cons first rest =>
        rw [List.dropWhile_cons_of_neg]
        simp [isSpace_of_isDigit (hl first List.mem_cons_self)]
  unfold strip
  rw [hkeep h, hkeep fun c hc => h c (List.mem_reverse.mp hc), List.reverse_reverse,
    String.ofList_toList]

/-- Digits are the number they write. -/
theorem parseInt_digits {text : String} (hne : text ≠ "") (h : ∀ c ∈ text.toList, c.isDigit) :
    parseInt text = some (Nat.ofDigitChars 10 text.toList 0 : ℤ) := by
  have hsplit : text.toList.splitOn '_' = [text.toList] :=
    List.splitOn_eq_singleton fun hmem => absurd (h '_' hmem) (by decide)
  have hnil : text.toList ≠ [] := fun heq => hne (String.toList_eq_nil_iff.mp heq)
  obtain ⟨first, rest, hcons⟩ := List.exists_cons_of_ne_nil hnil
  have hfirst : first.isDigit := h first (hcons ▸ List.mem_cons_self)
  have hminus : first ≠ '-' := fun heq => absurd (heq ▸ hfirst) (by decide)
  have hplus : first ≠ '+' := fun heq => absurd (heq ▸ hfirst) (by decide)
  have hhead : text.toList.head? = some first := by rw [hcons, List.head?_cons]
  unfold parseInt
  rw [strip_digits h]
  simpa [hhead, hminus, hplus, hsplit, hnil] using h

theorem IsSegment.ne_empty {text : String} (h : IsSegment text) : text ≠ "" := by
  rintro rfl
  exact absurd h.1 (by decide)

/-- A segment has no separator. -/
theorem IsSegment.dot_notMem {text : String} (h : IsSegment text) : '.' ∉ text.toList :=
  fun hmem => absurd (h.2 '.' hmem) (by decide)

theorem isSegment_zeroPadded {value : ℕ} (h : value < 1000) : IsSegment (zeroPadded value) := by
  have hlength : (Nat.toDigits 10 value).length ≤ 3 :=
    (Nat.length_toDigits_le_iff (by decide) (by decide)).mpr h
  unfold zeroPadded
  constructor
  · rw [String.length_ofList, List.length_leftpad, max_eq_left hlength]
  · intro c hc
    rw [String.toList_ofList, List.leftpad, List.mem_append] at hc
    rcases hc with hpad | hdigit
    · rw [(List.mem_replicate.mp hpad).2]
      decide
    · exact Nat.isDigit_of_mem_toDigits (by decide) (by decide) hdigit

theorem parseInt_zeroPadded {value : ℕ} (h : value < 1000) :
    parseInt (zeroPadded value) = some (value : ℤ) := by
  have hsegment := isSegment_zeroPadded h
  rw [parseInt_digits hsegment.ne_empty hsegment.2, zeroPadded, String.toList_ofList,
    List.leftpad, Nat.ofDigitChars_append, Nat.ofDigitChars_replicate_zero, mul_zero,
    Nat.ofDigitChars_ten_toDigits]

/-! ## Paths -/

theorem toList_replyPath (path segment : String) :
    (replyPath path segment).toList = path.toList ++ '.' :: segment.toList := by
  simp [replyPath]

theorem segments_segment {segment : String} (h : IsSegment segment) :
    segments segment = [segment] := by
  rw [segments, List.splitOn_eq_singleton h.dot_notMem, List.map_singleton, String.ofList_toList]

/-- A reply has one segment more than its parent. -/
theorem segments_replyPath {segment : String} (h : IsSegment segment) (path : String) :
    segments (replyPath path segment) = segments path ++ [segment] := by
  rw [segments, toList_replyPath, List.splitOn_append_cons_self, List.map_append, ← segments,
    ← segments, segments_segment h]

theorem replyPath_inj {path path' segment segment' : String} (h : IsSegment segment)
    (h' : IsSegment segment') (heq : replyPath path segment = replyPath path' segment') :
    path = path' ∧ segment = segment' := by
  have hlist := congrArg String.toList heq
  rw [toList_replyPath, toList_replyPath] at hlist
  have hlength : ('.' :: segment.toList).length = ('.' :: segment'.toList).length := by
    rw [List.length_cons, List.length_cons, String.length_toList, String.length_toList, h.1, h'.1]
  obtain ⟨hpath, hsegment⟩ := List.append_inj' hlist hlength
  exact ⟨String.toList_inj.mp hpath, String.toList_inj.mp (List.tail_eq_of_cons_eq hsegment)⟩

/-- A root is no reply. -/
theorem IsSegment.ne_replyPath {segment path last : String} (h : IsSegment segment) :
    segment ≠ replyPath path last := by
  intro heq
  apply h.dot_notMem
  rw [heq, toList_replyPath]
  exact List.mem_append_right _ List.mem_cons_self

theorem replyPath_ne_empty (path segment : String) : replyPath path segment ≠ "" := by
  intro heq
  have hlist := congrArg String.toList heq
  rw [toList_replyPath] at hlist
  exact absurd hlist (by simp)

/-! ## The next segment -/

namespace CommentService

/-- The number of the last segment. -/
def lastValue (path : String) : Option ℤ := parseInt ((segments path).getLastD "")

theorem foldlM_lastValue {paths : List String} {first last : ℤ}
    (h : paths.foldlM (fun currentMax siblingPath =>
      match parseInt ((segments siblingPath).getLastD "") with
      | none => .error (.validation "Invalid comment path segment encountered.")
      | some numericValue => .ok (max currentMax numericValue)) first =
        (.ok last : Except ServiceError ℤ)) :
    first ≤ last ∧ ∀ path ∈ paths, ∃ value, lastValue path = some value ∧ value ≤ last := by
  induction paths generalizing first with
  | nil =>
      cases h
      exact ⟨le_rfl, fun path hpath => absurd hpath List.not_mem_nil⟩
  | cons path rest ih =>
      rw [List.foldlM_cons] at h
      cases hvalue : parseInt ((segments path).getLastD "") with
      | none =>
          rw [hvalue] at h
          cases h
      | some value =>
          rw [hvalue] at h
          obtain ⟨hfirst, hrest⟩ := ih h
          obtain ⟨hle, hvalueLe⟩ := max_le_iff.mp hfirst
          refine ⟨hle, List.forall_mem_cons.mpr ⟨⟨value, hvalue, hvalueLe⟩, hrest⟩⟩

/-- The next segment is the number of three digits after all the siblings. -/
theorem nextSegment_eq_ok {paths : List String} {segment : String}
    (h : nextSegment paths = .ok segment) :
    ∃ next < 1000, segment = zeroPadded next ∧
      ∀ path ∈ paths, ∃ value, lastValue path = some value ∧ value < next := by
  unfold nextSegment at h
  split_ifs at h with hempty
  · cases h
    refine ⟨1, by decide, by decide, ?_⟩
    rw [hempty]
    exact fun path hpath => absurd hpath List.not_mem_nil
  · obtain ⟨currentMax, hmax, h⟩ := Except.bind_eq_ok.mp h
    dsimp only at h
    split_ifs at h with hlarge
    cases h
    obtain ⟨hnonneg, hvalues⟩ := foldlM_lastValue hmax
    unfold maxSegmentValue at hlarge
    refine ⟨(currentMax + 1).toNat, by omega, rfl, fun path hpath => ?_⟩
    obtain ⟨value, hvalue, hle⟩ := hvalues path hpath
    exact ⟨value, hvalue, by omega⟩

end CommentService

end JudgeLoom
