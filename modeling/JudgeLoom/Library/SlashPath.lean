import Mathlib.Data.List.DropRight
import Mathlib.Data.List.SplitOn
import Mathlib.Tactic.Common

/-!
# Paths written with slashes

A path is a text; its elements are what stands between the slashes.  `locate` says
where a path leads in a tree of directories, by following its elements one by one
from a working directory.  `clean` is the lexical simplification of Go's `path.Clean`
and `join` that of `filepath.Join`.

Cleaning does not change where a path leads (`locate_clean`), and a cleaned path has
its `..` elements in front only (`exists_cleaned_eq`).  So a cleaned relative path
that does not begin with `..` leads below its starting point, and a cleaned path that
begins with another one, which ends in a name, leads below that one
(`locate_prefix_of_prefix`).

The alphabet is a parameter: paths are byte strings in one place and texts in another.
-/

universe u

/-- The two letters of an alphabet that paths give a meaning to. -/
class PathSyntax (α : Type u) where
  sep : α
  dot : α
  sep_ne_dot : sep ≠ dot

namespace SlashPath

open PathSyntax

variable {α : Type u} [DecidableEq α] [PathSyntax α]

/-- What stands between the slashes of a path. -/
def elements (path : List α) : List (List α) := path.splitOn sep

/-- The element that leads to the parent. -/
def up : List α := [dot, dot]

/-- An element that leads nowhere else. -/
def Stays (element : List α) : Prop := element = [] ∨ element = [dot]

instance : DecidablePred (Stays (α := α)) := fun element =>
  inferInstanceAs (Decidable (element = [] ∨ element = [dot]))

/-- An element that is the name of something in a directory. -/
def Ordinary (element : List α) : Prop := ¬ Stays element ∧ element ≠ up

instance : DecidablePred (Ordinary (α := α)) := fun element =>
  inferInstanceAs (Decidable (¬ Stays element ∧ element ≠ up))

def isAbs (path : List α) : Bool := path.head? = some sep

/-! ## Where a path leads -/

/-- Follow one element.  The parent of the root is the root. -/
def step (location : List (List α)) (element : List α) : List (List α) :=
  if Stays element then location
  else if element = up then location.dropLast
  else location ++ [element]

/-- Where a path leads from a working directory. -/
def locate (cwd : List (List α)) (path : List α) : List (List α) :=
  (elements path).foldl step (if isAbs path then [] else cwd)

theorem step_of_ordinary {location : List (List α)} {element : List α} (h : Ordinary element) :
    step location element = location ++ [element] := by
  rw [step, if_neg h.1, if_neg h.2]

/-- Names are followed downwards. -/
theorem foldl_step_of_ordinary {names : List (List α)} (h : ∀ name ∈ names, Ordinary name)
    (location : List (List α)) : names.foldl step location = location ++ names := by
  induction names generalizing location with
  | nil => rw [List.foldl_nil, List.append_nil]
  | cons name rest ih =>
      rw [List.forall_mem_cons] at h
      rw [List.foldl_cons, step_of_ordinary h.1, ih h.2, List.append_assoc, List.singleton_append]

/-! ## Elements -/

theorem elements_append_sep (front back : List α) :
    elements (front ++ sep :: back) = elements front ++ elements back :=
  List.splitOn_append_cons_self front back

theorem elements_of_sep_notMem {path : List α} (h : sep ∉ path) : elements path = [path] :=
  List.splitOn_eq_singleton h

theorem elements_ne_nil (path : List α) : elements path ≠ [] := List.splitOn_ne_nil sep path

theorem sep_notMem_of_mem_elements (path : List α) :
    ∀ element ∈ elements path, sep ∉ element := by
  induction path with
  | nil => simp [elements]
  | cons letter rest ih =>
      unfold elements at ih ⊢
      rw [List.splitOn_cons_eq_if_modifyHead]
      split
      · simpa using ih
      · next hletter =>
          obtain ⟨first, others, hsplit⟩ := List.exists_cons_of_ne_nil (elements_ne_nil rest)
          unfold elements at hsplit
          rw [hsplit, List.forall_mem_cons] at ih
          rw [hsplit, List.modifyHead_cons, List.forall_mem_cons]
          refine ⟨?_, ih.2⟩
          rw [List.mem_cons, not_or]
          exact ⟨fun heq => hletter (by simp [heq]), ih.1⟩

/-- Elements that are put together with slashes come apart again. -/
theorem elements_intercalate {names : List (List α)} (h : ∀ name ∈ names, sep ∉ name)
    (hne : names ≠ []) : elements ([sep].intercalate names) = names :=
  List.splitOn_intercalate sep h hne

theorem intercalate_append {front back : List (List α)} (hfront : front ≠ []) (hback : back ≠ []) :
    [sep].intercalate (front ++ back) =
      [sep].intercalate front ++ sep :: [sep].intercalate back := by
  induction front with
  | nil => exact absurd rfl hfront
  | cons first rest ih =>
      by_cases hrest : rest = []
      · rw [hrest, List.singleton_append, List.intercalate_singleton,
          List.intercalate_cons_of_ne_nil hback, List.append_assoc, List.singleton_append]
      · rw [List.cons_append, List.intercalate_cons_of_ne_nil (by simp [hrest]), ih hrest,
          List.intercalate_cons_of_ne_nil hrest]
        simp only [List.append_assoc]

theorem isAbs_append {front : List α} (h : front ≠ []) (back : List α) :
    isAbs (front ++ back) = isAbs front := by
  unfold isAbs
  rw [List.head?_append_of_ne_nil front h]

/-! ## Cleaning -/

/-- Drop what stays, and let `..` cancel the name before it; a rooted path has no parent
to begin with. -/
def cleanStep (rooted : Bool) (kept : List (List α)) (element : List α) : List (List α) :=
  if Stays element then kept
  else if element = up then
    if kept.getLast?.any (· ≠ up) then kept.dropLast
    else if rooted then kept
    else kept ++ [up]
  else kept ++ [element]

/-- The elements of a path that cleaning keeps. -/
def cleaned (path : List α) : List (List α) :=
  (elements path).foldl (cleanStep (isAbs path)) []

/-- `path.Clean`. -/
def clean (path : List α) : List α :=
  if isAbs path then sep :: [sep].intercalate (cleaned path)
  else if cleaned path = [] then [dot]
  else [sep].intercalate (cleaned path)

/-- `filepath.Join` of two paths. -/
def join (front back : List α) : List α :=
  if front = [] then if back = [] then [] else clean back
  else clean (front ++ sep :: back)

/-- `filepath.Dir`. -/
def dir (path : List α) : List α := clean (path.rdropWhile (· ≠ sep))

/-- Elements that cleaning leaves as they are: parents in front, unless the path is rooted,
and then names. -/
def Cleaned (rooted : Bool) (kept : List (List α)) : Prop :=
  ∃ n names, kept = List.replicate n up ++ names ∧ (∀ name ∈ names, Ordinary name) ∧
    (rooted = true → n = 0)

theorem not_stays_up : ¬ Stays (up : List α) := by
  simp [Stays, up]

theorem any_getLast?_replicate (n : ℕ) :
    (List.replicate n (up : List α)).getLast?.any (· ≠ up) = false := by
  rw [List.getLast?_replicate]
  split <;> simp

theorem any_getLast?_concat {front : List (List α)} {last : List α} (h : Ordinary last) :
    (front ++ [last]).getLast?.any (· ≠ up) = true := by
  rw [List.getLast?_concat, Option.any_some, decide_eq_true_iff]
  exact h.2

/-- One step of cleaning keeps the form of the elements, and leads where the element leads. -/
theorem Cleaned.cleanStep {rooted : Bool} {kept start : List (List α)} (h : Cleaned rooted kept)
    (hstart : rooted = true → start = []) (element : List α) :
    Cleaned rooted (cleanStep rooted kept element) ∧
      (SlashPath.cleanStep rooted kept element).foldl step start =
        step (kept.foldl step start) element := by
  unfold SlashPath.cleanStep
  by_cases hstays : Stays element
  · rw [if_pos hstays, step, if_pos hstays]
    exact ⟨h, rfl⟩
  obtain ⟨n, names, rfl, hnames, hrooted⟩ := h
  by_cases hup : element = up
  · rw [if_neg hstays, if_pos hup, step, if_neg hstays, if_pos hup]
    rcases List.eq_nil_or_concat names with rfl | ⟨before, last, rfl⟩
    · -- only parents so far
      rw [List.append_nil, any_getLast?_replicate, if_neg Bool.false_ne_true]
      by_cases hroot : rooted = true
      · obtain rfl := hrooted hroot
        rw [if_pos hroot, hstart hroot]
        exact ⟨⟨0, [], rfl, hnames, hrooted⟩, rfl⟩
      · rw [if_neg hroot, List.foldl_concat]
        refine ⟨⟨n + 1, [], ?_, hnames, fun h => absurd h hroot⟩, ?_⟩
        · rw [List.append_nil, List.replicate_succ']
        · rw [step, if_neg not_stays_up, if_pos rfl]
    · -- a name to cancel
      rw [List.concat_eq_append, List.forall_mem_append, List.forall_mem_singleton] at hnames
      rw [List.concat_eq_append, ← List.append_assoc, any_getLast?_concat hnames.2, if_pos rfl,
        List.dropLast_concat, List.foldl_concat, step_of_ordinary hnames.2, List.dropLast_concat]
      exact ⟨⟨n, before, rfl, hnames.1, hrooted⟩, rfl⟩
  · rw [if_neg hstays, if_neg hup, step, if_neg hstays, if_neg hup, List.foldl_concat,
      step_of_ordinary ⟨hstays, hup⟩]
    refine ⟨⟨n, names ++ [element], List.append_assoc _ _ _, ?_, hrooted⟩, rfl⟩
    rw [List.forall_mem_append, List.forall_mem_singleton]
    exact ⟨hnames, hstays, hup⟩

theorem Cleaned.foldl_cleanStep {rooted : Bool} {kept start : List (List α)}
    (h : Cleaned rooted kept) (hstart : rooted = true → start = []) (path : List (List α)) :
    Cleaned rooted (path.foldl (SlashPath.cleanStep rooted) kept) ∧
      (path.foldl (SlashPath.cleanStep rooted) kept).foldl step start =
        path.foldl step (kept.foldl step start) := by
  induction path generalizing kept with
  | nil => exact ⟨h, rfl⟩
  | cons element rest ih =>
      obtain ⟨hkept, hlead⟩ := h.cleanStep hstart element
      rw [List.foldl_cons, List.foldl_cons, ← hlead]
      exact ih hkept

/-- The elements that cleaning keeps have the form of a cleaned path, and lead where the path
leads. -/
theorem cleaned_spec (path : List α) : Cleaned (isAbs path) (cleaned path) :=
  (Cleaned.foldl_cleanStep ⟨0, [], rfl, by simp, fun _ => rfl⟩ (fun _ => rfl) (elements path)).1

theorem foldl_step_cleaned (cwd : List (List α)) (path : List α) :
    (cleaned path).foldl step (if isAbs path then [] else cwd) = locate cwd path := by
  refine (Cleaned.foldl_cleanStep ⟨0, [], rfl, by simp, fun _ => rfl⟩ ?_ (elements path)).2
  intro habs
  rw [if_pos habs]

/-- Cleaning makes up no elements. -/
theorem cleanStep_subset (rooted : Bool) (kept : List (List α)) (element : List α) :
    cleanStep rooted kept element ⊆ element :: kept := by
  have hkept : kept ⊆ element :: kept := List.subset_cons_self element kept
  have hconcat : kept ++ [element] ⊆ element :: kept :=
    List.append_subset.mpr ⟨hkept, List.cons_subset.mpr ⟨List.mem_cons_self, List.nil_subset _⟩⟩
  unfold cleanStep
  split_ifs with _ hup _ _
  · exact hkept
  · exact List.Subset.trans (List.dropLast_subset kept) hkept
  · exact hkept
  · rwa [← hup]
  · exact hconcat

theorem cleaned_subset (path : List α) : cleaned path ⊆ elements path := by
  have hfold : ∀ es kept : List (List α),
      es.foldl (cleanStep (isAbs path)) kept ⊆ kept ++ es := by
    intro es
    induction es with
    | nil => exact fun kept => List.subset_append_left kept []
    | cons first rest ih =>
        intro kept element helement
        rcases List.mem_append.mp (ih _ helement) with hmem | hmem
        · rcases List.mem_cons.mp (cleanStep_subset _ _ _ hmem) with rfl | hmem
          · exact List.mem_append_right _ List.mem_cons_self
          · exact List.mem_append_left _ hmem
        · exact List.mem_append_right _ (List.mem_cons_of_mem _ hmem)
  exact hfold (elements path) []

/-! ## Cleaned paths -/

variable {cwd : List (List α)} {path : List α}

theorem not_stays_of_mem_cleaned {element : List α} (h : element ∈ cleaned path) :
    ¬ Stays element := by
  obtain ⟨n, names, heq, hnames, -⟩ := cleaned_spec path
  rw [heq] at h
  rcases List.mem_append.mp h with h | h
  · rw [List.eq_of_mem_replicate h]
    exact not_stays_up
  · exact (hnames element h).1

theorem sep_notMem_of_mem_cleaned : ∀ element ∈ cleaned path, sep ∉ element :=
  fun element h => sep_notMem_of_mem_elements path element (cleaned_subset path h)

theorem isAbs_cons_sep (rest : List α) : isAbs (sep :: rest) = true := by
  simp [isAbs]

theorem elements_cons_sep (rest : List α) : elements (sep :: rest) = [] :: elements rest :=
  elements_append_sep [] rest

/-- The elements of a cleaned path are those that cleaning kept; a rooted one begins with a
slash. -/
theorem elements_clean (h : cleaned path ≠ []) :
    elements (clean path) = (if isAbs path then [[]] else []) ++ cleaned path := by
  have hkept := elements_intercalate sep_notMem_of_mem_cleaned h
  unfold clean
  split
  · rw [elements_cons_sep, hkept]
    rfl
  · rw [hkept]
    rfl

theorem isAbs_clean (path : List α) : isAbs (clean path) = isAbs path := by
  unfold clean
  split
  · next habs => rw [isAbs_cons_sep, habs]
  · next habs =>
      rw [Bool.not_eq_true] at habs
      rw [habs]
      split
      · simp [isAbs, Ne.symm sep_ne_dot]
      · next hne =>
          obtain ⟨first, rest, hcleaned⟩ := List.exists_cons_of_ne_nil hne
          have hfirst : first ∈ cleaned path := hcleaned ▸ List.mem_cons_self
          have hsep := sep_notMem_of_mem_cleaned first hfirst
          have hstays := not_stays_of_mem_cleaned hfirst
          cases first with
          | nil => exact absurd (Or.inl rfl) hstays
          | cons letter letters =>
              rw [List.mem_cons, not_or] at hsep
              rw [hcleaned]
              simp [isAbs, Ne.symm hsep.1]

theorem clean_ne_nil (path : List α) : clean path ≠ [] := by
  unfold clean
  split_ifs with _ hnil
  · exact List.cons_ne_nil _ _
  · exact List.cons_ne_nil _ _
  · intro hempty
    -- only one empty element is written as the empty path
    have hsplit := elements_intercalate sep_notMem_of_mem_cleaned hnil
    rw [hempty] at hsplit
    have hmem : ([] : List α) ∈ cleaned path := by
      rw [← hsplit]
      exact List.mem_cons_self
    exact not_stays_of_mem_cleaned hmem (Or.inl rfl)

/-- Cleaning a path does not change where it leads. -/
theorem locate_clean (cwd : List (List α)) (path : List α) :
    locate cwd (clean path) = locate cwd path := by
  rw [← foldl_step_cleaned cwd path, locate, isAbs_clean]
  by_cases h : cleaned path = []
  · unfold clean
    rw [h, if_pos rfl]
    split
    · rw [elements_cons_sep]
      simp [elements, step, Stays]
    · rw [elements_of_sep_notMem (by simp [sep_ne_dot])]
      simp [step, Stays]
  · rw [elements_clean h, List.foldl_append]
    split <;> simp [step, Stays]

theorem locate_append_sep {front : List α} (h : front ≠ []) (back : List α) :
    locate cwd (front ++ sep :: back) = (elements back).foldl step (locate cwd front) := by
  rw [locate, isAbs_append h, elements_append_sep, List.foldl_append]
  rfl

/-- The slash between two paths may already be there. -/
theorem locate_append_name {front back : List α} {place : List (List α)}
    (h : (elements back).foldl step (locate cwd (front ++ [sep])) = place) :
    locate cwd (front ++ [sep] ++ back) = place := by
  rw [← h, locate, locate, isAbs_append (by simp), List.append_assoc, List.singleton_append,
    elements_append_sep, elements_append_sep, List.foldl_append, List.foldl_append]
  simp [elements, step, Stays]

/-- A path joined to another is followed from where that leads. -/
theorem locate_join {front : List α} (h : front ≠ []) (back : List α) :
    locate cwd (join front back) = (elements back).foldl step (locate cwd front) := by
  rw [join, if_neg h, locate_clean, locate_append_sep h]

/-- Cleaning keeps names. -/
theorem foldl_cleanStep_of_ordinary {names : List (List α)} (h : ∀ name ∈ names, Ordinary name)
    (rooted : Bool) (kept : List (List α)) :
    names.foldl (cleanStep rooted) kept = kept ++ names := by
  induction names generalizing kept with
  | nil => rw [List.foldl_nil, List.append_nil]
  | cons name rest ih =>
      rw [List.forall_mem_cons] at h
      rw [List.foldl_cons, ih h.2, cleanStep, if_neg h.1.1, if_neg h.1.2, List.append_assoc,
        List.singleton_append]

/-- Elements that cleaning has been over are kept. -/
theorem Cleaned.foldl_cleanStep_self {rooted : Bool} {kept : List (List α)}
    (h : Cleaned rooted kept) : kept.foldl (SlashPath.cleanStep rooted) [] = kept := by
  obtain ⟨n, names, rfl, hnames, hrooted⟩ := h
  have hups : (List.replicate n up).foldl (SlashPath.cleanStep rooted) [] =
      List.replicate n (up : List α) := by
    induction n with
    | zero => rfl
    | succ n ih =>
        have hroot : ¬ rooted = true := fun hroot => absurd (hrooted hroot) n.succ_ne_zero
        rw [List.replicate_succ', List.foldl_concat, ih fun h => absurd h hroot,
          SlashPath.cleanStep, if_neg not_stays_up, if_pos rfl, any_getLast?_replicate,
          if_neg Bool.false_ne_true, if_neg hroot]
  rw [List.foldl_append, hups]
  exact foldl_cleanStep_of_ordinary hnames rooted _

theorem cleaned_clean (path : List α) : cleaned (clean path) = cleaned path := by
  by_cases h : cleaned path = []
  · have hstays : ∀ element ∈ elements (clean path), Stays element := by
      unfold clean
      rw [h, if_pos rfl]
      split
      · rw [elements_cons_sep]
        simp [elements, Stays]
      · rw [elements_of_sep_notMem (by simp [sep_ne_dot])]
        simp [Stays]
    have hskip : ∀ (rooted : Bool) (es : List (List α)), (∀ element ∈ es, Stays element) →
        es.foldl (cleanStep rooted) [] = [] := by
      intro rooted es hes
      induction es with
      | nil => rfl
      | cons element rest ih =>
          rw [List.forall_mem_cons] at hes
          rw [List.foldl_cons, cleanStep, if_pos hes.1, ih hes.2]
    rw [h]
    exact hskip _ _ hstays
  · rw [cleaned, isAbs_clean, elements_clean h, List.foldl_append]
    split <;> exact (cleaned_spec path).foldl_cleanStep_self

/-- Cleaning twice is cleaning once. -/
theorem clean_clean (path : List α) : clean (clean path) = clean path := by
  rw [clean, isAbs_clean, cleaned_clean]
  rfl

/-! ## Paths made of names -/

section Names

variable {names : List α} (hnames : ∀ name ∈ elements names, Ordinary name)
include hnames

theorem isAbs_of_ordinary : isAbs names = false := by
  cases names with
  | nil => rfl
  | cons letter rest =>
      by_contra habs
      have hletter : letter = sep := by simpa [isAbs] using habs
      rw [hletter, elements_cons_sep] at hnames
      exact (hnames [] List.mem_cons_self).1 (Or.inl rfl)

theorem ne_nil_of_ordinary : names ≠ [] := by
  rintro rfl
  exact (hnames [] List.mem_cons_self).1 (Or.inl rfl)

/-- Names joined to a path lead below it. -/
theorem locate_join_of_ordinary (front : List α) :
    locate cwd (join front names) = locate cwd front ++ elements names := by
  by_cases hfront : front = []
  · rw [hfront, join, if_pos rfl, if_neg (ne_nil_of_ordinary hnames), locate_clean, locate,
      isAbs_of_ordinary hnames, foldl_step_of_ordinary hnames]
    rfl
  · rw [locate_join hfront, foldl_step_of_ordinary hnames]

/-- They stand at the end of the joined path. -/
theorem exists_elements_join (front : List α) :
    ∃ before, elements (join front names) = before ++ elements names := by
  have hclean : ∀ (kept : List (List α)) (text : List α),
      cleaned text = kept ++ elements names →
      ∃ before, elements (clean text) = before ++ elements names := by
    intro kept text h
    have hne : cleaned text ≠ [] := by
      rw [h]
      exact List.append_ne_nil_of_right_ne_nil kept (elements_ne_nil names)
    rw [elements_clean hne, h, ← List.append_assoc]
    exact ⟨_, rfl⟩
  by_cases hfront : front = []
  · rw [hfront, join, if_pos rfl, if_neg (ne_nil_of_ordinary hnames)]
    exact hclean [] names (foldl_cleanStep_of_ordinary hnames _ [])
  · rw [join, if_neg hfront]
    refine hclean ((elements front).foldl (cleanStep (isAbs (front ++ sep :: names))) []) _ ?_
    rw [cleaned, elements_append_sep, List.foldl_append, foldl_cleanStep_of_ordinary hnames]

/-- They are clean. -/
theorem clean_of_ordinary : clean names = names := by
  have hcleaned : cleaned names = elements names := foldl_cleanStep_of_ordinary hnames _ []
  rw [clean, isAbs_of_ordinary hnames, if_neg Bool.false_ne_true, hcleaned,
    if_neg (elements_ne_nil names)]
  exact List.intercalate_splitOn sep

/-- Joined to a path of which cleaning keeps something, they follow the cleaned path. -/
theorem join_of_ordinary {front : List α} (hfront : cleaned front ≠ []) :
    join front names = clean front ++ sep :: names := by
  have hne : front ≠ [] := by
    rintro rfl
    exact hfront rfl
  have habs : isAbs (front ++ sep :: names) = isAbs front := isAbs_append hne _
  have hcleaned : cleaned (front ++ sep :: names) = cleaned front ++ elements names := by
    rw [cleaned, habs, elements_append_sep, List.foldl_append,
      foldl_cleanStep_of_ordinary hnames]
    rfl
  have htext : [sep].intercalate (cleaned front ++ elements names) =
      [sep].intercalate (cleaned front) ++ sep :: names := by
    rw [intercalate_append hfront (elements_ne_nil names), elements,
      List.intercalate_splitOn]
  rw [join, if_neg hne, clean, clean, habs, hcleaned, htext, if_neg hfront,
    if_neg (List.append_ne_nil_of_left_ne_nil hfront _)]
  split <;> rfl

end Names

/-- Cleaning keeps a name at the end of a path. -/
theorem cleaned_ne_nil {before : List (List α)} {name : List α}
    (helements : elements path = before ++ [name]) (hname : Ordinary name) :
    cleaned path ≠ [] := by
  rw [cleaned, helements, List.foldl_concat, cleanStep, if_neg hname.1, if_neg hname.2]
  exact List.concat_ne_nil _ _

/-! ## Cleaned paths and their prefixes -/

/-- In a cleaned path only names follow a name. -/
theorem pairwise_elements_clean (path : List α) :
    (elements (clean path)).Pairwise fun first second => Ordinary first → Ordinary second := by
  have hnot : ∀ element : List α, Stays element → ¬ Ordinary element :=
    fun _ hstays hordinary => hordinary.1 hstays
  by_cases h : cleaned path = []
  · unfold clean
    rw [h, if_pos rfl]
    split
    · rw [elements_cons_sep]
      simp [elements, hnot [] (Or.inl rfl)]
    · rw [elements_of_sep_notMem (by simp [sep_ne_dot])]
      exact List.pairwise_singleton _ _
  · obtain ⟨n, names, hcleaned, hnames, -⟩ := cleaned_spec path
    rw [elements_clean h, hcleaned]
    have hup : ¬ Ordinary (up : List α) := fun hordinary => hordinary.2 rfl
    have hpairwise : (List.replicate n up ++ names).Pairwise
        fun first second => Ordinary first → Ordinary second := by
      rw [List.pairwise_append]
      refine ⟨List.pairwise_replicate.mpr (Or.inr id), ?_, ?_⟩
      · exact List.pairwise_of_forall_mem_list fun _ _ second hsecond _ => hnames second hsecond
      · intro first _ second hsecond _
        exact hnames second hsecond
    split
    · exact hpairwise.cons fun second _ hempty => absurd hempty (hnot [] (Or.inl rfl))
    · exact hpairwise

/-- A cleaned relative path that does not begin with a parent is made of names. -/
theorem ordinary_of_relative (habs : isAbs (clean path) = false) (hdot : clean path ≠ [dot])
    (hup : clean path ≠ up) (hbelow : ¬ up ++ [sep] <+: clean path) :
    ∀ name ∈ elements (clean path), Ordinary name := by
  rw [isAbs_clean] at habs
  have hne : cleaned path ≠ [] := by
    intro hnil
    apply hdot
    simp [clean, habs, hnil]
  obtain ⟨n, names, hcleaned, hnames, -⟩ := cleaned_spec path
  have hclean : clean path = [sep].intercalate (cleaned path) := by
    simp [clean, habs, hne]
  have helements : elements (clean path) = cleaned path := by
    rw [elements_clean hne, habs]
    rfl
  cases n with
  | zero =>
      rw [helements, hcleaned]
      simpa using hnames
  | succ n =>
      rw [List.replicate_succ, List.cons_append] at hcleaned
      rw [hcleaned] at hclean
      by_cases hrest : List.replicate n up ++ names = []
      · rw [hrest, List.intercalate_singleton] at hclean
        exact absurd hclean hup
      · rw [List.intercalate_cons_of_ne_nil hrest] at hclean
        exact absurd ⟨_, hclean.symm⟩ hbelow

/-- A cleaned path that goes on after a path which ends in a name leads below it. -/
theorem locate_prefix_of_prefix {root : List α} {name : List α} {before : List (List α)}
    (hroot : elements root = before ++ [name]) (hname : Ordinary name) (hne : root ≠ [])
    (h : root ++ [sep] <+: clean path) : locate cwd root <+: locate cwd (clean path) := by
  obtain ⟨rest, hrest⟩ := h
  rw [List.append_assoc, List.singleton_append] at hrest
  have hpairwise := pairwise_elements_clean path
  rw [← hrest, elements_append_sep, List.pairwise_append] at hpairwise
  have hordinary : ∀ element ∈ elements rest, Ordinary element := by
    intro element helement
    refine hpairwise.2.2 name ?_ element helement hname
    rw [hroot]
    exact List.mem_append_right _ List.mem_cons_self
  rw [← hrest, locate_append_sep hne, foldl_step_of_ordinary hordinary]
  exact List.prefix_append _ _

/-! ## Parents -/

/-- A path is what stands up to its last slash, and its last element. -/
theorem exists_eq_parent_append (path : List α) :
    ∃ tail, sep ∉ tail ∧ path = path.rdropWhile (· ≠ sep) ++ tail ∧
      (path.rdropWhile (· ≠ sep) = [] ∨
        ∃ front, path.rdropWhile (· ≠ sep) = front ++ [sep]) := by
  refine ⟨path.rtakeWhile (· ≠ sep), ?_, (List.rdropWhile_append_rtakeWhile).symm, ?_⟩
  · intro hmem
    simpa using List.mem_rtakeWhile_imp hmem
  · rcases List.eq_nil_or_concat (path.rdropWhile (· ≠ sep)) with hnil | ⟨front, letter, heq⟩
    · exact Or.inl hnil
    · rw [List.concat_eq_append] at heq
      have hne : path.rdropWhile (· ≠ sep) ≠ [] := by
        rw [heq]
        exact List.concat_ne_nil letter front
      have hlast := List.rdropWhile_last_not (· ≠ sep) path hne
      rw [List.getLast_congr hne (List.concat_ne_nil letter front) heq,
        List.getLast_append_singleton] at hlast
      have hletter : letter = sep := by simpa using hlast
      exact Or.inr ⟨front, by rw [heq, hletter]⟩

theorem elements_parent (path : List α) :
    elements (path.rdropWhile (· ≠ sep)) = (elements path).dropLast ++ [[]] ∧
      isAbs (path.rdropWhile (· ≠ sep)) = isAbs path := by
  obtain ⟨tail, htail, hpath, hparent⟩ := exists_eq_parent_append path
  generalize path.rdropWhile (· ≠ sep) = parent at hpath hparent
  rcases hparent with rfl | ⟨front, rfl⟩
  · have habs : isAbs tail = false := by
      cases tail with
      | nil => rfl
      | cons letter letters =>
          rw [List.mem_cons, not_or] at htail
          simp [isAbs, Ne.symm htail.1]
    rw [List.nil_append] at hpath
    rw [hpath, elements_of_sep_notMem htail, habs]
    exact ⟨rfl, rfl⟩
  · constructor
    · rw [hpath, List.append_assoc, List.singleton_append, elements_append_sep,
        elements_append_sep, elements_of_sep_notMem htail, List.dropLast_concat]
      rfl
    · rw [hpath]
      exact (isAbs_append (by simp) tail).symm

/-- A path that ends in a name leads into the directory that its parent leads to. -/
theorem locate_eq_dir_append {before : List (List α)} {name : List α}
    (helements : elements path = before ++ [name]) (hname : Ordinary name) :
    locate cwd path = locate cwd (dir path) ++ [name] := by
  obtain ⟨hparent, habs⟩ := elements_parent path
  rw [dir, locate_clean, locate, locate, hparent, habs, helements, List.dropLast_concat,
    List.foldl_concat, List.foldl_concat, step_of_ordinary hname]
  simp [step, Stays]

/-- The directory that names joined to a path lead into. -/
theorem locate_dir_join {names : List α} (hnames : ∀ name ∈ elements names, Ordinary name)
    (front : List α) :
    locate cwd (dir (join front names)) = locate cwd front ++ (elements names).dropLast := by
  obtain ⟨before, hbefore⟩ := exists_elements_join hnames front
  obtain ⟨others, last, hlast⟩ :=
    (List.eq_nil_or_concat (elements names)).resolve_left (elements_ne_nil names)
  rw [List.concat_eq_append] at hlast
  have hordinary : Ordinary last := hnames last (by rw [hlast]; simp)
  have hjoin : locate cwd (join front names) = _ := locate_join_of_ordinary hnames front
  rw [hlast, ← List.append_assoc] at hbefore hjoin
  rw [locate_eq_dir_append hbefore hordinary, List.append_left_inj] at hjoin
  rw [hjoin, hlast, List.dropLast_concat]

theorem clean_join {front : List α} (h : front ≠ []) (back : List α) :
    clean (join front back) = join front back := by
  rw [join, if_neg h, clean_clean]

end SlashPath
