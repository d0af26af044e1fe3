import Mathlib.Data.List.Sort
import Mathlib.Data.Prod.Lex
import Mathlib.Tactic.Common

/-!
# Stable sorting by a key

`sortBy f l` is the stable sort of `l` in increasing order of the key `f`.  Sorting
first by `g` and then by `f` is one sort by the lexicographic key `(f, g)`
(`sortBy_sortBy`), so a stable sort shows the order of its input exactly on the
ties of its own key (`sortBy_sortBy_eq_iff`).
-/

namespace List

variable {α β κ ι : Type*} [LinearOrder κ] [LinearOrder ι]

/-- The stable sort in increasing order of a key. -/
def sortBy (f : α → κ) (l : List α) : List α := l.insertionSort fun first second => f first ≤ f second

@[simp] theorem mem_sortBy {f : α → κ} {l : List α} {a : α} : a ∈ l.sortBy f ↔ a ∈ l :=
  mem_insertionSort _

theorem perm_sortBy (f : α → κ) (l : List α) : (l.sortBy f).Perm l := perm_insertionSort _ l

@[simp] theorem length_sortBy (f : α → κ) (l : List α) : (l.sortBy f).length = l.length :=
  length_insertionSort _ l

theorem pairwise_sortBy (f : α → κ) (l : List α) :
    (l.sortBy f).Pairwise fun first second => f first ≤ f second := by
  have : Std.Total fun first second : α => f first ≤ f second :=
    ⟨fun first second => le_total (f first) (f second)⟩
  have : IsTrans α fun first second => f first ≤ f second := ⟨fun _ _ _ => le_trans⟩
  exact pairwise_insertionSort _ l

theorem eq_singleton_of_mem {l : List α} (hlength : l.length ≤ 1) {a : α} (h : a ∈ l) : l = [a] := by
  cases l with
  | nil => exact absurd h not_mem_nil
  | cons head rest =>
      obtain rfl : rest = [] := eq_nil_of_length_eq_zero (by simpa using hlength)
      rw [mem_singleton.mp h]

/-- A list of at most one element has one arrangement. -/
theorem Perm.eq_of_length_le_one {l m : List α} (h : l.Perm m) (hlength : l.length ≤ 1) : l = m := by
  cases l with
  | nil => exact h.nil_eq
  | cons a rest =>
      obtain rfl : rest = [] := eq_nil_of_length_eq_zero (by simpa using hlength)
      exact (perm_singleton.mp h.symm).symm

theorem Nodup.sortBy {l : List α} (h : l.Nodup) (f : α → κ) : (l.sortBy f).Nodup :=
  (perm_sortBy f l).nodup_iff.mpr h

/-- Sorting commutes with a map that respects the keys. -/
theorem sortBy_map (f : β → κ) (g : α → β) (l : List α) :
    (l.map g).sortBy f = (l.sortBy fun a => f (g a)).map g :=
  (map_insertionSort _ _ g l fun _ _ _ _ => Iff.rfl).symm

/-- Only the order of the keys matters. -/
theorem sortBy_congr {f : α → κ} {g : α → ι} {l : List α}
    (h : ∀ a ∈ l, ∀ b ∈ l, f a ≤ f b ↔ g a ≤ g b) : l.sortBy f = l.sortBy g := by
  have hmap := map_insertionSort (fun a b => f a ≤ f b) (fun a b => g a ≤ g b) id l h
  rwa [map_id, map_id] at hmap

/-- The only sorted arrangement, when no two elements have one key. -/
theorem eq_sortBy_of_perm {f : α → κ} {l m : List α}
    (hinj : ∀ a ∈ l, ∀ b ∈ l, f a = f b → a = b)
    (hsorted : m.Pairwise fun first second => f first ≤ f second) (hperm : m.Perm l) :
    m = l.sortBy f := by
  refine Perm.eq_of_pairwise ?_ hsorted (pairwise_sortBy f l) (hperm.trans (perm_sortBy f l).symm)
  intro a b ha hb hab hba
  exact hinj a (hperm.mem_iff.mp ha) b (mem_sortBy.mp hb) (le_antisymm hab hba)

/-- Filtering and sorting commute, when no two elements have one key. -/
theorem filter_sortBy {f : α → κ} {l : List α} (p : α → Bool)
    (hinj : ∀ a ∈ l, ∀ b ∈ l, f a = f b → a = b) :
    (l.sortBy f).filter p = (l.filter p).sortBy f := by
  refine eq_sortBy_of_perm (fun a ha b hb => ?_) ((pairwise_sortBy f l).filter p)
    ((perm_sortBy f l).filter p)
  exact hinj a (mem_of_mem_filter ha) b (mem_of_mem_filter hb)

section Lexicographic

variable {f : α → κ} {g : α → ι}

/-- Inserting an element that is first by `g` among the elements of equal `f`. -/
theorem pairwise_orderedInsert_lex {a : α} {l : List α} (ha : ∀ b ∈ l, g a ≤ g b)
    (hl : l.Pairwise fun first second => toLex (f first, g first) ≤ toLex (f second, g second)) :
    (l.orderedInsert (fun first second => f first ≤ f second) a).Pairwise
      fun first second => toLex (f first, g first) ≤ toLex (f second, g second) := by
  induction l with
  | nil => simp
  | cons head rest ih =>
      obtain ⟨hhead, hrest⟩ := pairwise_cons.mp hl
      by_cases hle : f a ≤ f head
      · rw [orderedInsert_cons_of_le (fun first second => f first ≤ f second) rest hle]
        refine pairwise_cons.mpr ⟨fun b hb => ?_, hl⟩
        have hfb : f a ≤ f b := by
          rcases mem_cons.mp hb with rfl | hmem
          · exact hle
          · exact hle.trans (Prod.Lex.monotone_fst _ _ (hhead b hmem))
        rcases hfb.lt_or_eq with hlt | heq
        · exact Prod.Lex.toLex_le_toLex.mpr (Or.inl hlt)
        · exact Prod.Lex.toLex_le_toLex.mpr (Or.inr ⟨heq, ha b hb⟩)
      · rw [orderedInsert_of_not_le (fun first second => f first ≤ f second) rest hle]
        refine pairwise_cons.mpr ⟨fun b hb => ?_, ih (fun b hb => ha b (mem_cons_of_mem _ hb)) hrest⟩
        rcases (mem_orderedInsert _).mp hb with rfl | hmem
        · exact Prod.Lex.toLex_le_toLex.mpr (Or.inl (not_le.mp hle))
        · exact hhead b hmem

/-- A stable sort by `f` of a list sorted by `g` is sorted by `(f, g)`. -/
theorem pairwise_sortBy_lex {l : List α} (hl : l.Pairwise fun first second => g first ≤ g second) :
    (l.sortBy f).Pairwise
      fun first second => toLex (f first, g first) ≤ toLex (f second, g second) := by
  induction l with
  | nil => exact Pairwise.nil
  | cons a rest ih =>
      obtain ⟨ha, hrest⟩ := pairwise_cons.mp hl
      refine pairwise_orderedInsert_lex (fun b hb => ?_) (ih hrest)
      exact ha b (mem_sortBy.mp hb)

/-- Sorting by `g` and then stably by `f` is sorting by `(f, g)`. -/
theorem sortBy_sortBy {l : List α} (hinj : ∀ a ∈ l, ∀ b ∈ l, g a = g b → a = b) :
    (l.sortBy g).sortBy f = l.sortBy fun a => toLex (f a, g a) := by
  refine eq_sortBy_of_perm (fun a ha b hb hab => ?_) (pairwise_sortBy_lex (pairwise_sortBy g l))
    ((perm_sortBy f _).trans (perm_sortBy g l))
  have hkey := toLex_inj.mp hab
  exact hinj a ha b hb (congrArg Prod.snd hkey)

end Lexicographic

/-- Two sorts agree exactly when the keys order every pair alike. -/
theorem sortBy_eq_sortBy_iff {f : α → κ} {g : α → ι} {l : List α}
    (hf : ∀ a ∈ l, ∀ b ∈ l, f a = f b → a = b) (hg : ∀ a ∈ l, ∀ b ∈ l, g a = g b → a = b) :
    l.sortBy f = l.sortBy g ↔ ∀ a ∈ l, ∀ b ∈ l, f a ≤ f b ↔ g a ≤ g b := by
  refine ⟨fun heq => ?_, sortBy_congr⟩
  have hboth : (l.sortBy f).Pairwise fun a b => f a ≤ f b ∧ g a ≤ g b :=
    (pairwise_sortBy f l).and (heq ▸ pairwise_sortBy g l)
  have hforward : (l.sortBy f).Pairwise fun a b => f a ≤ f b ↔ g a ≤ g b :=
    hboth.imp fun h => ⟨fun _ => h.2, fun _ => h.1⟩
  have hbackward : (l.sortBy f).Pairwise fun a b => f b ≤ f a ↔ g b ≤ g a := by
    refine hboth.imp_of_mem fun {a b} ha hb h => ⟨fun hba => ?_, fun hba => ?_⟩
    · rw [hf a (mem_sortBy.mp ha) b (mem_sortBy.mp hb) (le_antisymm h.1 hba)]
    · rw [hg a (mem_sortBy.mp ha) b (mem_sortBy.mp hb) (le_antisymm h.2 hba)]
  have hall := Pairwise.forall_of_forall_of_flip (fun a _ => by simp) hforward hbackward
  exact fun a ha b hb => hall (mem_sortBy.mpr ha) (mem_sortBy.mpr hb)

/-- A stable sort by `f` shows whether its input was sorted by `g` or by `h` only on
the ties of `f`. -/
theorem sortBy_sortBy_eq_iff {f : α → κ} {g h : α → ι} {l : List α}
    (hg : ∀ a ∈ l, ∀ b ∈ l, g a = g b → a = b) (hh : ∀ a ∈ l, ∀ b ∈ l, h a = h b → a = b) :
    (l.sortBy g).sortBy f = (l.sortBy h).sortBy f ↔
      ∀ a ∈ l, ∀ b ∈ l, f a = f b → (g a ≤ g b ↔ h a ≤ h b) := by
  rw [sortBy_sortBy hg, sortBy_sortBy hh, sortBy_eq_sortBy_iff]
  · refine forall₄_congr fun a _ b _ => ?_
    simp only [Prod.Lex.toLex_le_toLex]
    constructor
    · intro hiff heq
      simpa [heq] using hiff
    · intro hties
      by_cases heq : f a = f b
      · simp [heq, hties heq]
      · simp [heq]
  · exact fun a ha b hb hab => hg a ha b hb (congrArg Prod.snd (toLex_inj.mp hab))
  · exact fun a ha b hb hab => hh a ha b hb (congrArg Prod.snd (toLex_inj.mp hab))

end List
