import JudgeLoom.Library.SplitBy
import JudgeLoom.Ratings.Calculation

/-!
# Stored ranks follow the standings

`_tie_ranks` gives every run of equal score and tiebreaker the middle of the places
that it takes, and `calculate_ratings` stores that rank, plus one, rounded.  A run of
`n` participants after `index` others is stored between `index + 1` and `index + n`,
so runs keep their order (`place_lt_place_iff`).
-/

namespace JudgeLoom

namespace RatingService

open AbstractContestFormat

variable {M : MathLibrary} {tables final : RatingTables} {contest : ContestRow}

/-- The rank that is stored for a tie rank. -/
def place (rank : ℚ) : ℕ := (max 1 (FloatArith.roundHalfEven (rank + 1))).toNat

/-- `(-score, tiebreaker)`, best first. -/
def Selected.key (item : Selected) : ℚ ×ₗ ℚ := toLex (-item.rankKey.1, item.rankKey.2)

theorem place_middle_le (index : ℕ) {size : ℕ} (hsize : 0 < size) :
    place (index + ((size : ℚ) - 1) / 2) ≤ index + size := by
  have hround : FloatArith.roundHalfEven (index + ((size : ℚ) - 1) / 2 + 1) ≤
      ((index + size : ℕ) : ℤ) := by
    refine FloatArith.roundHalfEven_le ?_
    have hcast : (1 : ℚ) ≤ size := by exact_mod_cast hsize
    push_cast
    linarith
  unfold place
  omega

theorem lt_place {bound : ℕ} {rank : ℚ} (h : bound ≤ rank) : bound < place rank := by
  have hround : ((bound + 1 : ℕ) : ℤ) ≤ FloatArith.roundHalfEven (rank + 1) := by
    refine FloatArith.le_roundHalfEven ?_
    push_cast
    linarith
  unfold place
  omega

/-- Ranks start at the number of participants before. -/
theorem le_of_mem_groupRanks {index : ℕ} {groups : List (List Selected)} (hnil : [] ∉ groups)
    {rank : ℚ} (h : rank ∈ groupRanks index groups) : index ≤ rank := by
  induction groups generalizing index with
  | nil => exact absurd h List.not_mem_nil
  | cons group rest ih =>
      rw [groupRanks, List.mem_append] at h
      rcases h with h | h
      · have hsize : (1 : ℚ) ≤ group.length := by
          exact_mod_cast List.length_pos_iff.mpr fun hempty => hnil (hempty ▸ List.mem_cons_self)
        rw [List.eq_of_mem_replicate h]
        linarith
      · have hle := ih (fun hmem => hnil (List.mem_cons_of_mem _ hmem)) h
        push_cast at hle
        have hsize : (0 : ℚ) ≤ group.length := Nat.cast_nonneg _
        linarith

/-- The ranks of runs with one key each, the keys increasing. -/
theorem place_groupRanks (index : ℕ) {groups : List (List Selected)} (hnil : [] ∉ groups)
    (hsame : ∀ group ∈ groups, ∀ a ∈ group, ∀ b ∈ group, a.key = b.key)
    (hlt : groups.Pairwise fun first second => ∀ a ∈ first, ∀ b ∈ second, a.key < b.key) :
    ∀ first ∈ groups.flatten.zip (groupRanks index groups),
      ∀ second ∈ groups.flatten.zip (groupRanks index groups),
        (first.1.key = second.1.key → first.2 = second.2) ∧
          (first.1.key < second.1.key → place first.2 < place second.2) := by
  induction groups generalizing index with
  | nil => exact fun first hfirst => absurd hfirst List.not_mem_nil
  | cons group rest ih =>
      obtain ⟨hhead, htail⟩ := List.pairwise_cons.mp hlt
      have hsize : 0 < group.length :=
        List.length_pos_iff.mpr fun hempty => hnil (hempty ▸ List.mem_cons_self)
      have hnil' : [] ∉ rest := fun hmem => hnil (List.mem_cons_of_mem _ hmem)
      have hrest := ih (index + group.length) hnil'
        (fun other hother => hsame other (List.mem_cons_of_mem _ hother)) htail
      rw [List.flatten_cons, groupRanks, List.zip_append (List.length_replicate).symm]
      -- an entry is of the first run, or of a later one
      have hgroup : ∀ entry ∈ group.zip
          (List.replicate group.length ((index : ℚ) + ((group.length : ℚ) - 1) / 2)),
          entry.1 ∈ group ∧ entry.2 = index + ((group.length : ℚ) - 1) / 2 := fun entry hentry =>
        ⟨(List.of_mem_zip hentry).1, List.eq_of_mem_replicate (List.of_mem_zip hentry).2⟩
      have hlater : ∀ entry ∈ rest.flatten.zip (groupRanks (index + group.length) rest),
          (∀ a ∈ group, a.key < entry.1.key) ∧ ((index + group.length : ℕ) : ℚ) ≤ entry.2 := by
        intro entry hentry
        obtain ⟨hmem, hrank⟩ := List.of_mem_zip hentry
        obtain ⟨other, hother, hin⟩ := List.mem_flatten.mp hmem
        exact ⟨fun a ha => hhead other hother a ha entry.1 hin, le_of_mem_groupRanks hnil' hrank⟩
      intro first hfirst second hsecond
      rcases List.mem_append.mp hfirst with hfirst | hfirst <;>
        rcases List.mem_append.mp hsecond with hsecond | hsecond
      · obtain ⟨hin, hrank⟩ := hgroup first hfirst
        obtain ⟨hin', hrank'⟩ := hgroup second hsecond
        refine ⟨fun _ => hrank.trans hrank'.symm, fun hkey => absurd hkey ?_⟩
        rw [hsame group List.mem_cons_self first.1 hin second.1 hin']
        exact lt_irrefl _
      · obtain ⟨hin, hrank⟩ := hgroup first hfirst
        obtain ⟨hkey, hbound⟩ := hlater second hsecond
        refine ⟨fun heq => absurd heq (hkey first.1 hin).ne, fun _ => ?_⟩
        rw [hrank]
        exact (place_middle_le index hsize).trans_lt (lt_place hbound)
      · obtain ⟨hin, -⟩ := hgroup second hsecond
        have hkey := (hlater first hfirst).1 second.1 hin
        exact ⟨fun heq => absurd heq.symm hkey.ne, fun hlt => absurd hlt hkey.asymm⟩
      · exact hrest first hfirst second hsecond

/-- The selected participants come in the order of the standings. -/
theorem pairwise_selected (tables : RatingTables) (contest : ContestRow) :
    (selected tables contest).Pairwise fun a b => a.key ≤ b.key := by
  have hstandings : (standings tables.toContestTables contest).Pairwise fun first second =>
      toLex (-first.score, first.tiebreaker) ≤ toLex (-second.score, second.tiebreaker) := by
    rw [standings_eq, List.pairwise_map]
    refine ((List.pairwise_sortBy rankKey _).filter _).imp fun {first second} hle => ?_
    rw [rankKey, rankKey, Prod.Lex.toLex_le_toLex] at hle
    rw [Prod.Lex.toLex_le_toLex]
    rcases hle with hscore | ⟨hscore, hrest⟩
    · exact Or.inl hscore
    · exact Or.inr ⟨hscore, Prod.Lex.monotone_fst _ _ hrest⟩
  rw [selected, List.pairwise_filterMap]
  refine hstandings.imp fun {first second} hle a ha b hb => ?_
  obtain ⟨-, user, -, rfl⟩ := select_eq_some.mp ha
  obtain ⟨-, user', -, rfl⟩ := select_eq_some.mp hb
  exact hle

/-- A smaller rank is stored exactly for a better place in the standings. -/
theorem place_lt_place_iff {first second : Selected × ℚ}
    (hfirst : first ∈ (selected tables contest).zip (tieRanks (selected tables contest)))
    (hsecond : second ∈ (selected tables contest).zip (tieRanks (selected tables contest))) :
    place first.2 < place second.2 ↔ first.1.key < second.1.key := by
  have hr : ∀ a b : Selected, (a.rankKey == b.rankKey) = true ↔ a.key = b.key := by
    intro a b
    rw [beq_iff_eq, Prod.ext_iff, Selected.key, Selected.key, toLex_inj, Prod.mk.injEq, neg_inj]
  have hruns := place_groupRanks 0
    (List.nil_notMem_splitBy _ _) (fun group hgroup => List.eq_of_mem_splitBy hr hgroup)
    (List.pairwise_lt_splitBy hr (pairwise_selected tables contest))
  rw [List.flatten_splitBy] at hruns
  obtain ⟨hsame, hlt⟩ := hruns first hfirst second hsecond
  obtain ⟨hsame', hlt'⟩ := hruns second hsecond first hfirst
  constructor
  · intro hplace
    rcases lt_trichotomy first.1.key second.1.key with hkey | hkey | hkey
    · exact hkey
    · exact absurd hplace (by rw [hsame hkey]; exact lt_irrefl _)
    · exact absurd hplace (hlt' hkey).asymm
  · exact hlt

end RatingService

end JudgeLoom
