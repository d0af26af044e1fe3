import Mathlib.Algebra.BigOperators.Expect
import Mathlib.Algebra.BigOperators.Field
import Mathlib.Algebra.BigOperators.Intervals
import Mathlib.Algebra.Order.BigOperators.Expect
import Mathlib.Data.Rat.Cast.Order
import Mathlib.Tactic.Linarith
import Mathlib.Tactic.Ring

/-!
# Fractional ranking

Places with the same key share the mean of their places.  Over all places these ranks
add up to what the places add up to (`sum_rank`), whatever the keys are.  Where the keys
never decrease from one place to the next, ranks compare as the keys do
(`rank_lt_rank_iff`, `rank_eq_rank_iff`).
-/

namespace FractionalRank

variable {κ : Type*} {n : ℕ}

section Equality

variable [DecidableEq κ] (key : Fin n → κ)

/-- The places that share the key of `place`. -/
def tied (place : Fin n) : Finset (Fin n) := {other | key other = key place}

/-- The mean of the places that share the key of `place`. -/
def rank (place : Fin n) : ℚ := (tied key place).expect fun other => (other : ℚ)

variable {key} {place other : Fin n}

@[simp] theorem mem_tied : other ∈ tied key place ↔ key other = key place := by
  simp [tied]

theorem mem_tied_self (place : Fin n) : place ∈ tied key place := mem_tied.mpr rfl

theorem tied_nonempty (place : Fin n) : (tied key place).Nonempty := ⟨place, mem_tied_self place⟩

theorem card_tied_ne_zero (place : Fin n) : ((tied key place).card : ℚ) ≠ 0 :=
  Nat.cast_ne_zero.mpr (Finset.card_pos.mpr (tied_nonempty place)).ne'

theorem tied_eq_tied (h : key other = key place) : tied key other = tied key place := by
  rw [tied, tied, h]

theorem rank_eq_rank (h : key other = key place) : rank key other = rank key place := by
  rw [rank, rank, tied_eq_tied h]

variable (key)

/-- Handing each place to its group and sharing the group's total out evenly loses nothing. -/
theorem sum_rank : ∑ place, rank key place = ∑ place : Fin n, (place : ℚ) :=
  calc ∑ place, rank key place
      = ∑ place, ∑ other ∈ tied key place, (other : ℚ) / (tied key place).card := by
        refine Finset.sum_congr rfl fun place _ => ?_
        rw [rank, Finset.expect_eq_sum_div_card, Finset.sum_div]
    _ = ∑ other, ∑ place ∈ tied key other, (other : ℚ) / (tied key place).card := by
        refine Finset.sum_comm' fun place other => ?_
        simp [eq_comm]
    _ = ∑ other, ∑ _place ∈ tied key other, (other : ℚ) / (tied key other).card := by
        refine Finset.sum_congr rfl fun other _ => Finset.sum_congr rfl fun place hplace => ?_
        rw [tied_eq_tied (mem_tied.mp hplace)]
    _ = ∑ other : Fin n, (other : ℚ) := by
        refine Finset.sum_congr rfl fun other _ => ?_
        rw [Finset.sum_const, nsmul_eq_mul, mul_div_cancel₀ _ (card_tied_ne_zero other)]

theorem sum_rank_eq : ∑ place, rank key place = (n : ℚ) * (n - 1) / 2 := by
  rw [sum_rank, Fin.sum_univ_eq_sum_range fun place => (place : ℚ), ← Nat.cast_sum]
  have htotal := Finset.sum_range_id_mul_two n
  cases n with
  | zero => simp
  | succ n =>
      have hcast : (((∑ place ∈ Finset.range (n + 1), place) * 2 : ℕ) : ℚ) = (n + 1) * n := by
        rw [htotal]
        push_cast
        simp
      push_cast at hcast ⊢
      linarith

variable {key}

/-- The mean of the places from `start` up to `stop` is the middle of them. -/
theorem expect_Ico {start stop : ℕ} (h : start < stop) :
    ((Finset.Ico start stop).expect fun place => (place : ℚ)) =
      start + ((stop - start - 1 : ℕ) : ℚ) / 2 := by
  obtain ⟨size, rfl⟩ : ∃ size, stop = start + (size + 1) := ⟨stop - start - 1, by omega⟩
  have hsize : start + (size + 1) - start = size + 1 := by omega
  have htotal : ((∑ place ∈ Finset.range (size + 1), place : ℕ) : ℚ) * 2 = (size + 1) * size := by
    exact_mod_cast Finset.sum_range_id_mul_two (size + 1)
  have hpos : (size : ℚ) + 1 ≠ 0 := by positivity
  rw [Finset.expect_eq_sum_div_card, Finset.sum_Ico_eq_sum_range, Nat.card_Ico, hsize]
  push_cast at htotal ⊢
  rw [Finset.sum_add_distrib, Finset.sum_const, Finset.card_range, nsmul_eq_mul,
    div_eq_iff hpos, Nat.cast_add_one]
  linarith

/-- A group that takes the places from `start` up to `stop` is ranked in the middle. -/
theorem rank_eq_middle {start stop : ℕ} (hstop : stop ≤ n)
    (htied : ∀ other : Fin n, key other = key place ↔ start ≤ other ∧ other < stop) :
    rank key place = start + ((stop - start - 1 : ℕ) : ℚ) / 2 := by
  obtain ⟨hstart, hlt⟩ := (htied place).mp rfl
  rw [← expect_Ico (hstart.trans_lt hlt), rank]
  refine Finset.expect_nbij (fun other => (other : ℕ)) ?_ ?_ ?_ ?_
  · intro other hother
    rw [Finset.mem_Ico]
    exact (htied other).mp (mem_tied.mp hother)
  · exact fun _ _ => rfl
  · exact Fin.val_injective.injOn
  · intro other hother
    obtain ⟨hfrom, hto⟩ := Finset.mem_Ico.mp (Finset.mem_coe.mp hother)
    exact ⟨⟨other, by omega⟩, mem_tied.mpr ((htied _).mpr ⟨hfrom, hto⟩), rfl⟩

end Equality

section Order

variable [LinearOrder κ] {key : Fin n → κ} {place other : Fin n}

/-- A group with a smaller key lies before: its last place bounds its rank, and the next
one bounds the rank of the other group. -/
theorem rank_lt_rank (hkey : Monotone key) (h : key place < key other) :
    rank key place < rank key other := by
  obtain ⟨last, hlast, hmax⟩ :=
    Finset.exists_max_image (tied key place) (fun tie => (tie : ℚ)) (tied_nonempty place)
  have hle : rank key place ≤ (last : ℚ) := Finset.expect_le (tied_nonempty place) hmax
  have hge : (last : ℚ) + 1 ≤ rank key other := by
    refine Finset.le_expect (tied_nonempty other) fun tie htie => ?_
    have hlt : last < tie := by
      refine lt_of_not_ge fun hback => absurd (hkey hback) (not_le_of_gt ?_)
      rwa [mem_tied.mp hlast, mem_tied.mp htie]
    exact_mod_cast (Fin.lt_def.mp hlt)
  linarith

theorem rank_lt_rank_iff (hkey : Monotone key) :
    rank key place < rank key other ↔ key place < key other := by
  refine ⟨fun h => ?_, rank_lt_rank hkey⟩
  rcases lt_trichotomy (key place) (key other) with hlt | heq | hgt
  · exact hlt
  · exact absurd (rank_eq_rank heq) h.ne
  · exact absurd (rank_lt_rank hkey hgt) h.asymm

theorem rank_eq_rank_iff (hkey : Monotone key) :
    rank key place = rank key other ↔ key place = key other := by
  refine ⟨fun h => ?_, rank_eq_rank⟩
  rcases lt_trichotomy (key place) (key other) with hlt | heq | hgt
  · exact absurd h (rank_lt_rank hkey hlt).ne
  · exact heq
  · exact absurd h.symm (rank_lt_rank hkey hgt).ne

/-- Ranks never decrease from one place to the next. -/
theorem rank_mono (hkey : Monotone key) : Monotone (rank key) := by
  intro place other hle
  rcases (hkey hle).lt_or_eq with hlt | heq
  · exact (rank_lt_rank hkey hlt).le
  · exact (rank_eq_rank heq).le

end Order

end FractionalRank
