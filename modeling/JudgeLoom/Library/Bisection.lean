import Mathlib.Algebra.Order.Field.Basic
import Mathlib.Order.Interval.Set.Basic
import Mathlib.Tactic.FieldSimp
import Mathlib.Tactic.Linarith
import Mathlib.Tactic.Positivity
import Mathlib.Tactic.Ring

/-!
# Bisection with interpolation

A bracket is halved until it is narrow, and the crossing of the target is then
interpolated on a straight line between the values at its ends.  Nothing is asked
of the function: the result stays in the bracket (`bisect_mem`) and does not
decrease when the target grows (`bisect_mono`), for any function at all.  It stays
off an end of the bracket whose value is on its own side of the target
(`lt_bisect`, `bisect_lt`).  For an increasing function a target outside the bracket is
clamped to its nearer end (`bisect_eq_left`, `bisect_eq_right`).
-/

namespace JudgeLoom

namespace Bisection

variable {K : Type*} [Field K]

/-- The point at which the straight line from `(left, low)` to `(right, high)` has
height `target`. -/
def secant (left right low high target : K) : K :=
  let ratio := (target - low) / (high - low)
  left * (1 - ratio) + right * ratio

theorem secant_eq {left right low high target : K} :
    secant left right low high target =
      left + (right - left) * ((target - low) / (high - low)) := by
  unfold secant
  ring

variable [LinearOrder K]

/-- The crossing on a bracket that is not halved any more. -/
def interpolate (f : K → K) (target left right : K) : K :=
  if target ≤ f left then left
  else if f right ≤ target then right
  else secant left right (f left) (f right) target

/-- At most `rounds` halvings of a bracket wider than `width`. -/
def bisect (f : K → K) (target width : K) : ℕ → K → K → K
  | 0, left, right => interpolate f target left right
  | rounds + 1, left, right =>
      if width < right - left then
        let middle := (left + right) / 2
        if target < f middle then bisect f target width rounds left middle
        else if f middle < target then bisect f target width rounds middle right
        else middle
      else interpolate f target left right

/-- The cases of one halving. -/
theorem bisect_succ_of_wide {f : K → K} {target width left right : K} {rounds : ℕ}
    (h : width < right - left) :
    bisect f target width (rounds + 1) left right =
      if target < f ((left + right) / 2) then
        bisect f target width rounds left ((left + right) / 2)
      else if f ((left + right) / 2) < target then
        bisect f target width rounds ((left + right) / 2) right
      else (left + right) / 2 :=
  if_pos h

variable [IsStrictOrderedRing K]

section Secant

variable {left right low high target : K}

theorem lt_secant (hbracket : left < right) (hlow : low < target) (hhigh : target < high) :
    left < secant left right low high target := by
  have hratio : 0 < (target - low) / (high - low) := by
    apply div_pos <;> linarith
  have hstep := mul_pos (sub_pos.mpr hbracket) hratio
  rw [secant_eq]
  linarith

theorem secant_lt (hbracket : left < right) (hlow : low < target) (hhigh : target < high) :
    secant left right low high target < right := by
  have hratio : (target - low) / (high - low) < 1 := by
    rw [div_lt_one (by linarith)]
    linarith
  have hstep := mul_lt_mul_of_pos_left hratio (sub_pos.mpr hbracket)
  rw [secant_eq]
  linarith

theorem secant_lt_secant {target' : K} (hbracket : left < right) (hvalues : low < high)
    (htarget : target < target') :
    secant left right low high target < secant left right low high target' := by
  have hratio : (target - low) / (high - low) < (target' - low) / (high - low) := by
    rw [div_lt_div_iff_of_pos_right (by linarith)]
    linarith
  have hstep := mul_lt_mul_of_pos_left hratio (sub_pos.mpr hbracket)
  rw [secant_eq, secant_eq]
  linarith

theorem secant_mem (hbracket : left ≤ right) (hlow : low < target) (hhigh : target < high) :
    left ≤ secant left right low high target ∧ secant left right low high target ≤ right := by
  rcases hbracket.lt_or_eq with hlt | rfl
  · exact ⟨(lt_secant hlt hlow hhigh).le, (secant_lt hlt hlow hhigh).le⟩
  · rw [secant_eq, sub_self, zero_mul, add_zero]
    exact ⟨le_rfl, le_rfl⟩

theorem secant_mono {target' : K} (hbracket : left ≤ right) (hvalues : low < high)
    (htarget : target ≤ target') :
    secant left right low high target ≤ secant left right low high target' := by
  rcases htarget.lt_or_eq with htarget | rfl
  · rcases hbracket.lt_or_eq with hlt | rfl
    · exact (secant_lt_secant hlt hvalues htarget).le
    · simp only [secant_eq, sub_self, zero_mul, le_refl]
  · exact le_rfl

end Secant

section Bisect

variable {f : K → K} {target width left right : K}

theorem interpolate_mem (hbracket : left ≤ right) :
    left ≤ interpolate f target left right ∧ interpolate f target left right ≤ right := by
  unfold interpolate
  split_ifs with hlow hhigh
  · exact ⟨le_rfl, hbracket⟩
  · exact ⟨hbracket, le_rfl⟩
  · exact secant_mem hbracket (not_le.mp hlow) (not_le.mp hhigh)

theorem interpolate_mono {target' : K} (hbracket : left ≤ right) (htarget : target ≤ target') :
    interpolate f target left right ≤ interpolate f target' left right := by
  by_cases hlow : target ≤ f left
  · have hleft : interpolate f target left right = left := if_pos hlow
    rw [hleft]
    exact (interpolate_mem hbracket).1
  · by_cases hhigh' : f right ≤ target'
    · have hright : interpolate f target' left right = right := by
        unfold interpolate
        rw [if_neg (by linarith), if_pos hhigh']
      rw [hright]
      exact (interpolate_mem hbracket).2
    · have hvalues : f left < f right := by linarith
      unfold interpolate
      rw [if_neg hlow, if_neg (by linarith), if_neg (by linarith), if_neg hhigh']
      exact secant_mono hbracket hvalues htarget

theorem lt_interpolate (hbracket : left < right) (hlow : f left < target) :
    left < interpolate f target left right := by
  unfold interpolate
  rw [if_neg (by linarith)]
  split_ifs with hhigh
  · exact hbracket
  · exact lt_secant hbracket hlow (not_le.mp hhigh)

theorem interpolate_lt (hbracket : left < right) (hhigh : target < f right) :
    interpolate f target left right < right := by
  unfold interpolate
  split_ifs with hlow hhigh'
  · exact hbracket
  · linarith
  · exact secant_lt hbracket (not_le.mp hlow) hhigh

/-- A bracket that is narrow enough is not halved. -/
theorem bisect_of_narrow (rounds : ℕ) (h : right - left ≤ width) :
    bisect f target width rounds left right = interpolate f target left right := by
  cases rounds with
  | zero => rfl
  | succ rounds => exact if_neg (by linarith)

theorem bisect_mem (rounds : ℕ) (hbracket : left ≤ right) :
    left ≤ bisect f target width rounds left right ∧
      bisect f target width rounds left right ≤ right := by
  induction rounds generalizing left right with
  | zero => exact interpolate_mem hbracket
  | succ rounds ih =>
      by_cases hwide : width < right - left
      · have hleft : left ≤ (left + right) / 2 := by linarith
        have hright : (left + right) / 2 ≤ right := by linarith
        rw [bisect_succ_of_wide hwide]
        split_ifs
        · exact ⟨(ih hleft).1, (ih hleft).2.trans hright⟩
        · exact ⟨hleft.trans (ih hright).1, (ih hright).2⟩
        · exact ⟨hleft, hright⟩
      · rw [bisect_of_narrow _ (not_lt.mp hwide)]
        exact interpolate_mem hbracket

/-- The larger the target, the larger the result.  As long as both searches halve to
the same side the bracket is common to them; once they part, the middle separates them. -/
theorem bisect_mono {target' : K} (rounds : ℕ) (hbracket : left ≤ right)
    (htarget : target ≤ target') :
    bisect f target width rounds left right ≤ bisect f target' width rounds left right := by
  induction rounds generalizing left right with
  | zero => exact interpolate_mono hbracket htarget
  | succ rounds ih =>
      by_cases hwide : width < right - left
      · have hleft : left ≤ (left + right) / 2 := by linarith
        have hright : (left + right) / 2 ≤ right := by linarith
        rw [bisect_succ_of_wide hwide, bisect_succ_of_wide hwide]
        split_ifs with habove habove' hbelow' hbelow habove' hbelow' hbelow'
        · exact ih hleft
        · exact (bisect_mem rounds hleft).2.trans (bisect_mem rounds hright).1
        · exact (bisect_mem rounds hleft).2
        · linarith
        · exact ih hright
        · linarith
        · linarith
        · exact (bisect_mem rounds hright).1
        · exact le_rfl
      · rw [bisect_of_narrow _ (not_lt.mp hwide), bisect_of_narrow _ (not_lt.mp hwide)]
        exact interpolate_mono hbracket htarget

theorem lt_bisect (rounds : ℕ) (hbracket : left < right) (hlow : f left < target) :
    left < bisect f target width rounds left right := by
  induction rounds generalizing left right with
  | zero => exact lt_interpolate hbracket hlow
  | succ rounds ih =>
      by_cases hwide : width < right - left
      · have hleft : left < (left + right) / 2 := by linarith
        have hright : (left + right) / 2 < right := by linarith
        rw [bisect_succ_of_wide hwide]
        split_ifs with habove hbelow
        · exact ih hleft hlow
        · exact hleft.trans (ih hright hbelow)
        · exact hleft
      · rw [bisect_of_narrow _ (not_lt.mp hwide)]
        exact lt_interpolate hbracket hlow

theorem bisect_lt (rounds : ℕ) (hbracket : left < right) (hhigh : target < f right) :
    bisect f target width rounds left right < right := by
  induction rounds generalizing left right with
  | zero => exact interpolate_lt hbracket hhigh
  | succ rounds ih =>
      by_cases hwide : width < right - left
      · have hleft : left < (left + right) / 2 := by linarith
        have hright : (left + right) / 2 < right := by linarith
        rw [bisect_succ_of_wide hwide]
        split_ifs with habove hbelow
        · exact (ih hleft habove).trans hright
        · exact ih hright hhigh
        · exact hright
      · rw [bisect_of_narrow _ (not_lt.mp hwide)]
        exact interpolate_lt hbracket hhigh

end Bisect

/-! ## Increasing functions -/

section Increasing

variable {f : K → K} {target width left right : K} (hf : StrictMono f) (hwidth : 0 ≤ width)

include hf hwidth

/-- A target that is not above the bracket is clamped to its left end. -/
theorem bisect_eq_left (rounds : ℕ) (h : target ≤ f left) :
    bisect f target width rounds left right = left := by
  induction rounds generalizing right with
  | zero => exact if_pos h
  | succ rounds ih =>
      by_cases hwide : width < right - left
      · have hmiddle : target < f ((left + right) / 2) := by
          apply h.trans_lt
          apply hf
          linarith
        rw [bisect_succ_of_wide hwide, if_pos hmiddle]
        exact ih
      · rw [bisect_of_narrow _ (not_lt.mp hwide)]
        exact if_pos h

/-- A target that is not below the bracket is clamped to its right end. -/
theorem bisect_eq_right (rounds : ℕ) (hbracket : left ≤ right) (h : f right ≤ target) :
    bisect f target width rounds left right = right := by
  have hnarrow : ∀ left ≤ right, interpolate f target left right = right := by
    intro left hbracket
    unfold interpolate
    split_ifs with hlow
    · apply le_antisymm hbracket
      rw [← hf.le_iff_le]
      exact h.trans hlow
    · rfl
  induction rounds generalizing left with
  | zero => exact hnarrow left hbracket
  | succ rounds ih =>
      by_cases hwide : width < right - left
      · have hmiddle : f ((left + right) / 2) < target := by
          apply lt_of_lt_of_le _ h
          apply hf
          linarith
        rw [bisect_succ_of_wide hwide, if_neg hmiddle.not_gt, if_pos hmiddle]
        exact ih (by linarith)
      · rw [bisect_of_narrow _ (not_lt.mp hwide)]
        exact hnarrow left hbracket

omit hf in
/-- The result lies in a narrow bracket of the target, if the rounds suffice to make the
given one narrow. -/
theorem exists_bracket (rounds : ℕ) (hbracket : left ≤ right) (hlow : f left ≤ target)
    (hhigh : target ≤ f right) (hrounds : right - left ≤ width * 2 ^ rounds) :
    ∃ a b, left ≤ a ∧ b ≤ right ∧ b - a ≤ width ∧ f a ≤ target ∧ target ≤ f b ∧
      a ≤ bisect f target width rounds left right ∧
        bisect f target width rounds left right ≤ b := by
  induction rounds generalizing left right with
  | zero =>
      obtain ⟨hleft, hright⟩ : left ≤ interpolate f target left right ∧
          interpolate f target left right ≤ right := interpolate_mem hbracket
      rw [pow_zero, mul_one] at hrounds
      exact ⟨left, right, le_rfl, le_rfl, hrounds, hlow, hhigh, hleft, hright⟩
  | succ rounds ih =>
      by_cases hwide : width < right - left
      · have hleft : left ≤ (left + right) / 2 := by linarith
        have hright : (left + right) / 2 ≤ right := by linarith
        rw [pow_succ] at hrounds
        rw [bisect_succ_of_wide hwide]
        split_ifs with habove hbelow
        · obtain ⟨a, b, ha, hb, hrest⟩ := ih hleft hlow habove.le (by linarith)
          exact ⟨a, b, ha, hb.trans hright, hrest⟩
        · obtain ⟨a, b, ha, hb, hrest⟩ := ih hright hbelow.le hhigh (by linarith)
          exact ⟨a, b, hleft.trans ha, hb, hrest⟩
        · refine ⟨(left + right) / 2, (left + right) / 2, hleft, hright, ?_, not_lt.mp habove,
            not_lt.mp hbelow, le_rfl, le_rfl⟩
          rwa [sub_self]
      · obtain ⟨hleft, hright⟩ : left ≤ interpolate f target left right ∧
            interpolate f target left right ≤ right := interpolate_mem hbracket
        rw [bisect_of_narrow _ (not_lt.mp hwide)]
        exact ⟨left, right, le_rfl, le_rfl, not_lt.mp hwide, hlow, hhigh, hleft, hright⟩

end Increasing

end Bisection

end JudgeLoom
