import JudgeLoom.Ratings.Performance
import Mathlib.Algebra.Order.Archimedean.Basic

/-!
# The root finder in exact arithmetic

`_eval_tanhs` and `_solve` over any Archimedean field, the real numbers among them; the
hyperbolic tangent is a parameter.  The `while` loop has no counter here: `solve` is
`none` when the loop goes on after the rounds that it is given, and `Returns` asks for
enough rounds.

A run that ends computes a bisection (`solve_eq_bisect`), and it ends as soon as
halving has made the bounds narrow (`isSome_solve`), so that the bisection library says
what is returned.  With rational numbers and exact operations it is what the engine
computes (`returns_solveWith`).
-/

namespace JudgeLoom

namespace EloMMR

open Bisection

namespace Exact

variable {K : Type*} [Field K]

/-- The numeral 2 in any field. -/
local instance atLeastTwo_two : (2 : ℕ).AtLeastTwo := inferInstance

/-- An entry of `terms`. -/
structure Term (K : Type*) where
  mean : K
  sd : K
  weight : K

/-- `_eval_tanhs`. -/
def evalTanhs (tanh : K → K) (terms : List (Term K)) (x : K) : K :=
  (terms.map fun term =>
    term.weight / term.sd * tanh ((x - term.mean) / (2 * term.sd))).sum

/-- The function that `_solve` looks for a root of. -/
def value (tanh : K → K) (terms : List (Term K)) (linearFactor x : K) : K :=
  linearFactor * x + evalTanhs tanh terms x

/-- The variables of `_solve`. -/
structure Bracket (K : Type*) where
  left : K
  right : K
  leftY : Option K := none
  rightY : Option K := none

variable [LinearOrder K]

/-- The `while` loop of `_solve`: a root that was hit, or the last bracket; `none` if it
goes on after `rounds` rounds. -/
def solveLoop (f : K → K) (target : K) : ℕ → Bracket K → Option (K ⊕ Bracket K)
  | 0, bracket => if 2 < bracket.right - bracket.left then none else some (.inr bracket)
  | rounds + 1, bracket =>
      if 2 < bracket.right - bracket.left then
        let middle := (bracket.left + bracket.right) / 2
        let value := f middle
        if target < value then
          solveLoop f target rounds { bracket with right := middle, rightY := some value }
        else if value < target then
          solveLoop f target rounds { bracket with left := middle, leftY := some value }
        else some (.inl middle)
      else some (.inr bracket)

/-- What follows the loop. -/
def crossing (f : K → K) (target : K) : K ⊕ Bracket K → K
  | .inl middle => middle
  | .inr bracket =>
      let leftY := bracket.leftY.getD (f bracket.left)
      if target ≤ leftY then bracket.left
      else
        let rightY := bracket.rightY.getD (f bracket.right)
        if rightY ≤ target then bracket.right
        else
          let ratio := (target - leftY) / (rightY - leftY)
          bracket.left * (1 - ratio) + bracket.right * ratio

/-- `_solve`. -/
def solve (tanh : K → K) (terms : List (Term K)) (target linearFactor : K) (bounds : K × K)
    (rounds : ℕ) : Option K :=
  let f := value tanh terms linearFactor
  (solveLoop f target rounds { left := bounds.1, right := bounds.2 }).map (crossing f target)

/-- `_solve` terminates, and this is what it returns. -/
def Returns (tanh : K → K) (terms : List (Term K)) (target linearFactor : K) (bounds : K × K)
    (root : K) : Prop :=
  ∃ rounds, solve tanh terms target linearFactor bounds rounds = some root

/-! ## Enough rounds -/

variable {f : K → K} {target : K} {bracket : Bracket K} {tanh : K → K} {terms : List (Term K)}
  {linearFactor : K} {bounds : K × K} {rounds : ℕ} {root : K}

/-- More rounds change nothing. -/
theorem solveLoop_succ {result : K ⊕ Bracket K}
    (h : solveLoop f target rounds bracket = some result) :
    solveLoop f target (rounds + 1) bracket = some result := by
  induction rounds generalizing bracket with
  | zero =>
      unfold solveLoop at h ⊢
      split_ifs at h with hwide
      rw [if_neg hwide]
      exact h
  | succ rounds ih =>
      unfold solveLoop at h
      rw [solveLoop]
      dsimp only at h ⊢
      split_ifs at h ⊢
      · exact ih h
      · exact ih h
      · exact h
      · exact h

theorem solve_of_le {more : ℕ} (hle : rounds ≤ more)
    (h : solve tanh terms target linearFactor bounds rounds = some root) :
    solve tanh terms target linearFactor bounds more = some root := by
  induction more, hle using Nat.le_induction with
  | base => exact h
  | succ more _ ih =>
      obtain ⟨result, hloop, hroot⟩ := Option.map_eq_some_iff.mp ih
      rw [solve, solveLoop_succ hloop, Option.map_some, hroot]

/-- `_solve` returns one value. -/
theorem Returns.unique {root' : K} (h : Returns tanh terms target linearFactor bounds root)
    (h' : Returns tanh terms target linearFactor bounds root') : root = root' := by
  obtain ⟨rounds, hrounds⟩ := h
  obtain ⟨rounds', hrounds'⟩ := h'
  have hmost := solve_of_le (le_max_left rounds rounds') hrounds
  rw [solve_of_le (le_max_right rounds rounds') hrounds'] at hmost
  exact (Option.some.inj hmost).symm

/-! ## The loop is a bisection -/

/-- The values that the bracket carries are those of the function at its ends. -/
structure Bracket.Sound (f : K → K) (bracket : Bracket K) : Prop where
  left : ∀ value ∈ bracket.leftY, value = f bracket.left
  right : ∀ value ∈ bracket.rightY, value = f bracket.right

theorem crossing_inr (hbracket : bracket.Sound f) :
    crossing f target (.inr bracket) = interpolate f target bracket.left bracket.right := by
  have hleftY : bracket.leftY.getD (f bracket.left) = f bracket.left := by
    cases hvalue : bracket.leftY with
    | none => rfl
    | some value => exact hbracket.left value hvalue
  have hrightY : bracket.rightY.getD (f bracket.right) = f bracket.right := by
    cases hvalue : bracket.rightY with
    | none => rfl
    | some value => exact hbracket.right value hvalue
  simp only [crossing, hleftY, hrightY]
  rfl

variable [IsStrictOrderedRing K]

/-- The loop keeps the values that the bracket carries sound, and halves like a bisection. -/
theorem crossing_solveLoop {rounds : ℕ} (hbracket : bracket.Sound f) {result : K ⊕ Bracket K}
    (h : solveLoop f target rounds bracket = some result) :
    crossing f target result = bisect f target 2 rounds bracket.left bracket.right := by
  induction rounds generalizing bracket with
  | zero =>
      unfold solveLoop at h
      split_ifs at h
      obtain rfl := Option.some.inj h
      exact crossing_inr hbracket
  | succ rounds ih =>
      unfold solveLoop at h
      by_cases hwide : 2 < bracket.right - bracket.left
      · rw [if_pos hwide] at h
        rw [bisect_succ_of_wide hwide]
        dsimp only at h
        split_ifs at h ⊢
        · refine ih ?_ h
          exact ⟨hbracket.left, fun value hvalue => (Option.some.inj hvalue).symm⟩
        · refine ih ?_ h
          exact ⟨fun value hvalue => (Option.some.inj hvalue).symm, hbracket.right⟩
        · obtain rfl := Option.some.inj h
          rfl
      · rw [if_neg hwide] at h
        obtain rfl := Option.some.inj h
        rw [bisect_of_narrow _ (not_lt.mp hwide)]
        exact crossing_inr hbracket

/-- A loop that can make the bracket narrow ends. -/
theorem isSome_solveLoop {rounds : ℕ} (h : bracket.right - bracket.left ≤ 2 * 2 ^ rounds) :
    (solveLoop f target rounds bracket).isSome := by
  induction rounds generalizing bracket with
  | zero =>
      rw [pow_zero, mul_one] at h
      rw [solveLoop, if_neg (not_lt.mpr h)]
      rfl
  | succ rounds ih =>
      rw [pow_succ] at h
      unfold solveLoop
      dsimp only
      split_ifs with hwide habove hbelow
      · exact ih (by dsimp only; linarith)
      · exact ih (by dsimp only; linarith)
      · rfl
      · rfl

section Solve

theorem solve_eq_bisect (h : solve tanh terms target linearFactor bounds rounds = some root) :
    root = bisect (value tanh terms linearFactor) target 2 rounds bounds.1 bounds.2 := by
  obtain ⟨result, hloop, rfl⟩ := Option.map_eq_some_iff.mp h
  have hsound : Bracket.Sound (value tanh terms linearFactor)
      { left := bounds.1, right := bounds.2 } := ⟨by simp, by simp⟩
  exact crossing_solveLoop hsound hloop

theorem isSome_solve (h : bounds.2 - bounds.1 ≤ 2 * 2 ^ rounds) :
    (solve tanh terms target linearFactor bounds rounds).isSome := by
  rw [solve, Option.isSome_map]
  exact isSome_solveLoop h

variable [Archimedean K]

/-- What is returned is what a bisection finds in enough rounds, which are enough for any
target. -/
theorem exists_returns_iff (tanh : K → K) (terms : List (Term K)) (linearFactor : K)
    (bounds : K × K) : ∃ rounds : ℕ, bounds.2 - bounds.1 ≤ 2 * 2 ^ rounds ∧ ∀ target root,
      Returns tanh terms target linearFactor bounds root ↔
        root = bisect (value tanh terms linearFactor) target 2 rounds bounds.1 bounds.2 := by
  obtain ⟨rounds, hrounds⟩ := pow_unbounded_of_one_lt (bounds.2 - bounds.1) one_lt_two
  have hpow : (0 : K) < 2 ^ rounds := by positivity
  have henough : bounds.2 - bounds.1 ≤ 2 * 2 ^ rounds := by linarith
  refine ⟨rounds, henough, fun target root => ?_⟩
  obtain ⟨found, hfound⟩ : ∃ found, solve tanh terms target linearFactor bounds rounds =
      some found := Option.isSome_iff_exists.mp (isSome_solve henough)
  have hbisect := solve_eq_bisect hfound
  constructor
  · intro h
    rw [h.unique ⟨rounds, hfound⟩, hbisect]
  · rintro rfl
    exact ⟨rounds, hbisect ▸ hfound⟩

/-! ## A clamped root finder -/

/-- The root is in the bounds, at their nearer end for a target that the function does not
reach in them, and otherwise in a bracket of the target of width 2 at most. -/
structure ClampedRoot (f : K → K) (bounds : K × K) (target root : K) : Prop where
  mem : bounds.1 ≤ root ∧ root ≤ bounds.2
  left : target ≤ f bounds.1 → root = bounds.1
  right : f bounds.2 ≤ target → root = bounds.2
  bracket : f bounds.1 ≤ target → target ≤ f bounds.2 →
    ∃ a b, bounds.1 ≤ a ∧ b ≤ bounds.2 ∧ b - a ≤ 2 ∧ f a ≤ target ∧ target ≤ f b ∧
      a ≤ root ∧ root ≤ b

/-- For an increasing function `_solve` terminates on every target, with a root that does
not decrease when the target grows. -/
theorem solve_correct (hincreasing : StrictMono (value tanh terms linearFactor))
    (hbounds : bounds.1 ≤ bounds.2) :
    ∃ root : K → K, Monotone root ∧ ∀ target,
      (∀ result, Returns tanh terms target linearFactor bounds result ↔ result = root target) ∧
        ClampedRoot (value tanh terms linearFactor) bounds target (root target) := by
  obtain ⟨rounds, henough, hreturns⟩ := exists_returns_iff tanh terms linearFactor bounds
  have hwidth : (0 : K) ≤ 2 := zero_le_two
  refine ⟨fun target => bisect (value tanh terms linearFactor) target 2 rounds bounds.1 bounds.2,
    fun target target' htarget => bisect_mono rounds hbounds htarget,
    fun target => ⟨hreturns target, ?_⟩⟩
  constructor
  case mem => exact bisect_mem rounds hbounds
  case left => exact bisect_eq_left hincreasing hwidth rounds
  case right => exact bisect_eq_right hincreasing hwidth rounds hbounds
  case bracket =>
    intro hlow hhigh
    exact exists_bracket hwidth rounds hbounds hlow hhigh henough

end Solve

/-- A term that makes the identity of the identity. -/
def identityTerm : Term ℚ := { mean := 0, sd := 1 / 2, weight := 1 / 2 }

/-- The identity, on bounds that are halved twice. -/
theorem solve_correct_identity :
    (∃ root : ℚ → ℚ, Monotone root ∧ ∀ target,
      (∀ result, Returns id [identityTerm] target 0 (0, 8) result ↔ result = root target) ∧
        ClampedRoot (value id [identityTerm] 0) (0, 8) target (root target)) ∧
      solve id [identityTerm] (11 / 2) 0 (0, 8) 2 = some (11 / 2) := by
  have hincreasing : StrictMono (value id [identityTerm] 0) := by
    intro x y hxy
    simpa [value, evalTanhs, identityTerm] using hxy
  exact ⟨solve_correct hincreasing (by norm_num), by decide +kernel⟩

end Exact

/-! ## The engine with exact operations -/

/-- The engine's `_solve` is this one, if its operations are exact. -/
theorem returns_solveWith {M : MathLibrary} (hexact : M.arith.fl = id) (tanh : ℚ → ℚ)
    (terms : List (Exact.Term ℚ)) (target linearFactor : ℚ) (bounds : ℚ × ℚ) :
    Exact.Returns tanh terms target linearFactor bounds
      (solveWith M (Exact.evalTanhs tanh terms) target linearFactor bounds) := by
  have hf : (fun x => M.arith.add (M.arith.mul linearFactor x) (Exact.evalTanhs tanh terms x)) =
      Exact.value tanh terms linearFactor := by
    funext x
    simp [FloatArith.add, FloatArith.mul, hexact, Exact.value]
  have hnarrow : bounds.2 - bounds.1 ≤ 2 * 2 ^ solveRounds bounds := by
    have hspec := solveRounds_spec bounds
    rw [pow_succ] at hspec
    linarith
  obtain ⟨root, hroot⟩ : ∃ root, Exact.solve tanh terms target linearFactor bounds
      (solveRounds bounds) = some root :=
    Option.isSome_iff_exists.mp (Exact.isSome_solve hnarrow)
  have hsolve : solveWith M (Exact.evalTanhs tanh terms) target linearFactor bounds = root := by
    unfold solveWith
    rw [hf, Exact.solve_eq_bisect hroot]
    exact crossing_solveLoop hexact _ ⟨by simp, by simp⟩
  rw [hsolve]
  exact ⟨_, hroot⟩

end EloMMR

end JudgeLoom
