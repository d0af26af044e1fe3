import Mathlib.Algebra.Order.Ring.Int
import Mathlib.Tactic.Common
import Mathlib.Logic.Function.Basic

/-!
# A cache whose keys expire

Every call of the cache is one atomic step.  A key that has expired counts as missing, and
an increment keeps the moment at which its key expires, as in Redis.  Nothing is evicted
before it expires.
-/

/-- Under each key a value and the moment at which it expires. -/
abbrev ExpiringCache (κ : Type*) := κ → Option (ℕ × ℤ)

namespace ExpiringCache

variable {κ : Type*} [DecidableEq κ]

def empty : ExpiringCache κ := fun _ => none

/-- The entry of a key that has not expired. -/
def live? (cache : ExpiringCache κ) (now : ℤ) (key : κ) : Option (ℕ × ℤ) :=
  (cache key).filter fun entry => now < entry.2

def set (cache : ExpiringCache κ) (now timeout : ℤ) (key : κ) (value : ℕ) : ExpiringCache κ :=
  Function.update cache key (some (value, now + timeout))

/-- Set the key if it is missing. -/
def add (cache : ExpiringCache κ) (now timeout : ℤ) (key : κ) (value : ℕ) : ExpiringCache κ :=
  if (cache.live? now key).isSome then cache else cache.set now timeout key value

/-- Increment the value of a key that is not missing. -/
def incr? (cache : ExpiringCache κ) (now : ℤ) (key : κ) : Option (ℕ × ExpiringCache κ) :=
  (cache.live? now key).map fun (value, expiry) =>
    (value + 1, Function.update cache key (some (value + 1, expiry)))

variable {cache : ExpiringCache κ} {now timeout : ℤ} {key other : κ} {value : ℕ}

omit [DecidableEq κ] in
theorem live?_eq_some {entry : ℕ × ℤ} :
    cache.live? now key = some entry ↔ cache key = some entry ∧ now < entry.2 := by
  rw [live?, Option.filter_eq_some_iff, decide_eq_true_eq]

omit [DecidableEq κ] in
theorem live?_eq_none :
    cache.live? now key = none ↔ ∀ entry, cache key = some entry → entry.2 ≤ now := by
  rw [live?, Option.filter_eq_none_iff]
  simp only [decide_eq_true_eq, not_lt]

@[simp] theorem set_self : cache.set now timeout key value key = some (value, now + timeout) :=
  Function.update_self ..

theorem set_of_ne (h : other ≠ key) : cache.set now timeout key value other = cache other :=
  Function.update_of_ne h ..

/-- What an addition does to its own key. -/
theorem add_cases (cache : ExpiringCache κ) (now timeout : ℤ) (key : κ) (value : ℕ) :
    (∃ entry, cache key = some entry ∧ now < entry.2 ∧ cache.add now timeout key value = cache) ∨
      ((∀ entry, cache key = some entry → entry.2 ≤ now) ∧
        cache.add now timeout key value = cache.set now timeout key value) := by
  unfold add
  cases hlive : cache.live? now key with
  | none =>
      exact Or.inr ⟨live?_eq_none.mp hlive, if_neg (by simp)⟩
  | some entry =>
      obtain ⟨hentry, hlater⟩ := live?_eq_some.mp hlive
      exact Or.inl ⟨entry, hentry, hlater, if_pos rfl⟩

/-- What an increment does, and when it fails. -/
theorem incr?_cases (cache : ExpiringCache κ) (now : ℤ) (key : κ) :
    (∃ value expiry, cache key = some (value, expiry) ∧ now < expiry ∧
      cache.incr? now key =
        some (value + 1, Function.update cache key (some (value + 1, expiry)))) ∨
      ((∀ entry, cache key = some entry → entry.2 ≤ now) ∧ cache.incr? now key = none) := by
  unfold incr?
  cases hlive : cache.live? now key with
  | none =>
      exact Or.inr ⟨live?_eq_none.mp hlive, rfl⟩
  | some entry =>
      obtain ⟨value, expiry⟩ := entry
      obtain ⟨hentry, hlater⟩ := live?_eq_some.mp hlive
      exact Or.inl ⟨value, expiry, hentry, hlater, rfl⟩

end ExpiringCache
