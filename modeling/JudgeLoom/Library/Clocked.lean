import JudgeLoom.Library.ReadCommitted
import Mathlib.Order.Lattice

/-!
# Transactions that read a clock

The clock is one more row of the store, moved forward by transactions of its own
(`Clocked.tick`), so a transaction reads it like any other row: at the moment of the
statement, and committed ticks only.

The answers to the queries of one transaction come from versions in the order of the
queries (`System.Ordered.run`), none later than the version it is committed on.  Two
readings of a clock by one transaction are therefore in order.
-/

universe u v

open KeyedStore

/-! ## The queries of a transaction are in order -/

section Order

variable {ι : Type v} {τ S κ : Type u} {ρ : κ → Type u} {α : Type u}

/-- The queries saw more and more commits, at most `commits` of them. -/
structure Progress.Ordered (progress : Progress τ ρ) (commits : ℕ) : Prop where
  sorted : progress.log.Pairwise fun earlier later => earlier.2 ≤ later.2
  le_commits : ∀ entry ∈ progress.log, entry.2 ≤ commits

theorem Progress.Ordered.query {progress : Progress τ ρ} {commits : ℕ}
    (h : progress.Ordered commits) (name : τ) : (progress.query name commits).Ordered commits := by
  constructor
  · rw [Progress.query, List.pairwise_append]
    refine ⟨h.sorted, List.pairwise_singleton .., fun earlier hearlier later hlater => ?_⟩
    rw [List.mem_singleton.mp hlater]
    exact h.le_commits earlier hearlier
  · intro entry hentry
    rcases List.mem_append.mp hentry with hentry | hentry
    · exact h.le_commits entry hentry
    · obtain rfl := List.mem_singleton.mp hentry
      exact Nat.le_refl _

theorem Progress.Ordered.write {progress : Progress τ ρ} {commits : ℕ}
    (h : progress.Ordered commits) (written : Option (Write ρ)) :
    (progress.write written).Ordered commits :=
  ⟨h.sorted, h.le_commits⟩

/-- Before a query the versions are no later than its own. -/
theorem Progress.le_of_sorted_query {progress : Progress τ ρ} {name : τ} {m : ℕ}
    (h : (progress.query name m).log.Pairwise fun earlier later => earlier.2 ≤ later.2)
    {entry : τ × ℕ} (hentry : entry ∈ progress.log) : entry.2 ≤ m :=
  (List.pairwise_append.mp h).2.2 entry hentry (name, m) (List.mem_singleton_self _)

/-- What a program logs comes after what was logged before. -/
theorem Transaction.Yields.prefix_log [KeyedStore S κ ρ] {V : ℕ → S} {n : ℕ}
    {program : Transaction τ S ρ α} {start final : Progress τ ρ} {value : α}
    (h : program.Yields V n start value final) : start.log <+: final.log := by
  induction program generalizing start with
  | done result => exact h.2 ▸ List.prefix_refl _
  | abort => exact h.elim
  | read query next ih =>
      obtain ⟨m, -, h⟩ := h
      exact (List.prefix_append _ _).trans (ih _ h)
  | lock key next ih => exact ih _ h
  | tryLock key next ih =>
      rcases h with h | h
      · exact ih _ h
      · exact ih _ h
  | update key f next ih =>
      have hnext := ih h
      exact hnext
  | insert key row next ih =>
      have hnext := ih h.2
      exact hnext

namespace System

/-- The queries of every transaction are in order. -/
structure Ordered (sys : System ι τ S ρ α) : Prop where
  sessions : ∀ i session, sys.sessions i = some session →
    session.toProgress.Ordered sys.commits.length
  commits : ∀ n (commit : Commit ι τ S ρ α), sys.commits[n]? = some commit →
    commit.toProgress.Ordered n

variable {sys sys' : System ι τ S ρ α} {i : ι} {session : Session τ S ρ α}

theorem ordered_start (store : S) : (start store : System ι τ S ρ α).Ordered where
  sessions := fun _ _ hsession => absurd hsession (by simp [start])
  commits := fun _ _ hcommit => absurd hcommit (by simp [start])

variable [DecidableEq ι]

theorem Ordered.put (h : sys.Ordered) (hcommits : sys'.commits = sys.commits)
    (hsessions : sys'.sessions = sys.sessions)
    (hsession : session.toProgress.Ordered sys.commits.length) : (sys'.put i session).Ordered where
  sessions := by
    intro j other hother
    have hupdate : Function.update sys'.sessions i (some session) j = some other := hother
    have hlength : (sys'.put i session).commits.length = sys.commits.length :=
      congrArg List.length hcommits
    rw [hlength]
    by_cases hj : j = i
    · rw [hj, Function.update_self] at hupdate
      rwa [← Option.some.inj hupdate]
    · rw [Function.update_of_ne hj, hsessions] at hupdate
      exact h.sessions j other hupdate
  commits := fun n commit hcommit => h.commits n commit (hcommits ▸ hcommit)

theorem Ordered.release (h : sys.Ordered) (i : ι) : (sys.release i).Ordered where
  sessions := by
    intro j other hother
    have hupdate : Function.update sys.sessions i none j = some other := hother
    by_cases hj : j = i
    · rw [hj, Function.update_self] at hupdate
      cases hupdate
    · rw [Function.update_of_ne hj] at hupdate
      exact h.sessions j other hupdate
  commits := h.commits

theorem Ordered.committed (h : sys.Ordered)
    (hsession : session.toProgress.Ordered sys.commits.length) (value : α) :
    (sys.committed i session value).Ordered where
  sessions := by
    intro j other hother
    have hold := (h.release i).sessions j other hother
    have hlength : (sys.committed i session value).commits.length = sys.commits.length + 1 := by
      simp [System.committed]
    rw [hlength]
    exact ⟨hold.sorted, fun entry hentry => Nat.le_succ_of_le (hold.le_commits entry hentry)⟩
  commits := by
    intro n commit hcommit
    have hcommits : (sys.commits ++ [({ session.toProgress with
        session := i, program := session.program, value } : Commit ι τ S ρ α)])[n]? =
          some commit := hcommit
    rw [List.getElem?_append] at hcommits
    split_ifs at hcommits with hn
    · exact h.commits n commit hcommits
    · obtain hlast | hlast : n = sys.commits.length ∨ 1 ≤ n - sys.commits.length := by omega
      · rw [hlast, Nat.sub_self] at hcommits
        rw [hlast, ← Option.some.inj hcommits]
        exact hsession
      · rw [List.getElem?_eq_none (by simpa using hlast)] at hcommits
        cases hcommits

variable [DecidableEq κ] [KeyedStore S κ ρ]

/-- One statement keeps the order; a query is answered by the latest version. -/
theorem Ordered.execute (h : sys.Ordered) (hsession : sys.sessions i = some session)
    (hnext : sys.execute i session = some sys') : sys'.Ordered := by
  have hprogress := h.sessions i session hsession
  unfold System.execute at hnext
  cases hrest : session.rest with
  | done value =>
      simp only [hrest, Option.some.injEq] at hnext
      subst hnext
      exact h.committed hprogress value
  | abort =>
      simp only [hrest, Option.some.injEq] at hnext
      subst hnext
      exact h.release i
  | read query next =>
      simp only [hrest, Option.some.injEq] at hnext
      subst hnext
      exact h.put rfl rfl (hprogress.query query)
  | lock key next =>
      simp only [hrest] at hnext
      split_ifs at hnext
      obtain rfl := Option.some.inj hnext
      exact h.put rfl rfl hprogress
  | tryLock key next =>
      simp only [hrest] at hnext
      split_ifs at hnext
      · obtain rfl := Option.some.inj hnext
        exact h.put rfl rfl hprogress
      · obtain rfl := Option.some.inj hnext
        exact h.put rfl rfl hprogress
  | update key f next =>
      simp only [hrest] at hnext
      split_ifs at hnext
      obtain rfl := Option.some.inj hnext
      exact h.put rfl rfl (hprogress.write _)
  | insert key row next =>
      simp only [hrest] at hnext
      split_ifs at hnext
      obtain rfl := Option.some.inj hnext
      exact h.put rfl rfl (hprogress.write _)

theorem Ordered.step {Permitted : ι → Transaction τ S ρ α → Prop} {label : Move ι τ S ρ α}
    (h : sys.Ordered) (hstep : sys.Step Permitted label sys') : sys'.Ordered := by
  obtain ⟨hmove, -⟩ := hstep
  cases label with
  | begin i program =>
      simp only [move] at hmove
      split_ifs at hmove
      obtain rfl := Option.some.inj hmove
      exact h.put rfl rfl ⟨List.Pairwise.nil, fun _ hentry => absurd hentry List.not_mem_nil⟩
  | step i =>
      obtain ⟨session, hsession, hexecute⟩ := Option.bind_eq_some_iff.mp hmove
      exact h.execute hsession hexecute
  | abort i =>
      simp only [move] at hmove
      split_ifs at hmove
      obtain rfl := Option.some.inj hmove
      exact h.release i

/-- In every reachable system the queries of every transaction are in order. -/
theorem Ordered.run {Permitted : ι → Transaction τ S ρ α → Prop} {store : S}
    {labels : List (Move ι τ S ρ α)} (run : Run (Step Permitted) (start store) labels sys) :
    sys.Ordered :=
  run.invariant (ordered_start store) fun _ _ _ hordered hstep => hordered.step hstep

end System

end Order

/-! ## A store with a clock -/

/-- A store and what its clock shows. -/
structure Clocked (S T : Type u) where
  store : S
  clock : T

namespace Clocked

variable {S T κ : Type u} {ρ : κ → Type u}

/-- The rows of a store with a clock; the clock has no key of the store. -/
abbrev Row (ρ : κ → Type u) (T : Type u) : Option κ → Type u
  | none => T
  | some key => ρ key

variable [KeyedStore S κ ρ]

def row? (db : Clocked S T) : (key : Option κ) → Option (Row ρ T key)
  | none => some db.clock
  | some key => get? db.store key

def setRow (db : Clocked S T) : (key : Option κ) → Row ρ T key → Clocked S T
  | none, clock => { db with clock }
  | some key, row => { db with store := set db.store key row }

instance : KeyedStore (Clocked S T) (Option κ) (Row ρ T) where
  get? := row?
  set := setRow
  get?_set_self := by
    intro db key row
    cases key with
    | none => rfl
    | some key => exact get?_set_self db.store key row
  get?_set_of_ne := by
    intro db key row other hne
    cases key <;> cases other
    case none.none => exact absurd rfl hne
    case some.some => exact get?_set_of_ne _ _ _ _ fun heq => hne (congrArg some heq)
    all_goals rfl

/-- Writes to the store leave the clock alone. -/
theorem clock_apply {db : Clocked S T} {writes : List (Write (Row ρ T))}
    (h : ∀ write ∈ writes, write.key ≠ none) : (apply db writes).clock = db.clock := by
  have hget : get? (apply db writes) (none : Option κ) = get? db none := get?_apply_of_ne h
  exact Option.some.inj hget

/-- `timezone.now()`. -/
def now {τ : Type u} (query : τ) : Transaction τ (Clocked S T) (Row ρ T) T :=
  .select query fun db => db.clock

/-- Time passes until `later`, unless it is later already. -/
def tick {τ : Type u} [LinearOrder T] (later : T) : Transaction τ (Clocked S T) (Row ρ T) PUnit :=
  .modify none fun clock => max clock later

end Clocked
