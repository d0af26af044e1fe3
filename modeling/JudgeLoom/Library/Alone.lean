import JudgeLoom.Library.ReadCommitted

/-!
# Transactions that run alone

`Transaction.alone` executes a program on a store that nobody else changes.  A session
that has the machine of `System.move` to itself does exactly that
(`System.exists_moves_alone`).
-/

universe u v

open KeyedStore

namespace Transaction

variable {τ S κ : Type u} {ρ : κ → Type u} {α β : Type u} [KeyedStore S κ ρ]

/-- The result and the store after a transaction; `none` if it aborts. -/
def alone : Transaction τ S ρ α → S → Option (α × S)
  | done value, store => some (value, store)
  | abort, _ => none
  | read _ next, store => (next store).alone store
  | lock key next, store => (next (get? store key)).alone store
  | tryLock key next, store => (next (get? store key)).alone store
  | update key f next, store => next.alone (rewriteRow store key f)
  | insert key row next, store =>
      if (get? store key).isNone then next.alone (set store key row) else none

variable {store : S}

@[simp] theorem alone_pure {value : α} :
    (pure value : Transaction τ S ρ α).alone store = some (value, store) :=
  rfl

@[simp] theorem alone_abort : (abort : Transaction τ S ρ α).alone store = none := rfl

/-- Two programs in sequence. -/
@[simp] theorem alone_bind {program : Transaction τ S ρ α} {f : α → Transaction τ S ρ β} :
    (program >>= f).alone store =
      (program.alone store).bind fun result => (f result.1).alone result.2 := by
  change (program.bind f).alone store = _
  induction program generalizing store with
  | done value => rfl
  | abort => rfl
  | read query next ih => exact ih store
  | lock key next ih => exact ih (get? store key)
  | tryLock key next ih => exact ih (get? store key)
  | update key f next ih => exact ih
  | insert key row next ih =>
      simp only [bind, alone]
      split_ifs
      · exact ih
      · rfl

@[simp] theorem alone_select {query : τ} {f : S → α} :
    (select query f : Transaction τ S ρ α).alone store = some (f store, store) :=
  rfl

@[simp] theorem alone_forUpdate {key : κ} :
    (forUpdate key : Transaction τ S ρ _).alone store = some (get? store key, store) :=
  rfl

theorem alone_create {key : κ} (h : get? store key = none) (row : ρ key) :
    (create key row : Transaction τ S ρ _).alone store = some (⟨⟩, set store key row) :=
  if_pos (Option.isNone_iff_eq_none.mpr h)

/-- What a program does alone is an execution in which every version of the store is the
one that it ran on. -/
theorem yields_of_alone {program : Transaction τ S ρ α} {n : ℕ} {start : Progress τ ρ} {value : α}
    {store' : S} (h : program.alone (start.view store) = some (value, store')) :
    ∃ final, program.Yields (fun _ => store) n start value final ∧ final.view store = store' := by
  induction program generalizing start with
  | done result =>
      obtain ⟨rfl, rfl⟩ := Prod.mk.inj (Option.some.inj h)
      exact ⟨start, ⟨rfl, rfl⟩, rfl⟩
  | abort => cases h
  | read query next ih =>
      rw [← Progress.view_query start query n] at h
      obtain ⟨final, hyields, hview⟩ := ih _ h
      exact ⟨final, ⟨n, Nat.le_refl n, hyields⟩, hview⟩
  | lock key next ih => exact ih _ h
  | tryLock key next ih =>
      obtain ⟨final, hyields, hview⟩ := ih _ h
      exact ⟨final, Or.inl hyields, hview⟩
  | update key f next ih =>
      rw [alone, ← Progress.view_update] at h
      exact ih h
  | insert key row next ih =>
      rw [alone] at h
      split_ifs at h with hnone
      rw [← Progress.view_write] at h
      obtain ⟨final, hyields, hview⟩ := ih h
      exact ⟨final, ⟨Option.isNone_iff_eq_none.mp hnone, hyields⟩, hview⟩

end Transaction

namespace System

open Transaction

variable {ι : Type v} {τ S κ : Type u} {ρ : κ → Type u} {α : Type u} [KeyedStore S κ ρ]
  [DecidableEq ι] [DecidableEq κ] {sys : System ι τ S ρ α} {i : ι} {session : Session τ S ρ α}
  {value : α} {store' : S}

theorem moves_cons {label : Move ι τ S ρ α} {labels : List (Move ι τ S ρ α)} :
    sys.moves (label :: labels) = (sys.move label).bind fun sys => sys.moves labels :=
  List.foldlM_cons

/-- One statement, and then the rest of the session. -/
theorem moves_step {sys' : System ι τ S ρ α} {steps : ℕ} (hsession : sys.sessions i = some session)
    (hexecute : sys.execute i session = some sys') :
    sys.moves (List.replicate (steps + 1) (.step i)) =
      sys'.moves (List.replicate steps (.step i)) := by
  rw [List.replicate_succ, moves_cons, move, hsession, Option.bind_some, hexecute, Option.bind_some]

theorem free_acquire (hfree : ∀ key, sys.free i key = true) (key other : κ) :
    (sys.acquire i key).free i other = true := by
  by_cases hother : other = key
  · subst hother
    exact decide_eq_true (Or.inr (owner_acquire_self other))
  · have howner : (sys.acquire i key).owner other = sys.owner other :=
      Function.update_of_ne hother ..
    rw [free, howner]
    exact hfree other

/-- A session that no lock stops executes the rest of its program. -/
theorem exists_steps_alone {program : Transaction τ S ρ α}
    (hsession : sys.sessions i = some session) (hrest : session.rest = program)
    (hfree : ∀ key, sys.free i key = true)
    (h : program.alone (session.view sys.store) = some (value, store')) :
    ∃ steps sys', sys.moves (List.replicate steps (.step i)) = some sys' ∧
      sys'.commits.map Commit.value = sys.commits.map Commit.value ++ [value] ∧
        sys'.store = store' := by
  have hself : ∀ (sys : System ι τ S ρ α) (session : Session τ S ρ α),
      (sys.put i session).sessions i = some session := fun _ _ => Function.update_self ..
  induction program generalizing sys session with
  | done result =>
      obtain ⟨rfl, rfl⟩ := Prod.mk.inj (Option.some.inj h)
      refine ⟨1, sys.committed i session result, ?_, List.map_append, store_committed result⟩
      rw [moves_step hsession (by rw [execute, hrest])]
      rfl
  | abort => cases h
  | read query next ih =>
      obtain ⟨steps, final, hmoves, hcommits⟩ := ih _ (hself sys
        { session.query query sys.commits.length with
          program := session.program
          rest := next (session.view sys.store) }) rfl hfree h
      refine ⟨steps + 1, final, ?_, hcommits⟩
      rw [moves_step hsession (by rw [execute, hrest])]
      exact hmoves
  | lock key next ih =>
      obtain ⟨steps, final, hmoves, hcommits⟩ := ih _ (hself (sys.acquire i key)
        { session with rest := next (get? (session.view sys.store) key) }) rfl
        (free_acquire hfree key) h
      refine ⟨steps + 1, final, ?_, hcommits⟩
      rw [moves_step hsession (by rw [execute, hrest]; exact if_pos (hfree key))]
      exact hmoves
  | tryLock key next ih =>
      obtain ⟨steps, final, hmoves, hcommits⟩ := ih _ (hself (sys.acquire i key)
        { session with rest := next (get? (session.view sys.store) key) }) rfl
        (free_acquire hfree key) h
      refine ⟨steps + 1, final, ?_, hcommits⟩
      rw [moves_step hsession (by rw [execute, hrest]; exact if_pos (hfree key))]
      exact hmoves
  | update key f next ih =>
      rw [alone, ← Progress.view_update] at h
      obtain ⟨steps, final, hmoves, hcommits⟩ := ih (hself (sys.acquire i key)
        { session.write ((get? (session.view sys.store) key).map fun row => ⟨key, f row⟩) with
          program := session.program
          rest := next }) rfl (free_acquire hfree key) h
      refine ⟨steps + 1, final, ?_, hcommits⟩
      rw [moves_step hsession (by rw [execute, hrest]; exact if_pos (hfree key))]
      exact hmoves
  | insert key row next ih =>
      rw [alone] at h
      split_ifs at h with hnone
      rw [← Progress.view_write] at h
      obtain ⟨steps, final, hmoves, hcommits⟩ := ih (hself (sys.acquire i key)
        { session.write (some ⟨key, row⟩) with
          program := session.program
          rest := next }) rfl (free_acquire hfree key) h
      refine ⟨steps + 1, final, ?_, hcommits⟩
      rw [moves_step hsession (by rw [execute, hrest]; exact if_pos ⟨hfree key, hnone⟩)]
      exact hmoves

/-- A session by itself, from its beginning to its commit. -/
theorem exists_moves_alone {store : S} {program : Transaction τ S ρ α} (i : ι)
    (h : program.alone store = some (value, store')) :
    ∃ steps sys', (start store).moves (.begin i program :: List.replicate steps (.step i)) =
        some sys' ∧ sys'.commits.map Commit.value = [value] ∧ sys'.store = store' := by
  let began : System ι τ S ρ α := (start store).put i { program, rest := program }
  have hsession : began.sessions i = some { program, rest := program } := Function.update_self ..
  obtain ⟨steps, final, hmoves, hcommits, hstore⟩ :=
    exists_steps_alone hsession rfl (fun _ => rfl) h
  refine ⟨steps, final, ?_, hcommits, hstore⟩
  rw [moves_cons]
  exact hmoves

end System
