import JudgeLoom.Library.Run
import Mathlib.Data.List.TakeDrop
import Mathlib.Logic.Function.Basic

/-!
# Transactions under read-committed isolation

A transaction is a program of statements on a store of rows.  Every statement is
one atomic step, and the statements of different transactions interleave:

* a query reads the rows committed at the moment it runs, and its own writes;
* `lock` waits until no other transaction holds the row and returns its current
  version, `tryLock` skips a row that another transaction holds;
* `update` locks the row and rewrites its current version;
* locks are held, and writes are hidden from the others, until the commit.

`System.move` is the resulting machine.  A transaction may be aborted at any
point, which also covers the victims of a deadlock.

The main result, `System.Sound.run`, reduces a concurrent run to its commits: each
committed transaction is explained by `Transaction.Yields`, an execution of its
program alone in which every query is answered by some version of the store no
later than the one it was committed on, and every lock by exactly that version.
`System.run_commits` is the induction rule that follows: what one such execution
does to the store is what every commit of the run does.
-/

universe u v

/-- A store of rows under keys; the type of a row depends on its key. -/
class KeyedStore (S : Type u) (κ : outParam (Type u)) (ρ : outParam (κ → Type u)) where
  get? : S → (key : κ) → Option (ρ key)
  set : S → (key : κ) → ρ key → S
  get?_set_self : ∀ store key row, get? (set store key row) key = some row
  get?_set_of_ne : ∀ store key row other, other ≠ key →
    get? (set store key row) other = get? store other

/-- A row that a transaction wrote. -/
structure Write {κ : Type u} (ρ : κ → Type u) where
  key : κ
  row : ρ key

namespace KeyedStore

variable {S κ : Type u} {ρ : κ → Type u} [KeyedStore S κ ρ]

/-- The store after some writes. -/
def apply (store : S) (writes : List (Write ρ)) : S :=
  writes.foldl (fun store write => set store write.key write.row) store

@[simp] theorem apply_nil (store : S) : apply store ([] : List (Write ρ)) = store := rfl

@[simp] theorem apply_cons (store : S) (write : Write ρ) (writes : List (Write ρ)) :
    apply store (write :: writes) = apply (set store write.key write.row) writes :=
  rfl

theorem apply_append (store : S) (writes more : List (Write ρ)) :
    apply store (writes ++ more) = apply (apply store writes) more :=
  List.foldl_append

/-- A key that no write names keeps its row. -/
theorem get?_apply_of_ne {store : S} {writes : List (Write ρ)} {key : κ}
    (h : ∀ write ∈ writes, write.key ≠ key) : get? (apply store writes) key = get? store key := by
  induction writes generalizing store with
  | nil => rfl
  | cons write rest ih =>
      rw [apply_cons, ih fun other hother => h other (List.mem_cons_of_mem _ hother)]
      exact get?_set_of_ne _ _ _ _ (h write List.mem_cons_self).symm

/-- What a transaction sees under a key depends on the committed row of that key only. -/
theorem get?_apply_congr {store store' : S} {writes : List (Write ρ)} {key : κ}
    (h : get? store key = get? store' key) :
    get? (apply store writes) key = get? (apply store' writes) key := by
  classical
  induction writes generalizing store store' with
  | nil => exact h
  | cons write rest ih =>
      rw [apply_cons, apply_cons]
      refine ih ?_
      by_cases hkey : key = write.key
      · subst hkey
        rw [get?_set_self, get?_set_self]
      · rw [get?_set_of_ne _ _ _ _ hkey, get?_set_of_ne _ _ _ _ hkey, h]

/-- Rewrite the row of a key, if there is one. -/
def rewriteRow (store : S) (key : κ) (f : ρ key → ρ key) : S :=
  (get? store key).elim store fun row => set store key (f row)

theorem get?_rewriteRow_self (store : S) (key : κ) (f : ρ key → ρ key) :
    get? (rewriteRow store key f) key = (get? store key).map f := by
  unfold rewriteRow
  cases hrow : get? store key with
  | none => exact hrow
  | some row => exact get?_set_self store key (f row)

theorem get?_rewriteRow_of_ne (store : S) {key other : κ} (f : ρ key → ρ key) (h : other ≠ key) :
    get? (rewriteRow store key f) other = get? store other := by
  unfold rewriteRow
  cases get? store key with
  | none => rfl
  | some row => exact get?_set_of_ne store key (f row) other h

end KeyedStore

open KeyedStore

/-- A program of statements that ends in a commit with a value, or aborts.  A query
carries a name, so that a schedule can be read off the log of a transaction. -/
inductive Transaction (τ S : Type u) {κ : Type u} (ρ : κ → Type u) (α : Type u) : Type u
  | done (value : α)
  | abort
  | read (query : τ) (next : S → Transaction τ S ρ α)
  | lock (key : κ) (next : Option (ρ key) → Transaction τ S ρ α)
  | tryLock (key : κ) (next : Option (ρ key) → Transaction τ S ρ α)
  | update (key : κ) (f : ρ key → ρ key) (next : Transaction τ S ρ α)
  | insert (key : κ) (row : ρ key) (next : Transaction τ S ρ α)

/-- What a transaction has done so far: its writes, and its queries with the number
of commits before each of them. -/
structure Progress (τ : Type u) {κ : Type u} (ρ : κ → Type u) where
  writes : List (Write ρ) := []
  log : List (τ × ℕ) := []

namespace Progress

variable {τ κ : Type u} {ρ : κ → Type u}

/-- One more write, if there is one. -/
def write (progress : Progress τ ρ) (written : Option (Write ρ)) : Progress τ ρ :=
  { progress with writes := progress.writes ++ written.toList }

/-- One more query, after `commits` commits. -/
def query (progress : Progress τ ρ) (name : τ) (commits : ℕ) : Progress τ ρ :=
  { progress with log := progress.log ++ [(name, commits)] }

variable {S : Type u} [KeyedStore S κ ρ]

/-- The store as the transaction sees it. -/
def view (progress : Progress τ ρ) (store : S) : S := apply store progress.writes

@[simp] theorem view_nil (store : S) : view ({} : Progress τ ρ) store = store := rfl

theorem view_of_writes_nil {progress : Progress τ ρ} (h : progress.writes = []) (store : S) :
    progress.view store = store := by
  rw [view, h, apply_nil]

@[simp] theorem view_query (progress : Progress τ ρ) (name : τ) (commits : ℕ) (store : S) :
    (progress.query name commits).view store = progress.view store :=
  rfl

theorem view_write (progress : Progress τ ρ) (key : κ) (row : ρ key) (store : S) :
    (progress.write (some ⟨key, row⟩)).view store = set (progress.view store) key row :=
  apply_append store progress.writes [⟨key, row⟩]

/-- After an update the transaction sees the updated row. -/
theorem view_update (progress : Progress τ ρ) (key : κ) (f : ρ key → ρ key) (store : S) :
    (progress.write ((get? (progress.view store) key).map fun row => ⟨key, f row⟩)).view store =
      rewriteRow (progress.view store) key f := by
  unfold rewriteRow
  cases get? (progress.view store) key with
  | none => exact congrArg (apply store) (List.append_nil _)
  | some row => exact view_write progress key (f row) store

end Progress

namespace Transaction

variable {τ S κ : Type u} {ρ : κ → Type u} {α β : Type u}

/-- Run one program after the other, as parts of one transaction. -/
def bind (f : α → Transaction τ S ρ β) : Transaction τ S ρ α → Transaction τ S ρ β
  | done value => f value
  | abort => abort
  | read query next => read query fun store => (next store).bind f
  | lock key next => lock key fun row => (next row).bind f
  | tryLock key next => tryLock key fun row => (next row).bind f
  | update key g next => update key g (next.bind f)
  | insert key row next => insert key row (next.bind f)

instance : Monad (Transaction τ S ρ) where
  pure := done
  bind program f := program.bind f

/-- `SELECT`: what `f` computes from the rows that the query sees. -/
def select (query : τ) (f : S → α) : Transaction τ S ρ α := read query fun store => done (f store)

/-- `SELECT … FOR UPDATE` by primary key. -/
def forUpdate (key : κ) : Transaction τ S ρ (Option (ρ key)) := lock key done

/-- The same with `SKIP LOCKED`. -/
def skipLocked (key : κ) : Transaction τ S ρ (Option (ρ key)) := tryLock key done

/-- `UPDATE` by primary key. -/
def modify (key : κ) (f : ρ key → ρ key) : Transaction τ S ρ PUnit := update key f (done ⟨⟩)

/-- `INSERT`. -/
def create (key : κ) (row : ρ key) : Transaction τ S ρ PUnit := insert key row (done ⟨⟩)

/-- A computation that may raise, which rolls the transaction back. -/
def ofExcept {ε : Type*} : Except ε α → Transaction τ S ρ α
  | .ok value => done value
  | .error _ => abort

section Yields

variable [KeyedStore S κ ρ] {V V' : ℕ → S} {n : ℕ} {start final : Progress τ ρ} {value : α}

/-- The program, continued after `start`, ends in a commit with `value` and `final`,
when `V` are the versions of the store and it is committed on version `n`. -/
def Yields (V : ℕ → S) (n : ℕ) :
    Transaction τ S ρ α → Progress τ ρ → α → Progress τ ρ → Prop
  | done result, start, value, final => result = value ∧ start = final
  | abort, _, _, _ => False
  | read query next, start, value, final => ∃ m ≤ n,
      (next (start.view (V m))).Yields V n (start.query query m) value final
  | lock key next, start, value, final =>
      (next (get? (start.view (V n)) key)).Yields V n start value final
  | tryLock key next, start, value, final =>
      (next (get? (start.view (V n)) key)).Yields V n start value final ∨
        (next none).Yields V n start value final
  | update key f next, start, value, final =>
      next.Yields V n
        (start.write ((get? (start.view (V n)) key).map fun row => ⟨key, f row⟩)) value final
  | insert key row next, start, value, final =>
      get? (start.view (V n)) key = none ∧
        next.Yields V n (start.write (some ⟨key, row⟩)) value final

/-- Only the versions up to the commit matter. -/
theorem Yields.congr (hV : ∀ m ≤ n, V m = V' m) {program : Transaction τ S ρ α}
    (h : program.Yields V n start value final) : program.Yields V' n start value final := by
  induction program generalizing start with
  | done result => exact h
  | abort => exact h
  | read query next ih =>
      obtain ⟨m, hm, h⟩ := h
      exact ⟨m, hm, ih _ (hV m hm ▸ h)⟩
  | lock key next ih => exact ih _ (hV n (Nat.le_refl _) ▸ h)
  | tryLock key next ih =>
      rcases h with h | h
      · exact Or.inl (ih _ (hV n (Nat.le_refl _) ▸ h))
      · exact Or.inr (ih _ h)
  | update key f next ih => exact ih (hV n (Nat.le_refl _) ▸ h)
  | insert key row next ih => exact ⟨hV n (Nat.le_refl _) ▸ h.1, ih h.2⟩

@[simp] theorem yields_pure {result : α} :
    (pure result : Transaction τ S ρ α).Yields V n start value final ↔
      result = value ∧ start = final :=
  Iff.rfl

@[simp] theorem yields_abort :
    (abort : Transaction τ S ρ α).Yields V n start value final ↔ False :=
  Iff.rfl

/-- An execution of two programs in sequence is one of the first and one of the second. -/
@[simp] theorem yields_bind {program : Transaction τ S ρ α} {f : α → Transaction τ S ρ β} {b : β} :
    (program >>= f).Yields V n start b final ↔ ∃ a middle,
      program.Yields V n start a middle ∧ (f a).Yields V n middle b final := by
  change (program.bind f).Yields V n start b final ↔ _
  induction program generalizing start with
  | done result =>
      constructor
      · intro h
        exact ⟨result, start, ⟨rfl, rfl⟩, h⟩
      · rintro ⟨_, _, ⟨rfl, rfl⟩, h⟩
        exact h
  | abort =>
      constructor
      · exact False.elim
      · rintro ⟨_, _, hfalse, _⟩
        exact hfalse
  | read query next ih =>
      constructor
      · rintro ⟨m, hm, h⟩
        obtain ⟨a, middle, hfirst, hsecond⟩ := (ih _).mp h
        exact ⟨a, middle, ⟨m, hm, hfirst⟩, hsecond⟩
      · rintro ⟨a, middle, ⟨m, hm, hfirst⟩, hsecond⟩
        exact ⟨m, hm, (ih _).mpr ⟨a, middle, hfirst, hsecond⟩⟩
  | lock key next ih => exact ih _
  | tryLock key next ih =>
      constructor
      · rintro (h | h)
        · obtain ⟨a, middle, hfirst, hsecond⟩ := (ih _).mp h
          exact ⟨a, middle, Or.inl hfirst, hsecond⟩
        · obtain ⟨a, middle, hfirst, hsecond⟩ := (ih _).mp h
          exact ⟨a, middle, Or.inr hfirst, hsecond⟩
      · rintro ⟨a, middle, hfirst | hfirst, hsecond⟩
        · exact Or.inl ((ih _).mpr ⟨a, middle, hfirst, hsecond⟩)
        · exact Or.inr ((ih _).mpr ⟨a, middle, hfirst, hsecond⟩)
  | update key f next ih => exact ih
  | insert key row next ih =>
      constructor
      · rintro ⟨hnone, h⟩
        obtain ⟨a, middle, hfirst, hsecond⟩ := ih.mp h
        exact ⟨a, middle, ⟨hnone, hfirst⟩, hsecond⟩
      · rintro ⟨a, middle, ⟨hnone, hfirst⟩, hsecond⟩
        exact ⟨hnone, ih.mpr ⟨a, middle, hfirst, hsecond⟩⟩

@[simp] theorem yields_ofExcept {ε : Type*} {computation : Except ε α} :
    (ofExcept computation : Transaction τ S ρ α).Yields V n start value final ↔
      computation = .ok value ∧ start = final := by
  cases computation with
  | error error => exact iff_of_false id fun h => by cases h.1
  | ok result =>
      rw [Except.ok.injEq]
      exact Iff.rfl

@[simp] theorem yields_select {query : τ} {f : S → α} :
    (select query f : Transaction τ S ρ α).Yields V n start value final ↔
      ∃ m ≤ n, f (start.view (V m)) = value ∧ start.query query m = final :=
  Iff.rfl

@[simp] theorem yields_forUpdate {key : κ} {row : Option (ρ key)} :
    (forUpdate key : Transaction τ S ρ _).Yields V n start row final ↔
      get? (start.view (V n)) key = row ∧ start = final :=
  Iff.rfl

@[simp] theorem yields_skipLocked {key : κ} {row : Option (ρ key)} :
    (skipLocked key : Transaction τ S ρ _).Yields V n start row final ↔
      (get? (start.view (V n)) key = row ∨ none = row) ∧ start = final := by
  rw [or_and_right]
  exact Iff.rfl

@[simp] theorem yields_modify {key : κ} {f : ρ key → ρ key} {result : PUnit} :
    (modify key f : Transaction τ S ρ _).Yields V n start result final ↔
      start.write ((get? (start.view (V n)) key).map fun row => ⟨key, f row⟩) = final :=
  ⟨fun h => h.2, fun h => ⟨rfl, h⟩⟩

@[simp] theorem yields_create {key : κ} {row : ρ key} {result : PUnit} :
    (create key row : Transaction τ S ρ _).Yields V n start result final ↔
      get? (start.view (V n)) key = none ∧ start.write (some ⟨key, row⟩) = final :=
  ⟨fun h => ⟨h.1, h.2.2⟩, fun h => ⟨h.1, rfl, h.2⟩⟩

end Yields

end Transaction

/-! ## Systems of transactions -/

/-- A transaction in progress: what is left of its program. -/
structure Session (τ S : Type u) {κ : Type u} (ρ : κ → Type u) (α : Type u)
    extends Progress τ ρ where
  program : Transaction τ S ρ α
  rest : Transaction τ S ρ α

/-- A committed transaction. -/
structure Commit (ι : Type v) (τ S : Type u) {κ : Type u} (ρ : κ → Type u) (α : Type u)
    extends Progress τ ρ where
  session : ι
  program : Transaction τ S ρ α
  value : α

/-- The commits so far, the transactions in progress, and who holds which row. -/
structure System (ι : Type v) (τ S : Type u) {κ : Type u} (ρ : κ → Type u) (α : Type u) where
  initial : S
  commits : List (Commit ι τ S ρ α) := []
  sessions : ι → Option (Session τ S ρ α) := fun _ => none
  owner : κ → Option ι := fun _ => none

/-- A session begins a transaction, executes its next statement, or aborts. -/
inductive Move (ι : Type v) (τ S : Type u) {κ : Type u} (ρ : κ → Type u) (α : Type u)
  | begin (session : ι) (program : Transaction τ S ρ α)
  | step (session : ι)
  | abort (session : ι)

namespace System

section Locks

variable {ι : Type v} {τ S κ : Type u} {ρ : κ → Type u} {α : Type u} {sys : System ι τ S ρ α}
  {i j : ι}

section

variable [DecidableEq κ]

def acquire (sys : System ι τ S ρ α) (i : ι) (key : κ) : System ι τ S ρ α :=
  { sys with owner := Function.update sys.owner key (some i) }

theorem owner_acquire_of_owner {key other : κ} (h : sys.owner other = some i) :
    (sys.acquire i key).owner other = some i := by
  unfold acquire
  dsimp only
  by_cases hother : other = key
  · rw [hother, Function.update_self]
  · rw [Function.update_of_ne hother, h]

theorem owner_acquire_self (key : κ) : (sys.acquire i key).owner key = some i :=
  Function.update_self ..

end

variable [DecidableEq ι]

/-- No other session holds the row. -/
def free (sys : System ι τ S ρ α) (i : ι) (key : κ) : Bool :=
  decide (sys.owner key = none ∨ sys.owner key = some i)

def put (sys : System ι τ S ρ α) (i : ι) (session : Session τ S ρ α) : System ι τ S ρ α :=
  { sys with sessions := Function.update sys.sessions i (some session) }

/-- End the transaction of a session and release its locks. -/
def release (sys : System ι τ S ρ α) (i : ι) : System ι τ S ρ α :=
  { sys with
    sessions := Function.update sys.sessions i none
    owner := fun key => if sys.owner key = some i then none else sys.owner key }

/-- The system after session `i` committed `session` with a value. -/
def committed (sys : System ι τ S ρ α) (i : ι) (session : Session τ S ρ α) (value : α) :
    System ι τ S ρ α :=
  { sys.release i with
    commits := sys.commits ++
      [{ session.toProgress with session := i, program := session.program, value }] }

theorem owner_acquire_iff [DecidableEq κ] {key : κ} (hfree : sys.free i key = true) (hne : j ≠ i) (other : κ) :
    (sys.acquire i key).owner other = some j ↔ sys.owner other = some j := by
  unfold acquire
  dsimp only
  by_cases hother : other = key
  · subst hother
    rw [Function.update_self]
    have hcases : sys.owner other = none ∨ sys.owner other = some i := by
      simpa [free] using hfree
    rcases hcases with hnone | hown
    · rw [hnone]
      exact iff_of_false (fun heq => hne (Option.some.inj heq).symm) (by simp)
    · rw [hown]
  · rw [Function.update_of_ne hother]

theorem owner_release_iff (hne : j ≠ i) (key : κ) :
    (sys.release i).owner key = some j ↔ sys.owner key = some j := by
  unfold release
  dsimp only
  split_ifs with howner
  · rw [howner]
    exact iff_of_false (by simp) fun heq => hne (Option.some.inj heq).symm
  · rfl

end Locks

variable {ι : Type v} {τ S κ : Type u} {ρ : κ → Type u} {α : Type u} [KeyedStore S κ ρ]

/-- The store after the first `n` commits. -/
def version (sys : System ι τ S ρ α) (n : ℕ) : S :=
  apply sys.initial ((sys.commits.take n).flatMap fun commit => commit.writes)

/-- The committed store. -/
def store (sys : System ι τ S ρ α) : S := sys.version sys.commits.length

/-- The system before any transaction. -/
def start (store : S) : System ι τ S ρ α := { initial := store }

/-! ## Every commit is explained by its program alone -/

variable {Permitted : ι → Transaction τ S ρ α → Prop} {sys sys' : System ι τ S ρ α} {i j : ι}
  {session session' : Session τ S ρ α} {V : ℕ → S} {n : ℕ}

/-- `V` are versions up to a commit of session `i` on version `n`, as far as the
system can tell: a row that the session holds stays as it is. -/
structure Continues (sys : System ι τ S ρ α) (i : ι) (V : ℕ → S) (n : ℕ) : Prop where
  later : sys.commits.length ≤ n
  versions : ∀ m ≤ sys.commits.length, V m = sys.version m
  held : ∀ key, sys.owner key = some i → get? (V n) key = get? sys.store key

/-- However the session goes on, its program could have done it alone. -/
structure Explained (sys : System ι τ S ρ α) (i : ι) (session : Session τ S ρ α) : Prop where
  owned : ∀ write ∈ session.writes, sys.owner write.key = some i
  yields : ∀ V n, sys.Continues i V n → ∀ value final,
    session.rest.Yields V n session.toProgress value final →
      session.program.Yields V n {} value final

/-- The invariant of the machine. -/
structure Sound (Permitted : ι → Transaction τ S ρ α → Prop) (sys : System ι τ S ρ α) : Prop where
  sessions : ∀ i session, sys.sessions i = some session →
    Permitted i session.program ∧ sys.Explained i session
  commits : ∀ n (commit : Commit ι τ S ρ α), sys.commits[n]? = some commit →
    Permitted commit.session commit.program ∧
      commit.program.Yields sys.version n {} commit.value commit.toProgress

theorem version_succ {commit : Commit ι τ S ρ α} (h : sys.commits[n]? = some commit) :
    sys.version (n + 1) = apply (sys.version n) commit.writes := by
  unfold version
  rw [List.take_add_one, h, List.flatMap_append, apply_append]
  simp

/-- What a session that holds a row sees of it does not change until its commit. -/
theorem Continues.get?_view (h : sys.Continues i V n) {key : κ} (hkey : sys.owner key = some i)
    (progress : Progress τ ρ) :
    get? (progress.view (V n)) key = get? (progress.view sys.store) key :=
  get?_apply_congr (h.held key hkey)

/-- Nothing that a session relies on has changed. -/
theorem Explained.congr (h : sys.Explained i session) (hinitial : sys'.initial = sys.initial)
    (hcommits : sys'.commits = sys.commits)
    (howner : ∀ key, sys'.owner key = some i ↔ sys.owner key = some i) :
    sys'.Explained i session := by
  have hversion : sys'.version = sys.version := by
    funext m
    rw [version, version, hinitial, hcommits]
  refine ⟨fun write hwrite => (howner _).mpr (h.owned write hwrite), ?_⟩
  intro V n hcontinues
  refine h.yields V n ⟨?_, ?_, ?_⟩
  · exact hcommits ▸ hcontinues.later
  · intro m hm
    rw [hcontinues.versions m (hcommits ▸ hm), hversion]
  · intro key hkey
    rw [hcontinues.held key ((howner key).mpr hkey), store, store, hversion, hcommits]

/-- A session that executed one statement, possibly with one more lock. -/
theorem Explained.advance (h : sys.Explained i session) (hinitial : sys'.initial = sys.initial)
    (hcommits : sys'.commits = sys.commits)
    (howner : ∀ key, sys.owner key = some i → sys'.owner key = some i)
    (hprogram : session'.program = session.program)
    (howned : ∀ write ∈ session'.writes, sys'.owner write.key = some i)
    (hrest : ∀ V n, sys'.Continues i V n → ∀ value final,
      session'.rest.Yields V n session'.toProgress value final →
        session.rest.Yields V n session.toProgress value final) :
    sys'.Explained i session' := by
  have hversion : sys'.version = sys.version := by
    funext m
    rw [version, version, hinitial, hcommits]
  refine ⟨howned, ?_⟩
  intro V n hcontinues value final hyields
  rw [hprogram]
  refine h.yields V n ⟨?_, ?_, ?_⟩ value final (hrest V n hcontinues value final hyields)
  · exact hcommits ▸ hcontinues.later
  · intro m hm
    rw [hcontinues.versions m (hcommits ▸ hm), hversion]
  · intro key hkey
    rw [hcontinues.held key (howner key hkey), store, store, hversion, hcommits]

/-- What every permitted program does to the store, executed alone, every commit of a
system does. -/
theorem Sound.run_commits {R : S → α → S → Prop} (h : sys.Sound Permitted)
    (hprogram : ∀ i program, Permitted i program → ∀ (V : ℕ → S) n value final,
      program.Yields V n {} value final → R (V n) value (final.view (V n))) :
    Run R sys.initial (sys.commits.map fun commit => commit.value) sys.store := by
  have hversions : ∀ n ≤ sys.commits.length, Run R sys.initial
      ((sys.commits.take n).map fun commit => commit.value) (sys.version n) := by
    intro n
    induction n with
    | zero => exact fun _ => Run.nil
    | succ n ih =>
        intro hn
        have hcommit : sys.commits[n]? = some sys.commits[n] := List.getElem?_eq_getElem hn
        obtain ⟨hpermitted, hyields⟩ := h.commits n _ hcommit
        rw [List.take_add_one, hcommit, List.map_append, version_succ hcommit]
        exact (ih (by omega)).snoc (hprogram _ _ hpermitted _ _ _ _ hyields)
  have hall := hversions sys.commits.length (Nat.le_refl _)
  rwa [List.take_length] at hall

/-- What every permitted program, executed alone, keeps is true of every version. -/
theorem Sound.version_invariant {P : S → Prop} (h : sys.Sound Permitted) (hinitial : P sys.initial)
    (hprogram : ∀ i program, Permitted i program → ∀ (V : ℕ → S) n value final,
      program.Yields V n {} value final → P (V n) → P (final.view (V n))) :
    ∀ n ≤ sys.commits.length, P (sys.version n) := by
  intro n
  induction n with
  | zero => exact fun _ => hinitial
  | succ n ih =>
      intro hn
      have hcommit : sys.commits[n]? = some sys.commits[n] := List.getElem?_eq_getElem hn
      obtain ⟨hpermitted, hyields⟩ := h.commits n _ hcommit
      rw [version_succ hcommit]
      exact hprogram _ _ hpermitted _ _ _ _ hyields (ih (by omega))

theorem sound_start (store : S) : (start store : System ι τ S ρ α).Sound Permitted where
  sessions := fun _ _ hsession => absurd hsession (by simp [start])
  commits := fun _ _ hcommit => absurd hcommit (by simp [start])

variable [DecidableEq ι]

theorem version_committed (value : α) {m : ℕ} (hm : m ≤ sys.commits.length) :
    (sys.committed i session value).version m = sys.version m := by
  unfold version committed
  dsimp only
  rw [List.take_append_of_le_length hm]
  rfl

theorem store_committed (value : α) :
    (sys.committed i session value).store = apply sys.store session.writes := by
  have hlength : (sys.committed i session value).commits.length = sys.commits.length + 1 := by
    simp [committed]
  have hlast : (sys.committed i session value).commits[sys.commits.length]? =
      some { session.toProgress with session := i, program := session.program, value } := by
    simp [committed]
  rw [store, hlength, version_succ hlast, version_committed value (Nat.le_refl _)]
  rfl

/-- Replacing the session of `i` keeps the invariant when the new one is explained and
the locks of the others are untouched. -/
theorem Sound.put (h : sys.Sound Permitted) (hpermitted : Permitted i session.program)
    (hinitial : sys'.initial = sys.initial) (hcommits : sys'.commits = sys.commits)
    (hsessions : sys'.sessions = sys.sessions)
    (howner : ∀ j, j ≠ i → ∀ key, sys'.owner key = some j ↔ sys.owner key = some j)
    (hexplained : sys'.Explained i session) : (sys'.put i session).Sound Permitted where
  sessions := by
    intro j other hother
    have hupdate : Function.update sys'.sessions i (some session) j = some other := hother
    by_cases hj : j = i
    · subst hj
      rw [Function.update_self] at hupdate
      obtain rfl := Option.some.inj hupdate
      exact ⟨hpermitted, hexplained.congr rfl rfl fun _ => Iff.rfl⟩
    · rw [Function.update_of_ne hj, hsessions] at hupdate
      obtain ⟨hpermitted, hexplained⟩ := h.sessions j other hupdate
      exact ⟨hpermitted, hexplained.congr hinitial hcommits (howner j hj)⟩
  commits := by
    have hversion : (sys'.put i session).version = sys.version := by
      funext m
      change apply sys'.initial _ = apply sys.initial _
      rw [hinitial]
      change apply sys.initial ((sys'.commits.take m).flatMap _) = _
      rw [hcommits]
    intro n commit hcommit
    rw [hversion]
    exact h.commits n commit (hcommits ▸ hcommit)

/-- The end of a transaction without a commit. -/
theorem Sound.release (h : sys.Sound Permitted) (i : ι) : (sys.release i).Sound Permitted where
  sessions := by
    intro j other hother
    have hupdate : Function.update sys.sessions i none j = some other := hother
    by_cases hj : j = i
    · subst hj
      rw [Function.update_self] at hupdate
      cases hupdate
    · rw [Function.update_of_ne hj] at hupdate
      obtain ⟨hpermitted, hexplained⟩ := h.sessions j other hupdate
      exact ⟨hpermitted, hexplained.congr rfl rfl (owner_release_iff hj)⟩
  commits := h.commits

/-- A commit is explained by the rest of its program, which is empty; the other
sessions hold none of the rows that it wrote. -/
theorem Sound.committed (h : sys.Sound Permitted) (hsession : sys.sessions i = some session)
    {value : α} (hdone : session.rest = .done value) :
    (sys.committed i session value).Sound Permitted where
  sessions := by
    intro j other hother
    have hupdate : Function.update sys.sessions i none j = some other := hother
    by_cases hj : j = i
    · subst hj
      rw [Function.update_self] at hupdate
      cases hupdate
    · rw [Function.update_of_ne hj] at hupdate
      obtain ⟨hpermitted, hexplained⟩ := h.sessions j other hupdate
      refine ⟨hpermitted, fun write hwrite => ?_, fun V n hcontinues => ?_⟩
      · exact (owner_release_iff hj _).mpr (hexplained.owned write hwrite)
      · have hlength : (sys.committed i session value).commits.length =
            sys.commits.length + 1 := by
          simp [System.committed]
        refine hexplained.yields V n ⟨?_, ?_, ?_⟩
        · have hlater := hcontinues.later
          omega
        · intro m hm
          rw [hcontinues.versions m (by omega), version_committed value hm]
        · intro key hkey
          rw [hcontinues.held key ((owner_release_iff hj key).mpr hkey), store_committed]
          refine get?_apply_of_ne fun write hwrite hsame => ?_
          have hown := (h.sessions i session hsession).2.owned write hwrite
          rw [hsame, hkey] at hown
          exact hj (Option.some.inj hown)
  commits := by
    intro n commit hcommit
    have hcommits : (sys.commits ++ [({ session.toProgress with
        session := i, program := session.program, value } : Commit ι τ S ρ α)])[n]? =
          some commit := hcommit
    rw [List.getElem?_append] at hcommits
    split_ifs at hcommits with hn
    · obtain ⟨hpermitted, hyields⟩ := h.commits n commit hcommits
      refine ⟨hpermitted, hyields.congr fun m hm => ?_⟩
      exact (version_committed value (by omega)).symm
    · have hlast : n - sys.commits.length = 0 := by
        by_contra hpositive
        rw [List.getElem?_singleton, if_neg hpositive] at hcommits
        cases hcommits
      have hn : n = sys.commits.length := by omega
      subst hn
      rw [hlast] at hcommits
      obtain rfl := Option.some.inj hcommits
      obtain ⟨hpermitted, hexplained⟩ := h.sessions i session hsession
      refine ⟨hpermitted, ?_⟩
      have hyields := hexplained.yields sys.version sys.commits.length
        ⟨(Nat.le_refl _), fun _ _ => rfl, fun _ _ => rfl⟩ value session.toProgress
        (by rw [hdone]; exact ⟨rfl, rfl⟩)
      exact hyields.congr fun m hm => (version_committed value hm).symm

/-! ## The machine -/

variable [DecidableEq κ]

/-- The next statement of a session; `none` means that it waits for a lock. -/
def execute (sys : System ι τ S ρ α) (i : ι) (session : Session τ S ρ α) :
    Option (System ι τ S ρ α) :=
  let view := session.view sys.store
  match session.rest with
  | .done value => some (sys.committed i session value)
  | .abort => some (sys.release i)
  | .read query next =>
      some (sys.put i
        { session.query query sys.commits.length with
          program := session.program, rest := next view })
  | .lock key next =>
      if sys.free i key then
        some ((sys.acquire i key).put i { session with rest := next (get? view key) })
      else none
  | .tryLock key next =>
      if sys.free i key then
        some ((sys.acquire i key).put i { session with rest := next (get? view key) })
      else some (sys.put i { session with rest := next none })
  | .update key f next =>
      if sys.free i key then
        some ((sys.acquire i key).put i
          { session.write ((get? view key).map fun row => ⟨key, f row⟩) with
            program := session.program, rest := next })
      else none
  | .insert key row next =>
      if sys.free i key ∧ (get? view key).isNone then
        some ((sys.acquire i key).put i
          { session.write (some ⟨key, row⟩) with program := session.program, rest := next })
      else none

/-- One move of the system; `none` if the move is not possible. -/
def move (sys : System ι τ S ρ α) : Move ι τ S ρ α → Option (System ι τ S ρ α)
  | .begin i program =>
      if (sys.sessions i).isNone then some (sys.put i { program, rest := program }) else none
  | .step i => (sys.sessions i).bind (sys.execute i)
  | .abort i => if (sys.sessions i).isSome then some (sys.release i) else none

/-- A move of a system whose sessions begin permitted programs only. -/
def Step (Permitted : ι → Transaction τ S ρ α → Prop) (sys : System ι τ S ρ α)
    (label : Move ι τ S ρ α) (next : System ι τ S ρ α) : Prop :=
  sys.move label = some next ∧ ∀ i program, label = .begin i program → Permitted i program

/-- One statement of a session keeps the invariant. -/
theorem Sound.execute (h : sys.Sound Permitted) (hsession : sys.sessions i = some session)
    (hnext : sys.execute i session = some sys') : sys'.Sound Permitted := by
  obtain ⟨hpermitted, hexplained⟩ := h.sessions i session hsession
  have hacquire : ∀ {key}, sys.free i key = true → ∀ j, j ≠ i → ∀ other,
      (sys.acquire i key).owner other = some j ↔ sys.owner other = some j :=
    fun hfree j hj => owner_acquire_iff hfree hj
  have howned : ∀ key, ∀ write ∈ session.writes,
      (sys.acquire i key).owner write.key = some i :=
    fun key write hwrite => owner_acquire_of_owner (hexplained.owned write hwrite)
  unfold System.execute at hnext
  cases hrest : session.rest with
  | done value =>
      simp only [hrest, Option.some.injEq] at hnext
      subst hnext
      exact h.committed hsession hrest
  | abort =>
      simp only [hrest, Option.some.injEq] at hnext
      subst hnext
      exact h.release i
  | read query next =>
      simp only [hrest, Option.some.injEq] at hnext
      subst hnext
      refine h.put hpermitted rfl rfl rfl (fun _ _ _ => Iff.rfl) ?_
      refine hexplained.advance rfl rfl (fun _ hkey => hkey) rfl hexplained.owned ?_
      intro V n hcontinues value final hyields
      rw [hrest]
      refine ⟨sys.commits.length, hcontinues.later, ?_⟩
      rw [hcontinues.versions _ (Nat.le_refl _)]
      exact hyields
  | lock key next =>
      simp only [hrest] at hnext
      split_ifs at hnext with hfree
      obtain rfl := Option.some.inj hnext
      refine h.put hpermitted rfl rfl rfl (hacquire hfree) ?_
      refine hexplained.advance rfl rfl (fun _ => owner_acquire_of_owner) rfl (howned key) ?_
      intro V n hcontinues value final hyields
      rw [hrest]
      change (next _).Yields V n _ value final
      rw [hcontinues.get?_view (owner_acquire_self key)]
      exact hyields
  | tryLock key next =>
      simp only [hrest] at hnext
      split_ifs at hnext with hfree
      · obtain rfl := Option.some.inj hnext
        refine h.put hpermitted rfl rfl rfl (hacquire hfree) ?_
        refine hexplained.advance rfl rfl (fun _ => owner_acquire_of_owner) rfl (howned key) ?_
        intro V n hcontinues value final hyields
        rw [hrest]
        refine Or.inl ?_
        rw [hcontinues.get?_view (owner_acquire_self key)]
        exact hyields
      · obtain rfl := Option.some.inj hnext
        refine h.put hpermitted rfl rfl rfl (fun _ _ _ => Iff.rfl) ?_
        refine hexplained.advance rfl rfl (fun _ hkey => hkey) rfl hexplained.owned ?_
        intro V n hcontinues value final hyields
        rw [hrest]
        exact Or.inr hyields
  | update key f next =>
      simp only [hrest] at hnext
      split_ifs at hnext with hfree
      obtain rfl := Option.some.inj hnext
      refine h.put hpermitted rfl rfl rfl (hacquire hfree) ?_
      refine hexplained.advance rfl rfl (fun _ => owner_acquire_of_owner) rfl ?_ ?_
      · intro write hwrite
        rcases List.mem_append.mp hwrite with hwrite | hwrite
        · exact howned key write hwrite
        · obtain ⟨row, _, rfl⟩ := Option.map_eq_some_iff.mp (Option.mem_toList.mp hwrite)
          exact owner_acquire_self key
      · intro V n hcontinues value final hyields
        rw [hrest]
        change next.Yields V n _ value final
        rw [hcontinues.get?_view (owner_acquire_self key)]
        exact hyields
  | insert key row next =>
      simp only [hrest] at hnext
      split_ifs at hnext with hfree
      obtain rfl := Option.some.inj hnext
      refine h.put hpermitted rfl rfl rfl (hacquire hfree.1) ?_
      refine hexplained.advance rfl rfl (fun _ => owner_acquire_of_owner) rfl ?_ ?_
      · intro write hwrite
        rcases List.mem_append.mp hwrite with hwrite | hwrite
        · exact howned key write hwrite
        · obtain rfl := List.mem_singleton.mp hwrite
          exact owner_acquire_self key
      · intro V n hcontinues value final hyields
        rw [hrest]
        refine ⟨?_, hyields⟩
        rw [hcontinues.get?_view (owner_acquire_self key)]
        exact Option.isNone_iff_eq_none.mp hfree.2

theorem Sound.step {label : Move ι τ S ρ α} (h : sys.Sound Permitted)
    (hstep : sys.Step Permitted label sys') : sys'.Sound Permitted := by
  obtain ⟨hmove, hpermitted⟩ := hstep
  cases label with
  | begin i program =>
      simp only [move] at hmove
      split_ifs at hmove
      obtain rfl := Option.some.inj hmove
      refine h.put (hpermitted i program rfl) rfl rfl rfl (fun _ _ _ => Iff.rfl) ⟨?_, ?_⟩
      · exact fun write hwrite => absurd hwrite List.not_mem_nil
      · exact fun V n _ value final hyields => hyields
  | step i =>
      obtain ⟨session, hsession, hexecute⟩ := Option.bind_eq_some_iff.mp hmove
      exact h.execute hsession hexecute
  | abort i =>
      simp only [move] at hmove
      split_ifs at hmove
      obtain rfl := Option.some.inj hmove
      exact h.release i

theorem initial_of_execute (h : sys.execute i session = some sys') :
    sys'.initial = sys.initial := by
  unfold execute at h
  dsimp only at h
  split at h
  case h_1 => exact Option.some.inj h ▸ rfl
  case h_2 => exact Option.some.inj h ▸ rfl
  case h_3 => exact Option.some.inj h ▸ rfl
  all_goals
    split_ifs at h
    all_goals exact Option.some.inj h ▸ rfl

theorem Step.initial {label : Move ι τ S ρ α} (h : sys.Step Permitted label sys') :
    sys'.initial = sys.initial := by
  obtain ⟨hmove, -⟩ := h
  cases label with
  | begin i program =>
      simp only [move] at hmove
      split_ifs at hmove
      exact Option.some.inj hmove ▸ rfl
  | step i =>
      obtain ⟨session, -, hexecute⟩ := Option.bind_eq_some_iff.mp hmove
      exact initial_of_execute hexecute
  | abort i =>
      simp only [move] at hmove
      split_ifs at hmove
      exact Option.some.inj hmove ▸ rfl

theorem initial_of_run {store : S} {labels : List (Move ι τ S ρ α)}
    (run : Run (Step Permitted) (start store) labels sys) : sys.initial = store :=
  run.invariant (P := fun sys => sys.initial = store) rfl fun _ _ _ hinitial hstep =>
    hstep.initial.trans hinitial

/-- The system after a sequence of moves. -/
def moves (sys : System ι τ S ρ α) (labels : List (Move ι τ S ρ α)) : Option (System ι τ S ρ α) :=
  labels.foldlM move sys

theorem run_of_moves {labels : List (Move ι τ S ρ α)} (h : sys.moves labels = some sys')
    (hpermitted : ∀ i program, .begin i program ∈ labels → Permitted i program) :
    Run (Step Permitted) sys labels sys' := by
  induction labels using List.reverseRecOn generalizing sys' with
  | nil =>
      obtain rfl := Option.some.inj h
      exact Run.nil
  | append_singleton labels label ih =>
      rw [moves, List.foldlM_append] at h
      obtain ⟨middle, hmiddle, hlast⟩ := Option.bind_eq_some_iff.mp h
      rw [List.foldlM_cons] at hlast
      obtain ⟨final, hfinal, hnil⟩ := Option.bind_eq_some_iff.mp hlast
      obtain rfl := Option.some.inj hnil
      refine (ih hmiddle fun i program hmem => ?_).snoc ⟨hfinal, fun i program heq => ?_⟩
      · exact hpermitted i program (List.mem_append_left _ hmem)
      · exact hpermitted i program (by simp [heq])

/-- Sessions begin their programs and then take their steps in some order. -/
theorem run_of_sessions (sessions : List ι) {program : ι → Transaction τ S ρ α} {steps : List ι}
    (h : sys.moves (sessions.map (fun i => .begin i (program i)) ++ steps.map .step) = some sys')
    (hpermitted : ∀ i, Permitted i (program i)) :
    Run (Step Permitted) sys
      (sessions.map (fun i => .begin i (program i)) ++ steps.map .step) sys' := by
  refine run_of_moves h fun i begun hmem => ?_
  rcases List.mem_append.mp hmem with hbegin | hstep
  · obtain ⟨_, _, heq⟩ := List.mem_map.mp hbegin
    cases heq
    exact hpermitted i
  · obtain ⟨_, _, heq⟩ := List.mem_map.mp hstep
    cases heq

/-- Two sessions that are told apart by a flag. -/
theorem run_of_two {sys sys' : System Bool τ S ρ α} {Permitted : Bool → Transaction τ S ρ α → Prop}
    (program : Bool → Transaction τ S ρ α) {steps : List Bool}
    (h : sys.moves
      (.begin false (program false) :: .begin true (program true) :: steps.map .step) = some sys')
    (hpermitted : ∀ i, Permitted i (program i)) :
    Run (Step Permitted) sys
      (.begin false (program false) :: .begin true (program true) :: steps.map .step) sys' :=
  run_of_sessions [false, true] h hpermitted

/-- Every reachable system is sound. -/
theorem Sound.run {store : S} {labels : List (Move ι τ S ρ α)}
    (run : Run (Step Permitted) (start store) labels sys) : sys.Sound Permitted :=
  run.invariant (sound_start store) fun _ _ _ hsound hstep => hsound.step hstep

end System
