import JudgeLoom.Library.ReadCommitted
import Mathlib.Data.Set.BooleanAlgebra
import Mathlib.Data.Set.Insert
import Mathlib.Order.CompletePartialOrder

/-!
# Relying on locks

`Transaction.Yields` forgets when a query ran, relative to the locks around it.  Here a
program is verified statement by statement instead: between two statements the store
may change by the commits of others, within a `Rely` that knows which rows the
transaction holds.

`Transaction.Ensures` is the weakest condition under which a program, whatever the
others commit meanwhile, ends in a state that satisfies `post`.  A program is
`Verified` if it moreover commits nothing that a transaction with other locks does not
rely on, and `System.verified_run` then gives the postcondition of every commit of a
run whose programs are verified.
-/

universe u v

open KeyedStore

/-- What a transaction that holds some rows may rely on: `rel held store store'` says that
the commits of others may lead from `store` to `store'`. -/
structure Rely (S κ : Type u) where
  rel : Set κ → S → S → Prop
  refl : ∀ held store, rel held store store
  trans : ∀ {held first second third}, rel held first second → rel held second third →
    rel held first third

namespace Rely

variable {S κ : Type u} {ρ : κ → Type u} [KeyedStore S κ ρ]

/-- The rows that a transaction holds stay as they are, and so does what `f` computes for
each of them. -/
def rows {β : Type u} (f : κ → S → β) : Rely S κ where
  rel held store store' := ∀ key ∈ held, get? store key = get? store' key ∧ f key store = f key store'
  refl _ _ _ _ := ⟨rfl, rfl⟩
  trans hfirst hsecond key hkey :=
    ⟨(hfirst key hkey).1.trans (hsecond key hkey).1, (hfirst key hkey).2.trans (hsecond key hkey).2⟩

/-- A transaction that writes rows it holds leaves those of the others alone. -/
theorem rows_apply {β : Type u} {f : κ → S → β} {held others : Set κ} {store : S}
    {writes : List (Write ρ)} (hheld : ∀ write ∈ writes, write.key ∈ held)
    (hdisjoint : Disjoint held others)
    (hf : ∀ key ∉ held, f key store = f key (apply store writes)) :
    (rows f).rel others store (apply store writes) := by
  intro key hkey
  have hkey' : key ∉ held := Set.disjoint_right.mp hdisjoint hkey
  refine ⟨(get?_apply_of_ne fun write hwrite hsame => hkey' ?_).symm, hf key hkey'⟩
  exact hsame ▸ hheld write hwrite

end Rely

namespace Transaction

variable {τ S κ : Type u} {ρ : κ → Type u} {α β : Type u} [KeyedStore S κ ρ] (R : Rely S κ)

/-- The rest of a program, in a transaction that holds `held`, last looked at `store` and
wrote `writes`, ends with `post` whenever it ends. -/
def Ensures (post : α → Set κ → S → List (Write ρ) → Prop) :
    Transaction τ S ρ α → Set κ → S → List (Write ρ) → Prop
  | done value, held, store, writes => post value held store writes
  | abort, _, _, _ => True
  | read _ next, held, store, writes => ∀ store', R.rel held store store' →
      (next (apply store' writes)).Ensures post held store' writes
  | lock key next, held, store, writes => ∀ store', R.rel held store store' →
      (next (get? (apply store' writes) key)).Ensures post (held ∪ {key}) store' writes
  | tryLock key next, held, store, writes => ∀ store', R.rel held store store' →
      (next (get? (apply store' writes) key)).Ensures post (held ∪ {key}) store' writes ∧
        (next none).Ensures post held store' writes
  | update key f next, held, store, writes => ∀ store', R.rel held store store' →
      next.Ensures post (held ∪ {key}) store'
        (writes ++ ((get? (apply store' writes) key).map fun row => ⟨key, f row⟩).toList)
  | insert key row next, held, store, writes => ∀ store', R.rel held store store' →
      get? (apply store' writes) key = none →
        next.Ensures post (held ∪ {key}) store' (writes ++ [⟨key, row⟩])

section Rules

variable {R} {post : α → Set κ → S → List (Write ρ) → Prop} {held : Set κ} {store : S}
  {writes : List (Write ρ)}

@[simp] theorem ensures_pure {value : α} :
    (pure value : Transaction τ S ρ α).Ensures R post held store writes ↔
      post value held store writes :=
  Iff.rfl

@[simp] theorem ensures_abort :
    (abort : Transaction τ S ρ α).Ensures R post held store writes ↔ True :=
  Iff.rfl

/-- Two programs in sequence. -/
@[simp] theorem ensures_bind {post : β → Set κ → S → List (Write ρ) → Prop}
    {program : Transaction τ S ρ α} {f : α → Transaction τ S ρ β} :
    (program >>= f).Ensures R post held store writes ↔
      program.Ensures R (fun value => (f value).Ensures R post) held store writes := by
  change (program.bind f).Ensures R post held store writes ↔ _
  induction program generalizing held store writes with
  | done value => exact Iff.rfl
  | abort => exact Iff.rfl
  | read query next ih => exact forall₂_congr fun _ _ => ih _
  | lock key next ih => exact forall₂_congr fun _ _ => ih _
  | tryLock key next ih => exact forall₂_congr fun _ _ => and_congr (ih _) (ih _)
  | update key f next ih => exact forall₂_congr fun _ _ => ih
  | insert key row next ih => exact forall₃_congr fun _ _ _ => ih

@[simp] theorem ensures_select {query : τ} {f : S → α} :
    (select query f : Transaction τ S ρ α).Ensures R post held store writes ↔
      ∀ store', R.rel held store store' → post (f (apply store' writes)) held store' writes :=
  Iff.rfl

@[simp] theorem ensures_forUpdate {key : κ}
    {post : Option (ρ key) → Set κ → S → List (Write ρ) → Prop} :
    (forUpdate key : Transaction τ S ρ _).Ensures R post held store writes ↔
      ∀ store', R.rel held store store' →
        post (get? (apply store' writes) key) (held ∪ {key}) store' writes :=
  Iff.rfl

@[simp] theorem ensures_modify {key : κ} {f : ρ key → ρ key}
    {post : PUnit → Set κ → S → List (Write ρ) → Prop} :
    (modify key f : Transaction τ S ρ _).Ensures R post held store writes ↔
      ∀ store', R.rel held store store' → post ⟨⟩ (held ∪ {key}) store'
        (writes ++ ((get? (apply store' writes) key).map fun row => ⟨key, f row⟩).toList) :=
  Iff.rfl

@[simp] theorem ensures_create {key : κ} {row : ρ key}
    {post : PUnit → Set κ → S → List (Write ρ) → Prop} :
    (create key row : Transaction τ S ρ _).Ensures R post held store writes ↔
      ∀ store', R.rel held store store' → get? (apply store' writes) key = none →
        post ⟨⟩ (held ∪ {key}) store' (writes ++ [⟨key, row⟩]) :=
  Iff.rfl

/-- A weaker postcondition. -/
theorem Ensures.mono {weaker : α → Set κ → S → List (Write ρ) → Prop}
    (hpost : ∀ value held store writes, post value held store writes →
      weaker value held store writes) {program : Transaction τ S ρ α}
    (h : program.Ensures R post held store writes) :
    program.Ensures R weaker held store writes := by
  induction program generalizing held store writes with
  | done value => exact hpost _ _ _ _ h
  | abort => trivial
  | read query next ih => exact fun store' hrel => ih _ (h store' hrel)
  | lock key next ih => exact fun store' hrel => ih _ (h store' hrel)
  | tryLock key next ih =>
      exact fun store' hrel => ⟨ih _ (h store' hrel).1, ih _ (h store' hrel).2⟩
  | update key f next ih => exact fun store' hrel => ih (h store' hrel)
  | insert key row next ih => exact fun store' hrel hnone => ih (h store' hrel hnone)

/-- The condition survives a commit of another transaction, if the postcondition does. -/
theorem Ensures.stable {store' : S}
    (hpost : ∀ value held writes store store', R.rel held store store' →
      post value held store writes → post value held store' writes)
    {program : Transaction τ S ρ α} (h : program.Ensures R post held store writes)
    (hrel : R.rel held store store') : program.Ensures R post held store' writes := by
  cases program with
  | done value => exact hpost value held writes store store' hrel h
  | abort => trivial
  | read query next => exact fun later hlater => h later (R.trans hrel hlater)
  | lock key next => exact fun later hlater => h later (R.trans hrel hlater)
  | tryLock key next => exact fun later hlater => h later (R.trans hrel hlater)
  | update key f next => exact fun later hlater => h later (R.trans hrel hlater)
  | insert key row next => exact fun later hlater => h later (R.trans hrel hlater)

end Rules

/-- However the store changes until the commit, it satisfies `Post`, and transactions that
hold other rows may rely on it. -/
def Commits (Post : α → S → S → Prop) (value : α) (held : Set κ) (store : S)
    (writes : List (Write ρ)) : Prop :=
  ∀ store', R.rel held store store' →
    Post value store' (apply store' writes) ∧
      ∀ others, Disjoint held others → R.rel others store' (apply store' writes)

/-- From every store the program commits as `Post` says. -/
def Verified (Post : α → S → S → Prop) (program : Transaction τ S ρ α) : Prop :=
  ∀ store, program.Ensures R (Commits R Post) ∅ store []

theorem Commits.stable {R : Rely S κ} {Post : α → S → S → Prop} {value : α} {held : Set κ}
    {store store' : S} {writes : List (Write ρ)} (hrel : R.rel held store store')
    (h : Commits R Post value held store writes) : Commits R Post value held store' writes :=
  fun later hlater => h later (R.trans hrel hlater)

end Transaction

namespace System

open Transaction

/-! ## The rows that a session holds -/

section Held

variable {ι : Type v} {τ S κ : Type u} {ρ : κ → Type u} {α : Type u} {sys : System ι τ S ρ α}
  {i j : ι}

/-- The rows that a session holds. -/
def held (sys : System ι τ S ρ α) (i : ι) : Set κ := {key | sys.owner key = some i}

theorem disjoint_held (h : j ≠ i) : Disjoint (sys.held i) (sys.held j) := by
  refine Set.disjoint_left.mpr fun key hi hj => h ?_
  exact Option.some.inj (hj.symm.trans hi)

theorem held_acquire [DecidableEq κ] (key : κ) :
    (sys.acquire i key).held i = sys.held i ∪ {key} := by
  ext other
  by_cases hother : other = key
  · subst hother
    exact iff_of_true (owner_acquire_self other) (Set.mem_union_right _ rfl)
  · rw [Set.mem_union, Set.mem_singleton_iff, or_iff_left hother]
    change (sys.acquire i key).owner other = some i ↔ sys.owner other = some i
    unfold acquire
    dsimp only
    rw [Function.update_of_ne hother]

variable [DecidableEq ι]

theorem held_release_self : (sys.release i).held i = ∅ := by
  refine Set.eq_empty_of_forall_notMem fun key hkey => ?_
  have howner : (if sys.owner key = some i then none else sys.owner key) = some i := hkey
  split_ifs at howner with hown
  exact hown howner

theorem held_release_of_ne (h : j ≠ i) : (sys.release i).held j = sys.held j :=
  Set.ext (owner_release_iff h)

end Held

/-! ## Runs of verified programs -/

variable {ι : Type v} {τ S κ : Type u} {ρ : κ → Type u} {α : Type u} [KeyedStore S κ ρ]
  {R : Rely S κ} {Post : α → S → S → Prop} {Permitted : ι → Transaction τ S ρ α → Prop}
  {sys sys' : System ι τ S ρ α} {i : ι} {session : Session τ S ρ α}

/-- Every session ends as it should, and every commit did; who has no session has no
locks. -/
structure Reliable (R : Rely S κ) (Post : α → S → S → Prop) (sys : System ι τ S ρ α) : Prop where
  idle : ∀ i, sys.sessions i = none → sys.held i = ∅
  sessions : ∀ i session, sys.sessions i = some session →
    session.rest.Ensures R (Commits R Post) (sys.held i) sys.store session.writes
  commits : ∀ n (commit : Commit ι τ S ρ α), sys.commits[n]? = some commit →
    Post commit.value (sys.version n) (sys.version (n + 1))

theorem reliable_start (store : S) : (start store : System ι τ S ρ α).Reliable R Post where
  idle := fun _ _ => Set.eq_empty_of_forall_notMem fun _ hkey => nomatch hkey
  sessions := fun _ _ h => nomatch h
  commits := fun _ _ h => nomatch h

variable [DecidableEq ι]

/-- One session goes on, possibly with one more lock. -/
theorem Reliable.put (h : sys.Reliable R Post) (hinitial : sys'.initial = sys.initial)
    (hcommits : sys'.commits = sys.commits) (hsessions : sys'.sessions = sys.sessions)
    (howner : ∀ j, j ≠ i → ∀ key, sys'.owner key = some j ↔ sys.owner key = some j)
    (hsession : session.rest.Ensures R (Commits R Post) (sys'.held i) sys.store session.writes) :
    (sys'.put i session).Reliable R Post where
  idle := by
    intro j hnone
    have hupdate : Function.update sys'.sessions i (some session) j = none := hnone
    have hj : j ≠ i := by
      rintro rfl
      rw [Function.update_self] at hupdate
      cases hupdate
    rw [Function.update_of_ne hj, hsessions] at hupdate
    exact (Set.ext (howner j hj)).trans (h.idle j hupdate)
  sessions := by
    have hstore : (sys'.put i session).store = sys.store := by
      change apply sys'.initial ((sys'.commits.take sys'.commits.length).flatMap _) = _
      rw [hinitial, hcommits]
      rfl
    intro j other hother
    have hupdate : Function.update sys'.sessions i (some session) j = some other := hother
    rw [hstore]
    by_cases hj : j = i
    · subst hj
      rw [Function.update_self] at hupdate
      obtain rfl := Option.some.inj hupdate
      exact hsession
    · rw [Function.update_of_ne hj, hsessions] at hupdate
      have hheld : (sys'.put i session).held j = sys.held j := Set.ext (howner j hj)
      rw [hheld]
      exact h.sessions j other hupdate
  commits := by
    have hversion : (sys'.put i session).version = sys.version := by
      funext m
      change apply sys'.initial ((sys'.commits.take m).flatMap _) = _
      rw [hinitial, hcommits]
      rfl
    intro n commit hcommit
    rw [hversion]
    exact h.commits n commit (hcommits ▸ hcommit)

theorem Reliable.idle_release (h : sys.Reliable R Post) (j : ι)
    (hnone : (sys.release i).sessions j = none) : (sys.release i).held j = ∅ := by
  by_cases hj : j = i
  · rw [hj, held_release_self]
  · have hupdate : Function.update sys.sessions i none j = none := hnone
    rw [Function.update_of_ne hj] at hupdate
    rw [held_release_of_ne hj, h.idle j hupdate]

theorem Reliable.release (h : sys.Reliable R Post) (i : ι) : (sys.release i).Reliable R Post where
  idle := h.idle_release
  sessions := by
    intro j other hother
    have hupdate : Function.update sys.sessions i none j = some other := hother
    by_cases hj : j = i
    · subst hj
      rw [Function.update_self] at hupdate
      cases hupdate
    · rw [Function.update_of_ne hj] at hupdate
      rw [held_release_of_ne hj]
      exact h.sessions j other hupdate
  commits := h.commits

/-- A commit keeps what the other sessions rely on: they hold none of its rows. -/
theorem Reliable.committed (h : sys.Reliable R Post) (hsession : sys.sessions i = some session)
    {value : α} (hdone : session.rest = .done value) :
    (sys.committed i session value).Reliable R Post where
  idle := h.idle_release
  sessions := by
    intro j other hother
    have hupdate : Function.update sys.sessions i none j = some other := hother
    by_cases hj : j = i
    · subst hj
      rw [Function.update_self] at hupdate
      cases hupdate
    · rw [Function.update_of_ne hj] at hupdate
      have hheld : (sys.committed i session value).held j = sys.held j := held_release_of_ne hj
      have hcommits := h.sessions i session hsession
      rw [hdone] at hcommits
      rw [hheld, store_committed]
      refine (h.sessions j other hupdate).stable ?_
        ((hcommits sys.store (R.refl _ _)).2 _ (disjoint_held hj))
      intro value held writes store store' hrel hends
      exact hends.stable hrel
  commits := by
    intro n commit hcommit
    have hcommits : (sys.commits ++ [({ session.toProgress with
        session := i, program := session.program, value } : Commit ι τ S ρ α)])[n]? =
          some commit := hcommit
    rw [List.getElem?_append] at hcommits
    split_ifs at hcommits with hn
    · rw [version_committed value (by omega), version_committed value (by omega)]
      exact h.commits n commit hcommits
    · have hn' : n = sys.commits.length := by
        have hlt := (List.getElem?_eq_some_iff.mp hcommits).1
        rw [List.length_singleton] at hlt
        omega
      subst hn'
      rw [Nat.sub_self] at hcommits
      obtain rfl := Option.some.inj hcommits
      have hends := h.sessions i session hsession
      rw [hdone] at hends
      rw [version_succ hcommit, version_committed value (Nat.le_refl _)]
      exact (hends sys.store (R.refl _ _)).1

variable [DecidableEq κ]

/-- One statement of a session. -/
theorem Reliable.execute (h : sys.Reliable R Post) (hsession : sys.sessions i = some session)
    (hnext : sys.execute i session = some sys') : sys'.Reliable R Post := by
  have hends := h.sessions i session hsession
  have hacquire : ∀ {key}, sys.free i key = true → ∀ j, j ≠ i → ∀ other,
      (sys.acquire i key).owner other = some j ↔ sys.owner other = some j :=
    fun hfree j hj => owner_acquire_iff hfree hj
  unfold System.execute at hnext
  cases hrest : session.rest with
  | done value =>
      simp only [hrest, Option.some.injEq] at hnext
      subst hnext
      exact h.committed hsession hrest
  | abort =>
      simp only [hrest, Option.some.injEq] at hnext
      subst hnext
      exact h.release i
  | read query next =>
      simp only [hrest, Option.some.injEq] at hnext
      subst hnext
      rw [hrest] at hends
      exact h.put rfl rfl rfl (fun _ _ _ => Iff.rfl) (hends sys.store (R.refl _ _))
  | lock key next =>
      simp only [hrest] at hnext
      split_ifs at hnext with hfree
      obtain rfl := Option.some.inj hnext
      rw [hrest] at hends
      refine h.put rfl rfl rfl (hacquire hfree) ?_
      rw [held_acquire]
      exact hends sys.store (R.refl _ _)
  | tryLock key next =>
      simp only [hrest] at hnext
      rw [hrest] at hends
      split_ifs at hnext with hfree
      · obtain rfl := Option.some.inj hnext
        refine h.put rfl rfl rfl (hacquire hfree) ?_
        rw [held_acquire]
        exact (hends sys.store (R.refl _ _)).1
      · obtain rfl := Option.some.inj hnext
        exact h.put rfl rfl rfl (fun _ _ _ => Iff.rfl) (hends sys.store (R.refl _ _)).2
  | update key f next =>
      simp only [hrest] at hnext
      split_ifs at hnext with hfree
      obtain rfl := Option.some.inj hnext
      rw [hrest] at hends
      refine h.put rfl rfl rfl (hacquire hfree) ?_
      rw [held_acquire]
      exact hends sys.store (R.refl _ _)
  | insert key row next =>
      simp only [hrest] at hnext
      split_ifs at hnext with hfree
      obtain rfl := Option.some.inj hnext
      rw [hrest] at hends
      refine h.put rfl rfl rfl (hacquire hfree.1) ?_
      rw [held_acquire]
      exact hends sys.store (R.refl _ _) (Option.isNone_iff_eq_none.mp hfree.2)

theorem Reliable.step {label : Move ι τ S ρ α} (h : sys.Reliable R Post)
    (hpermitted : ∀ i program, Permitted i program → program.Verified R Post)
    (hstep : sys.Step Permitted label sys') : sys'.Reliable R Post := by
  obtain ⟨hmove, hbegin⟩ := hstep
  cases label with
  | begin i program =>
      simp only [move] at hmove
      split_ifs at hmove with hnone
      obtain rfl := Option.some.inj hmove
      refine h.put rfl rfl rfl (fun _ _ _ => Iff.rfl) ?_
      rw [h.idle i (Option.isNone_iff_eq_none.mp hnone)]
      exact hpermitted i program (hbegin i program rfl) sys.store
  | step i =>
      obtain ⟨session, hsession, hexecute⟩ := Option.bind_eq_some_iff.mp hmove
      exact h.execute hsession hexecute
  | abort i =>
      simp only [move] at hmove
      split_ifs at hmove
      obtain rfl := Option.some.inj hmove
      exact h.release i

/-- Every commit of a run of verified programs satisfies the postcondition. -/
theorem verified_run {store : S} {labels : List (Move ι τ S ρ α)}
    (hpermitted : ∀ i program, Permitted i program → program.Verified R Post)
    (run : Run (Step Permitted) (start store) labels sys) {n : ℕ} {commit : Commit ι τ S ρ α}
    (hcommit : sys.commits[n]? = some commit) :
    Post commit.value (sys.version n) (sys.version (n + 1)) := by
  have hreliable : sys.Reliable R Post :=
    run.invariant (reliable_start store) fun _ _ _ h hstep => h.step hpermitted hstep
  exact hreliable.commits n commit hcommit

end System
