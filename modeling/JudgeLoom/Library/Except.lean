import Mathlib.Tactic.Common

/-!
# Computations that may raise

When a sequence of steps in `Except` succeeds, each of its steps did; a loop in
`Option` whose steps all succeed succeeds.
-/

namespace Except

universe u v

variable {ε : Type u} {α β : Type v}

theorem ok_bind (a : α) (f : α → Except ε β) : (Except.ok a >>= f) = f a := rfl

theorem bind_eq_ok {x : Except ε α} {f : α → Except ε β} {b : β} :
    x >>= f = .ok b ↔ ∃ a, x = .ok a ∧ f a = .ok b := by
  cases x <;> simp [bind, Except.bind]

theorem eq_ok_getD {x : Except ε α} (h : x.isOk = true) (default : α) :
    x = .ok (x.toOption.getD default) := by
  cases x with
  | error error => cases h
  | ok a => rfl

theorem map_eq_ok {x : Except ε α} {f : α → β} {b : β} :
    x.map f = .ok b ↔ ∃ a, x = .ok a ∧ f a = b := by
  cases x <;> simp [Except.map]

theorem exists_map_eq_ok {x : Except ε α} {f : α → β} :
    (∃ b, x.map f = .ok b) ↔ ∃ a, x = .ok a := by
  cases x <;> simp [Except.map]

theorem mapError_eq_ok {δ : Type*} {x : Except ε α} {f : ε → δ} {a : α} :
    x.mapError f = .ok a ↔ x = .ok a := by
  cases x <;> simp [Except.mapError]

/-- A loop that succeeded did, at every element, what its body does on success. -/
theorem foldlM_eq_ok {step : β → α → Except ε β} {done : β → α → β}
    (hdone : ∀ b a c, step b a = .ok c → c = done b a) {items : List α} {start final : β}
    (h : items.foldlM step start = .ok final) : final = items.foldl done start := by
  induction items generalizing start with
  | nil =>
      rw [List.foldlM_nil] at h
      cases h
      rfl
  | cons item rest ih =>
      rw [List.foldlM_cons] at h
      obtain ⟨middle, hmiddle, hrest⟩ := bind_eq_ok.mp h
      rw [List.foldl_cons, ← hdone _ _ _ hmiddle]
      exact ih hrest

/-- A loop whose steps all change the state in one way, if they succeed, succeeds exactly
if every step would. -/
theorem foldlM_eq_ok_iff {step : β → α → Except ε β} {allowed : α → Prop} {done : β → α → β}
    (hstep : ∀ b a c, step b a = .ok c ↔ allowed a ∧ c = done b a) {items : List α}
    {start final : β} :
    items.foldlM step start = .ok final ↔
      (∀ item ∈ items, allowed item) ∧ final = items.foldl done start := by
  induction items generalizing start with
  | nil =>
      rw [List.foldlM_nil]
      simp [pure, Except.pure, eq_comm]
  | cons item rest ih =>
      rw [List.foldlM_cons, bind_eq_ok, List.foldl_cons, List.forall_mem_cons]
      constructor
      · rintro ⟨middle, hmiddle, hrest⟩
        obtain ⟨hallowed, rfl⟩ := (hstep _ _ _).mp hmiddle
        obtain ⟨hall, hfinal⟩ := ih.mp hrest
        exact ⟨⟨hallowed, hall⟩, hfinal⟩
      · rintro ⟨⟨hallowed, hall⟩, hfinal⟩
        exact ⟨_, (hstep _ _ _).mpr ⟨hallowed, rfl⟩, ih.mpr ⟨hall, hfinal⟩⟩

theorem exists_of_mem_mapM {f : α → Except ε β} {l : List α} {m : List β}
    (h : l.mapM f = .ok m) {b : β} (hb : b ∈ m) : ∃ a ∈ l, f a = .ok b := by
  induction l generalizing m with
  | nil =>
      cases h
      exact absurd hb List.not_mem_nil
  | cons head rest ih =>
      rw [List.mapM_cons] at h
      obtain ⟨first, hfirst, hrest⟩ := bind_eq_ok.mp h
      obtain ⟨others, hothers, hm⟩ := bind_eq_ok.mp hrest
      cases hm
      rcases List.mem_cons.mp hb with rfl | hb
      · exact ⟨head, List.mem_cons_self, hfirst⟩
      · obtain ⟨a, ha, hfa⟩ := ih hothers hb
        exact ⟨a, List.mem_cons_of_mem _ ha, hfa⟩

/-- A loop succeeds with these results if each of its rounds does. -/
theorem mapM_eq_ok_of_forall₂ {f : α → Except ε β} {l : List α} {m : List β}
    (h : List.Forall₂ (fun a b => f a = .ok b) l m) : l.mapM f = .ok m := by
  induction h with
  | nil => rfl
  | cons hfirst _ ih =>
      rw [List.mapM_cons, hfirst, ok_bind, ih]
      rfl

/-- A loop that succeeded has a result for every element. -/
theorem exists_mem_of_mapM {f : α → Except ε β} {l : List α} {m : List β}
    (h : l.mapM f = .ok m) {a : α} (ha : a ∈ l) : ∃ b ∈ m, f a = .ok b := by
  induction l generalizing m with
  | nil => exact absurd ha List.not_mem_nil
  | cons head rest ih =>
      rw [List.mapM_cons] at h
      obtain ⟨first, hfirst, hrest⟩ := bind_eq_ok.mp h
      obtain ⟨others, hothers, hm⟩ := bind_eq_ok.mp hrest
      cases hm
      rcases List.mem_cons.mp ha with rfl | ha
      · exact ⟨first, List.mem_cons_self, hfirst⟩
      · obtain ⟨b, hb, hfb⟩ := ih hothers ha
        exact ⟨b, List.mem_cons_of_mem _ hb, hfb⟩

/-- What the results of a loop keep of the elements. -/
theorem map_of_mapM {γ : Type*} {f : α → Except ε β} {g : β → γ} {k : α → γ} {l : List α}
    {m : List β} (h : l.mapM f = .ok m) (hg : ∀ a b, f a = .ok b → g b = k a) :
    m.map g = l.map k := by
  induction l generalizing m with
  | nil =>
      cases h
      rfl
  | cons head rest ih =>
      rw [List.mapM_cons] at h
      obtain ⟨first, hfirst, hrest⟩ := bind_eq_ok.mp h
      obtain ⟨others, hothers, hm⟩ := bind_eq_ok.mp hrest
      cases hm
      rw [List.map_cons, List.map_cons, hg _ _ hfirst, ih hothers]

/-- A loop whose steps all succeed succeeds. -/
theorem exists_mapM {f : α → Except ε β} {l : List α} (h : ∀ a ∈ l, ∃ b, f a = .ok b) :
    ∃ m, l.mapM f = .ok m := by
  induction l with
  | nil => exact ⟨[], rfl⟩
  | cons head rest ih =>
      obtain ⟨first, hfirst⟩ := h head List.mem_cons_self
      obtain ⟨others, hothers⟩ := ih fun a ha => h a (List.mem_cons_of_mem _ ha)
      refine ⟨first :: others, ?_⟩
      rw [List.mapM_cons, hfirst, hothers]
      rfl

/-- Two loops whose steps succeed alike succeed alike. -/
theorem mapM_eq_ok_congr {f g : α → Except ε β} {l : List α}
    (h : ∀ a ∈ l, ∀ b, f a = .ok b ↔ g a = .ok b) {m : List β} :
    l.mapM f = .ok m ↔ l.mapM g = .ok m := by
  induction l generalizing m with
  | nil => rfl
  | cons head rest ih =>
      have hrest := fun m => ih (fun a ha => h a (List.mem_cons_of_mem _ ha)) (m := m)
      simp only [List.mapM_cons, bind_eq_ok, hrest, h head List.mem_cons_self]

/-! ## Which errors are raised -/

/-- The computation raises an error of some kind. -/
def Raises (kind : ε → Prop) (x : Except ε α) : Prop := ∃ error, x = .error error ∧ kind error

variable {kind : ε → Prop}

@[simp] theorem raises_error {error : ε} :
    (Except.error error : Except ε α).Raises kind ↔ kind error := by
  simp [Raises]

@[simp] theorem not_raises_ok {a : α} : ¬ (Except.ok a : Except ε α).Raises kind := by
  simp [Raises]

theorem raises_bind {x : Except ε α} {f : α → Except ε β} :
    (x >>= f).Raises kind ↔ x.Raises kind ∨ ∃ a, x = .ok a ∧ (f a).Raises kind := by
  cases x <;> simp [bind, Except.bind]

theorem raises_map {x : Except ε α} {f : α → β} : (x.map f).Raises kind ↔ x.Raises kind := by
  cases x <;> simp [Except.map]

theorem raises_mapError {δ : Type*} {x : Except ε α} {f : ε → δ} {kind : δ → Prop} :
    (x.mapError f).Raises kind ↔ x.Raises fun error => kind (f error) := by
  cases x <;> simp [Except.mapError]

/-- A loop raises what its body raises at the first element where it fails. -/
theorem raises_foldlM {step : β → α → Except ε β} {items : List α} {start : β} :
    (items.foldlM step start).Raises kind ↔
      ∃ before item after middle, items = before ++ item :: after ∧
        before.foldlM step start = .ok middle ∧ (step middle item).Raises kind := by
  induction items generalizing start with
  | nil =>
      rw [List.foldlM_nil]
      exact iff_of_false not_raises_ok (by simp)
  | cons head rest ih =>
      rw [List.foldlM_cons, raises_bind]
      constructor
      · rintro (hhead | ⟨middle, hmiddle, hrest⟩)
        · exact ⟨[], head, rest, start, rfl, rfl, hhead⟩
        · obtain ⟨before, item, after, last, rfl, hlast, hitem⟩ := ih.mp hrest
          refine ⟨head :: before, item, after, last, rfl, ?_, hitem⟩
          rw [List.foldlM_cons, hmiddle]
          exact hlast
      · rintro ⟨before, item, after, last, heq, hlast, hitem⟩
        cases before with
        | nil =>
            cases heq
            cases hlast
            exact Or.inl hitem
        | cons first before =>
            cases heq
            rw [List.foldlM_cons] at hlast
            obtain ⟨middle, hmiddle, hlast⟩ := bind_eq_ok.mp hlast
            exact Or.inr ⟨middle, hmiddle, ih.mpr ⟨before, item, after, last, rfl, hlast, hitem⟩⟩

theorem raises_mapM {f : α → Except ε β} {l : List α} :
    (l.mapM f).Raises kind ↔
      ∃ before a after, l = before ++ a :: after ∧ (∀ b ∈ before, ∃ c, f b = .ok c) ∧
        (f a).Raises kind := by
  induction l with
  | nil =>
      rw [List.mapM_nil]
      exact iff_of_false not_raises_ok (by simp)
  | cons head rest ih =>
      rw [List.mapM_cons, raises_bind]
      simp only [raises_bind, pure, Except.pure, not_raises_ok, and_false, exists_false, or_false]
      constructor
      · rintro (hhead | ⟨first, hfirst, hrest⟩)
        · exact ⟨[], head, rest, rfl, List.forall_mem_nil _, hhead⟩
        · obtain ⟨before, a, after, rfl, hbefore, ha⟩ := ih.mp hrest
          exact ⟨head :: before, a, after, rfl,
            List.forall_mem_cons.mpr ⟨⟨first, hfirst⟩, hbefore⟩, ha⟩
      · rintro ⟨before, a, after, heq, hbefore, ha⟩
        cases before with
        | nil =>
            cases heq
            exact Or.inl ha
        | cons first before =>
            cases heq
            obtain ⟨⟨c, hc⟩, hbefore⟩ := List.forall_mem_cons.mp hbefore
            exact Or.inr ⟨c, hc, ih.mpr ⟨before, a, after, rfl, hbefore, ha⟩⟩

/-- A loop whose body raises one kind of errors only raises it if it does not go through. -/
theorem raises_mapM_iff_of_forall {f : α → Except ε β} {l : List α}
    (h : ∀ a ∈ l, ∀ error, f a = .error error → kind error) :
    (l.mapM f).Raises kind ↔ ¬ ∃ m, l.mapM f = .ok m := by
  constructor
  · rintro ⟨error, herror, -⟩ ⟨m, hm⟩
    rw [herror] at hm
    cases hm
  · intro hfails
    have hall : (l.mapM f).Raises fun _ => True := by
      cases hm : l.mapM f with
      | ok m => exact absurd ⟨m, hm⟩ hfails
      | error error => exact ⟨error, rfl, trivial⟩
    obtain ⟨before, a, after, hl, hbefore, error, herror, -⟩ := raises_mapM.mp hall
    refine raises_mapM.mpr ⟨before, a, after, hl, hbefore, error, herror, h a ?_ error herror⟩
    rw [hl]
    exact List.mem_append_right _ List.mem_cons_self

end Except

theorem List.mapM_eq_some_map {α β : Type*} {f : α → Option β} {g : α → β} {l : List α}
    (h : ∀ a ∈ l, f a = some (g a)) : l.mapM f = some (l.map g) := by
  induction l with
  | nil => rfl
  | cons head rest ih =>
      rw [List.mapM_cons, h head List.mem_cons_self,
        ih fun a ha => h a (List.mem_cons_of_mem _ ha)]
      rfl

theorem List.isSome_mapM {α β : Type*} {f : α → Option β} {l : List α}
    (h : ∀ a ∈ l, (f a).isSome) : (l.mapM f).isSome := by
  induction l with
  | nil => rfl
  | cons head rest ih =>
      obtain ⟨first, hfirst⟩ := Option.isSome_iff_exists.mp (h head List.mem_cons_self)
      obtain ⟨others, hothers⟩ := Option.isSome_iff_exists.mp
        (ih fun a ha => h a (List.mem_cons_of_mem _ ha))
      rw [List.mapM_cons, hfirst, hothers]
      rfl

theorem List.length_of_mapM_eq_some {α β : Type*} {f : α → Option β} {l : List α} {m : List β}
    (h : l.mapM f = some m) : m.length = l.length := by
  induction l generalizing m with
  | nil =>
      cases h
      rfl
  | cons head rest ih =>
      rw [List.mapM_cons] at h
      obtain ⟨first, -, hrest⟩ := Option.bind_eq_some_iff.mp h
      obtain ⟨others, hothers, hm⟩ := Option.bind_eq_some_iff.mp hrest
      cases hm
      rw [List.length_cons, List.length_cons, ih hothers]

theorem List.map_of_mapM_eq_some {α β γ : Type*} {f : α → Option β} {g : β → γ} {k : α → γ}
    {l : List α} {m : List β} (h : l.mapM f = some m) (hf : ∀ a b, f a = some b → g b = k a) :
    m.map g = l.map k := by
  induction l generalizing m with
  | nil =>
      cases h
      rfl
  | cons head rest ih =>
      rw [List.mapM_cons] at h
      obtain ⟨first, hfirst, hrest⟩ := Option.bind_eq_some_iff.mp h
      obtain ⟨others, hothers, hm⟩ := Option.bind_eq_some_iff.mp hrest
      cases hm
      rw [List.map_cons, List.map_cons, hf _ _ hfirst, ih hothers]

theorem List.exists_of_mem_mapM {α β : Type*} {f : α → Option β} {l : List α} {m : List β}
    (h : l.mapM f = some m) {b : β} (hb : b ∈ m) : ∃ a ∈ l, f a = some b := by
  induction l generalizing m with
  | nil =>
      cases h
      exact absurd hb List.not_mem_nil
  | cons head rest ih =>
      rw [List.mapM_cons] at h
      obtain ⟨first, hfirst, hrest⟩ := Option.bind_eq_some_iff.mp h
      obtain ⟨others, hothers, hm⟩ := Option.bind_eq_some_iff.mp hrest
      cases hm
      rcases List.mem_cons.mp hb with rfl | hb
      · exact ⟨head, List.mem_cons_self, hfirst⟩
      · obtain ⟨a, ha, hfa⟩ := ih hothers hb
        exact ⟨a, List.mem_cons_of_mem _ ha, hfa⟩

theorem List.filterMap_ite {α β : Type*} (p : α → Bool) (f : α → β) (l : List α) :
    (l.filterMap fun a => if p a then some (f a) else none) = (l.filter p).map f := by
  induction l with
  | nil => rfl
  | cons head rest ih =>
      rw [List.filterMap_cons, List.filter_cons]
      cases p head <;> simp [ih]
