import JudgeLoom.Library.Effects

/-!
# Transcripts of runs

A run in an environment with a state is a transcript of questions and answers together
with the states that these lead through: `runs_iff_follows` takes the two apart, so that
what is proved of transcripts and what is proved of states can be used of one run.

What a program asked as a part of a larger one stands in the transcript of the whole
(`Includes`).  `Gives` is what a program comes to in an environment that is known only by
what each of its answers satisfies.
-/

universe u v

namespace Interaction

variable {Q : Type u} {R : Q → Type u} {α β ε : Type u} {σ : Type v}
  {effect : Effect R σ} {program : Interaction Q R α} {transcript whole : List (Entry R)}
  {s t : σ} {value : α}

/-! ## States along a transcript -/

/-- The entries of the transcript lead from one state to the other. -/
inductive Follows (effect : Effect R σ) : List (Entry R) → σ → σ → Prop
  | nil (s : σ) : Follows effect [] s s
  | cons {question : Q} {answer : R question} {rest : List (Entry R)} {s t u : σ}
      (change : effect question answer s t) (h : Follows effect rest t u) :
      Follows effect (⟨question, answer⟩ :: rest) s u

theorem runs_of_follows (hyields : program.Yields transcript value)
    (hfollows : Follows effect transcript s t) : Runs effect program s value t := by
  induction hyields generalizing s with
  | done value =>
      cases hfollows
      exact .done value _
  | ask _ ih =>
      cases hfollows with
      | cons change hrest => exact .ask change (ih hrest)

/-- A run is a transcript that the states follow. -/
theorem runs_iff_follows :
    Runs effect program s value t ↔
      ∃ transcript, program.Yields transcript value ∧ Follows effect transcript s t := by
  constructor
  · intro h
    induction h with
    | done value s => exact ⟨[], .done value, .nil s⟩
    | @ask question next answer s t u value change rest ih =>
        obtain ⟨transcript, hyields, hfollows⟩ := ih
        exact ⟨_, .ask hyields, .cons change hfollows⟩
  · rintro ⟨transcript, hyields, hfollows⟩
    exact runs_of_follows hyields hfollows

theorem follows_append {first rest : List (Entry R)} :
    Follows effect (first ++ rest) s t ↔
      ∃ u, Follows effect first s u ∧ Follows effect rest u t := by
  induction first generalizing s with
  | nil =>
      constructor
      · intro h
        exact ⟨s, .nil s, h⟩
      · rintro ⟨u, ⟨⟩, h⟩
        exact h
  | cons entry first ih =>
      constructor
      · rintro (_ | ⟨change, h⟩)
        obtain ⟨u, hfirst, hrest⟩ := ih.mp h
        exact ⟨u, .cons change hfirst, hrest⟩
      · rintro ⟨u, _ | ⟨change, hfirst⟩, hrest⟩
        exact .cons change (ih.mpr ⟨u, hfirst, hrest⟩)

/-! ## Parts of a transcript -/

/-- Some consecutive entries of the transcript are a run of the program. -/
def Includes (transcript : List (Entry R)) (program : Interaction Q R α) (value : α) : Prop :=
  ∃ part, part <:+: transcript ∧ program.Yields part value

theorem Yields.includes (h : program.Yields transcript value) :
    Includes transcript program value :=
  ⟨transcript, List.infix_refl _, h⟩

theorem Includes.mono (h : Includes transcript program value) (hwhole : transcript <:+: whole) :
    Includes whole program value := by
  obtain ⟨part, hpart, hyields⟩ := h
  exact ⟨part, hpart.trans hwhole, hyields⟩

theorem Includes.append_left (h : Includes transcript program value) (first : List (Entry R)) :
    Includes (first ++ transcript) program value :=
  h.mono (List.suffix_append _ _).isInfix

theorem Includes.append_right (h : Includes transcript program value) (rest : List (Entry R)) :
    Includes (transcript ++ rest) program value :=
  h.mono (List.prefix_append _ _).isInfix

/-! ## Another environment -/

/-- A sequence of programs is embedded part by part. -/
theorem embed_bind {Q' : Type u} {R' : Q' → Type u} (f : Q → Q')
    (answers : ∀ question, R' (f question) → R question) (program : Interaction Q R α)
    (next : α → Interaction Q R β) :
    (program >>= next).embed f answers =
      program.embed f answers >>= fun a => (next a).embed f answers := by
  change (program.bind next).embed f answers =
    (program.embed f answers).bind fun a => (next a).embed f answers
  induction program with
  | done a => rfl
  | ask question rest ih =>
      change Interaction.ask _ _ = Interaction.ask _ _
      congr 1
      funext answer
      exact ih _

/-! ## What the answers make of a program -/

/-- A program has a run with whatever answers. -/
theorem exists_yields (answers : ∀ question, R question) (program : Interaction Q R α) :
    ∃ transcript value, program.Yields transcript value ∧
      ∀ entry ∈ transcript, entry.2 = answers entry.1 := by
  induction program with
  | done value => exact ⟨[], value, .done value, List.forall_mem_nil _⟩
  | ask question next ih =>
      obtain ⟨rest, value, hyields, hentries⟩ := ih (answers question)
      exact ⟨_, value, .ask hyields, List.forall_mem_cons.mpr ⟨rfl, hentries⟩⟩

/-- A replay has the answers that it was given. -/
theorem entries_of_replay {answers : ∀ question, R question} {program : Interaction Q R α}
    {count : ℕ} {transcript : List (Entry R)} {value : α}
    (h : program.replay (List.replicate count answers) = some (transcript, value)) :
    ∀ entry ∈ transcript, entry.2 = answers entry.1 := by
  induction program generalizing count transcript with
  | done result =>
      cases count with
      | zero =>
          cases h
          exact List.forall_mem_nil _
      | succ count => cases h
  | ask question next ih =>
      cases count with
      | zero => cases h
      | succ count =>
          rw [List.replicate_succ, replay, Option.map_eq_some_iff] at h
          obtain ⟨⟨rest, result⟩, hrest, heq⟩ := h
          cases heq
          exact List.forall_mem_cons.mpr ⟨rfl, ih _ hrest⟩

/-- Every run whose entries satisfy `Ψ` ends with a value that satisfies `P`. -/
def Gives (Ψ : Entry R → Prop) (program : Interaction Q R α) (P : α → Prop) : Prop :=
  ∀ transcript value, program.Yields transcript value → (∀ entry ∈ transcript, Ψ entry) → P value

section Rules

variable {Ψ : Entry R → Prop} {P : α → Prop}

theorem gives_pure {a : α} (h : P a) : Gives Ψ (pure a : Interaction Q R α) P := by
  intro transcript value hyields _
  rwa [← (yields_pure.mp hyields).2]

theorem gives_query {question : Q} {P : R question → Prop}
    (h : ∀ answer, Ψ ⟨question, answer⟩ → P answer) : Gives Ψ (query question) P := by
  intro transcript answer hyields hentries
  refine h answer (hentries _ ?_)
  rw [yields_query.mp hyields]
  exact List.mem_singleton_self _

theorem Gives.bind {f : α → Interaction Q R β} {P' : β → Prop} (h : Gives Ψ program P)
    (hf : ∀ a, P a → Gives Ψ (f a) P') : Gives Ψ (program >>= f) P' := by
  intro transcript value hyields hentries
  obtain ⟨a, first, rest, rfl, hfirst, hrest⟩ := yields_bind.mp hyields
  obtain ⟨hbefore, hafter⟩ := List.forall_mem_append.mp hentries
  exact hf a (h first a hfirst hbefore) rest value hrest hafter

theorem Gives.mono {P' : α → Prop} (h : Gives Ψ program P) (himp : ∀ a, P a → P' a) :
    Gives Ψ program P' :=
  fun transcript value hyields hentries => himp value (h transcript value hyields hentries)

theorem gives_embed {Q' : Type u} {R' : Q' → Type u} {f : Q → Q'} {Φ : Entry R' → Prop}
    {answers : ∀ question, R' (f question) → R question}
    (hanswers : ∀ question answer, Φ ⟨f question, answer⟩ → Ψ ⟨question, answers question answer⟩)
    (h : Gives Ψ program P) : Gives Φ (program.embed f answers) P := by
  induction program with
  | done a => exact gives_pure (h [] a (.done a) (List.forall_mem_nil _))
  | ask question next ih =>
      intro transcript value hyields hentries
      obtain ⟨answer, rest, rfl, hrest⟩ := yields_ask.mp hyields
      obtain ⟨hfirst, hafter⟩ := List.forall_mem_cons.mp hentries
      refine ih (answers question answer) (fun part a hpart hpartEntries => ?_) rest value hrest
        hafter
      exact h _ a (.ask hpart)
        (List.forall_mem_cons.mpr ⟨hanswers question answer hfirst, hpartEntries⟩)

/-- What a part of a transcript gives. -/
theorem Gives.of_includes (h : Gives Ψ program P) (hincludes : Includes transcript program value)
    (hentries : ∀ entry ∈ transcript, Ψ entry) : P value := by
  obtain ⟨part, hpart, hyields⟩ := hincludes
  exact h part value hyields fun entry hentry => hentries entry (hpart.subset hentry)

end Rules

namespace Fallible

variable {Ψ : Entry R → Prop} {P : α → Prop} {x : Fallible Q R ε α}

/-- Every such run succeeds. -/
abbrev Succeeds (Ψ : Entry R → Prop) (x : Fallible Q R ε α) (P : α → Prop) : Prop :=
  Gives Ψ x.run fun outcome => ∃ a, outcome = .ok a ∧ P a

theorem succeeds_pure {a : α} (h : P a) : Succeeds Ψ (pure a : Fallible Q R ε α) P :=
  gives_pure ⟨a, rfl, h⟩

theorem succeeds_liftExcept {value : Except ε α} {a : α} (hvalue : value = .ok a) (h : P a) :
    Succeeds Ψ (liftExcept value : Fallible Q R ε α) P := by
  subst hvalue
  exact gives_pure ⟨a, rfl, h⟩

theorem Succeeds.bind {f : α → Fallible Q R ε β} {P' : β → Prop} (h : Succeeds Ψ x P)
    (hf : ∀ a, P a → Succeeds Ψ (f a) P') : Succeeds Ψ (x >>= f) P' := by
  refine Gives.bind h fun outcome houtcome => ?_
  obtain ⟨a, rfl, ha⟩ := houtcome
  exact hf a ha

theorem Succeeds.map {f : α → β} {P' : β → Prop} (h : Succeeds Ψ x P)
    (himp : ∀ a, P a → P' (f a)) : Succeeds Ψ (f <$> x) P' := by
  refine Gives.bind h fun outcome houtcome => ?_
  obtain ⟨a, rfl, ha⟩ := houtcome
  exact gives_pure ⟨f a, rfl, himp a ha⟩

/-- A part that cannot fail. -/
theorem succeeds_lift (h : Gives Ψ program P) :
    Succeeds Ψ (monadLift program : Fallible Q R ε α) P :=
  Gives.bind h fun a ha => gives_pure ⟨a, rfl, ha⟩

theorem Succeeds.mono {P' : α → Prop} (h : Succeeds Ψ x P) (himp : ∀ a, P a → P' a) :
    Succeeds Ψ x P' := by
  refine Gives.mono h fun outcome houtcome => ?_
  obtain ⟨a, ha, hP⟩ := houtcome
  exact ⟨a, ha, himp a hP⟩

end Fallible

end Interaction
