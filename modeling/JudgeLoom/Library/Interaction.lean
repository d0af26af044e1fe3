import Mathlib.Data.List.Basic
import Mathlib.Tactic.Common

/-!
# Programs that talk to their environment

An `Interaction Q R α` is a program that asks its environment questions of type `Q`,
goes on with an answer in `R question` to each, and ends with a value.  Nothing is
assumed of the environment: `Yields program transcript value` holds of every
transcript that some sequence of answers produces.

Runs of composed programs are composed of their runs (`yields_bind`, and
`Fallible.yields_bind` for programs that can fail).  `replay` evaluates a program on
given answers.
-/

universe u

/-- A program that asks questions and ends with a value. -/
inductive Interaction (Q : Type u) (R : Q → Type u) (α : Type u) : Type u
  | done (value : α)
  | ask (question : Q) (next : R question → Interaction Q R α)

namespace Interaction

variable {Q : Type u} {R : Q → Type u} {α β ε : Type u}

/-- A question with its answer. -/
abbrev Entry (R : Q → Type u) := (question : Q) × R question

/-- Run one program after the other. -/
def bind (f : α → Interaction Q R β) : Interaction Q R α → Interaction Q R β
  | done value => f value
  | ask question next => ask question fun answer => (next answer).bind f

instance : Monad (Interaction Q R) where
  pure := done
  bind program f := program.bind f

/-- Ask one question. -/
def query (question : Q) : Interaction Q R (R question) := ask question done

/-- The program in an environment with other questions, among them its own. -/
def embed {Q' : Type u} {R' : Q' → Type u} (f : Q → Q')
    (answers : ∀ question, R' (f question) → R question) :
    Interaction Q R α → Interaction Q' R' α
  | done value => done value
  | ask question next => ask (f question) fun answer =>
      (next (answers question answer)).embed f answers

/-- The program ends with the value after the questions and answers of the transcript. -/
inductive Yields : Interaction Q R α → List (Entry R) → α → Prop
  | done (value : α) : Yields (done value) [] value
  | ask {question : Q} {next : R question → Interaction Q R α} {answer : R question}
      {rest : List (Entry R)} {value : α} (h : Yields (next answer) rest value) :
      Yields (ask question next) (⟨question, answer⟩ :: rest) value

/-- The run on given answers; `none` if they do not suffice or are too many. -/
def replay : Interaction Q R α → List (∀ question, R question) → Option (List (Entry R) × α)
  | done value, [] => some ([], value)
  | done _, _ :: _ => none
  | ask _ _, [] => none
  | ask question next, answer :: rest =>
      ((next (answer question)).replay rest).map fun run =>
        (⟨question, answer question⟩ :: run.1, run.2)

variable {program : Interaction Q R α} {transcript : List (Entry R)} {value : α}

@[simp] theorem yields_pure {result : α} :
    (pure result : Interaction Q R α).Yields transcript value ↔
      transcript = [] ∧ result = value := by
  constructor
  · rintro ⟨⟩
    exact ⟨rfl, rfl⟩
  · rintro ⟨rfl, rfl⟩
    exact .done result

theorem yields_ask {question : Q} {next : R question → Interaction Q R α} :
    (ask question next).Yields transcript value ↔ ∃ answer rest,
      transcript = ⟨question, answer⟩ :: rest ∧ (next answer).Yields rest value := by
  constructor
  · rintro (_ | h)
    exact ⟨_, _, rfl, h⟩
  · rintro ⟨answer, rest, rfl, h⟩
    exact .ask h

@[simp] theorem yields_query {question : Q} {answer : R question} :
    (query question).Yields transcript answer ↔ transcript = [⟨question, answer⟩] := by
  constructor
  · rintro (_ | ⟨⟨⟩⟩)
    rfl
  · rintro rfl
    exact .ask (.done answer)

/-- A run of two programs in sequence is a run of the first and one of the second. -/
theorem yields_bind {f : α → Interaction Q R β} {result : β} :
    (program >>= f).Yields transcript result ↔ ∃ a first rest,
      transcript = first ++ rest ∧ program.Yields first a ∧ (f a).Yields rest result := by
  change (program.bind f).Yields transcript result ↔ _
  induction program generalizing transcript with
  | done a =>
      constructor
      · intro h
        exact ⟨a, [], transcript, rfl, .done a, h⟩
      · rintro ⟨_, _, rest, rfl, ⟨⟩, h⟩
        exact h
  | ask question next ih =>
      constructor
      · rintro (_ | h)
        obtain ⟨a, first, last, rfl, hfirst, hlast⟩ := (ih _).mp h
        exact ⟨a, _ :: first, last, rfl, .ask hfirst, hlast⟩
      · rintro ⟨a, _, last, rfl, _ | hfirst, hlast⟩
        exact .ask ((ih _).mpr ⟨a, _, last, rfl, hfirst, hlast⟩)

theorem yields_of_replay {answers : List (∀ question, R question)}
    (h : program.replay answers = some (transcript, value)) : program.Yields transcript value := by
  induction program generalizing answers transcript with
  | done result =>
      cases answers with
      | nil =>
          obtain ⟨rfl, rfl⟩ := Prod.mk.inj (Option.some.inj h)
          exact .done result
      | cons => cases h
  | ask question next ih =>
      cases answers with
      | nil => cases h
      | cons answer rest =>
          obtain ⟨⟨tail, result⟩, hrun, heq⟩ := Option.map_eq_some_iff.mp h
          obtain ⟨rfl, rfl⟩ := Prod.mk.inj heq
          exact .ask (ih _ hrun)

/-! ## Programs that can fail -/

/-- A program that ends with a value or an error. -/
abbrev Fallible (Q : Type u) (R : Q → Type u) (ε α : Type u) := ExceptT ε (Interaction Q R) α

namespace Fallible

variable {x : Fallible Q R ε α} {outcome : Except ε α}

@[simp] theorem yields_pure {a : α} {result : Except ε α} :
    (pure a : Fallible Q R ε α).run.Yields transcript result ↔
      transcript = [] ∧ .ok a = result :=
  Interaction.yields_pure

@[simp] theorem yields_throw {error : ε} {result : Except ε α} :
    (throw error : Fallible Q R ε α).run.Yields transcript result ↔
      transcript = [] ∧ .error error = result :=
  Interaction.yields_pure

@[simp] theorem yields_liftExcept {result : Except ε α} :
    (liftExcept result : Fallible Q R ε α).run.Yields transcript outcome ↔
      transcript = [] ∧ result = outcome := by
  cases result <;> exact Interaction.yields_pure

/-- A program that cannot fail, as part of one that can. -/
theorem yields_lift {program : Interaction Q R α} :
    (monadLift program : Fallible Q R ε α).run.Yields transcript outcome ↔
      ∃ a, program.Yields transcript a ∧ .ok a = outcome := by
  change (program >>= fun a => pure (.ok a)).Yields transcript outcome ↔ _
  rw [Interaction.yields_bind]
  constructor
  · rintro ⟨a, first, rest, rfl, hfirst, hrest⟩
    obtain ⟨rfl, rfl⟩ := Interaction.yields_pure.mp hrest
    rw [List.append_nil]
    exact ⟨a, hfirst, rfl⟩
  · rintro ⟨a, hprogram, rfl⟩
    exact ⟨a, transcript, [], (List.append_nil _).symm, hprogram, .done _⟩

/-- A fallible program fails with its first part, or goes on with the second. -/
theorem yields_bind {f : α → Fallible Q R ε β} {outcome : Except ε β} :
    (x >>= f).run.Yields transcript outcome ↔
      (∃ error, x.run.Yields transcript (.error error) ∧ .error error = outcome) ∨
        ∃ a first rest, transcript = first ++ rest ∧ x.run.Yields first (.ok a) ∧
          (f a).run.Yields rest outcome := by
  change (x.run >>= ExceptT.bindCont f).Yields transcript outcome ↔ _
  rw [Interaction.yields_bind]
  constructor
  · rintro ⟨result, first, rest, rfl, hfirst, hrest⟩
    cases result with
    | error error =>
        obtain ⟨rfl, heq⟩ := Interaction.yields_pure.mp hrest
        rw [List.append_nil]
        exact Or.inl ⟨error, hfirst, heq⟩
    | ok a => exact Or.inr ⟨a, first, rest, rfl, hfirst, hrest⟩
  · rintro (⟨error, hfirst, rfl⟩ | ⟨a, first, rest, rfl, hfirst, hrest⟩)
    · exact ⟨.error error, transcript, [], (List.append_nil _).symm, hfirst, .done _⟩
    · exact ⟨.ok a, first, rest, rfl, hfirst, hrest⟩

/-- A program that ends with a value had both parts end with one. -/
theorem yields_bind_ok {f : α → Fallible Q R ε β} {b : β} :
    (x >>= f).run.Yields transcript (.ok b) ↔ ∃ a first rest, transcript = first ++ rest ∧
      x.run.Yields first (.ok a) ∧ (f a).run.Yields rest (.ok b) := by
  rw [yields_bind]
  refine or_iff_right ?_
  rintro ⟨_, -, hfalse⟩
  cases hfalse

/-! ## What the entries of a run satisfy -/

/-- Every entry of a run that ends with a value satisfies `Ψ`. -/
def Hears (Ψ : Entry R → Prop) (x : Fallible Q R ε α) : Prop :=
  ∀ transcript a, x.run.Yields transcript (.ok a) → ∀ entry ∈ transcript, Ψ entry

/-- Every run that fails with an error in `P` has an entry that satisfies `Ψ`. -/
def Blames (P : ε → Prop) (Ψ : Entry R → Prop) (x : Fallible Q R ε α) : Prop :=
  ∀ transcript error, x.run.Yields transcript (.error error) → P error →
    ∃ entry ∈ transcript, Ψ entry

section Rules

variable {P : ε → Prop} {Ψ : Entry R → Prop} {f : α → Fallible Q R ε β}

theorem hears_pure (a : α) : Hears Ψ (pure a : Fallible Q R ε α) := by
  intro transcript value h entry hentry
  rw [(yields_pure.mp h).1] at hentry
  cases hentry

theorem hears_throw (error : ε) : Hears Ψ (throw error : Fallible Q R ε α) := by
  intro transcript value h entry hentry
  rw [(yields_throw.mp h).1] at hentry
  cases hentry

theorem hears_liftExcept (result : Except ε α) :
    Hears Ψ (liftExcept result : Fallible Q R ε α) := by
  intro transcript a h entry hentry
  rw [(yields_liftExcept.mp h).1] at hentry
  cases hentry

theorem hears_lift {program : Interaction Q R α}
    (h : ∀ transcript a, program.Yields transcript a → ∀ entry ∈ transcript, Ψ entry) :
    Hears Ψ (monadLift program : Fallible Q R ε α) := by
  intro transcript a hyields
  obtain ⟨value, hprogram, -⟩ := yields_lift.mp hyields
  exact h transcript value hprogram

theorem Hears.bind (hx : Hears Ψ x) (hf : ∀ a, Hears Ψ (f a)) : Hears Ψ (x >>= f) := by
  intro transcript b h entry hentry
  obtain ⟨a, first, rest, rfl, hfirst, hrest⟩ := yields_bind_ok.mp h
  rcases List.mem_append.mp hentry with hentry | hentry
  · exact hx _ _ hfirst entry hentry
  · exact hf a _ _ hrest entry hentry

theorem blames_pure (a : α) : Blames P Ψ (pure a : Fallible Q R ε α) := by
  intro transcript error h
  cases (yields_pure.mp h).2

theorem blames_throw {error : ε} (h : ¬ P error) :
    Blames P Ψ (throw error : Fallible Q R ε α) := by
  intro transcript other hyields hP
  cases (yields_throw.mp hyields).2
  exact absurd hP h

theorem blames_liftExcept {result : Except ε α} (h : ∀ error, result = .error error → ¬ P error) :
    Blames P Ψ (liftExcept result : Fallible Q R ε α) := by
  intro transcript error hyields hP
  exact absurd hP (h error (yields_liftExcept.mp hyields).2)

theorem blames_lift (program : Interaction Q R α) :
    Blames P Ψ (monadLift program : Fallible Q R ε α) := by
  intro transcript error hyields
  obtain ⟨a, -, herror⟩ := yields_lift.mp hyields
  cases herror

theorem Blames.bind (hx : Blames P Ψ x) (hf : ∀ a, Blames P Ψ (f a)) : Blames P Ψ (x >>= f) := by
  intro transcript error h hP
  rcases yields_bind.mp h with ⟨_, hfirst, herror⟩ | ⟨a, first, rest, rfl, -, hrest⟩
  · cases herror
    exact hx _ _ hfirst hP
  · obtain ⟨entry, hentry, hΨ⟩ := hf a _ _ hrest hP
    exact ⟨entry, List.mem_append_right _ hentry, hΨ⟩

end Rules

end Fallible

end Interaction
