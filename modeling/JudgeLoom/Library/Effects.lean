import JudgeLoom.Library.Interaction

/-!
# Programs that change their environment

The environment of an `Interaction` has a state, and answering a question may change
it.  An `Effect` says how: it relates a question, its answer and the states before and
after.  `Runs` is the relation between the state in which a program starts, its value
and the state in which it ends, and `Stops` holds of every state in which a run may be
cut off, by a crash for one.  A call that is cut off midway counts as one that failed:
an effect says what a failing call may leave behind.

A condition on the questions that a program asks (`Asks`) follows its text.  With an
invariant of the calls that meet the condition it gives an invariant of every state in
which the program may stop (`Asks.invariant`).

`Meets` is a specification with a condition for every state in which the program may be
cut off, besides the one for its end, and with a rule for each way to build a program.
`Achieves` asks for a run as well: a program that is never answered has none.
-/

universe u v

namespace Interaction

variable {Q : Type u} {R : Q → Type u} {α β ε : Type u} {σ : Type v}

/-- What answering a question may do to the state of the environment. -/
abbrev Effect (R : Q → Type u) (σ : Type v) := (question : Q) → R question → σ → σ → Prop

variable {effect : Effect R σ} {program : Interaction Q R α} {s t : σ} {value : α}

/-- A run of a program from its first question to its value. -/
inductive Runs (effect : Effect R σ) : Interaction Q R α → σ → α → σ → Prop
  | done (value : α) (s : σ) : Runs effect (done value) s value s
  | ask {question : Q} {next : R question → Interaction Q R α} {answer : R question}
      {s t u : σ} {value : α} (change : effect question answer s t)
      (rest : Runs effect (next answer) t value u) : Runs effect (ask question next) s value u

/-- A state in which a program may be cut off. -/
inductive Stops (effect : Effect R σ) : Interaction Q R α → σ → σ → Prop
  | here (program : Interaction Q R α) (s : σ) : Stops effect program s s
  | ask {question : Q} {next : R question → Interaction Q R α} {answer : R question}
      {s t u : σ} (change : effect question answer s t)
      (rest : Stops effect (next answer) t u) : Stops effect (ask question next) s u

theorem Runs.stops (h : Runs effect program s value t) : Stops effect program s t := by
  induction h with
  | done value s => exact .here _ s
  | ask change _ ih => exact .ask change ih

@[simp] theorem runs_pure {result : α} :
    Runs effect (pure result : Interaction Q R α) s value t ↔ result = value ∧ s = t := by
  constructor
  · rintro ⟨⟩
    exact ⟨rfl, rfl⟩
  · rintro ⟨rfl, rfl⟩
    exact .done result s

theorem runs_query {question : Q} {answer : R question} :
    Runs effect (query question) s answer t ↔ effect question answer s t := by
  constructor
  · rintro (_ | ⟨change, ⟨⟩⟩)
    exact change
  · intro change
    exact .ask change (.done answer t)

theorem runs_bind {f : α → Interaction Q R β} {result : β} {u : σ} :
    Runs effect (program >>= f) s result u ↔
      ∃ a t, Runs effect program s a t ∧ Runs effect (f a) t result u := by
  change Runs effect (program.bind f) s result u ↔ _
  constructor
  · intro h
    induction program generalizing s with
    | done a => exact ⟨a, s, .done a s, h⟩
    | ask question next ih =>
        obtain _ | ⟨change, hrest⟩ := h
        obtain ⟨a, t, hprogram, hf⟩ := ih _ hrest
        exact ⟨a, t, .ask change hprogram, hf⟩
  · rintro ⟨a, t, hprogram, hf⟩
    induction hprogram with
    | done => exact hf
    | ask change _ ih => exact .ask change (ih hf)

theorem stops_pure {result : α} : Stops effect (pure result : Interaction Q R α) s t ↔ s = t := by
  constructor
  · rintro ⟨⟩
    rfl
  · rintro rfl
    exact .here _ s

/-- A run of two programs is cut off in the first or, after it, in the second. -/
theorem stops_bind {f : α → Interaction Q R β} {u : σ} :
    Stops effect (program >>= f) s u ↔
      Stops effect program s u ∨
        ∃ a t, Runs effect program s a t ∧ Stops effect (f a) t u := by
  change Stops effect (program.bind f) s u ↔ _
  constructor
  · intro h
    induction program generalizing s with
    | done a => exact Or.inr ⟨a, s, .done a s, h⟩
    | ask question next ih =>
        obtain _ | ⟨change, hrest⟩ := h
        · exact Or.inl (.here _ _)
        · rcases ih _ hrest with hstops | ⟨a, t, hruns, hf⟩
          · exact Or.inl (.ask change hstops)
          · exact Or.inr ⟨a, t, .ask change hruns, hf⟩
  · rintro (h | ⟨a, t, hruns, hf⟩)
    · induction h with
      | here => exact .here _ _
      | ask change _ ih => exact .ask change ih
    · induction hruns with
      | done => exact hf
      | ask change _ ih => exact .ask change (ih hf)

/-! ## Records of a run -/

variable {τ : Type v}

/-- Keep a record of the questions and answers beside the state. -/
def Effect.tracked (effect : Effect R σ) (after : (question : Q) → R question → τ → τ) :
    Effect R (σ × τ) := fun question answer s t =>
  effect question answer s.1 t.1 ∧ t.2 = after question answer s.2

/-- Every run has such a record. -/
theorem Runs.exists_tracked {after : (question : Q) → R question → τ → τ}
    (h : Runs effect program s value t) (start : τ) :
    ∃ record, Runs (effect.tracked after) program (s, start) value (t, record) := by
  induction h generalizing start with
  | done value s => exact ⟨start, .done value _⟩
  | @ask question next answer s t u value change rest ih =>
      obtain ⟨record, hrest⟩ := ih (after question answer start)
      exact ⟨record, .ask (t := (t, after question answer start)) ⟨change, rfl⟩ hrest⟩

/-! ## The questions of a program -/

/-- Every question that the program asks, whatever it is answered, satisfies `Φ`. -/
def Asks (Φ : Q → Prop) : Interaction Q R α → Prop
  | done _ => True
  | ask question next => Φ question ∧ ∀ answer, (next answer).Asks Φ

variable {Φ : Q → Prop}

theorem asks_pure (a : α) : Asks Φ (pure a : Interaction Q R α) := trivial

theorem asks_query {question : Q} (h : Φ question) :
    Asks Φ (query question : Interaction Q R (R question)) := ⟨h, fun _ => trivial⟩

theorem Asks.bind {f : α → Interaction Q R β} (h : program.Asks Φ) (hf : ∀ a, (f a).Asks Φ) :
    (program >>= f).Asks Φ := by
  change (program.bind f).Asks Φ
  induction program with
  | done a => exact hf a
  | ask question next ih => exact ⟨h.1, fun answer => ih answer (h.2 answer)⟩

theorem Asks.embed {Q' : Type u} {R' : Q' → Type u} {Ψ : Q' → Prop} {f : Q → Q'}
    {answers : ∀ question, R' (f question) → R question} (program : Interaction Q R α)
    (h : ∀ question, Ψ (f question)) : (program.embed f answers).Asks Ψ := by
  induction program with
  | done a => exact trivial
  | ask question next ih => exact ⟨h question, fun answer => ih _⟩

/-- What every such question keeps holds wherever the program stops. -/
theorem Asks.invariant {I : σ → Prop} (h : program.Asks Φ)
    (hkeep : ∀ question answer s t, Φ question → effect question answer s t → I s → I t)
    (hstops : Stops effect program s t) (hs : I s) : I t := by
  induction hstops with
  | here => exact hs
  | ask change _ ih => exact ih (h.2 _) (hkeep _ _ _ _ h.1 change hs)

/-! ## Specifications -/

/-- From a state that satisfies `pre`, the program ends with a value and in a state that
satisfy `post`, and every state in which it may be cut off satisfies `crash`. -/
structure Meets (effect : Effect R σ) (pre : σ → Prop) (program : Interaction Q R α)
    (post : α → σ → Prop) (crash : σ → Prop) : Prop where
  runs : ∀ s a t, pre s → Runs effect program s a t → post a t
  stops : ∀ s t, pre s → Stops effect program s t → crash t

/-- A program whose questions all keep a condition. -/
theorem Asks.meets {pre : σ → Prop} (h : program.Asks Φ)
    (hkeep : ∀ question answer s t, Φ question → effect question answer s t → pre s → pre t) :
    Meets effect pre program (fun _ => pre) pre where
  runs _ _ _ hs hruns := h.invariant hkeep hruns.stops hs
  stops _ _ hs hstops := h.invariant hkeep hstops hs

section Rules

variable {pre pre' crash : σ → Prop} {post : α → σ → Prop}

theorem meets_pure {a : α} (h : ∀ s, pre s → post a s ∧ crash s) :
    Meets effect pre (pure a : Interaction Q R α) post crash where
  runs s b t hs hruns := by
    obtain ⟨rfl, rfl⟩ := runs_pure.mp hruns
    exact (h s hs).1
  stops s t hs hstops := by
    obtain rfl := stops_pure.mp hstops
    exact (h s hs).2

theorem meets_query {question : Q} {post : R question → σ → Prop}
    (hpre : ∀ s, pre s → crash s)
    (h : ∀ s answer t, pre s → effect question answer s t → post answer t ∧ crash t) :
    Meets effect pre (query question) post crash where
  runs s answer t hs hruns := (h s answer t hs (runs_query.mp hruns)).1
  stops s t hs hstops := by
    obtain _ | ⟨change, ⟨⟩⟩ := hstops
    · exact hpre s hs
    · exact (h s _ t hs change).2

theorem Meets.bind {f : α → Interaction Q R β} {result : β → σ → Prop}
    (h : Meets effect pre program post crash)
    (hf : ∀ a, Meets effect (post a) (f a) result crash) :
    Meets effect pre (program >>= f) result crash where
  runs s b u hs hruns := by
    obtain ⟨a, t, hprogram, hrest⟩ := runs_bind.mp hruns
    exact (hf a).runs t b u (h.runs s a t hs hprogram) hrest
  stops s u hs hstops := by
    rcases stops_bind.mp hstops with hprogram | ⟨a, t, hprogram, hrest⟩
    · exact h.stops s u hs hprogram
    · exact (hf a).stops t u (h.runs s a t hs hprogram) hrest

/-- A precondition may be stronger, and imply a fact that does not depend on the state. -/
theorem meets_given {P : Prop} (hpre : ∀ s, pre' s → P ∧ pre s)
    (h : P → Meets effect pre program post crash) : Meets effect pre' program post crash where
  runs s a t hs hruns := (h (hpre s hs).1).runs s a t (hpre s hs).2 hruns
  stops s t hs hstops := (h (hpre s hs).1).stops s t (hpre s hs).2 hstops

/-- The program may be cut off at its end, too. -/
theorem Meets.and_crash (h : Meets effect pre program post crash) :
    Meets effect pre program (fun a s => post a s ∧ crash s) crash where
  runs s a t hs hruns := ⟨h.runs s a t hs hruns, h.stops s t hs hruns.stops⟩
  stops := h.stops

end Rules

/-! ## Total correctness -/

/-- From the state the program has a run, and every run ends as `post` says. -/
structure Achieves (effect : Effect R σ) (program : Interaction Q R α) (s : σ)
    (post : α → σ → Prop) : Prop where
  exists_run : ∃ a t, Runs effect program s a t
  runs : ∀ a t, Runs effect program s a t → post a t

section Total

variable {P : α → σ → Prop}

theorem achieves_pure {a : α} (h : P a s) :
    Achieves effect (pure a : Interaction Q R α) s P where
  exists_run := ⟨a, s, .done a s⟩
  runs b t hruns := by
    obtain ⟨rfl, rfl⟩ := runs_pure.mp hruns
    exact h

theorem achieves_query {question : Q} {P : R question → σ → Prop}
    (hanswer : ∃ answer t, effect question answer s t)
    (h : ∀ answer t, effect question answer s t → P answer t) :
    Achieves effect (query question) s P where
  exists_run := by
    obtain ⟨answer, t, hchange⟩ := hanswer
    exact ⟨answer, t, runs_query.mpr hchange⟩
  runs answer t hruns := h answer t (runs_query.mp hruns)

theorem Achieves.bind {f : α → Interaction Q R β} {result : β → σ → Prop}
    (h : Achieves effect program s P)
    (hf : ∀ a t, P a t → Achieves effect (f a) t result) :
    Achieves effect (program >>= f) s result where
  exists_run := by
    obtain ⟨a, t, hprogram⟩ := h.exists_run
    obtain ⟨b, u, hrest⟩ := (hf a t (h.runs a t hprogram)).exists_run
    exact ⟨b, u, runs_bind.mpr ⟨a, t, hprogram, hrest⟩⟩
  runs b u hruns := by
    obtain ⟨a, t, hprogram, hrest⟩ := runs_bind.mp hruns
    exact (hf a t (h.runs a t hprogram)).runs b u hrest

theorem Achieves.mono {P' : α → σ → Prop} (h : Achieves effect program s P)
    (himp : ∀ a t, P a t → P' a t) : Achieves effect program s P' :=
  ⟨h.exists_run, fun a t hruns => himp a t (h.runs a t hruns)⟩

/-- In an environment that is more narrow, a program has no other runs. -/
theorem Runs.mono {effect' : Effect R σ}
    (himp : ∀ question answer s t, effect question answer s t → effect' question answer s t)
    (h : Runs effect program s value t) : Runs effect' program s value t := by
  induction h with
  | done value s => exact .done value s
  | ask change _ ih => exact .ask (himp _ _ _ _ change) ih

end Total

/-! ## Programs that can fail -/

namespace Fallible

variable {x : Fallible Q R ε α} {f : α → Fallible Q R ε β}

@[simp] theorem runs_pure {a : α} {outcome : Except ε α} :
    Runs effect (pure a : Fallible Q R ε α).run s outcome t ↔ .ok a = outcome ∧ s = t :=
  Interaction.runs_pure

@[simp] theorem runs_throw {error : ε} {outcome : Except ε α} :
    Runs effect (throw error : Fallible Q R ε α).run s outcome t ↔
      .error error = outcome ∧ s = t :=
  Interaction.runs_pure

@[simp] theorem runs_liftExcept {result outcome : Except ε α} :
    Runs effect (liftExcept result : Fallible Q R ε α).run s outcome t ↔
      result = outcome ∧ s = t := by
  cases result <;> exact Interaction.runs_pure

theorem runs_lift {program : Interaction Q R α} {outcome : Except ε α} :
    Runs effect (monadLift program : Fallible Q R ε α).run s outcome t ↔
      ∃ a, Runs effect program s a t ∧ .ok a = outcome := by
  change Runs effect (program >>= fun a => pure (.ok a)) s outcome t ↔ _
  rw [Interaction.runs_bind]
  constructor
  · rintro ⟨a, middle, hprogram, hpure⟩
    obtain ⟨houtcome, rfl⟩ := Interaction.runs_pure.mp hpure
    exact ⟨a, hprogram, houtcome⟩
  · rintro ⟨a, hprogram, houtcome⟩
    exact ⟨a, t, hprogram, Interaction.runs_pure.mpr ⟨houtcome, rfl⟩⟩

/-- A fallible program fails with its first part, or goes on with the second. -/
theorem runs_bind {outcome : Except ε β} {u : σ} :
    Runs effect (x >>= f).run s outcome u ↔
      (∃ error, Runs effect x.run s (.error error) u ∧ .error error = outcome) ∨
        ∃ a t, Runs effect x.run s (.ok a) t ∧ Runs effect (f a).run t outcome u := by
  change Runs effect (x.run >>= ExceptT.bindCont f) s outcome u ↔ _
  rw [Interaction.runs_bind]
  constructor
  · rintro ⟨result, t, hx, hf⟩
    cases result with
    | error error =>
        obtain ⟨houtcome, rfl⟩ := Interaction.runs_pure.mp hf
        exact Or.inl ⟨error, hx, houtcome⟩
    | ok a => exact Or.inr ⟨a, t, hx, hf⟩
  · rintro (⟨error, hx, houtcome⟩ | ⟨a, t, hx, hf⟩)
    · exact ⟨.error error, u, hx, Interaction.runs_pure.mpr ⟨houtcome, rfl⟩⟩
    · exact ⟨.ok a, t, hx, hf⟩

/-- A part that cannot fail, or whose failure is looked at. -/
theorem runs_lift_bind {program : Interaction Q R α} {outcome : Except ε β} {u : σ} :
    Runs effect ((monadLift program : Fallible Q R ε α) >>= f).run s outcome u ↔
      ∃ a t, Runs effect program s a t ∧ Runs effect (f a).run t outcome u := by
  rw [runs_bind]
  constructor
  · rintro (⟨error, hlift, -⟩ | ⟨a, t, hlift, hf⟩)
    · obtain ⟨_, -, ha⟩ := runs_lift.mp hlift
      cases ha
    · obtain ⟨_, hprogram, ha⟩ := runs_lift.mp hlift
      cases ha
      exact ⟨a, t, hprogram, hf⟩
  · rintro ⟨a, t, hprogram, hf⟩
    exact Or.inr ⟨a, t, runs_lift.mpr ⟨a, hprogram, rfl⟩, hf⟩

/-- A question whose answer is looked at. -/
theorem runs_ask_bind {question : Q} {f : R question → Fallible Q R ε β} {outcome : Except ε β}
    {u : σ} :
    Runs effect
        ((monadLift (query question : Interaction Q R _) : Fallible Q R ε _) >>= f).run s outcome u ↔
      ∃ answer t, effect question answer s t ∧ Runs effect (f answer).run t outcome u := by
  refine runs_lift_bind.trans (exists_congr fun answer => exists_congr fun t => ?_)
  rw [Interaction.runs_query]

theorem runs_bind_ok {b : β} {u : σ} :
    Runs effect (x >>= f).run s (.ok b) u ↔
      ∃ a t, Runs effect x.run s (.ok a) t ∧ Runs effect (f a).run t (.ok b) u := by
  rw [runs_bind]
  refine or_iff_right ?_
  rintro ⟨_, -, hfalse⟩
  cases hfalse

theorem stops_bind {u : σ} :
    Stops effect (x >>= f).run s u ↔
      Stops effect x.run s u ∨
        ∃ a t, Runs effect x.run s (.ok a) t ∧ Stops effect (f a).run t u := by
  change Stops effect (x.run >>= ExceptT.bindCont f) s u ↔ _
  rw [Interaction.stops_bind]
  constructor
  · rintro (h | ⟨result, t, hx, hf⟩)
    · exact Or.inl h
    · cases result with
      | error error =>
          obtain rfl := Interaction.stops_pure.mp hf
          exact Or.inl hx.stops
      | ok a => exact Or.inr ⟨a, t, hx, hf⟩
  · rintro (h | ⟨a, t, hx, hf⟩)
    · exact Or.inl h
    · exact Or.inr ⟨.ok a, t, hx, hf⟩

theorem asks_throw (error : ε) : (throw error : Fallible Q R ε α).run.Asks Φ := trivial

theorem asks_liftExcept (result : Except ε α) :
    (liftExcept result : Fallible Q R ε α).run.Asks Φ := by
  cases result <;> exact trivial

theorem asks_lift {program : Interaction Q R α} (h : program.Asks Φ) :
    (monadLift program : Fallible Q R ε α).run.Asks Φ :=
  Interaction.Asks.bind h fun _ => trivial

theorem asks_bind (hx : x.run.Asks Φ) (hf : ∀ a, (f a).run.Asks Φ) : (x >>= f).run.Asks Φ := by
  refine Interaction.Asks.bind hx fun result => ?_
  cases result with
  | error error => exact trivial
  | ok a => exact hf a

/-- A program that goes on only with the value of a computation that did not fail. -/
theorem asks_liftExcept_bind {result : Except ε α}
    (h : ∀ a, result = .ok a → (f a).run.Asks Φ) : (liftExcept result >>= f).run.Asks Φ := by
  cases result with
  | error error => exact trivial
  | ok a => exact h a rfl

-- from here on the rules are used, not the text of a program
attribute [irreducible] Interaction.Asks

section Rules

variable {pre crash : σ → Prop} {post : Except ε α → σ → Prop}

theorem meets_pure {a : α} (h : ∀ s, pre s → post (.ok a) s ∧ crash s) :
    Meets effect pre (pure a : Fallible Q R ε α).run post crash :=
  Interaction.meets_pure h

theorem meets_throw {error : ε} (h : ∀ s, pre s → post (.error error) s ∧ crash s) :
    Meets effect pre (throw error : Fallible Q R ε α).run post crash :=
  Interaction.meets_pure h

theorem meets_liftExcept {result : Except ε α} (h : ∀ s, pre s → post result s ∧ crash s) :
    Meets effect pre (liftExcept result : Fallible Q R ε α).run post crash := by
  cases result <;> exact Interaction.meets_pure h

/-- The states in which a program ends with a value, and those in which it fails. -/
def Ends (value : α → σ → Prop) (failure : ε → σ → Prop) : Except ε α → σ → Prop
  | .ok a => value a
  | .error error => failure error

/-- A program fails with its first part, or goes on from where that ended. -/
theorem meets_bind {middle : α → σ → Prop} {result : Except ε β → σ → Prop}
    (hx : Meets effect pre x.run (Ends middle fun error => result (.error error)) crash)
    (hf : ∀ a, Meets effect (middle a) (f a).run result crash) :
    Meets effect pre (x >>= f).run result crash := by
  refine Interaction.Meets.bind hx.and_crash fun outcome => ?_
  cases outcome with
  | error error => exact Interaction.meets_pure fun s hs => hs
  | ok a => exact meets_given (fun s hs => ⟨trivial, hs.1⟩) fun _ => hf a

/-- A part that cannot fail, or whose failure is looked at. -/
theorem meets_lift_bind {program : Interaction Q R α} {middle : α → σ → Prop}
    {result : Except ε β → σ → Prop} (h : Meets effect pre program middle crash)
    (hf : ∀ a, Meets effect (middle a) (f a).run result crash) :
    Meets effect pre ((monadLift program : Fallible Q R ε α) >>= f).run result crash := by
  refine meets_bind ?_ hf
  refine Interaction.Meets.bind h.and_crash fun a => ?_
  exact Interaction.meets_pure fun s hs => hs

theorem meets_liftExcept_bind {value : Except ε α} {result : Except ε β → σ → Prop}
    (hok : ∀ a, value = .ok a → Meets effect pre (f a).run result crash)
    (herror : ∀ error, value = .error error → ∀ s, pre s → result (.error error) s ∧ crash s) :
    Meets effect pre (liftExcept value >>= f).run result crash := by
  cases value with
  | error error => exact Interaction.meets_pure (herror error rfl)
  | ok a => exact hok a rfl

end Rules

section Total

/-- The program ends with a value. -/
abbrev Returns (effect : Effect R σ) (x : Fallible Q R ε α) (s : σ) (post : α → σ → Prop) : Prop :=
  Achieves effect x.run s fun outcome t => ∃ a, outcome = .ok a ∧ post a t

variable {P : α → σ → Prop} {result : β → σ → Prop}

theorem returns_pure {a : α} (h : P a s) :
    Returns effect (pure a : Fallible Q R ε α) s P :=
  achieves_pure ⟨a, rfl, h⟩

theorem returns_liftExcept {value : Except ε α} {a : α} (hvalue : value = .ok a)
    (h : P a s) : Returns effect (liftExcept value : Fallible Q R ε α) s P := by
  subst hvalue
  exact achieves_pure ⟨a, rfl, h⟩

theorem Returns.bind (hx : Returns effect x s P)
    (hf : ∀ a t, P a t → Returns effect (f a) t result) :
    Returns effect (x >>= f) s result := by
  refine Interaction.Achieves.bind hx fun outcome t h => ?_
  obtain ⟨a, rfl, ha⟩ := h
  exact hf a t ha

/-- A part that cannot fail, or whose failure is looked at. -/
theorem returns_lift_bind {program : Interaction Q R α}
    (h : Achieves effect program s P) (hf : ∀ a t, P a t → Returns effect (f a) t result) :
    Returns effect ((monadLift program : Fallible Q R ε α) >>= f) s result := by
  refine Returns.bind (P := P) ?_ hf
  refine Interaction.Achieves.bind h fun a t ha => ?_
  exact achieves_pure ⟨a, rfl, ha⟩

end Total

end Fallible

end Interaction
