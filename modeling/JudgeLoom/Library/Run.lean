import Mathlib.Data.List.Induction

/-!
# Runs of a labelled transition relation

`Run step start labels final` says that the steps labelled `labels`, in this
order, lead from `start` to `final`.  A run is extended at its end, so an
induction on it is an induction on its length whose last case is its last step.
`Run.invariant` is the one induction that the safety results need.
-/

/-- The steps labelled by the list lead from `start` to the last argument. -/
inductive Run {σ ι : Type*} (step : σ → ι → σ → Prop) (start : σ) : List ι → σ → Prop
  | nil : Run step start [] start
  | snoc {labels : List ι} {label : ι} {middle final : σ} :
      Run step start labels middle → step middle label final →
        Run step start (labels ++ [label]) final

namespace Run

variable {σ ι τ : Type*} {step step' : σ → ι → σ → Prop} {start middle final : σ}
  {labels more : List ι}

/-- What holds at the start and is preserved by every step of a run from there
holds at its end. -/
theorem invariant {P : σ → Prop} (run : Run step start labels final) (hstart : P start)
    (hstep : ∀ s label t, P s → step s label t → P t) : P final := by
  induction run with
  | nil => exact hstart
  | snoc _ hlast ih => exact hstep _ _ _ ih hlast

theorem single {label : ι} (h : step start label final) : Run step start [label] final :=
  snoc nil h

theorem append (first : Run step start labels middle) (second : Run step middle more final) :
    Run step start (labels ++ more) final := by
  induction second with
  | nil => rwa [List.append_nil]
  | snoc _ hlast ih =>
      rw [← List.append_assoc]
      exact snoc ih hlast

/-- A run of a stronger relation is a run of a weaker one. -/
theorem mono (h : ∀ s label t, step s label t → step' s label t)
    (run : Run step start labels final) : Run step' start labels final := by
  induction run with
  | nil => exact nil
  | snoc _ hlast ih => exact snoc ih (h _ _ _ hlast)

/-- The image of a run under a map that carries steps to steps. -/
theorem map {step' : τ → ι → τ → Prop} (f : σ → τ)
    (h : ∀ s label t, step s label t → step' (f s) label (f t))
    (run : Run step start labels final) : Run step' (f start) labels (f final) := by
  induction run with
  | nil => exact nil
  | snoc _ hlast ih => exact snoc ih (h _ _ _ hlast)

/-- The run that a step function takes through a list of labels. -/
theorem foldl (f : σ → ι → σ) (start : σ) (labels : List ι) :
    Run (fun s label t => t = f s label) start labels (labels.foldl f start) := by
  induction labels using List.reverseRecOn with
  | nil => exact nil
  | append_singleton labels label ih =>
      rw [List.foldl_append]
      exact snoc ih rfl

/-- The run that a partial step function takes through a list of labels. -/
theorem foldlM (f : σ → ι → Option σ) (h : labels.foldlM f start = some final) :
    Run (fun s label t => f s label = some t) start labels final := by
  induction labels using List.reverseRecOn generalizing final with
  | nil =>
      obtain rfl := Option.some.inj h
      exact nil
  | append_singleton labels label ih =>
      rw [List.foldlM_append] at h
      obtain ⟨middle, hmiddle, hlast⟩ := Option.bind_eq_some_iff.mp h
      rw [List.foldlM_cons] at hlast
      obtain ⟨next, hnext, hnil⟩ := Option.bind_eq_some_iff.mp hlast
      obtain rfl := Option.some.inj hnil
      exact snoc (ih hmiddle) hnext

end Run
