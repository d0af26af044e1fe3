import Mathlib.Data.List.Basic

/-!
# Noninterference

A system takes labelled steps, some of which it rejects.  `low` is what an observer may
know of a state and `lowLabel` what it may know of a label.  Two runs are `Aligned` if
they differ only in what the observer may not know: step by step their labels look the
same, and both take the step or both reject it.

`Unwinding` is the condition on one step under which aligned runs stay alike
(`Aligned.low_run`).  The system also puts out messages.  `Aligned.transcript_eq_iff`
reduces the question whether two aligned runs put out the same to what each single step
discloses.
-/

namespace Noninterference

variable {σ ι α β γ ω : Type*}

/-- The state after a step; a rejected step changes nothing. -/
def exec (step : σ → ι → Option σ) (s : σ) (label : ι) : σ := (step s label).getD s

/-- The state after a list of steps. -/
def run (step : σ → ι → Option σ) (s : σ) (labels : List ι) : σ := labels.foldl (exec step) s

/-- What the steps of a run produce, one entry for each step. -/
def outputs (step : σ → ι → Option σ) (out : σ → ι → γ) (s : σ) : List ι → List γ
  | [] => []
  | label :: labels => out s label :: outputs step out (exec step s label) labels

/-- What the steps of a run put out, one message after the other. -/
def transcript (step : σ → ι → Option σ) (out : σ → ι → List ω) (s : σ) (labels : List ι) :
    List ω :=
  (outputs step out s labels).flatten

/-- Steps that look the same lead from states that look the same to such states. -/
def Unwinding (step : σ → ι → Option σ) (low : σ → α) (lowLabel : ι → β) : Prop :=
  ∀ ⦃s s' : σ⦄ ⦃label label' : ι⦄ ⦃t t' : σ⦄, low s = low s' → lowLabel label = lowLabel label' →
    step s label = some t → step s' label' = some t' → low t = low t'

/-- Two runs that differ only in what `lowLabel` hides. -/
inductive Aligned (step : σ → ι → Option σ) (lowLabel : ι → β) : σ → σ → List ι → List ι → Prop
  | nil (s s' : σ) : Aligned step lowLabel s s' [] []
  | cons {s s' : σ} {label label' : ι} {labels labels' : List ι}
      (labelled : lowLabel label = lowLabel label')
      (accepted : (step s label).isSome = (step s' label').isSome)
      (rest : Aligned step lowLabel (exec step s label) (exec step s' label') labels labels') :
      Aligned step lowLabel s s' (label :: labels) (label' :: labels')

namespace Aligned

variable {step : σ → ι → Option σ} {low : σ → α} {lowLabel : ι → β} {s s' : σ}
  {labels labels' : List ι}

theorem take (h : Aligned step lowLabel s s' labels labels') (n : ℕ) :
    Aligned step lowLabel s s' (labels.take n) (labels'.take n) := by
  induction h generalizing n with
  | nil s s' =>
      rw [List.take_nil]
      exact nil s s'
  | cons labelled accepted rest ih =>
      cases n with
      | zero => exact nil _ _
      | succ n => exact cons labelled accepted (ih n)

theorem drop (h : Aligned step lowLabel s s' labels labels') (n : ℕ) :
    Aligned step lowLabel (run step s (labels.take n)) (run step s' (labels'.take n))
      (labels.drop n) (labels'.drop n) := by
  induction h generalizing n with
  | nil s s' =>
      rw [List.drop_nil, List.take_nil]
      exact nil s s'
  | cons labelled accepted rest ih =>
      cases n with
      | zero => exact cons labelled accepted rest
      | succ n => exact ih n

theorem length_eq (h : Aligned step lowLabel s s' labels labels') :
    labels.length = labels'.length := by
  induction h with
  | nil => rfl
  | cons _ _ _ ih => rw [List.length_cons, List.length_cons, ih]

theorem low_exec (hstep : Unwinding step low lowLabel) (hs : low s = low s') {label label' : ι}
    (hlabel : lowLabel label = lowLabel label')
    (haccepted : (step s label).isSome = (step s' label').isSome) :
    low (exec step s label) = low (exec step s' label') := by
  unfold exec
  cases ht : step s label with
  | none =>
      rw [ht, Option.isSome_none, eq_comm, Option.isSome_eq_false_iff, Option.isNone_iff_eq_none]
        at haccepted
      rw [haccepted]
      exact hs
  | some t =>
      rw [ht, Option.isSome_some, eq_comm] at haccepted
      obtain ⟨t', ht'⟩ := Option.isSome_iff_exists.mp haccepted
      rw [ht']
      exact hstep hs hlabel ht ht'

/-- Aligned runs from states that look the same end in such states. -/
theorem low_run (hstep : Unwinding step low lowLabel)
    (h : Aligned step lowLabel s s' labels labels') (hs : low s = low s') :
    low (run step s labels) = low (run step s' labels') := by
  induction h with
  | nil => exact hs
  | cons labelled accepted _ ih => exact ih (low_exec hstep hs labelled accepted)

/-- Aligned runs put out the same exactly if each of their steps discloses the same. -/
theorem transcript_eq_iff {out : σ → ι → List ω} {disclosed : σ → ι → γ}
    (hstep : Unwinding step low lowLabel)
    (hout : ∀ ⦃s s' : σ⦄ ⦃label label' : ι⦄, low s = low s' → lowLabel label = lowLabel label' →
      (step s label).isSome = (step s' label').isSome →
        (out s label).length = (out s' label').length ∧
          (out s label = out s' label' ↔ disclosed s label = disclosed s' label'))
    (h : Aligned step lowLabel s s' labels labels') (hs : low s = low s') :
    transcript step out s labels = transcript step out s' labels' ↔
      outputs step disclosed s labels = outputs step disclosed s' labels' := by
  induction h with
  | nil => exact iff_of_true rfl rfl
  | @cons s s' label label' labels labels' labelled accepted rest ih =>
      obtain ⟨hlength, hsame⟩ := hout hs labelled accepted
      have hrest := ih (low_exec hstep hs labelled accepted)
      calc transcript step out s (label :: labels) = transcript step out s' (label' :: labels')
          ↔ out s label ++ transcript step out (exec step s label) labels =
              out s' label' ++ transcript step out (exec step s' label') labels' := Iff.rfl
        _ ↔ out s label = out s' label' ∧ transcript step out (exec step s label) labels =
              transcript step out (exec step s' label') labels' := by
            constructor
            · exact fun heq => List.append_inj heq hlength
            · rintro ⟨hfirst, hlast⟩
              rw [hfirst, hlast]
        _ ↔ disclosed s label = disclosed s' label' ∧
              outputs step disclosed (exec step s label) labels =
                outputs step disclosed (exec step s' label') labels' := and_congr hsame hrest
        _ ↔ outputs step disclosed s (label :: labels) =
              outputs step disclosed s' (label' :: labels') := List.cons_eq_cons.symm

end Aligned

end Noninterference
