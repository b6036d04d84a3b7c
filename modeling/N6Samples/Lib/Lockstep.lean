import Mathlib.Data.List.Forall2

/-! # Two runs in lockstep

A process answers each input with an output and goes on, or stops. Two runs over the
same inputs are compared output by output: what relates the states before an input and
survives it relates the outputs at every position.
-/

namespace N6Samples.Lockstep

variable {σ ι ω : Type*}

/-- The outputs of a process until it stops. -/
def outputs (step : σ → ι → ω × Option σ) : σ → List ι → List ω
  | _, [] => []
  | s, i :: is =>
      match step s i with
      | (o, none) => [o]
      | (o, some t) => o :: outputs step t is

/-- The first input is always answered. -/
theorem outputs_cons (step : σ → ι → ω × Option σ) (s : σ) (i : ι) (is : List ι) :
    ∃ rest, outputs step s (i :: is) = (step s i).1 :: rest := by
  rcases h : step s i with ⟨o, next⟩
  cases next with
  | none => exact ⟨[], by simp only [outputs, h]⟩
  | some t => exact ⟨outputs step t is, by simp only [outputs, h]⟩

theorem outputs_cons_of_some {step : σ → ι → ω × Option σ} {s t : σ} {i : ι} {o : ω}
    (h : step s i = (o, some t)) (is : List ι) :
    outputs step s (i :: is) = o :: outputs step t is := by
  simp only [outputs, h]

/-- What an invariant says of each input and its answer. -/
theorem outputs_answers {step : σ → ι → ω × Option σ} (I : σ → Prop) (Q : ι → ω → Prop)
    (hstep : ∀ s i, I s → ∃ o t, step s i = (o, some t) ∧ Q i o ∧ I t) {s : σ} (hinit : I s)
    (is : List ι) : List.Forall₂ Q is (outputs step s is) := by
  induction is generalizing s with
  | nil => exact List.Forall₂.nil
  | cons i is ih =>
      rcases hstep s i hinit with ⟨o, t, hs, ho, ht⟩
      rw [outputs_cons_of_some hs]
      exact List.Forall₂.cons ho (ih ht)

/-- A process that never stops answers every input. -/
theorem outputs_length {step : σ → ι → ω × Option σ} (I : σ → Prop)
    (hstep : ∀ s i, I s → ∃ o t, step s i = (o, some t) ∧ I t) {s : σ} (hinit : I s)
    (is : List ι) : (outputs step s is).length = is.length := by
  have hanswers : List.Forall₂ (fun _ _ => True) is (outputs step s is) := by
    apply outputs_answers I _ _ hinit
    intro s i hs
    rcases hstep s i hs with ⟨o, t, ho, ht⟩
    exact ⟨o, t, ho, trivial, ht⟩
  exact hanswers.length_eq.symm

/-- What an invariant says of each answer. -/
theorem outputs_forall {step : σ → ι → ω × Option σ} (I : σ → Prop) (P : ω → Prop)
    (hstep : ∀ s i, I s → ∃ o t, step s i = (o, some t) ∧ P o ∧ I t) {s : σ} (hinit : I s)
    (is : List ι) : ∀ o ∈ outputs step s is, P o := by
  have hanswers := outputs_answers I (fun _ => P) hstep hinit is
  intro o ho
  rcases List.mem_iff_get.mp ho with ⟨⟨k, hk⟩, rfl⟩
  exact hanswers.get (hanswers.length_eq ▸ hk) hk

/-- The lockstep rule, for processes that do not stop. -/
theorem outputs_forall₂ {step : σ → ι → ω × Option σ} (R : σ → σ → Prop) (Q : ω → ω → Prop)
    (hstep : ∀ s s' i, R s s' → ∃ o t o' t', step s i = (o, some t) ∧
      step s' i = (o', some t') ∧ Q o o' ∧ R t t')
    {s s' : σ} (hinit : R s s') (is : List ι) :
    List.Forall₂ Q (outputs step s is) (outputs step s' is) := by
  induction is generalizing s s' with
  | nil => exact List.Forall₂.nil
  | cons i is ih =>
      rcases hstep s s' i hinit with ⟨o, t, o', t', hs, hs', hout, hnext⟩
      rw [outputs_cons_of_some hs, outputs_cons_of_some hs']
      exact List.Forall₂.cons hout (ih hnext)

end N6Samples.Lockstep
