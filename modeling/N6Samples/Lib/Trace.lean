import Mathlib.Data.List.Induction
import Mathlib.Data.List.TakeWhile

/-! # Traces of a transition system

A system takes an event when its step function accepts it. Parallel parties are one
system whose events say who moved, so the traces are all interleavings. Statements
about a trace look at the events before the one they explain.
-/

namespace N6Samples.Trace

variable {σ E : Type*} {step : σ → E → Option σ}

/-- What a guarded step that was accepted tells. -/
theorem accepted {p : Prop} [Decidable p] {s t : σ} (h : (if p then some s else none) = some t) :
    p ∧ s = t := by
  rw [Option.ite_none_right_eq_some] at h
  exact ⟨h.1, Option.some.inj h.2⟩

/-- The state after a trace, if every event of it was accepted. -/
def exec (step : σ → E → Option σ) : σ → List E → Option σ
  | s, [] => some s
  | s, e :: es => (step s e).bind fun t => exec step t es

theorem exec_append (s : σ) (es fs : List E) :
    exec step s (es ++ fs) = (exec step s es).bind fun t => exec step t fs := by
  induction es generalizing s with
  | nil => rfl
  | cons e es ih =>
      rw [List.cons_append, exec, exec]
      cases step s e with
      | none => rfl
      | some t => exact ih t

theorem exec_concat {s t : σ} {es : List E} {e : E} :
    exec step s (es ++ [e]) = some t ↔ ∃ u, exec step s es = some u ∧ step u e = some t := by
  rw [exec_append, Option.bind_eq_some_iff]
  simp [exec]

/-- An event of a trace was accepted in the state that the events before it reach. -/
theorem exec_split {s t : σ} {past rest : List E} {e : E}
    (h : exec step s (past ++ e :: rest) = some t) :
    ∃ u v, exec step s past = some u ∧ step u e = some v := by
  rw [List.append_cons, exec_append, Option.bind_eq_some_iff] at h
  rcases h with ⟨v, hv, -⟩
  rcases exec_concat.mp hv with ⟨u, hu, hstep⟩
  exact ⟨u, v, hu, hstep⟩

/-- The invariant rule; the invariant may speak about the trace so far. -/
theorem exec_invariant {s : σ} (I : List E → σ → Prop) (hinit : I [] s)
    (hstep : ∀ past t e u, I past t → step t e = some u → I (past ++ [e]) u) {es : List E} {t : σ}
    (h : exec step s es = some t) : I es t := by
  induction es using List.reverseRecOn generalizing t with
  | nil =>
      obtain rfl := Option.some.inj h
      exact hinit
  | append_singleton past e ih =>
      rcases exec_concat.mp h with ⟨u, hu, hlast⟩
      exact hstep past u e t (ih hu) hlast

/-- The variant rule: where every event raises the count or lowers the rank, a run that is longer
than the rank raises the count. -/
theorem exec_variant (I : ℕ → σ → Prop) (count : σ → ℕ)
    (hstep : ∀ n s e t, I n s → step s e = some t →
      ∃ m, I m t ∧ (count s < count t ∨ count s = count t ∧ m < n))
    {n : ℕ} {s t : σ} {es : List E} (hs : I n s) (h : exec step s es = some t) :
    count s ≤ count t ∧ (n < es.length → count s < count t) := by
  induction es generalizing n s with
  | nil =>
      obtain rfl := Option.some.inj h
      exact ⟨Nat.le_refl _, fun hlong => absurd hlong (Nat.not_lt_zero n)⟩
  | cons e es ih =>
      rw [exec, Option.bind_eq_some_iff] at h
      obtain ⟨u, hu, hrest⟩ := h
      obtain ⟨m, hm, hchange⟩ := hstep n s e u hs hu
      obtain ⟨hle, hlong⟩ := ih hm hrest
      rcases hchange with hmore | ⟨hsame, hless⟩
      · have hgrown := Nat.lt_of_lt_of_le hmore hle
        exact ⟨Nat.le_of_lt hgrown, fun _ => hgrown⟩
      · rw [hsame, List.length_cons]
        exact ⟨hle, fun hn => hlong (by omega)⟩

/-! ## The first event of a kind -/

/-- The events before the first one that satisfies `p`. -/
def upTo (p : E → Bool) (es : List E) : List E := es.takeWhile fun e => !p e

theorem upTo_eq {p : E → Bool} {past rest : List E} {e : E} (he : p e = true)
    (hnone : ∀ x ∈ past, p x = false) : upTo p (past ++ e :: rest) = past := by
  unfold upTo
  rw [List.takeWhile_append_of_pos fun x hx => by simp [hnone x hx],
    List.takeWhile_cons_of_neg (by simp [he]), List.append_nil]

end N6Samples.Trace
