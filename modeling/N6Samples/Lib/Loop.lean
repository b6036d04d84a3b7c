import Mathlib.Data.Nat.Notation

/-! # Counting loops

`for (i = lo; i < lo + n; i++)` over a state, with the invariant rule: what holds
before the first iteration and survives each one holds at the end. Nested loops are one
loop over the pairs of their indices.
-/

namespace N6Samples.Loop

variable {σ : Type*}

def forRange (lo : ℕ) : ℕ → (ℕ → σ → σ) → σ → σ
  | 0, _, s => s
  | n + 1, body, s => body (lo + n) (forRange lo n body s)

theorem forRange_succ (lo n : ℕ) (body : ℕ → σ → σ) (s : σ) :
    forRange lo (n + 1) body s = body (lo + n) (forRange lo n body s) := rfl

/-- The invariant may mention the index of the next iteration. -/
theorem forRange_invariant (I : ℕ → σ → Prop) {lo n : ℕ} {body : ℕ → σ → σ} {s : σ}
    (hinit : I lo s)
    (hstep : ∀ i t, lo ≤ i → i < lo + n → I i t → I (i + 1) (body i t)) :
    I (lo + n) (forRange lo n body s) := by
  induction n with
  | zero => exact hinit
  | succ n ih =>
      rw [forRange_succ]
      apply hstep (lo + n) _ (by omega) (by omega)
      exact ih fun i t hlo hhi => hstep i t hlo (by omega)

theorem forRange_preserves (P : σ → Prop) {lo n : ℕ} {body : ℕ → σ → σ} {s : σ}
    (hinit : P s) (hstep : ∀ i t, P t → P (body i t)) : P (forRange lo n body s) :=
  forRange_invariant (fun _ => P) hinit fun i t _ _ => hstep i t

/-! ## Loops with the same effect -/

theorem forRange_congr {lo lo' n : ℕ} {body body' : ℕ → σ → σ} (s : σ)
    (h : ∀ j < n, body (lo + j) = body' (lo' + j)) :
    forRange lo n body s = forRange lo' n body' s := by
  induction n with
  | zero => rfl
  | succ n ih =>
      rw [forRange_succ, forRange_succ, ih fun j hj => h j (by omega), h n (by omega)]

/-- Two loops over related states. -/
theorem forRange_related {τ : Type*} (R : σ → τ → Prop) {lo n : ℕ} {body : ℕ → σ → σ}
    {body' : ℕ → τ → τ} {s : σ} {t : τ} (hinit : R s t)
    (hstep : ∀ i s t, lo ≤ i → i < lo + n → R s t → R (body i s) (body' i t)) :
    R (forRange lo n body s) (forRange lo n body' t) := by
  induction n with
  | zero => exact hinit
  | succ n ih =>
      apply hstep (lo + n) _ _ (by omega) (by omega)
      exact ih fun i s t hlo hhi => hstep i s t hlo (by omega)

/-- A loop seen through a map, where each iteration is. -/
theorem forRange_map {τ : Type*} (φ : σ → τ) {lo n : ℕ} {body : ℕ → σ → σ} {body' : ℕ → τ → τ}
    (s : σ) (h : ∀ i t, φ (body i t) = body' i (φ t)) :
    φ (forRange lo n body s) = forRange lo n body' (φ s) := by
  induction n with
  | zero => rfl
  | succ n ih => rw [forRange_succ, forRange_succ, h, ih]

theorem forRange_add (lo n k : ℕ) (body : ℕ → σ → σ) (s : σ) :
    forRange lo (n + k) body s = forRange (lo + n) k body (forRange lo n body s) := by
  induction k with
  | zero => rfl
  | succ k ih =>
      rw [← Nat.add_assoc, forRange_succ, forRange_succ, ih, Nat.add_assoc]

theorem forRange_nested (a b : ℕ) (body : ℕ → ℕ → σ → σ) (s : σ) :
    forRange 0 a (fun i => forRange 0 b (body i)) s =
      forRange 0 (a * b) (fun n => body (n / b) (n % b)) s := by
  induction a with
  | zero => rw [Nat.zero_mul]; rfl
  | succ a ih =>
      rw [forRange_succ, ih, Nat.succ_mul, forRange_add]
      apply forRange_congr
      intro j hj
      have hb : 0 < b := by omega
      have hdiv : (0 + a * b + j) / b = 0 + a := by
        rw [Nat.zero_add, Nat.mul_comm, Nat.mul_add_div hb, Nat.div_eq_of_lt hj]
        omega
      have hmod : (0 + a * b + j) % b = 0 + j := by
        rw [Nat.zero_add, Nat.mul_comm, Nat.mul_add_mod, Nat.mod_eq_of_lt hj, Nat.zero_add]
      rw [hdiv, hmod]

end N6Samples.Loop
