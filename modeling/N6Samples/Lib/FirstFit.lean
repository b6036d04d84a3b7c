import Mathlib

/-! # First-fit selection on a ladder of thresholds

A chain of `x <= t ? v : ...` over increasing thresholds picks the least
supported level that is at least the request, and the top level when there is
none. The rungs pair each threshold with the code that stands for it.
-/

namespace N6Samples.FirstFit

variable {α β : Type*}

/-- The code of the first rung whose threshold is at least `x`, else `top`. -/
def firstFit [LE β] [DecidableLE β] (x : β) : List (β × α) → α → α
  | [], top => top
  | rung :: rungs, top => if x ≤ rung.1 then rung.2 else firstFit x rungs top

/-- `v` is the smallest level that is at least `x`, or the largest level when
all of them are below `x`. -/
def BestFit [LinearOrder β] (levels : List β) (x v : β) : Prop :=
  v ∈ levels ∧
    ((x ≤ v ∧ ∀ u ∈ levels, x ≤ u → v ≤ u) ∨ (∀ u ∈ levels, u < x) ∧ ∀ u ∈ levels, u ≤ v)

/-- The levels of a ladder, the top one included. -/
def levels (rungs : List (β × α)) (top : β) : List β := rungs.map Prod.fst ++ [top]

@[simp] theorem levels_cons (rung : β × α) (rungs : List (β × α)) (top : β) :
    levels (rung :: rungs) top = rung.1 :: levels rungs top := rfl

variable [LinearOrder β]

theorem bestFit_singleton (x v : β) : BestFit [v] x v := by
  refine ⟨List.mem_singleton.mpr rfl, ?_⟩
  simp only [List.mem_singleton, forall_eq, le_refl, and_true]
  rcases le_or_gt x v with h | h
  · exact Or.inl ⟨h, fun _ => trivial⟩
  · exact Or.inr h

theorem bestFit_head {x t : β} {rest : List β} (hx : x ≤ t) (hsorted : ∀ u ∈ rest, t < u) :
    BestFit (t :: rest) x t := by
  refine ⟨List.mem_cons_self, Or.inl ⟨hx, ?_⟩⟩
  intro u hu _
  rcases List.mem_cons.mp hu with rfl | hu
  · exact le_rfl
  · exact (hsorted u hu).le

theorem bestFit_tail {x t v : β} {rest : List β} (hx : t < x) (hsorted : ∀ u ∈ rest, t < u)
    (hrest : BestFit rest x v) : BestFit (t :: rest) x v := by
  rcases hrest with ⟨hmem, hleast | ⟨hall, hgreatest⟩⟩
  · refine ⟨List.mem_cons_of_mem t hmem, Or.inl ⟨hleast.1, ?_⟩⟩
    intro u hu hxu
    rcases List.mem_cons.mp hu with rfl | hu
    · exact absurd hxu (not_le.mpr hx)
    · exact hleast.2 u hu hxu
  · refine ⟨List.mem_cons_of_mem t hmem, Or.inr ⟨?_, ?_⟩⟩
    · intro u hu
      rcases List.mem_cons.mp hu with rfl | hu
      · exact hx
      · exact hall u hu
    · intro u hu
      rcases List.mem_cons.mp hu with rfl | hu
      · exact (hsorted v hmem).le
      · exact hgreatest u hu

/-- On increasing thresholds first fit is best fit, for any reading `value` of
the codes that agrees with the thresholds. -/
theorem firstFit_bestFit (x : β) (rungs : List (β × α)) (top : α) (value : α → β)
    (hvalue : ∀ rung ∈ rungs, value rung.2 = rung.1)
    (hsorted : (levels rungs (value top)).Pairwise (· < ·)) :
    BestFit (levels rungs (value top)) x (value (firstFit x rungs top)) := by
  induction rungs with
  | nil => exact bestFit_singleton x (value top)
  | cons rung rungs ih =>
      rw [levels_cons, List.pairwise_cons] at hsorted
      have hrest := ih (fun r hr => hvalue r (List.mem_cons_of_mem _ hr)) hsorted.2
      rw [levels_cons, firstFit]
      by_cases hx : x ≤ rung.1
      · rw [if_pos hx, hvalue rung List.mem_cons_self]
        exact bestFit_head hx hsorted.1
      · rw [if_neg hx]
        exact bestFit_tail (not_le.mp hx) hsorted.1 hrest

/-- First fit depends on its request only through the comparisons it makes. -/
theorem firstFit_congr {x y : β} {rungs : List (β × α)} {top : α}
    (h : ∀ rung ∈ rungs, x ≤ rung.1 ↔ y ≤ rung.1) :
    firstFit x rungs top = firstFit y rungs top := by
  induction rungs with
  | nil => rfl
  | cons rung rungs ih =>
      simp only [firstFit, h rung List.mem_cons_self]
      rw [ih fun r hr => h r (List.mem_cons_of_mem _ hr)]

end N6Samples.FirstFit
