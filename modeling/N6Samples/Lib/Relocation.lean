import Mathlib.Algebra.BigOperators.Group.Finset.Basic
import Mathlib.Algebra.Module.NatInt
import Mathlib.Tactic.Abel

/-! # Relocation

Words that hold the base of a symbol, with the places of each symbol in a table. A symbol is
moved by adding the difference of its bases at each of its places; whatever moves were made, a
word is the original one with the present base added for each of its places.
-/

namespace N6Samples.Relocation

variable {ι S M : Type*} [DecidableEq ι] [AddCommGroup M]

/-! ## One move -/

def addAt (d : M) (f : ι → M) (i : ι) : ι → M := Function.update f i (f i + d)

def relocate (places : List ι) (d : M) (f : ι → M) : ι → M := places.foldl (addAt d) f

theorem relocate_concat (places : List ι) (p : ι) (d : M) (f : ι → M) :
    relocate (places ++ [p]) d f = addAt d (relocate places d f) p := by
  rw [relocate, List.foldl_concat]
  rfl

theorem relocate_apply (places : List ι) (d : M) (f : ι → M) (i : ι) :
    relocate places d f i = f i + places.count i • d := by
  induction places generalizing f with
  | nil => simp [relocate]
  | cons p places ih =>
      have hfirst : relocate (p :: places) d f = relocate places d (addAt d f p) := rfl
      rw [hfirst, ih, addAt]
      by_cases h : p = i
      · subst h
        rw [Function.update_self, List.count_cons_self, succ_nsmul]
        abel
      · rw [Function.update_of_ne (Ne.symm h), List.count_cons_of_ne h]

theorem relocate_zero (places : List ι) (f : ι → M) : relocate places 0 f = f := by
  funext i
  rw [relocate_apply, nsmul_zero, add_zero]

/-! ## Any moves -/

/-- Every word has the bases of its places added. -/
def Relocated (symbols : Finset S) (places : S → List ι) (base : S → M) (original f : ι → M) :
    Prop :=
  ∀ i, f i = original i + ∑ s ∈ symbols, (places s).count i • base s

variable {symbols : Finset S} {places : S → List ι} {base : S → M} {original f : ι → M} {s : S}

theorem relocated_zero : Relocated symbols places (fun _ => (0 : M)) original original := by
  intro i
  simp

theorem Relocated.move [DecidableEq S] (h : Relocated symbols places base original f)
    (hs : s ∈ symbols) (b : M) : Relocated symbols places (Function.update base s b) original
      (relocate (places s) (b - base s) f) := by
  intro i
  have hothers : ∑ t ∈ symbols.erase s, (places t).count i • Function.update base s b t =
      ∑ t ∈ symbols.erase s, (places t).count i • base t := by
    apply Finset.sum_congr rfl
    intro t ht
    rw [Function.update_of_ne (Finset.ne_of_mem_erase ht)]
  have hmoved := Finset.add_sum_erase symbols
    (fun t => (places t).count i • Function.update base s b t) hs
  have hbefore := Finset.add_sum_erase symbols (fun t => (places t).count i • base t) hs
  rw [relocate_apply, h i, ← hmoved, ← hbefore, hothers, Function.update_self, nsmul_sub]
  abel

/-- A symbol without places. -/
theorem Relocated.move_of_notMem [DecidableEq S] (h : Relocated symbols places base original f)
    (hs : s ∉ symbols) (b : M) :
    Relocated symbols places (Function.update base s b) original f := by
  intro i
  rw [h i]
  congr 1
  apply Finset.sum_congr rfl
  intro t ht
  rw [Function.update_of_ne (ne_of_mem_of_not_mem ht hs)]

end N6Samples.Relocation
