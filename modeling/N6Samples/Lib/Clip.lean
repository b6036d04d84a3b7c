import Mathlib

/-! # Clipping spans to a window

Both ends of a span are moved into the window `[lo, hi]`. A span that meets the
window keeps exactly its part inside; any other span ends up on the edge next to it.
-/

namespace N6Samples.Clip

open Set

variable {α : Type*} [LinearOrder α] {lo hi : α}

/-- The point of `[lo, hi]` nearest to `x`. -/
def clip (lo hi x : α) : α := max lo (min x hi)

theorem clip_mem (h : lo ≤ hi) (x : α) : clip lo hi x ∈ Icc lo hi :=
  ⟨le_max_left _ _, max_le h (min_le_right _ _)⟩

theorem clip_mono : Monotone (clip lo hi) :=
  fun _ _ h => max_le_max le_rfl (min_le_min h le_rfl)

theorem clip_of_le_left (h : lo ≤ hi) {x : α} (hx : x ≤ lo) : clip lo hi x = lo := by
  rw [clip, min_eq_left (hx.trans h), max_eq_left hx]

theorem clip_of_right_le (h : lo ≤ hi) {x : α} (hx : hi ≤ x) : clip lo hi x = hi := by
  rw [clip, min_eq_right hx, max_eq_right h]

theorem clip_le_iff {a p : α} (ha : a ≤ hi) (hp : lo ≤ p) : clip lo hi a ≤ p ↔ a ≤ p := by
  rw [clip, min_eq_left ha, max_le_iff]
  exact and_iff_right hp

theorem le_clip_iff {b p : α} (hb : lo ≤ b) (hp : p ≤ hi) : p ≤ clip lo hi b ↔ p ≤ b := by
  rw [clip, max_min_distrib_left, max_eq_right hb, le_min_iff, le_max_iff]
  exact and_iff_left (Or.inr hp)

/-- A span that meets the window keeps exactly its part inside the window. -/
theorem mem_Icc_clip_iff {a b p : α} (hmeet : (Icc a b ∩ Icc lo hi).Nonempty)
    (hp : p ∈ Icc lo hi) : p ∈ Icc (clip lo hi a) (clip lo hi b) ↔ p ∈ Icc a b := by
  rcases hmeet with ⟨q, hq, hq'⟩
  rw [mem_Icc, mem_Icc, clip_le_iff (hq.1.trans hq'.2) hp.1, le_clip_iff (hq'.1.trans hq.2) hp.2]

/-- A span that misses the window lies entirely on one side of it. -/
theorem side_of_disjoint (h : lo ≤ hi) {a b : α} (hab : a ≤ b)
    (hmiss : ¬(Icc a b ∩ Icc lo hi).Nonempty) : b < lo ∨ hi < a := by
  by_contra hnot
  rw [not_or, not_lt, not_lt] at hnot
  apply hmiss
  by_cases hlo : lo ≤ a
  · exact ⟨a, ⟨le_rfl, hab⟩, hlo, hnot.2⟩
  · exact ⟨lo, ⟨(not_le.mp hlo).le, hnot.1⟩, le_rfl, h⟩

end N6Samples.Clip
