import N6Samples.Benchmark.PublicationSafety

/-! # Rectangles on the canvas (`main.c`)

`decorate_canvas` hands one area to the drawing library for each box that
`model_get_boxes` returned. An area includes both its corners, and the length of a box
counts both its ends.
-/

namespace N6Samples.Benchmark

open Trace Clip

/-! ## The code -/

/-- `lv_area_t`. -/
structure Area where
  x1 : Int32
  y1 : Int32
  x2 : Int32
  y2 : Int32
deriving DecidableEq

/-- `coords` for one box. -/
def boxArea (b : Dbox) : Area := ⟨b.x, b.y, b.x + b.w, b.y + b.h⟩

/-- `ARRAY_SIZE(boxes)`. -/
def canvasBoxes : ℕ := 10

/-- The areas passed to `lv_draw_rect`, for the boxes in the array. -/
def decorateCanvas (boxes : List Dbox) : List Area := boxes.map boxArea

section
variable {φ : Type} (scale : Int32 → φ → Int32) (display : Display)

/-- The boxes that a call returns to `decorate_canvas` for the published detections. -/
def publishedBoxes (published : List (OutBuffer φ)) : List Dbox :=
  (published.take canvasBoxes).map (modelDetectionToBox scale display)

/-! ## What an area should be -/

/-- The corners of the area are those of the box. -/
structure DrawsBox (b : Dbox) (a : Area) : Prop where
  x1 : a.x1.toInt = b.x.toInt
  x2 : a.x2.toInt = b.x.toInt + b.w.toInt - 1
  y1 : a.y1.toInt = b.y.toInt
  y2 : a.y2.toInt = b.y.toInt + b.h.toInt - 1

structure InsideCanvas (a : Area) : Prop where
  x1 : 0 ≤ a.x1.toInt
  columns : a.x1.toInt ≤ a.x2.toInt
  x2 : a.x2.toInt ≤ display.width.toInt - 1
  y1 : 0 ≤ a.y1.toInt
  rows : a.y1.toInt ≤ a.y2.toInt
  y2 : a.y2.toInt ≤ display.height.toInt - 1

/-- The area takes in one more column and one more row than the box. -/
structure OutgrowsBox (b : Dbox) (a : Area) : Prop where
  x1 : a.x1 = b.x
  x2 : a.x2.toInt = b.x.toInt + b.w.toInt
  y1 : a.y1 = b.y
  y2 : a.y2.toInt = b.y.toInt + b.h.toInt

/-! ## What is drawn -/

/-- The sum of position and length does not wrap. -/
theorem axisBox_end {size : Int32} (hsize : 1 ≤ size.toInt) (c len : Int32) :
    ((axisBox size c len).1 + (axisBox size c len).2).toInt =
      (axisBox size c len).1.toInt + (axisBox size c len).2.toInt := by
  have hlt := size.toInt_lt
  have hlast := axisBox_last hsize c len
  rcases clampCoord_mem hsize (c + (len + 1) / 2) with ⟨hlo, hhi⟩
  rw [Int32.toInt_add, bmod_of_range (by omega) (by omega)]

theorem boxArea_outgrows (d : OutBuffer φ) :
    OutgrowsBox (modelDetectionToBox scale display d)
      (boxArea (modelDetectionToBox scale display d)) := by
  rw [modelDetectionToBox_eq]
  exact ⟨rfl, axisBox_end display.width_pos _ _, rfl, axisBox_end display.height_pos _ _⟩

theorem boxArea_not_drawsBox (d : OutBuffer φ) :
    ¬ DrawsBox (modelDetectionToBox scale display d)
      (boxArea (modelDetectionToBox scale display d)) := by
  intro hdraws
  have hend := (boxArea_outgrows scale display d).x2
  have hx2 := hdraws.x2
  omega

/-- What is drawn is what was computed exactly when nothing is drawn. -/
theorem decorateCanvas_exact_iff (published : List (OutBuffer φ)) :
    List.Forall₂ (fun b a => DrawsBox b a ∧ InsideCanvas display a)
        (publishedBoxes scale display published)
        (decorateCanvas (publishedBoxes scale display published)) ↔
      published = [] := by
  constructor
  · intro hdrawn
    cases published with
    | nil => rfl
    | cons d published =>
        rw [publishedBoxes, canvasBoxes, List.take_succ_cons, List.map_cons, decorateCanvas,
          List.map_cons, List.forall₂_cons] at hdrawn
        exact absurd hdrawn.1.1 (boxArea_not_drawsBox scale display d)
  · intro hempty
    subst hempty
    exact List.Forall₂.nil

end

/-- A box over the right edge of the screen: column 800 of 800 is drawn. -/
theorem decorateCanvas_past_edge :
    let d : OutBuffer ℚ := ⟨1, 1 / 2, 1 / 2, 1 / 2, 1, 0⟩
    decorateCanvas (publishedBoxes toPixels wvga [d]) = [⟨600, 120, 800, 361⟩] ∧
      ¬ List.Forall₂ (fun b a => DrawsBox b a ∧ InsideCanvas wvga a)
        (publishedBoxes toPixels wvga [d]) (decorateCanvas (publishedBoxes toPixels wvga [d])) := by
  intro d
  have harea : decorateCanvas (publishedBoxes toPixels wvga [d]) = [⟨600, 120, 800, 361⟩] := by
    decide +kernel
  refine ⟨harea, ?_⟩
  rw [harea]
  intro hdrawn
  cases hdrawn with
  | cons hfirst _ =>
      have hx2 : (800 : ℤ) ≤ 799 := hfirst.2.x2
      omega

/-! ## The canvas -/

/-- The span leaves the last pixel of the screen free. -/
def EndsBefore (size c len : Int32) : Prop :=
  2 ≤ size.toInt ∧ c.toInt + (len.toInt + 1) / 2 ≤ size.toInt - 2

theorem axisBox_end_le_iff {size c len : Int32} (hsize : 1 ≤ size.toInt) (h : SpanFits c len) :
    ((axisBox size c len).1 + (axisBox size c len).2).toInt ≤ size.toInt - 1 ↔
      EndsBefore size c len := by
  rcases axisBox_toInt hsize h with ⟨-, hhi⟩
  rw [axisBox_end hsize]
  unfold clip at hhi
  unfold EndsBefore
  omega

section
variable {φ : Type} {scale : Int32 → φ → Int32} {display : Display} {d : OutBuffer φ}

/-- An area stays inside the canvas when the detection ends before its last column and
before its last row, and never otherwise. -/
theorem boxArea_inside_iff
    (hcolumns : SpanFits (scale display.width d.xCenter) (scale display.width d.width))
    (hrows : SpanFits (scale display.height d.yCenter) (scale display.height d.height)) :
    InsideCanvas display (boxArea (modelDetectionToBox scale display d)) ↔
      EndsBefore display.width (scale display.width d.xCenter) (scale display.width d.width) ∧
        EndsBefore display.height (scale display.height d.yCenter)
          (scale display.height d.height) := by
  have houtgrows := boxArea_outgrows scale display d
  rw [modelDetectionToBox_eq] at houtgrows ⊢
  rw [← axisBox_end_le_iff display.width_pos hcolumns,
    ← axisBox_end_le_iff display.height_pos hrows]
  have hx := axisBox_clipped display.width_pos hcolumns
  have hy := axisBox_clipped display.height_pos hrows
  constructor
  · intro hinside
    exact ⟨hinside.x2, hinside.y2⟩
  · rintro ⟨hx2, hy2⟩
    refine ⟨hx.pos, ?_, hx2, hy.pos, ?_, hy2⟩
    · rw [houtgrows.x2]
      exact le_add_of_nonneg_right (zero_le_one.trans hx.len_pos)
    · rw [houtgrows.y2]
      exact le_add_of_nonneg_right (zero_le_one.trans hy.len_pos)

end

/-! ## The boxes of a run -/

/-- No result has more entries than the array of `decorate_canvas`. -/
theorem FromPost.take {C : Type} {past : List (Event C)} {result : List Detection}
    (h : FromPost past result) : result.take canvasBoxes = result := by
  apply List.take_of_length_le
  cases h with
  | inl hnone =>
      subst hnone
      exact Nat.zero_le _
  | inr hsome =>
      rcases hsome with ⟨r, -, rfl⟩
      exact r.fits

/-- In every interleaving, `decorate_canvas` draws one area for each detection of a single
result, each too large by one column and one row. -/
theorem decorateCanvas_of_run {C : Type} [DecidableEq C] (scale : Int32 → Word → Int32)
    (display : Display) {boxes : C → ℕ → Dbox} {es past rest : List (Event C)} {s : System C}
    {c : C} {returned : List Dbox}
    (h : exec (step (modelDetectionToBox scale display)) (initial boxes) es = some s)
    (hsplit : es = past ++ .call c (.ret returned) :: rest)
    (hbegin : .call c (.begin canvasBoxes) ∈ past) :
    ∃ published, FromPost past published ∧
      List.Forall₂ (fun d a => OutgrowsBox (modelDetectionToBox scale display d) a) published
        (decorateCanvas returned) := by
  obtain ⟨u, v, hsafe, hstep⟩ := exec_safe_before h hsplit
  obtain ⟨⟨hpc, rfl⟩, -⟩ := accepted hstep
  have hknows := hsafe.knows c
  have hn := (hknows.begun (by rw [hpc]; exact nofun) canvasBoxes).mp hbegin
  have hanswered := hknows.returning hpc
  rw [← hn] at hanswered
  cases hanswered with
  | inl hnone =>
      rw [hnone.1]
      exact ⟨[], Or.inl rfl, List.Forall₂.nil⟩
  | inr hsome =>
      obtain ⟨before, after, hpast, hpost, -, hboxes⟩ := hsome
      rw [hboxes, hpost.take]
      refine ⟨lastPublished before, ?_, ?_⟩
      · rw [hpast]
        exact hpost.append _
      · rw [decorateCanvas, List.map_map, List.forall₂_map_right_iff, List.forall₂_same]
        intro d _
        exact boxArea_outgrows scale display d

end N6Samples.Benchmark
