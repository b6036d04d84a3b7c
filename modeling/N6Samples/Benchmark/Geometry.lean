import N6Samples.Lib.Clip
import N6Samples.Lib.Rounding

/-! # From detections to boxes on the screen (`model.c`)

A detection is given in fractions of the image. Its pixel span is computed on `int`,
both corners are clamped to the display on their own, and only then turned back
into a corner and inclusive lengths.
-/

namespace N6Samples.Benchmark

open Rounding Clip Set

/-- `od_pp_outBuffer_t` over the type of its floats. -/
structure OutBuffer (φ : Type) where
  xCenter : φ
  yCenter : φ
  width : φ
  height : φ
  conf : φ
  classIndex : Int32
deriving DecidableEq

/-- `struct dbox`: the upper left corner and the lengths. -/
structure Dbox where
  x : Int32
  y : Int32
  w : Int32
  h : Int32
deriving DecidableEq

/-- `DISPLAY_WIDTH` and `DISPLAY_HEIGHT`. -/
structure Display where
  width : Int32
  height : Int32
  width_pos : 1 ≤ width.toInt
  height_pos : 1 ≤ height.toInt

/-! ## The code -/

/-- One coordinate of `clamp_point`. -/
def clampCoord (size v : Int32) : Int32 :=
  let v := if v < 0 then 0 else v
  if size ≤ v then size - 1 else v

/-- The clamped point and whether it moved. -/
def clampPoint (display : Display) (x y : Int32) : (Int32 × Int32) × Bool :=
  let x' := clampCoord display.width x
  let y' := clampCoord display.height y
  ((x', y'), x ≠ x' || y ≠ y')

section
variable {φ : Type} (scale : Int32 → φ → Int32) (display : Display)

/-- `scale size v` is `(int)(size * v)`. -/
def convertLength (wi hi : φ) : Int32 × Int32 :=
  (scale display.width wi, scale display.height hi)

def convertPoint (xi yi : φ) : Int32 × Int32 :=
  (scale display.width xi, scale display.height yi)

def modelDetectionToBox (d : OutBuffer φ) : Dbox :=
  let (xc, yc) := convertPoint scale display d.xCenter d.yCenter
  let (w, h) := convertLength scale display d.width d.height
  let x0 := xc - (w + 1) / 2
  let y0 := yc - (h + 1) / 2
  let x1 := xc + (w + 1) / 2
  let y1 := yc + (h + 1) / 2
  let (x0, y0) := (clampPoint display x0 y0).1
  let (x1, y1) := (clampPoint display x1 y1).1
  let w := x1 - x0 + 1
  let h := y1 - y0 + 1
  ⟨x0, y0, w, h⟩

end

/-- `(int)(size * v)`, the product being exact. -/
def toPixels (size : Int32) (v : ℚ) : Int32 := Int32.ofInt (truncate (size.toInt * v))

/-! ## One axis -/

/-- One axis of the box: position and length. -/
def axisBox (size c len : Int32) : Int32 × Int32 :=
  let lo := clampCoord size (c - (len + 1) / 2)
  let hi := clampCoord size (c + (len + 1) / 2)
  (lo, hi - lo + 1)

theorem modelDetectionToBox_eq {φ : Type} (scale : Int32 → φ → Int32) (display : Display)
    (d : OutBuffer φ) :
    modelDetectionToBox scale display d =
      let xs := axisBox display.width (scale display.width d.xCenter)
        (scale display.width d.width)
      let ys := axisBox display.height (scale display.height d.yCenter)
        (scale display.height d.height)
      ⟨xs.1, ys.1, xs.2, ys.2⟩ := by
  simp only [modelDetectionToBox, convertPoint, convertLength, clampPoint, axisBox]

/-- The arithmetic on `int` behind a span stays in range, for a non-negative length. -/
structure SpanFits (c len : Int32) : Prop where
  len_nonneg : 0 ≤ len.toInt
  len_succ : len.toInt + 1 ≤ 2147483647
  lower : -2147483648 ≤ c.toInt - (len.toInt + 1) / 2
  upper : c.toInt + (len.toInt + 1) / 2 ≤ 2147483647

/-- The inclusive span of pixels before clipping. -/
def span (c len : Int32) : Set ℤ :=
  Icc (c.toInt - (len.toInt + 1) / 2) (c.toInt + (len.toInt + 1) / 2)

def screen (size : Int32) : Set ℤ := Icc 0 (size.toInt - 1)

/-- The pixels of one axis of a box. -/
def pixels (box : Int32 × Int32) : Set ℤ := Icc box.1.toInt (box.1.toInt + box.2.toInt - 1)

/-- An `int` result in range does not wrap. -/
theorem bmod_of_range {n : ℤ} (hlo : -2147483648 ≤ n) (hhi : n ≤ 2147483647) :
    n.bmod (2 ^ 32) = n := by
  apply Int.bmod_eq_of_le <;> norm_num <;> omega

theorem one_toInt : (1 : Int32).toInt = 1 := rfl

theorem clampCoord_toInt {size : Int32} (hsize : 1 ≤ size.toInt) (v : Int32) :
    (clampCoord size v).toInt = clip 0 (size.toInt - 1) v.toInt := by
  have hlt := size.toInt_lt
  have hpred : (size - 1).toInt = size.toInt - 1 := by
    rw [Int32.toInt_sub, one_toInt, bmod_of_range (by omega) (by omega)]
  have hzero : (0 : Int32).toInt = 0 := rfl
  unfold clampCoord clip
  simp only [Int32.lt_iff_toInt_lt, Int32.le_iff_toInt_le, hzero]
  by_cases hneg : v.toInt < 0
  · simp only [if_pos hneg, hzero]
    rw [if_neg (by omega), hzero]
    omega
  · simp only [if_neg hneg]
    by_cases hbig : size.toInt ≤ v.toInt
    · rw [if_pos hbig, hpred]
      omega
    · rw [if_neg hbig]
      omega

theorem half_toInt {c len : Int32} (h : SpanFits c len) :
    ((len + 1) / 2).toInt = (len.toInt + 1) / 2 := by
  rcases h with ⟨hnonneg, hsucc, -, -⟩
  have hadd : (len + 1).toInt = len.toInt + 1 := by
    rw [Int32.toInt_add, one_toInt, bmod_of_range (by omega) hsucc]
  rw [Int32.toInt_div_of_ne_right _ _ (by decide), hadd, show (2 : Int32).toInt = 2 from rfl,
    Int.tdiv_eq_ediv_of_nonneg (by omega)]

theorem clampCoord_mem {size : Int32} (hsize : 1 ≤ size.toInt) (v : Int32) :
    0 ≤ (clampCoord size v).toInt ∧ (clampCoord size v).toInt ≤ size.toInt - 1 := by
  rw [clampCoord_toInt hsize]
  exact clip_mem (by omega) v.toInt

/-- The last pixel of a box is its clamped upper end. -/
theorem axisBox_last {size : Int32} (hsize : 1 ≤ size.toInt) (c len : Int32) :
    (axisBox size c len).1.toInt + (axisBox size c len).2.toInt - 1 =
      (clampCoord size (c + (len + 1) / 2)).toInt := by
  have hlt := size.toInt_lt
  rcases clampCoord_mem hsize (c - (len + 1) / 2) with ⟨hlo0, hlo1⟩
  rcases clampCoord_mem hsize (c + (len + 1) / 2) with ⟨hhi0, hhi1⟩
  have hdiff : (clampCoord size (c + (len + 1) / 2) - clampCoord size (c - (len + 1) / 2)).toInt =
      (clampCoord size (c + (len + 1) / 2)).toInt -
        (clampCoord size (c - (len + 1) / 2)).toInt := by
    rw [Int32.toInt_sub, bmod_of_range (by omega) (by omega)]
  simp only [axisBox]
  rw [Int32.toInt_add, hdiff, one_toInt, bmod_of_range (by omega) (by omega)]
  omega

/-- Both ends of the box are the clipped ends of the span. -/
theorem axisBox_toInt {size c len : Int32} (hsize : 1 ≤ size.toInt) (h : SpanFits c len) :
    (axisBox size c len).1.toInt =
        clip 0 (size.toInt - 1) (c.toInt - (len.toInt + 1) / 2) ∧
      (axisBox size c len).1.toInt + (axisBox size c len).2.toInt - 1 =
        clip 0 (size.toInt - 1) (c.toInt + (len.toInt + 1) / 2) := by
  have hhalf := half_toInt h
  rcases h with ⟨hnonneg, hsucc, hlower, hupper⟩
  constructor
  · rw [← bmod_of_range hlower (by omega), ← hhalf, ← Int32.toInt_sub]
    exact clampCoord_toInt hsize _
  · rw [axisBox_last hsize, ← bmod_of_range (by omega) hupper, ← hhalf, ← Int32.toInt_add]
    exact clampCoord_toInt hsize _

theorem pixels_axisBox {size c len : Int32} (hsize : 1 ≤ size.toInt) (h : SpanFits c len) :
    pixels (axisBox size c len) =
      Icc (clip 0 (size.toInt - 1) (c.toInt - (len.toInt + 1) / 2))
        (clip 0 (size.toInt - 1) (c.toInt + (len.toInt + 1) / 2)) := by
  rcases axisBox_toInt hsize h with ⟨hlo, hhi⟩
  rw [pixels, hhi, hlo]

/-! ## Clipped boxes -/

/-- One axis of a box against the span it comes from. -/
structure ClippedAxis (size c len : Int32) (box : Int32 × Int32) : Prop where
  pos : 0 ≤ box.1.toInt
  len_pos : 1 ≤ box.2.toInt
  inside : box.1.toInt + box.2.toInt ≤ size.toInt
  visible : (span c len ∩ screen size).Nonempty →
    ∀ p ∈ screen size, p ∈ pixels box ↔ p ∈ span c len
  hidden : ¬(span c len ∩ screen size).Nonempty →
    box.2.toInt = 1 ∧
      ((∀ q ∈ span c len, q < 0) ∧ box.1.toInt = 0 ∨
        (∀ q ∈ span c len, size.toInt - 1 < q) ∧ box.1.toInt = size.toInt - 1)

theorem axisBox_clipped {size c len : Int32} (hsize : 1 ≤ size.toInt) (h : SpanFits c len) :
    ClippedAxis size c len (axisBox size c len) := by
  rcases axisBox_toInt hsize h with ⟨hlo, hhi⟩
  have hwindow : (0 : ℤ) ≤ size.toInt - 1 := by omega
  have hspan : c.toInt - (len.toInt + 1) / 2 ≤ c.toInt + (len.toInt + 1) / 2 := by
    have hnonneg := h.len_nonneg
    omega
  have hends : clip 0 (size.toInt - 1) (c.toInt - (len.toInt + 1) / 2) ≤
      clip 0 (size.toInt - 1) (c.toInt + (len.toInt + 1) / 2) := clip_mono hspan
  rcases clip_mem hwindow (c.toInt - (len.toInt + 1) / 2) with ⟨hlo0, hlo1⟩
  rcases clip_mem hwindow (c.toInt + (len.toInt + 1) / 2) with ⟨hhi0, hhi1⟩
  refine ⟨by omega, by omega, by omega, ?_, ?_⟩
  · intro hmeet p hp
    rw [pixels_axisBox hsize h]
    exact mem_Icc_clip_iff hmeet hp
  · intro hmiss
    cases side_of_disjoint hwindow hspan hmiss with
    | inl hleft =>
        rw [clip_of_le_left hwindow (by omega)] at hlo
        rw [clip_of_le_left hwindow (by omega)] at hhi
        exact ⟨by omega, Or.inl ⟨fun q hq => hq.2.trans_lt hleft, hlo⟩⟩
    | inr hright =>
        rw [clip_of_right_le hwindow (by omega)] at hlo
        rw [clip_of_right_le hwindow (by omega)] at hhi
        exact ⟨by omega, Or.inr ⟨fun q hq => hright.trans_le hq.1, hlo⟩⟩

/-- The wider span gives the wider box. -/
theorem axisBox_mono {size c len c' len' : Int32} (hsize : 1 ≤ size.toInt) (h : SpanFits c len)
    (h' : SpanFits c' len') (hsub : span c' len' ⊆ span c len) :
    pixels (axisBox size c' len') ⊆ pixels (axisBox size c len) := by
  have hspan' : c'.toInt - (len'.toInt + 1) / 2 ≤ c'.toInt + (len'.toInt + 1) / 2 := by
    have hnonneg := h'.len_nonneg
    omega
  rcases (Icc_subset_Icc_iff hspan').mp hsub with ⟨hleft, hright⟩
  rw [pixels_axisBox hsize h, pixels_axisBox hsize h']
  exact Icc_subset_Icc (clip_mono hleft) (clip_mono hright)

/-! ## The whole box -/

/-- The two axes of a detection in pixels. -/
structure DetectionFits (display : Display) (d : OutBuffer ℚ) : Prop where
  columns : SpanFits (toPixels display.width d.xCenter) (toPixels display.width d.width)
  rows : SpanFits (toPixels display.height d.yCenter) (toPixels display.height d.height)

def columnSpan (display : Display) (d : OutBuffer ℚ) : Set ℤ :=
  span (toPixels display.width d.xCenter) (toPixels display.width d.width)

def rowSpan (display : Display) (d : OutBuffer ℚ) : Set ℤ :=
  span (toPixels display.height d.yCenter) (toPixels display.height d.height)

/-- A detection becomes the clipped box on the screen, and a detection that contains
another becomes a box that contains the other's box. -/
theorem modelDetectionToBox_clipped (display : Display) (d : OutBuffer ℚ)
    (hd : DetectionFits display d) :
    let b := modelDetectionToBox toPixels display d
    ClippedAxis display.width (toPixels display.width d.xCenter)
        (toPixels display.width d.width) (b.x, b.w) ∧
      ClippedAxis display.height (toPixels display.height d.yCenter)
        (toPixels display.height d.height) (b.y, b.h) ∧
      ∀ d', DetectionFits display d' →
        columnSpan display d' ⊆ columnSpan display d → rowSpan display d' ⊆ rowSpan display d →
          let b' := modelDetectionToBox toPixels display d'
          pixels (b'.x, b'.w) ⊆ pixels (b.x, b.w) ∧ pixels (b'.y, b'.h) ⊆ pixels (b.y, b.h) := by
  intro b
  rw [show b = _ from modelDetectionToBox_eq toPixels display d]
  refine ⟨axisBox_clipped display.width_pos hd.columns,
    axisBox_clipped display.height_pos hd.rows, ?_⟩
  intro d' hd' hcolumns hrows b'
  rw [show b' = _ from modelDetectionToBox_eq toPixels display d']
  exact ⟨axisBox_mono display.width_pos hd.columns hd'.columns hcolumns,
    axisBox_mono display.height_pos hd.rows hd'.rows hrows⟩

def wvga : Display := ⟨800, 480, by decide, by decide⟩

/-- A box over the left edge of the screen, and a smaller one inside it. -/
theorem modelDetectionToBox_clipped_at_edge :
    let d : OutBuffer ℚ := ⟨0, 1 / 2, 1 / 4, 1 / 2, 1, 0⟩
    let d' : OutBuffer ℚ := ⟨0, 1 / 2, 1 / 8, 1 / 4, 1, 0⟩
    let b := modelDetectionToBox toPixels wvga d
    let b' := modelDetectionToBox toPixels wvga d'
    1 ≤ b.w.toInt ∧ b.x.toInt + b.w.toInt ≤ 800 ∧
      pixels (b'.x, b'.w) ⊆ pixels (b.x, b.w) ∧ pixels (b'.y, b'.h) ⊆ pixels (b.y, b.h) := by
  intro d d' b b'
  have hd : DetectionFits wvga d := by
    constructor <;> constructor <;> decide +kernel
  have hd' : DetectionFits wvga d' := by
    constructor <;> constructor <;> decide +kernel
  have hcolumns : columnSpan wvga d' ⊆ columnSpan wvga d :=
    Icc_subset_Icc (by decide +kernel) (by decide +kernel)
  have hrows : rowSpan wvga d' ⊆ rowSpan wvga d :=
    Icc_subset_Icc (by decide +kernel) (by decide +kernel)
  rcases modelDetectionToBox_clipped wvga d hd with ⟨hx, -, hcontains⟩
  exact ⟨hx.len_pos, hx.inside, hcontains d' hd' hcolumns hrows⟩

end N6Samples.Benchmark
