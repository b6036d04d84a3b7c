import N6Samples.Lib.Rounding
import N6Samples.Lib.Proportion

/-! # The camera crop (`main.c`)

`video_crop_setup` selects the part of the sensor that both camera pipes show. One
ratio, the smaller of the two of sensor to display, gives both lengths, and the
offsets are computed from them in unsigned arithmetic.
-/

namespace N6Samples.Benchmark

open Rounding Proportion

/-! ## The code -/

/-- `struct video_rect`. -/
structure VideoRect where
  left : UInt32
  top : UInt32
  width : UInt32
  height : UInt32
deriving DecidableEq

/-- The conversion of a `float` to `uint32_t`. -/
def toUInt32 (q : ℚ) : UInt32 := UInt32.ofNat (truncate q).toNat

section
variable (F : FloatArith 24) (displayWidth displayHeight : ℕ) (sensorWidth sensorHeight : UInt32)

/-- `ratio`, with the comparison of `MIN`. -/
def cropRatio : ℚ :=
  let ratioy := F.round (F.round sensorHeight.toNat / F.round displayHeight)
  let ratiox := F.round (F.round sensorWidth.toNat / F.round displayWidth)
  if ratiox < ratioy then ratiox else ratioy

/-- `crop.rect`. -/
def cropRect : VideoRect :=
  let ratio := cropRatio F displayWidth displayHeight sensorWidth sensorHeight
  let width := toUInt32 (F.round (F.round displayWidth * ratio))
  let height := toUInt32 (F.round (F.round displayHeight * ratio))
  ⟨(sensorWidth - width + 1) / 2, (sensorHeight - height + 1) / 2, width, height⟩

/-- The selection that `video_crop_setup` requests; `none` is a failed assertion, where assertions
are on. The sample's `prj.conf` has `CONFIG_ASSERT=n`: there `crop.rect` is requested for any
ratio. -/
def videoCropSetup : Option VideoRect :=
  let ratio := cropRatio F displayWidth displayHeight sensorWidth sensorHeight
  if 1 ≤ ratio ∧ ratio < 64 then
    some (cropRect F displayWidth displayHeight sensorWidth sensorHeight)
  else none

/-- `comp.rect`. -/
def videoResizeSetup (width height : ℕ) : VideoRect :=
  ⟨0, 0, UInt32.ofNat width, UInt32.ofNat height⟩

/-- What a pipe is asked to take from the sensor, and what to make of it. -/
structure PipeSelection where
  crop : VideoRect
  compose : VideoRect

def videoMainSetup : Option PipeSelection :=
  (videoCropSetup F displayWidth displayHeight sensorWidth sensorHeight).map fun crop =>
    ⟨crop, videoResizeSetup displayWidth displayHeight⟩

def videoAuxSetup (nnWidth nnHeight : ℕ) : Option PipeSelection :=
  (videoCropSetup F displayWidth displayHeight sensorWidth sensorHeight).map fun crop =>
    ⟨crop, videoResizeSetup nnWidth nnHeight⟩

/-- `video_setup`: the selections of the main and of the auxiliary pipe. -/
def videoSetup (nnWidth nnHeight : ℕ) : Option (PipeSelection × PipeSelection) := do
  let main ← videoMainSetup F displayWidth displayHeight sensorWidth sensorHeight
  let aux ← videoAuxSetup F displayWidth displayHeight sensorWidth sensorHeight nnWidth nnHeight
  return (main, aux)

end

/-! ## The ratio -/

section
variable {displayWidth displayHeight : ℕ} {sensorWidth sensorHeight : UInt32}

theorem cropRatio_eq_min (F : FloatArith 24) (displayWidth displayHeight : ℕ)
    (sensorWidth sensorHeight : UInt32) :
    cropRatio F displayWidth displayHeight sensorWidth sensorHeight =
      min (F.round (F.round sensorWidth.toNat / F.round displayWidth))
        (F.round (F.round sensorHeight.toNat / F.round displayHeight)) :=
  (min_def_lt _ _).symm

/-- A display that fits the sensor passes the first assertion, however `float` rounds. -/
theorem one_le_cropRatio (F : FloatArith 24) (hwpos : 1 ≤ displayWidth) (hhpos : 1 ≤ displayHeight)
    (hw : displayWidth ≤ sensorWidth.toNat) (hh : displayHeight ≤ sensorHeight.toNat) :
    1 ≤ cropRatio F displayWidth displayHeight sensorWidth sensorHeight := by
  have hone : F.round 1 = 1 := by exact_mod_cast F.round_int (n := 1) (by norm_num)
  have hratio : ∀ {d s : ℕ}, 1 ≤ d → d ≤ s → 1 ≤ F.round (F.round s / F.round d) := by
    intro d s hd hds
    have hd' : (1 : ℚ) ≤ d := by exact_mod_cast hd
    have hds' : (d : ℚ) ≤ s := by exact_mod_cast hds
    have hpos := F.mono hd'
    have hle := F.mono hds'
    rw [hone] at hpos
    have hquot : 1 ≤ F.round s / F.round d := by
      rw [le_div_iff₀ (by linarith), one_mul]
      exact hle
    have hround := F.mono hquot
    rwa [hone] at hround
  rw [cropRatio_eq_min]
  exact le_min (hratio hwpos hw) (hratio hhpos hh)

theorem videoCropSetup_eq (F : FloatArith 24) (hwpos : 1 ≤ displayWidth)
    (hhpos : 1 ≤ displayHeight) (hw : displayWidth ≤ sensorWidth.toNat)
    (hh : displayHeight ≤ sensorHeight.toNat) :
    videoCropSetup F displayWidth displayHeight sensorWidth sensorHeight =
      if cropRatio F displayWidth displayHeight sensorWidth sensorHeight < 64 then
        some (cropRect F displayWidth displayHeight sensorWidth sensorHeight)
      else none := by
  simp only [videoCropSetup, one_le_cropRatio F hwpos hhpos hw hh, true_and]

theorem cropRatio_exact (displayWidth displayHeight : ℕ) (sensorWidth sensorHeight : UInt32) :
    cropRatio (FloatArith.exact 24) displayWidth displayHeight sensorWidth sensorHeight =
      fitRatio ℚ displayWidth displayHeight sensorWidth.toNat sensorHeight.toNat := by
  rw [cropRatio_eq_min, fitRatio]
  simp only [FloatArith.exact_round, Int.cast_natCast]

end

/-! ## The rectangle in exact arithmetic -/

/-- A length that fits the sensor is converted without loss. -/
theorem toUInt32_scaled {r : ℚ} {n : ℕ} {s : UInt32} (hr : 0 ≤ r)
    (hle : scaled r n ≤ s.toNat) : ((toUInt32 (n * r)).toNat : ℤ) = scaled r n := by
  have hnonneg : (0 : ℚ) ≤ n * r := mul_nonneg (Nat.cast_nonneg n) hr
  have hfloor : truncate (n * r) = scaled r n := by
    rw [truncate_of_nonneg hnonneg, scaled, Int.cast_natCast]
  have hscaled : 0 ≤ scaled r n := by
    rw [← hfloor]
    exact truncate_nonneg hnonneg
  have hlt := s.toNat_lt
  rw [toUInt32, hfloor, UInt32.toNat_ofNat_of_lt' (by rw [UInt32.size]; omega)]
  exact Int.toNat_of_nonneg hscaled

/-- Half of the margin, rounded up; nothing wraps. -/
theorem offset_toNat {sensor len : UInt32} (hpos : 1 ≤ len.toNat) (hle : len.toNat ≤ sensor.toNat) :
    ((sensor - len + 1) / 2).toNat = (sensor.toNat - len.toNat + 1) / 2 := by
  have hlt := sensor.toNat_lt
  have hdiff : (sensor - len).toNat = sensor.toNat - len.toNat :=
    UInt32.toNat_sub_of_le sensor len (UInt32.le_iff_toNat_le.mpr hle)
  rw [UInt32.toNat_div, UInt32.toNat_add, hdiff, show (1 : UInt32).toNat = 1 from rfl,
    show (2 : UInt32).toNat = 2 from rfl, Nat.mod_eq_of_lt (by omega)]

/-- One axis of a crop against the sensor and the display. -/
structure CropAxis (displayLen : ℕ) (sensorLen offset len : UInt32) : Prop where
  no_underflow : len.toNat ≤ sensorLen.toNat
  inside : offset.toNat + len.toNat ≤ sensorLen.toNat
  centred : |(offset.toNat : ℤ) - (sensorLen.toNat - (offset.toNat + len.toNat))| ≤ 1
  covers : displayLen ≤ len.toNat

theorem cropAxis_of_scaled {r : ℚ} {n : ℕ} {s len : UInt32} (hn : 1 ≤ n) (hr : 1 ≤ r)
    (hlen : (len.toNat : ℤ) = scaled r n) (hle : scaled r n ≤ s.toNat) :
    CropAxis n s ((s - len + 1) / 2) len := by
  have hcovers : (n : ℤ) ≤ scaled r n := le_scaled (Int.natCast_nonneg n) hr
  have hpos : 1 ≤ len.toNat := by omega
  have hfits : len.toNat ≤ s.toNat := by omega
  have hoffset := offset_toNat hpos hfits
  refine ⟨hfits, by omega, ?_, by omega⟩
  rw [hoffset, abs_le]
  omega

/-- A crop that is centred, inside the sensor, as large as the proportions of the display
allow, and keeps them to within one pixel. -/
structure CentredCrop (displayWidth displayHeight : ℕ) (sensorWidth sensorHeight : UInt32)
    (r : VideoRect) : Prop where
  columns : CropAxis displayWidth sensorWidth r.left r.width
  rows : CropAxis displayHeight sensorHeight r.top r.height
  full : r.width = sensorWidth ∨ r.height = sensorHeight
  aspect : |(r.width.toNat : ℤ) * displayHeight - r.height.toNat * displayWidth| <
    max displayWidth displayHeight

/-- `video_crop_setup` computes such a crop, and selects it unless the ratio fails the second
assertion. -/
theorem videoCropSetup_centred (displayWidth displayHeight : ℕ) (sensorWidth sensorHeight : UInt32)
    (hwpos : 1 ≤ displayWidth) (hhpos : 1 ≤ displayHeight)
    (hw : displayWidth ≤ sensorWidth.toNat) (hh : displayHeight ≤ sensorHeight.toNat) :
    CentredCrop displayWidth displayHeight sensorWidth sensorHeight
        (cropRect (FloatArith.exact 24) displayWidth displayHeight sensorWidth sensorHeight) ∧
      videoCropSetup (FloatArith.exact 24) displayWidth displayHeight sensorWidth sensorHeight =
        if cropRatio (FloatArith.exact 24) displayWidth displayHeight sensorWidth sensorHeight < 64
        then some (cropRect (FloatArith.exact 24) displayWidth displayHeight sensorWidth
          sensorHeight)
        else none := by
  refine ⟨?_, videoCropSetup_eq _ hwpos hhpos hw hh⟩
  let r := cropRect (FloatArith.exact 24) displayWidth displayHeight sensorWidth sensorHeight
  have hwpos' : (0 : ℤ) < displayWidth := by omega
  have hhpos' : (0 : ℤ) < displayHeight := by omega
  let ratio : ℚ := fitRatio ℚ displayWidth displayHeight sensorWidth.toNat sensorHeight.toNat
  have hratio : 1 ≤ ratio := one_le_fitRatio hwpos' hhpos' (by omega) (by omega)
  have hfitw : scaled ratio displayWidth ≤ sensorWidth.toNat := fit_le_width hwpos'
  have hfith : scaled ratio displayHeight ≤ sensorHeight.toNat := fit_le_height hhpos'
  have hfull : scaled ratio displayWidth = sensorWidth.toNat ∨
      scaled ratio displayHeight = sensorHeight.toNat := fit_full hwpos' hhpos'
  have hwidth : (r.width.toNat : ℤ) = scaled ratio displayWidth := by
    rw [show r.width = toUInt32 (displayWidth * ratio) from
      congrArg (fun q => toUInt32 (displayWidth * q)) (cropRatio_exact ..)]
    exact toUInt32_scaled (by linarith) hfitw
  have hheight : (r.height.toNat : ℤ) = scaled ratio displayHeight := by
    rw [show r.height = toUInt32 (displayHeight * ratio) from
      congrArg (fun q => toUInt32 (displayHeight * q)) (cropRatio_exact ..)]
    exact toUInt32_scaled (by linarith) hfith
  refine ⟨cropAxis_of_scaled hwpos hratio hwidth hfitw,
    cropAxis_of_scaled hhpos hratio hheight hfith, ?_, ?_⟩
  · cases hfull with
    | inl hleft => exact Or.inl (UInt32.toNat_inj.mp (Int.ofNat_inj.mp (hwidth.trans hleft)))
    | inr hright => exact Or.inr (UInt32.toNat_inj.mp (Int.ofNat_inj.mp (hheight.trans hright)))
  · have haspect := scaled_aspect ratio hwpos' hhpos'
    rw [← hwidth, ← hheight] at haspect
    exact_mod_cast haspect

/-- A 5-megapixel sensor on the display: the height is cut. -/
theorem videoCropSetup_centred_wvga :
    CentredCrop 800 480 2592 1944 ⟨0, 195, 2592, 1555⟩ ∧
      videoCropSetup (FloatArith.exact 24) 800 480 2592 1944 = some ⟨0, 195, 2592, 1555⟩ := by
  have hrect : cropRect (FloatArith.exact 24) 800 480 2592 1944 = ⟨0, 195, 2592, 1555⟩ := by
    decide +kernel
  have hratio : cropRatio (FloatArith.exact 24) 800 480 2592 1944 < 64 := by decide +kernel
  have h := videoCropSetup_centred 800 480 2592 1944 (by decide) (by decide) (by decide) (by decide)
  rwa [hrect, if_pos hratio] at h

/-! ## Both pipes -/

/-- The network and the display are shown the same part of the sensor, however `float`
rounds. -/
theorem videoSetup_same_crop (F : FloatArith 24) {displayWidth displayHeight nnWidth nnHeight : ℕ}
    {sensorWidth sensorHeight : UInt32} (hwpos : 1 ≤ displayWidth) (hhpos : 1 ≤ displayHeight)
    (hw : displayWidth ≤ sensorWidth.toNat) (hh : displayHeight ≤ sensorHeight.toNat)
    (hratio : cropRatio F displayWidth displayHeight sensorWidth sensorHeight < 64) :
    let r := cropRect F displayWidth displayHeight sensorWidth sensorHeight
    videoSetup F displayWidth displayHeight sensorWidth sensorHeight nnWidth nnHeight =
      some (⟨r, videoResizeSetup displayWidth displayHeight⟩,
        ⟨r, videoResizeSetup nnWidth nnHeight⟩) := by
  intro r
  have hcrop : videoCropSetup F displayWidth displayHeight sensorWidth sensorHeight = some r := by
    rw [videoCropSetup_eq F hwpos hhpos hw hh, if_pos hratio]
  simp only [videoSetup, videoMainSetup, videoAuxSetup, hcrop, Option.map_some]
  rfl

end N6Samples.Benchmark
