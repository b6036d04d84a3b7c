import N6Samples.Imu.Units
import N6Samples.Lib.Decimal

/-! # The log lines of the sample application (`imu/src/main.c`)

Each reading is printed as `"%d.%06d"` of `val1` and `abs(val2)`. The sign of the
text is the sign of `val1`, so it is lost exactly for the negative readings whose
integer part is zero.
-/

namespace N6Samples.Ism330dlc

open Decimal TruncatedDivision

namespace SensorValue

/-- What a sensor value denotes, in its unit. -/
def toRat (v : SensorValue) : ℚ := v.val1.toInt + v.val2.toInt / 10 ^ 6

/-- `"%d.%06d"` of `val1` and `abs(val2)`. -/
def print (v : SensorValue) : List Char :=
  showInt v.val1.toInt ++ '.' :: showPadded 6 v.val2.toInt.natAbs

/-- The form both conversions produce. -/
structure Canonical (v : SensorValue) : Prop where
  val2_lt : |v.val2.toInt| < 1000000
  same_sign : 0 ≤ v.val1.toInt ∧ 0 ≤ v.val2.toInt ∨ v.val1.toInt ≤ 0 ∧ v.val2.toInt ≤ 0

theorem Encodes.canonical {v : SensorValue} {micro : Int64} (h : v.Encodes micro) :
    v.Canonical := ⟨h.val2_lt, h.same_sign⟩

/-- The millionths a reader makes of the text. -/
def printedMicro (v : SensorValue) : ℤ :=
  if v.val1.toInt < 0 then v.val1.toInt * 1000000 - v.val2.toInt.natAbs
  else v.val1.toInt * 1000000 + v.val2.toInt.natAbs

theorem readDecimal_print {v : SensorValue} (h : v.Canonical) :
    readDecimal v.print = some ((v.printedMicro : ℚ) / 10 ^ 6) := by
  have hlt : v.val2.toInt.natAbs < 10 ^ 6 := by
    have habs := abs_lt.mp h.val2_lt
    omega
  rw [print, readDecimal_fixed _ (by omega) hlt, printedMicro]
  congr 1
  split
  · push_cast [Nat.cast_natAbs]
    ring
  · push_cast [Nat.cast_natAbs]
    ring

theorem toRat_eq (v : SensorValue) : v.toRat = (v.micro : ℚ) / 10 ^ 6 := by
  rw [toRat, micro]
  push_cast
  ring

theorem printedMicro_eq_iff {v : SensorValue} (h : v.Canonical) :
    v.printedMicro = v.micro ↔ ¬(-1000000 < v.micro ∧ v.micro < 0) := by
  have habs := abs_lt.mp h.val2_lt
  have hsign := h.same_sign
  unfold printedMicro micro
  split <;> omega

/-- The text denotes the value unless the sign is in `val2` alone. -/
theorem print_reads_back_iff {v : SensorValue} (h : v.Canonical) :
    readDecimal v.print = some v.toRat ↔ ¬(-1000000 < v.micro ∧ v.micro < 0) := by
  rw [readDecimal_print h, toRat_eq, ← printedMicro_eq_iff h, Option.some_inj,
    div_left_inj' (by norm_num), Int.cast_inj]

theorem print_eq_iff {v w : SensorValue} (hv : v.Canonical) (hw : w.Canonical) :
    v.print = w.print ↔ v.micro = w.micro ∨ v.micro = -w.micro ∧ |v.micro| < 1000000 := by
  have hvabs := abs_lt.mp hv.val2_lt
  have hwabs := abs_lt.mp hw.val2_lt
  have hvsign := hv.same_sign
  have hwsign := hw.same_sign
  constructor
  · intro h
    have hread := congrArg readDecimal h
    rw [readDecimal_print hv, readDecimal_print hw, Option.some_inj,
      div_left_inj' (by norm_num), Int.cast_inj] at hread
    rw [abs_lt]
    unfold printedMicro at hread
    unfold micro
    split at hread <;> split at hread <;> omega
  · intro h
    rw [abs_lt] at h
    unfold micro at h
    have hval1 : v.val1.toInt = w.val1.toInt := by omega
    have hval2 : v.val2.toInt.natAbs = w.val2.toInt.natAbs := by omega
    rw [print, print, hval1, hval2]

end SensorValue

/-! ## The two conversions -/

/-- A conversion to sensor values whose micro-units `e` grow through one unit between
`k` and `k + 1`. -/
structure UnitConversion (encode : Int32 → SensorValue) (e : ℤ → ℤ) (k : ℤ) : Prop where
  canonical : ∀ x, (encode x).Canonical
  micro : ∀ x, (encode x).micro = e x.toInt
  mono : StrictMono e
  odd : ∀ n, e (-n) = -e n
  below : e k < 1000000
  above : 1000000 ≤ e (k + 1)

namespace UnitConversion

variable {encode : Int32 → SensorValue} {e : ℤ → ℤ} {k : ℤ}

theorem small_iff (h : UnitConversion encode e k) (n : ℤ) :
    -1000000 < e n ∧ e n < 1000000 ↔ -k ≤ n ∧ n ≤ k := by
  have hupper : ∀ m, e m < 1000000 ↔ m ≤ k := by
    intro m
    constructor
    · intro hm
      have hlt := h.mono.lt_iff_lt.mp (hm.trans_le h.above)
      omega
    · intro hm
      exact (h.mono.monotone hm).trans_lt h.below
  have hlower := hupper (-n)
  rw [h.odd] at hlower
  rw [hupper n]
  omega

theorem negative_iff (h : UnitConversion encode e k) (n : ℤ) : e n < 0 ↔ n < 0 := by
  have hzero : e 0 = 0 := by
    have hodd := h.odd 0
    rw [neg_zero] at hodd
    omega
  have hlt := h.mono.lt_iff_lt (a := n) (b := 0)
  rwa [hzero] at hlt

theorem reads_back_iff (h : UnitConversion encode e k) (x : Int32) :
    readDecimal (encode x).print = some (encode x).toRat ↔ ¬(-k ≤ x.toInt ∧ x.toInt ≤ -1) := by
  have hsmall := h.small_iff x.toInt
  have hneg := h.negative_iff x.toInt
  rw [SensorValue.print_reads_back_iff (h.canonical x), h.micro]
  omega

theorem print_eq_iff (h : UnitConversion encode e k) (x y : Int32) :
    (encode x).print = (encode y).print ↔ x = y ∨ x.toInt = -y.toInt ∧ |x.toInt| ≤ k := by
  rw [SensorValue.print_eq_iff (h.canonical x) (h.canonical y), h.micro, h.micro, ← h.odd,
    h.mono.injective.eq_iff, h.mono.injective.eq_iff, Int32.toInt_inj, abs_lt, h.small_iff, abs_le]

end UnitConversion

namespace Driver

theorem mg_conversion : UnitConversion mgToSensorValue (fun n => n * 9807) 101 where
  canonical mg := (microToSensorValue_encodes (mgMicro_range mg)).canonical
  micro mg := by
    rw [mgToSensorValue, (microToSensorValue_encodes (mgMicro_range mg)).value, mgMicro_toInt]
  mono := by
    intro a b h
    show a * 9807 < b * 9807
    omega
  odd n := by omega
  below := by decide
  above := by decide

theorem mdps_conversion :
    UnitConversion mdpsToSensorValue (fun n => (n * 17453).tdiv 1000) 57296 where
  canonical mdps := (microToSensorValue_encodes (mdpsMicro_range mdps)).canonical
  micro mdps := by
    rw [mdpsToSensorValue, (microToSensorValue_encodes (mdpsMicro_range mdps)).value,
      mdpsMicro_toInt]
  mono := mul_tdiv_strictMono (by omega) (by omega)
  odd n := by rw [neg_mul, Int.neg_tdiv]
  below := by decide
  above := by decide

/-- The numbers on the two log lines of `imu_thread_func` after a successful fetch. -/
def logTexts (data : Data) : Except Errno (List (List Char) × List (List Char)) := do
  let acc ← channelGet .accelXyz data
  let gyro ← channelGet .gyroXyz data
  return (acc.map SensorValue.print, gyro.map SensorValue.print)

/-- What `channel_get` gives for the readings in the cache, and the texts on the log lines. -/
structure LogLines (data : Data) : Prop where
  acc : channelGet .accelXyz data =
    .ok ([data.acc.x, data.acc.y, data.acc.z].map mgToSensorValue)
  gyro : channelGet .gyroXyz data =
    .ok ([data.gyro.x, data.gyro.y, data.gyro.z].map mdpsToSensorValue)
  texts : logTexts data =
    .ok ([data.acc.x, data.acc.y, data.acc.z].map fun mg => (mgToSensorValue mg).print,
      [data.gyro.x, data.gyro.y, data.gyro.z].map fun mdps => (mdpsToSensorValue mdps).print)

theorem logLines (data : Data) : LogLines data := ⟨rfl, rfl, rfl⟩

/-- The texts are those of the reported values. Exactly the readings from -101 to -1 mg and from
-57296 to -1 mdps print as the text of another value, and two readings share a text exactly when
they are the two signs of one of these. -/
theorem printed_reading_iff (data : Data) (mg mg' mdps mdps' : Int32) :
    LogLines data ∧
      (readDecimal (mgToSensorValue mg).print = some (mgToSensorValue mg).toRat ↔
        ¬(-101 ≤ mg.toInt ∧ mg.toInt ≤ -1)) ∧
      ((mgToSensorValue mg).print = (mgToSensorValue mg').print ↔
        mg = mg' ∨ mg.toInt = -mg'.toInt ∧ |mg.toInt| ≤ 101) ∧
      (readDecimal (mdpsToSensorValue mdps).print = some (mdpsToSensorValue mdps).toRat ↔
        ¬(-57296 ≤ mdps.toInt ∧ mdps.toInt ≤ -1)) ∧
      ((mdpsToSensorValue mdps).print = (mdpsToSensorValue mdps').print ↔
        mdps = mdps' ∨ mdps.toInt = -mdps'.toInt ∧ |mdps.toInt| ≤ 57296) :=
  ⟨logLines data, mg_conversion.reads_back_iff mg, mg_conversion.print_eq_iff mg mg',
    mdps_conversion.reads_back_iff mdps, mdps_conversion.print_eq_iff mdps mdps'⟩

/-- One milli-g down prints as one milli-g up. -/
theorem printed_minus_one_mg :
    let data : Data := { Data.zeroed with acc := ⟨-1, 1, 0⟩ }
    let text := ['0', '.', '0', '0', '9', '8', '0', '7']
    let zero := ['0', '.', '0', '0', '0', '0', '0', '0']
    logTexts data = .ok ([text, text, zero], [zero, zero, zero]) ∧
      channelGet .accelX data = .ok [⟨0, -9807⟩] ∧ channelGet .accelY data = .ok [⟨0, 9807⟩] ∧
      readDecimal text ≠ some (SensorValue.toRat ⟨0, -9807⟩) := by
  intro data text zero
  have hvalue : mgToSensorValue (-1) = ⟨0, -9807⟩ := by decide
  have htext : (mgToSensorValue (-1)).print = text := by decide
  refine ⟨by decide, by decide, by decide, ?_⟩
  rw [← htext, ← hvalue]
  intro h
  exact (mg_conversion.reads_back_iff (-1)).mp h (by decide)

end Driver

end N6Samples.Ism330dlc
