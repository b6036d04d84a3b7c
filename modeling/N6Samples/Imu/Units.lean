import N6Samples.Imu.Fetch
import N6Samples.Lib.TruncatedDivision
import Mathlib.Tactic.NormNum

/-! # Units of the reported samples

The sensor value of a cached axis is the truncated split of its micro-units in
base one million. The first part is exact on all of `int32`; the second part
composes it with the scaling of the raw count, in exact arithmetic, and follows
a count from the bus through a fetch to what `channel_get` reports.
-/

namespace N6Samples.Ism330dlc

open Transaction Rounding TruncatedDivision

/-! ## The encoding on `int32` -/

/-- What a sensor value stands for, in millionths of its unit. -/
def SensorValue.micro (v : SensorValue) : ℤ := v.val1.toInt * 1000000 + v.val2.toInt

/-- The two parts in the order they are compared. -/
def SensorValue.key (v : SensorValue) : ℤ ×ₗ ℤ := toLex (v.val1.toInt, v.val2.toInt)

/-- `v` is the lossless split of `micro`: both narrowings keep the value, the
fraction stays below one unit and has no sign of its own. -/
structure SensorValue.Encodes (v : SensorValue) (micro : Int64) : Prop where
  val1_lossless : v.val1.toInt = (micro / 1000000).toInt
  val2_lossless : v.val2.toInt = (micro % 1000000).toInt
  value : v.micro = micro.toInt
  val2_lt : |v.val2.toInt| < 1000000
  same_sign : 0 ≤ v.val1.toInt ∧ 0 ≤ v.val2.toInt ∨ v.val1.toInt ≤ 0 ∧ v.val2.toInt ≤ 0

namespace Driver

/-- The micro-units both conversions produce: far inside `int64`, with a quotient inside `int32`. -/
def MicroRange (micro : ℤ) : Prop := -2147483648000000 ≤ micro ∧ micro < 2147483648000000

theorem mgMicro_toInt (mg : Int32) : (mgMicro mg).toInt = mg.toInt * 9807 := by
  have hlo := mg.le_toInt
  have hhi := mg.toInt_lt
  rw [mgMicro, Int64.toInt_mul, Int32.toInt_toInt64, show (9807 : Int64).toInt = 9807 from rfl]
  apply Int.bmod_eq_of_le <;> omega

theorem mdps_product_toInt (mdps : Int32) :
    (mdps.toInt64 * 17453).toInt = mdps.toInt * 17453 := by
  have hlo := mdps.le_toInt
  have hhi := mdps.toInt_lt
  rw [Int64.toInt_mul, Int32.toInt_toInt64, show (17453 : Int64).toInt = 17453 from rfl]
  apply Int.bmod_eq_of_le <;> omega

theorem mdpsMicro_toInt (mdps : Int32) :
    (mdpsMicro mdps).toInt = (mdps.toInt * 17453).tdiv 1000 := by
  rw [mdpsMicro, Int64.toInt_div_of_ne_right _ _ (by decide), mdps_product_toInt]
  rfl

theorem mgMicro_range (mg : Int32) : MicroRange (mgMicro mg).toInt := by
  have hlo := mg.le_toInt
  have hhi := mg.toInt_lt
  rw [mgMicro_toInt]
  constructor <;> omega

theorem mdpsMicro_range (mdps : Int32) : MicroRange (mdpsMicro mdps).toInt := by
  have hlo := mdps.le_toInt
  have hhi := mdps.toInt_lt
  have hmem := tdiv_mem_of_mem (-37480259977) 37480259977 (b := 1000) (x := mdps.toInt * 17453)
    (by omega) (by omega) (by omega) (by omega) (by omega)
  rw [mdpsMicro_toInt]
  constructor <;> omega

theorem quotient_toInt (micro : Int64) :
    (micro / 1000000).toInt = (split 1000000 micro.toInt).1 := by
  rw [Int64.toInt_div_of_ne_right _ _ (by decide)]
  rfl

theorem remainder_toInt (micro : Int64) :
    (micro % 1000000).toInt = (split 1000000 micro.toInt).2 := by
  rw [Int64.toInt_mod]
  rfl

theorem microToSensorValue_val1 {micro : Int64} (h : MicroRange micro.toInt) :
    (microToSensorValue micro).val1.toInt = (split 1000000 micro.toInt).1 := by
  rcases h with ⟨hlo, hhi⟩
  have hmem := tdiv_mem_of_mem (-2147483648) 2147483647 (b := 1000000) (x := micro.toInt)
    (by omega) (by omega) (by omega) (by omega) (by omega)
  rw [microToSensorValue, Int64.toInt_toInt32, quotient_toInt, split_fst]
  apply Int.bmod_eq_of_le <;> omega

theorem microToSensorValue_val2 (micro : Int64) :
    (microToSensorValue micro).val2.toInt = (split 1000000 micro.toInt).2 := by
  have hlt := abs_lt.mp (abs_split_snd_lt (b := 1000000) (by norm_num) micro.toInt)
  rw [microToSensorValue, Int64.toInt_toInt32, remainder_toInt]
  apply Int.bmod_eq_of_le <;> omega

theorem microToSensorValue_encodes {micro : Int64} (h : MicroRange micro.toInt) :
    (microToSensorValue micro).Encodes micro where
  val1_lossless := by rw [microToSensorValue_val1 h, quotient_toInt]
  val2_lossless := by rw [microToSensorValue_val2, remainder_toInt]
  value := by
    rw [SensorValue.micro, microToSensorValue_val1 h, microToSensorValue_val2]
    exact split_value 1000000 micro.toInt
  val2_lt := by
    rw [microToSensorValue_val2]
    exact abs_split_snd_lt (by norm_num) micro.toInt
  same_sign := by
    rw [microToSensorValue_val1 h, microToSensorValue_val2]
    rcases le_total 0 micro.toInt with hm | hm
    · exact Or.inl (split_nonneg (by norm_num) hm)
    · exact Or.inr (split_nonpos (by norm_num) hm)

theorem microToSensorValue_key {micro : Int64} (h : MicroRange micro.toInt) :
    (microToSensorValue micro).key = toLex (split 1000000 micro.toInt) := by
  rw [SensorValue.key, microToSensorValue_val1 h, microToSensorValue_val2]

theorem key_lt_key {a b : Int64} (ha : MicroRange a.toInt) (hb : MicroRange b.toInt)
    (h : a.toInt < b.toInt) : (microToSensorValue a).key < (microToSensorValue b).key := by
  rw [microToSensorValue_key ha, microToSensorValue_key hb]
  exact split_lex_strictMono (by norm_num) h

theorem mgMicro_lt {a b : Int32} (h : a < b) : (mgMicro a).toInt < (mgMicro b).toInt := by
  rw [Int32.lt_iff_toInt_lt] at h
  rw [mgMicro_toInt, mgMicro_toInt]
  omega

theorem mdpsMicro_lt {a b : Int32} (h : a < b) : (mdpsMicro a).toInt < (mdpsMicro b).toInt := by
  rw [Int32.lt_iff_toInt_lt] at h
  rw [mdpsMicro_toInt, mdpsMicro_toInt]
  exact mul_tdiv_strictMono (by norm_num) (by norm_num) h

/-- An encoding that is strictly increasing for the lexicographic order is injective. -/
theorem injective_of_key_lt {encode : Int32 → SensorValue}
    (h : ∀ a b, a < b → (encode a).key < (encode b).key) : Function.Injective encode := by
  intro a b hab
  rcases lt_trichotomy a.toInt b.toInt with hlt | heq | hgt
  · exact absurd (congrArg SensorValue.key hab) (h a b (Int32.lt_iff_toInt_lt.mpr hlt)).ne
  · exact Int32.toInt_inj.mp heq
  · exact absurd (congrArg SensorValue.key hab) (h b a (Int32.lt_iff_toInt_lt.mpr hgt)).ne'

/-- Both conversions are canonical and lossless on all of `int32`, without
overflow, and strictly increasing. -/
theorem sensorValue_encoding :
    (∀ mg, (mgMicro mg).toInt = mg.toInt * 9807 ∧ (mgToSensorValue mg).Encodes (mgMicro mg)) ∧
    (∀ mdps, (mdps.toInt64 * 17453).toInt = mdps.toInt * 17453 ∧
      (mdpsMicro mdps).toInt = (mdps.toInt * 17453).tdiv 1000 ∧
      (mdpsToSensorValue mdps).Encodes (mdpsMicro mdps)) ∧
    (∀ a b, a < b → (mgToSensorValue a).key < (mgToSensorValue b).key) ∧
    (∀ a b, a < b → (mdpsToSensorValue a).key < (mdpsToSensorValue b).key) ∧
    Function.Injective mgToSensorValue ∧ Function.Injective mdpsToSensorValue := by
  have hmg : ∀ a b, a < b → (mgToSensorValue a).key < (mgToSensorValue b).key :=
    fun a b h => key_lt_key (mgMicro_range a) (mgMicro_range b) (mgMicro_lt h)
  have hmdps : ∀ a b, a < b → (mdpsToSensorValue a).key < (mdpsToSensorValue b).key :=
    fun a b h => key_lt_key (mdpsMicro_range a) (mdpsMicro_range b) (mdpsMicro_lt h)
  refine ⟨?_, ?_, hmg, hmdps, injective_of_key_lt hmg, injective_of_key_lt hmdps⟩
  · intro mg
    exact ⟨mgMicro_toInt mg, microToSensorValue_encodes (mgMicro_range mg)⟩
  · intro mdps
    exact ⟨mdps_product_toInt mdps, mdpsMicro_toInt mdps,
      microToSensorValue_encodes (mdpsMicro_range mdps)⟩

theorem sensorValue_encoding_across_zero :
    (mgToSensorValue (-1)).key < (mgToSensorValue 0).key ∧
      (mdpsToSensorValue (-1)).key < (mdpsToSensorValue 0).key :=
  ⟨sensorValue_encoding.2.2.1 _ _ (by decide), sensorValue_encoding.2.2.2.1 _ _ (by decide)⟩

end Driver

/-! ## The scaled count -/

namespace Hal

theorem raw_bounds (raw : Int16) : (-32768 : ℤ) ≤ raw.toInt ∧ raw.toInt ≤ 32767 := by
  have hlo := raw.le_toInt
  have hhi := raw.toInt_lt
  omega

/-- Every sensitivity of the driver keeps the scaled count inside `int32`, so the
conversion to an integer type is defined, whatever the rounding. -/
theorem scaleAxis_toInt (F : FloatUnit) (raw : Int16) {s : ℚ} (h0 : 0 ≤ s) (h1 : s ≤ 70) :
    (scaleAxis F raw s).toInt = truncate (F.round (raw.toInt * s)) := by
  rcases raw_bounds raw with ⟨hlo, hhi⟩
  have hraw : F.round (raw.toInt : ℚ) = raw.toInt :=
    F.round_int (abs_lt.mpr ⟨by omega, by omega⟩)
  have hlo' : (-32768 : ℚ) ≤ raw.toInt := by exact_mod_cast hlo
  have hhi' : (raw.toInt : ℚ) ≤ 32767 := by exact_mod_cast hhi
  have hrep : ∀ n : ℤ, |n| < 2 ^ 24 → Representable 24 (n : ℚ) := fun n => representable_int
  have hround := F.round_mem_of_mem (q := raw.toInt * s) (hrep (-2293760) (by norm_num))
    (hrep 2293760 (by norm_num)) (by push_cast; nlinarith) (by push_cast; nlinarith)
  have htrunc := truncate_mem_of_mem hround.1 hround.2
  rw [scaleAxis, hraw, Int32.toInt_ofInt_of_le (by omega) (by omega)]

theorem accSensitivity_bounds {fs : FsXl} {s : ℚ} (h : accSensitivity fs = some s) :
    0 ≤ s ∧ s ≤ 488 / 1000 := by
  cases fs <;> simp only [accSensitivity, Option.some.injEq, reduceCtorEq] at h <;>
    subst h <;> norm_num

theorem gyroSensitivity_bounds {fs : FsG} {s : ℚ} (h : gyroSensitivity fs = some s) :
    0 ≤ s ∧ s ≤ 70 := by
  cases fs <;> simp only [gyroSensitivity, Option.some.injEq] at h <;> subst h <;> norm_num

end Hal

/-! ## From the raw count to the reported value -/

/-- The micro-m/s² reported for a raw accelerometer count, in exact arithmetic. -/
def accReading (s : ℚ) (r : Int16) : ℤ :=
  (Driver.mgToSensorValue (Hal.scaleAxis (FloatArith.exact 24) r s)).micro

/-- The micro-rad/s reported for a raw gyroscope count, in exact arithmetic. -/
def gyroReading (s : ℚ) (r : Int16) : ℤ :=
  (Driver.mdpsToSensorValue (Hal.scaleAxis (FloatArith.exact 24) r s)).micro

theorem accReading_eq {s : ℚ} (h0 : 0 ≤ s) (h1 : s ≤ 70) (r : Int16) :
    accReading s r = truncate (r.toInt * s) * 9807 := by
  rw [accReading, Driver.mgToSensorValue,
    (Driver.microToSensorValue_encodes (Driver.mgMicro_range _)).value, Driver.mgMicro_toInt,
    Hal.scaleAxis_toInt _ _ h0 h1, FloatArith.exact_round]

theorem gyroReading_eq {s : ℚ} (h0 : 0 ≤ s) (h1 : s ≤ 70) (r : Int16) :
    gyroReading s r = (truncate (r.toInt * s) * 17453).tdiv 1000 := by
  rw [gyroReading, Driver.mdpsToSensorValue,
    (Driver.microToSensorValue_encodes (Driver.mdpsMicro_range _)).value, Driver.mdpsMicro_toInt,
    Hal.scaleAxis_toInt _ _ h0 h1, FloatArith.exact_round]

/-- The truncation loss and the rounded-up constant err in opposite directions. -/
private theorem acc_error_of_nonneg {v : ℚ} (h0 : 0 ≤ v) (h1 : v ≤ 16000) :
    |((truncate v * 9807 : ℤ) : ℚ) - 9806.65 * v| < 9806.65 := by
  rcases truncate_bounds h0 with ⟨hle, hlt⟩
  have ht : (0 : ℚ) ≤ truncate v := by exact_mod_cast truncate_nonneg h0
  push_cast
  rw [abs_lt]
  constructor <;> norm_num <;> linarith

private theorem acc_error {v : ℚ} (h : |v| ≤ 16000) :
    |((truncate v * 9807 : ℤ) : ℚ) - 9806.65 * v| < 9806.65 := by
  rcases le_total 0 v with hv | hv
  · exact acc_error_of_nonneg hv ((le_abs_self v).trans h)
  · have hneg := acc_error_of_nonneg (neg_nonneg.mpr hv) ((neg_le_abs v).trans h)
    rw [truncate_neg, ← abs_neg] at hneg
    convert hneg using 2
    push_cast
    ring

/-- In the gyroscope path all errors go the same way. -/
private theorem gyro_error_of_nonneg {v c : ℚ} (h0 : 0 ≤ v) (h1 : 17.453292 ≤ c)
    (h2 : c ≤ 17.453293) :
    0 ≤ c * v - ((truncate v * 17453).tdiv 1000 : ℤ) ∧
      c * v - ((truncate v * 17453).tdiv 1000 : ℤ) < c + 1 + 0.000293 * truncate v := by
  rcases truncate_bounds h0 with ⟨hle, hlt⟩
  have ht := truncate_nonneg h0
  have ht' : (0 : ℚ) ≤ truncate v := by exact_mod_cast ht
  rw [Int.tdiv_eq_ediv_of_nonneg (by positivity)]
  have hfloor : (truncate v * 17453) / 1000 * 1000 ≤ truncate v * 17453 ∧
      truncate v * 17453 < (truncate v * 17453) / 1000 * 1000 + 1000 := by omega
  have hlow : (((truncate v * 17453) / 1000 : ℤ) : ℚ) * 1000 ≤ truncate v * 17453 := by
    exact_mod_cast hfloor.1
  have hhigh : (truncate v : ℚ) * 17453 <
      (((truncate v * 17453) / 1000 : ℤ) : ℚ) * 1000 + 1000 := by
    exact_mod_cast hfloor.2
  norm_num at h1 h2 ⊢
  constructor <;> nlinarith

private theorem gyro_error {v c : ℚ} (h1 : 17.453292 ≤ c) (h2 : c ≤ 17.453293) :
    0 ≤ |c * v| - |(((truncate v * 17453).tdiv 1000 : ℤ) : ℚ)| ∧
      |c * v| - |(((truncate v * 17453).tdiv 1000 : ℤ) : ℚ)| <
        c + 1 + 0.000293 * |(truncate v : ℚ)| := by
  have hc : (0 : ℚ) ≤ c := by norm_num at h1; linarith
  rcases le_total 0 v with hv | hv
  · have ht := truncate_nonneg hv
    rw [abs_of_nonneg (mul_nonneg hc hv),
      abs_of_nonneg (by exact_mod_cast Int.tdiv_nonneg (by positivity) (by norm_num)),
      abs_of_nonneg (by exact_mod_cast ht)]
    exact gyro_error_of_nonneg hv h1 h2
  · have hneg := gyro_error_of_nonneg (neg_nonneg.mpr hv) h1 h2
    have ht := truncate_nonpos hv
    have hq : (truncate v * 17453).tdiv 1000 ≤ 0 := by
      have h := Int.tdiv_nonneg (a := -(truncate v * 17453)) (b := 1000) (by omega) (by norm_num)
      rw [Int.neg_tdiv] at h
      omega
    rw [truncate_neg, neg_mul, Int.neg_tdiv] at hneg
    push_cast at hneg
    rw [abs_of_nonpos (mul_nonpos_of_nonneg_of_nonpos hc hv),
      abs_of_nonpos (by exact_mod_cast hq), abs_of_nonpos (by exact_mod_cast ht)]
    constructor <;> linarith [hneg.1, hneg.2]

/-- A reading that keeps the sign, the symmetry and the order of the raw count. -/
structure OrderedReading (reading : Int16 → ℤ) : Prop where
  sign : ∀ r, (0 ≤ r.toInt → 0 ≤ reading r) ∧ (r.toInt ≤ 0 → reading r ≤ 0)
  symm : ∀ r, r ≠ Int16.minValue → reading (-r) = -reading r
  mono : ∀ r r', r ≤ r' → reading r ≤ reading r'

theorem neg_toInt {r : Int16} (h : r ≠ Int16.minValue) : (-r).toInt = -r.toInt := by
  rcases Hal.raw_bounds r with ⟨hlo, hhi⟩
  have hne : r.toInt ≠ -32768 := by
    intro heq
    exact h (Int16.toInt_inj.mp heq)
  rw [Int16.toInt_neg]
  apply Int.bmod_eq_of_le <;> omega

/-- Any odd monotone encoding of the truncated product is an ordered reading. -/
theorem OrderedReading.of_truncate (encode : ℤ → ℤ) {s : ℚ} (hs : 0 ≤ s) {reading : Int16 → ℤ}
    (hread : ∀ r, reading r = encode (truncate (r.toInt * s))) (hmono : Monotone encode)
    (hodd : ∀ n, encode (-n) = -encode n) : OrderedReading reading where
  sign r := by
    have hzero : encode 0 = 0 := by have h := hodd 0; rw [neg_zero] at h; omega
    rw [hread]
    constructor
    · intro hr
      have hr' : (0 : ℚ) ≤ r.toInt := by exact_mod_cast hr
      have h := hmono (truncate_nonneg (mul_nonneg hr' hs))
      rwa [hzero] at h
    · intro hr
      have hr' : (r.toInt : ℚ) ≤ 0 := by exact_mod_cast hr
      have h := hmono (truncate_nonpos (mul_nonpos_of_nonpos_of_nonneg hr' hs))
      rwa [hzero] at h
  symm r hr := by
    rw [hread, hread, neg_toInt hr, Int.cast_neg, neg_mul, truncate_neg, hodd]
  mono r r' hr := by
    rw [hread, hread]
    rw [Int16.le_iff_toInt_le] at hr
    have hcast : (r.toInt : ℚ) ≤ r'.toInt := by exact_mod_cast hr
    exact hmono (truncate_mono (mul_le_mul_of_nonneg_right hcast hs))

theorem accReading_ordered {s : ℚ} (h0 : 0 ≤ s) (h1 : s ≤ 70) : OrderedReading (accReading s) :=
  OrderedReading.of_truncate (fun n => n * 9807) h0 (accReading_eq h0 h1)
    (fun _ _ h => mul_le_mul_of_nonneg_right h (by norm_num)) (fun _ => neg_mul _ _)

theorem gyroReading_ordered {s : ℚ} (h0 : 0 ≤ s) (h1 : s ≤ 70) : OrderedReading (gyroReading s) :=
  OrderedReading.of_truncate (fun n => (n * 17453).tdiv 1000) h0 (gyroReading_eq h0 h1)
    (mul_tdiv_strictMono (by norm_num) (by norm_num)).monotone
    (fun _ => by rw [neg_mul, Int.neg_tdiv])

/-! ## From the bus to the reported value -/

namespace Driver

/-- What `channel_get` writes for a channel, in millionths of its unit. -/
def reportedMicro (chan : SensorChannel) (data : Data) : Except Errno (List ℤ) :=
  (channelGet chan data).map (List.map SensorValue.micro)

/-- The channels of one sensor, and where its axes are cached. -/
structure AxisChannels where
  x : SensorChannel
  y : SensorChannel
  z : SensorChannel
  xyz : SensorChannel
  cached : Data → Axes

def accChannels : AxisChannels := ⟨.accelX, .accelY, .accelZ, .accelXyz, Data.acc⟩

def gyroChannels : AxisChannels := ⟨.gyroX, .gyroY, .gyroZ, .gyroXyz, Data.gyro⟩

/-- The fetch covers the sensor, and both of its reads succeeded. -/
structure FetchReads (src : Source) (chan : SensorChannel) (count : AxesRaw) (ctrl : Byte)
    (log : BusLog) : Prop where
  covers : chan ∈ src.channels
  data : ∃ buf, burst src.dataReg 6 log = some buf ∧ rawAxes buf = count
  control : ∃ buf, burst src.ctrlReg 1 log = some buf ∧ byteAt buf 0 = ctrl

/-- The cache has the truncated products, and each axis is reported as `reading` of its count,
on its own channel and together with the others. -/
structure ReportsCount (ch : AxisChannels) (s : ℚ) (reading : Int16 → ℤ) (count : AxesRaw)
    (data : Data) : Prop where
  stored_x : (ch.cached data).x.toInt = truncate (count.x.toInt * s)
  stored_y : (ch.cached data).y.toInt = truncate (count.y.toInt * s)
  stored_z : (ch.cached data).z.toInt = truncate (count.z.toInt * s)
  x : reportedMicro ch.x data = .ok [reading count.x]
  y : reportedMicro ch.y data = .ok [reading count.y]
  z : reportedMicro ch.z data = .ok [reading count.z]
  xyz : reportedMicro ch.xyz data = .ok [reading count.x, reading count.y, reading count.z]

/-- So it is after every fetch, on every bus, that finds the sensor at a scale of
sensitivity `s`. -/
def Reports (src : Source) (ch : AxisChannels) (atScale : Byte → Prop) (s : ℚ)
    (reading : Int16 → ℤ) : Prop :=
  ∀ (S : Type) (peer : BusPeer S) (st : S) (chan : SensorChannel) (data : Data)
    (count : AxesRaw) (ctrl : Byte),
    let o := run peer (sampleFetch (FloatArith.exact 24) chan data) st
    FetchReads src chan count ctrl o.log → atScale ctrl →
      ReportsCount ch s reading count o.value.2

theorem FetchReads.covered_eq {src : Source} {chan : SensorChannel} {count : AxesRaw}
    {ctrl : Byte} {log : BusLog} (h : FetchReads src chan count ctrl log) (F : FloatUnit) :
    covered F src chan log =
      some (Hal.scaleAxes F count (F.round (src.sensitivity ctrl))) := by
  obtain ⟨hcovers, ⟨raw, hraw, rfl⟩, ⟨control, hcontrol, rfl⟩⟩ := h
  rw [covered, if_pos hcovers, scaleAxes_rawAxes]
  simp only [sample, hraw, hcontrol]

/-- The channels report the cached axes by `convert`, and a fetch caches the sample of `src`. -/
structure AxisChannels.Serves (ch : AxisChannels) (src : Source)
    (convert : Int32 → SensorValue) : Prop where
  x : ∀ data, channelGet ch.x data = .ok [convert (ch.cached data).x]
  y : ∀ data, channelGet ch.y data = .ok [convert (ch.cached data).y]
  z : ∀ data, channelGet ch.z data = .ok [convert (ch.cached data).z]
  xyz : ∀ data, channelGet ch.xyz data = .ok [convert (ch.cached data).x,
    convert (ch.cached data).y, convert (ch.cached data).z]
  fetched : ∀ F chan log data, ch.cached (fetched F chan log data).2 =
    (covered F src chan log).getD (ch.cached data)

theorem accChannels_serves : accChannels.Serves accSource mgToSensorValue :=
  ⟨fun _ => rfl, fun _ => rfl, fun _ => rfl, fun _ => rfl, fun _ _ _ _ => rfl⟩

theorem gyroChannels_serves : gyroChannels.Serves gyroSource mdpsToSensorValue :=
  ⟨fun _ => rfl, fun _ => rfl, fun _ => rfl, fun _ => rfl, fun _ _ _ _ => rfl⟩

theorem AxisChannels.Serves.reports {ch : AxisChannels} {src : Source}
    {convert : Int32 → SensorValue} (h : ch.Serves src convert) {atScale : Byte → Prop} {s : ℚ}
    (h0 : 0 ≤ s) (h1 : s ≤ 70) (hscale : ∀ ctrl, atScale ctrl → src.sensitivity ctrl = s) :
    Reports src ch atScale s
      fun r => (convert (Hal.scaleAxis (FloatArith.exact 24) r s)).micro := by
  intro S peer st chan data count ctrl o hreads hctrl
  have hcached : ch.cached o.value.2 = Hal.scaleAxes (FloatArith.exact 24) count s := by
    have hvalue : o.value = _ := sampleFetch_value (FloatArith.exact 24) chan data peer st
    rw [hvalue, h.fetched, hreads.covered_eq, hscale ctrl hctrl, FloatArith.exact_round]
    rfl
  have hstored : ∀ r : Int16, (Hal.scaleAxis (FloatArith.exact 24) r s).toInt =
      truncate (r.toInt * s) := by
    intro r
    rw [Hal.scaleAxis_toInt _ _ h0 h1, FloatArith.exact_round]
  constructor
  case stored_x | stored_y | stored_z =>
    rw [hcached]
    exact hstored _
  case x =>
    rw [reportedMicro, h.x, hcached]
    rfl
  case y =>
    rw [reportedMicro, h.y, hcached]
    rfl
  case z =>
    rw [reportedMicro, h.z, hcached]
    rfl
  case xyz =>
    rw [reportedMicro, h.xyz, hcached]
    rfl

/-- `ISM330DLC_ACC_SENSITIVITY_FS_*`. -/
def accScales : List (FsXl × ℚ) := [(.fs2g, 0.061), (.fs4g, 0.122), (.fs8g, 0.244), (.fs16g, 0.488)]

/-- `ISM330DLC_GYRO_SENSITIVITY_FS_*`. -/
def gyroScales : List (FsG × ℚ) :=
  [(.fs125dps, 4.375), (.fs250dps, 8.75), (.fs500dps, 17.5), (.fs1000dps, 35), (.fs2000dps, 70)]

theorem accSensitivity_of_mem {fs : FsXl} {s : ℚ} (h : (fs, s) ∈ accScales) :
    Hal.accSensitivity fs = some s := by
  simp only [accScales, List.mem_cons, Prod.mk.injEq, List.not_mem_nil, or_false] at h
  rcases h with ⟨rfl, rfl⟩ | ⟨rfl, rfl⟩ | ⟨rfl, rfl⟩ | ⟨rfl, rfl⟩ <;> norm_num [Hal.accSensitivity]

theorem gyroSensitivity_of_mem {fs : FsG} {s : ℚ} (h : (fs, s) ∈ gyroScales) :
    Hal.gyroSensitivity fs = some s := by
  simp only [gyroScales, List.mem_cons, Prod.mk.injEq, List.not_mem_nil, or_false] at h
  rcases h with ⟨rfl, rfl⟩ | ⟨rfl, rfl⟩ | ⟨rfl, rfl⟩ | ⟨rfl, rfl⟩ | ⟨rfl, rfl⟩ <;>
    norm_num [Hal.gyroSensitivity]

end Driver

theorem accReading_error {s : ℚ} (h0 : 0 ≤ s) (h1 : s ≤ 488 / 1000) (r : Int16) :
    |(accReading s r : ℚ) - 9806.65 * r.toInt * s| < 9806.65 := by
  rcases Hal.raw_bounds r with ⟨hlo, hhi⟩
  have hlo' : (-32768 : ℚ) ≤ r.toInt := by exact_mod_cast hlo
  have hhi' : (r.toInt : ℚ) ≤ 32767 := by exact_mod_cast hhi
  rw [accReading_eq h0 (h1.trans (by norm_num)), mul_assoc]
  apply acc_error
  rw [abs_le]
  constructor <;> nlinarith

theorem gyroReading_error {s : ℚ} (h0 : 0 ≤ s) (h1 : s ≤ 70) (r : Int16) {c : ℚ}
    (hc1 : 17.453292 ≤ c) (hc2 : c ≤ 17.453293) :
    0 ≤ |c * r.toInt * s| - |(gyroReading s r : ℚ)| ∧
      |c * r.toInt * s| - |(gyroReading s r : ℚ)| <
        c + 1 + 0.000293 * |(truncate (r.toInt * s) : ℚ)| := by
  rw [gyroReading_eq h0 h1, mul_assoc]
  exact gyro_error hc1 hc2

/-- Accuracy and order of the measurement path from the raw count on the bus to the value that
`channel_get` reports, at every full scale of both sensors. -/
theorem reading_accuracy :
    (∀ fs s, (fs, s) ∈ Driver.accScales → ∃ reading : Int16 → ℤ,
      Driver.Reports accSource Driver.accChannels
          (fun ctrl => decodeFsXl (Layout.ofByte ctrl : Ctrl1Xl).fsXl = fs) s reading ∧
        (∀ r : Int16, |(reading r : ℚ) - 9806.65 * r.toInt * s| < 9806.65) ∧
        OrderedReading reading) ∧
    (∀ fs s, (fs, s) ∈ Driver.gyroScales → ∃ reading : Int16 → ℤ,
      Driver.Reports gyroSource Driver.gyroChannels
          (fun ctrl => decodeFsG (Layout.ofByte ctrl : Ctrl2G).fsG = fs) s reading ∧
        (∀ (r : Int16) (c : ℚ), 17.453292 ≤ c → c ≤ 17.453293 →
          0 ≤ |c * r.toInt * s| - |(reading r : ℚ)| ∧
            |c * r.toInt * s| - |(reading r : ℚ)| <
              c + 1 + 0.000293 * |(truncate (r.toInt * s) : ℚ)|) ∧
        OrderedReading reading) := by
  constructor
  · intro fs s hmem
    have hs := Driver.accSensitivity_of_mem hmem
    rcases Hal.accSensitivity_bounds hs with ⟨h0, h1⟩
    have h70 : s ≤ 70 := h1.trans (by norm_num)
    refine ⟨accReading s, Driver.accChannels_serves.reports h0 h70 ?_, accReading_error h0 h1,
      accReading_ordered h0 h70⟩
    intro ctrl hctrl
    simp only [accSource, hctrl, hs, Option.getD_some]
  · intro fs s hmem
    have hs := Driver.gyroSensitivity_of_mem hmem
    rcases Hal.gyroSensitivity_bounds hs with ⟨h0, h1⟩
    refine ⟨gyroReading s, Driver.gyroChannels_serves.reports h0 h1 ?_,
      fun r c hc1 hc2 => gyroReading_error h0 h1 r hc1 hc2, gyroReading_ordered h0 h1⟩
    intro ctrl hctrl
    simp only [gyroSource, hctrl, hs, Option.getD_some]

/-- Counts of 16448, at 2 g and at 250 dps. -/
theorem reading_accuracy_2g_250dps :
    let data := (run (constantPeer 0x40) (Driver.sampleFetch (FloatArith.exact 24) .all
      Data.zeroed) ()).value.2
    Driver.channelGet .accelX data = .ok [⟨9, 836421⟩] ∧
      |((9836421 : ℤ) : ℚ) - 9806.65 * (16448 : Int16).toInt * 0.061| < 9806.65 ∧
      Driver.channelGet .gyroZ data = .ok [⟨2, 511835⟩] ∧
      0 ≤ |17.4532925 * ((16448 : Int16).toInt : ℚ) * 8.75| - |((2511835 : ℤ) : ℚ)| := by
  intro data
  obtain ⟨accel, haccReports, haccError, -⟩ := reading_accuracy.1 .fs2g 0.061
    (by simp [Driver.accScales])
  obtain ⟨rate, hgyroReports, hgyroError, -⟩ := reading_accuracy.2 .fs250dps 8.75
    (by simp [Driver.gyroScales])
  have hacc := haccReports Unit (constantPeer 0x40) () .all Data.zeroed
    ⟨16448, 16448, 16448⟩ 0x40 ⟨by decide, ⟨_, rfl, by decide⟩, ⟨_, rfl, by decide⟩⟩ (by decide)
  have hgyro := hgyroReports Unit (constantPeer 0x40) () .all Data.zeroed
    ⟨16448, 16448, 16448⟩ 0x40 ⟨by decide, ⟨_, rfl, by decide⟩, ⟨_, rfl, by decide⟩⟩ (by decide)
  have hx : Driver.channelGet .accelX data = .ok [⟨9, 836421⟩] := by decide +kernel
  have hz : Driver.channelGet .gyroZ data = .ok [⟨2, 511835⟩] := by decide +kernel
  have haccel : [9836421] = [accel 16448] :=
    Except.ok.inj ((congrArg (Except.map (List.map SensorValue.micro)) hx).symm.trans hacc.x)
  have hrate : [2511835] = [rate 16448] :=
    Except.ok.inj ((congrArg (Except.map (List.map SensorValue.micro)) hz).symm.trans hgyro.z)
  refine ⟨hx, ?_, hz, ?_⟩
  · rw [List.singleton_inj.mp haccel]
    exact haccError 16448
  · rw [List.singleton_inj.mp hrate]
    exact (hgyroError 16448 17.4532925 (by norm_num) (by norm_num)).1

end N6Samples.Ism330dlc
