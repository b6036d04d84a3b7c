import N6Samples.Imu.Hal

/-! # The rest of the sensor control (`ism330dlc.c`)

Switching a sensor off, reading back its rate and full scale, and the deinitialization; with
them the calls that configure the sensors.
-/

namespace N6Samples.Ism330dlc

open Transaction

/-! ## Data rates -/

/-- The `switch` of `ism330dlc_xl_data_rate_get`; unused codes read as power-down. -/
def decodeOdrXl (odrXl : BitVec 4) : OdrXl :=
  match odrXl.toNat with
  | 0 => .off
  | 1 => .odr12Hz5
  | 2 => .odr26Hz
  | 3 => .odr52Hz
  | 4 => .odr104Hz
  | 5 => .odr208Hz
  | 6 => .odr416Hz
  | 7 => .odr833Hz
  | 8 => .odr1k66Hz
  | 9 => .odr3k33Hz
  | 10 => .odr6k66Hz
  | 11 => .odr1Hz6
  | _ => .off

/-- The `switch` of `ism330dlc_gy_data_rate_get`. -/
def decodeOdrG (odrG : BitVec 4) : OdrG :=
  match odrG.toNat with
  | 0 => .off
  | 1 => .odr12Hz5
  | 2 => .odr26Hz
  | 3 => .odr52Hz
  | 4 => .odr104Hz
  | 5 => .odr208Hz
  | 6 => .odr416Hz
  | 7 => .odr833Hz
  | 8 => .odr1k66Hz
  | 9 => .odr3k33Hz
  | 10 => .odr6k66Hz
  | _ => .off

def xlDataRateGet : BusProg (Status × OdrXl) :=
  readReg ctrl1XlReg 1 >>= fun r =>
    .ret (r.status, decodeOdrXl (Layout.ofByte (byteAt r.buf 0) : Ctrl1Xl).odrXl)

def gyDataRateGet : BusProg (Status × OdrG) :=
  readReg ctrl2GReg 1 >>= fun r =>
    .ret (r.status, decodeOdrG (Layout.ofByte (byteAt r.buf 0) : Ctrl2G).odrG)

theorem decodeOdrXl_code (odr : OdrXl) : decodeOdrXl (BitVec.ofNat 4 odr.code) = odr := by
  cases odr <;> rfl

theorem decodeOdrG_code (odr : OdrG) : decodeOdrG (BitVec.ofNat 4 odr.code) = odr := by
  cases odr <;> rfl

/-- The error code of the header has no field value of its own. -/
theorem decodeFsXl_code {fs : FsXl} (h : fs ≠ .xlFsNd) :
    decodeFsXl (BitVec.ofNat 2 fs.code) = fs := by
  cases fs with
  | xlFsNd => exact absurd rfl h
  | _ => rfl

theorem decodeFsG_code (fs : FsG) : decodeFsG (BitVec.ofNat 3 fs.code) = fs := by
  cases fs <;> rfl

namespace Hal

/-! ## Switching off and reading back -/

/-- What the other functions of `ISM330DLC_ACC_*` and `ISM330DLC_GYRO_*` differ in; `none` is
the error of a `switch` without a case. -/
structure Switch (O FS : Type) extends Sensor O FS where
  markDisabled : Object → Object
  off : O
  dataRateGet : BusProg (Status × O)
  fullScaleGet : BusProg (Status × FS)
  rate : O → Option ℚ
  range : FS → Option ℤ
  sensitivity : FS → Option ℚ

namespace Switch

variable {O FS : Type} (s : Switch O FS)

/-- The rate is kept in the object whatever the status of its read is. -/
def disable (obj : Object) : BusProg (Status × Object) :=
  if s.isEnabled obj = 0 then .ret (.ok, obj)
  else
    s.dataRateGet >>= fun r =>
      if r.1 = .ok then
        check (s.dataRateSet s.off) (.error, s.keepOdr obj r.2) <|
        .ret (.ok, s.markDisabled (s.keepOdr obj r.2))
      else .ret (.error, s.keepOdr obj r.2)

def getOutputDataRate (F : FloatUnit) : BusProg (Option ℚ) := getSensitivity F s.dataRateGet s.rate

def getFullScale : BusProg (Option ℤ) :=
  s.fullScaleGet >>= fun r => if r.1 = .ok then .ret (s.range r.2) else .ret none

end Switch

/-- The `switch` of `ISM330DLC_ACC_GetOutputDataRate`, in Hz. -/
def accRate : OdrXl → Option ℚ
  | .off => some 0
  | .odr1Hz6 => some (16 / 10)
  | .odr12Hz5 => some (125 / 10)
  | .odr26Hz => some 26
  | .odr52Hz => some 52
  | .odr104Hz => some 104
  | .odr208Hz => some 208
  | .odr416Hz => some 416
  | .odr833Hz => some 833
  | .odr1k66Hz => some 1660
  | .odr3k33Hz => some 3330
  | .odr6k66Hz => some 6660

/-- The `switch` of `ISM330DLC_ACC_GetFullScale`, in g. -/
def accRange : FsXl → Option ℤ
  | .fs2g => some 2
  | .fs4g => some 4
  | .fs8g => some 8
  | .fs16g => some 16
  | .xlFsNd => none

/-- The `switch` of `ISM330DLC_GYRO_GetOutputDataRate`, in Hz. -/
def gyroRate : OdrG → Option ℚ
  | .off => some 0
  | .odr12Hz5 => some (125 / 10)
  | .odr26Hz => some 26
  | .odr52Hz => some 52
  | .odr104Hz => some 104
  | .odr208Hz => some 208
  | .odr416Hz => some 416
  | .odr833Hz => some 833
  | .odr1k66Hz => some 1660
  | .odr3k33Hz => some 3330
  | .odr6k66Hz => some 6660

/-- The `switch` of `ISM330DLC_GYRO_GetFullScale`, in dps. -/
def gyroRange : FsG → Option ℤ
  | .fs125dps => some 125
  | .fs250dps => some 250
  | .fs500dps => some 500
  | .fs1000dps => some 1000
  | .fs2000dps => some 2000

def accSwitch : Switch OdrXl FsXl where
  toSensor := acc
  markDisabled obj := { obj with accIsEnabled := 0 }
  off := .off
  dataRateGet := xlDataRateGet
  fullScaleGet := xlFullScaleGet
  rate := accRate
  range := accRange
  sensitivity := accSensitivity

def gyroSwitch : Switch OdrG FsG where
  toSensor := gyro
  markDisabled obj := { obj with gyroIsEnabled := 0 }
  off := .off
  dataRateGet := gyDataRateGet
  fullScaleGet := gyFullScaleGet
  rate := gyroRate
  range := gyroRange
  sensitivity := gyroSensitivity

def accDisable : Object → BusProg (Status × Object) := accSwitch.disable

def accGetOutputDataRate : FloatUnit → BusProg (Option ℚ) := accSwitch.getOutputDataRate

def accGetFullScale : BusProg (Option ℤ) := accSwitch.getFullScale

def gyroDisable : Object → BusProg (Status × Object) := gyroSwitch.disable

def gyroGetOutputDataRate : FloatUnit → BusProg (Option ℚ) := gyroSwitch.getOutputDataRate

def gyroGetFullScale : BusProg (Option ℤ) := gyroSwitch.getFullScale

def deInit (obj : Object) : BusProg (Status × Object) :=
  checkObj (accDisable obj) (fun obj => (.error, obj)) fun obj =>
  checkObj (gyroDisable obj) (fun obj => (.error, obj)) fun obj =>
  .ret (.ok, { obj with accOdr := .off, gyroOdr := .off, isInitialized := 0 })

/-! ## The calls -/

/-- The calls for one sensor. -/
inductive SensorCall where
  | enable
  | disable
  | setOutputDataRate (odr : ℚ)
  | setFullScale (fullScale : ℤ)
  | getOutputDataRate
  | getFullScale
  | getSensitivity

inductive Call where
  | acc (c : SensorCall)
  | gyro (c : SensorCall)
  | deInit

/-- What a call returns; the value is what its out parameter is set to. -/
inductive Reply where
  | ok
  | error
  | value (v : ℚ)
deriving DecidableEq

def Reply.ofStatus : Status → Reply
  | .ok => .ok
  | .error => .error

def Reply.ofValue : Option ℚ → Reply
  | some v => .value v
  | none => .error

def Switch.call {O FS : Type} (s : Switch O FS) (F : FloatUnit) (c : SensorCall) (obj : Object) :
    BusProg (Reply × Object) :=
  match c with
  | .enable => s.enable obj >>= fun r => .ret (.ofStatus r.1, r.2)
  | .disable => s.disable obj >>= fun r => .ret (.ofStatus r.1, r.2)
  | .setOutputDataRate odr =>
      s.setOutputDataRate obj odr >>= fun r => .ret (.ofStatus r.1, r.2)
  | .setFullScale fullScale => s.setFullScale fullScale >>= fun r => .ret (.ofStatus r, obj)
  | .getOutputDataRate => s.getOutputDataRate F >>= fun r => .ret (.ofValue r, obj)
  | .getFullScale => s.getFullScale >>= fun r => .ret (.ofValue (r.map Int.cast), obj)
  | .getSensitivity =>
      getSensitivity F s.fullScaleGet s.sensitivity >>= fun r => .ret (.ofValue r, obj)

def call (F : FloatUnit) (c : Call) (obj : Object) : BusProg (Reply × Object) :=
  match c with
  | .acc c => accSwitch.call F c obj
  | .gyro c => gyroSwitch.call F c obj
  | .deInit => deInit obj >>= fun r => .ret (.ofStatus r.1, r.2)

end Hal

end N6Samples.Ism330dlc
