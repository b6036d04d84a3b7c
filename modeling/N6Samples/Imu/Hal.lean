import N6Samples.Imu.RegisterAccess
import N6Samples.Lib.FirstFit
import N6Samples.Lib.Rounding

/-! # The ST driver object (`ism330dlc.c`)

Functions that take `pObj` return the object they leave behind next to their
status. Floating-point arithmetic is a parameter: the driver computes in
`float`, so its results are exact rationals rounded by a unit with a 24-bit
significand.
-/

namespace N6Samples.Ism330dlc

open Transaction Rounding FirstFit

/-- The `float` arithmetic of the target. -/
abbrev FloatUnit := FloatArith 24

/-- The fields of `ISM330DLC_Object_t` the driver reads or writes; the bus
context is the peer of the program. -/
structure Object where
  isInitialized : Byte
  accIsEnabled : Byte
  gyroIsEnabled : Byte
  accOdr : OdrXl
  gyroOdr : OdrG
deriving DecidableEq

structure Axes where
  x : Int32
  y : Int32
  z : Int32
deriving DecidableEq

/-- `if (f(pObj, ...) != ISM330DLC_OK) return onError;` followed by `rest`. -/
def checkObj {σ α : Type} (p : BusProg (Status × σ)) (onError : σ → α) (rest : σ → BusProg α) :
    BusProg α :=
  p >>= fun r => if r.1 = .ok then rest r.2 else .ret (onError r.2)

namespace Hal

/-! ## Initialization and identity -/

def init (obj : Object) : BusProg (Status × Object) :=
  check (resetSet propertyEnable) (.error, obj) <|
  check (autoIncrementSet propertyEnable) (.error, obj) <|
  check (blockDataUpdateSet propertyEnable) (.error, obj) <|
  check (fifoModeSet .bypass) (.error, obj) <|
  let obj := { obj with accOdr := .odr104Hz }
  check (xlDataRateSet .off) (.error, obj) <|
  check (xlFullScaleSet .fs2g) (.error, obj) <|
  let obj := { obj with gyroOdr := .odr104Hz }
  check (gyDataRateSet .off) (.error, obj) <|
  check (gyFullScaleSet .fs2000dps) (.error, obj) <|
  .ret (.ok, { obj with isInitialized := 1 })

def readId : BusProg (ReadResult 1) := deviceIdGet

/-! ## Output data rate and full scale -/

/-- What `ISM330DLC_ACC_*` and `ISM330DLC_GYRO_*` differ in: their two fields of the
object, the codes they choose and the registers they set. -/
structure Sensor (O FS : Type) where
  isEnabled : Object → Byte
  markEnabled : Object → Object
  odr : Object → O
  keepOdr : Object → O → Object
  odrOf : ℚ → O
  fsOf : ℤ → FS
  dataRateSet : O → BusProg Status
  fullScaleSet : FS → BusProg Status
  odr_keepOdr : ∀ obj value, odr (keepOdr obj value) = value
  isEnabled_keepOdr : ∀ obj value, isEnabled (keepOdr obj value) = isEnabled obj

namespace Sensor

variable {O FS : Type} (s : Sensor O FS)

def enable (obj : Object) : BusProg (Status × Object) :=
  if s.isEnabled obj = 1 then .ret (.ok, obj)
  else
    check (s.dataRateSet (s.odr obj)) (.error, obj) <|
    .ret (.ok, s.markEnabled obj)

def setOutputDataRateWhenEnabled (obj : Object) (odr : ℚ) : BusProg (Status × Object) :=
  check (s.dataRateSet (s.odrOf odr)) (.error, obj) <|
  .ret (.ok, obj)

def setOutputDataRateWhenDisabled (obj : Object) (odr : ℚ) : BusProg (Status × Object) :=
  .ret (.ok, s.keepOdr obj (s.odrOf odr))

def setOutputDataRate (obj : Object) (odr : ℚ) : BusProg (Status × Object) :=
  if s.isEnabled obj = 1 then s.setOutputDataRateWhenEnabled obj odr
  else s.setOutputDataRateWhenDisabled obj odr

def setFullScale (fullScale : ℤ) : BusProg Status :=
  check (s.fullScaleSet (s.fsOf fullScale)) .error <|
  .ret .ok

end Sensor

/-- The thresholds of `ISM330DLC_ACC_SetOutputDataRate_When_*`, in Hz. -/
def accOdrRungs : List (ℚ × OdrXl) :=
  [(25 / 2, .odr12Hz5), (26, .odr26Hz), (52, .odr52Hz), (104, .odr104Hz), (208, .odr208Hz),
    (416, .odr416Hz), (833, .odr833Hz), (1660, .odr1k66Hz), (3330, .odr3k33Hz)]

def accOdrOf (odr : ℚ) : OdrXl := firstFit odr accOdrRungs .odr6k66Hz

def accFsRungs : List (ℤ × FsXl) := [(2, .fs2g), (4, .fs4g), (8, .fs8g)]

/-- `ISM330DLC_ACC_SetFullScale`'s choice. -/
def accFsOf (fullScale : ℤ) : FsXl := firstFit fullScale accFsRungs .fs16g

def acc : Sensor OdrXl FsXl where
  isEnabled obj := obj.accIsEnabled
  markEnabled obj := { obj with accIsEnabled := 1 }
  odr obj := obj.accOdr
  keepOdr obj value := { obj with accOdr := value }
  odrOf := accOdrOf
  fsOf := accFsOf
  dataRateSet := xlDataRateSet
  fullScaleSet := xlFullScaleSet
  odr_keepOdr _ _ := rfl
  isEnabled_keepOdr _ _ := rfl

def accEnable : Object → BusProg (Status × Object) := acc.enable

def accSetOutputDataRate : Object → ℚ → BusProg (Status × Object) := acc.setOutputDataRate

def accSetFullScale : ℤ → BusProg Status := acc.setFullScale

/-- The thresholds of `ISM330DLC_GYRO_SetOutputDataRate_When_*`, in Hz. -/
def gyroOdrRungs : List (ℚ × OdrG) :=
  [(25 / 2, .odr12Hz5), (26, .odr26Hz), (52, .odr52Hz), (104, .odr104Hz), (208, .odr208Hz),
    (416, .odr416Hz), (833, .odr833Hz), (1660, .odr1k66Hz), (3330, .odr3k33Hz)]

def gyroOdrOf (odr : ℚ) : OdrG := firstFit odr gyroOdrRungs .odr6k66Hz

def gyroFsRungs : List (ℤ × FsG) :=
  [(125, .fs125dps), (250, .fs250dps), (500, .fs500dps), (1000, .fs1000dps)]

/-- `ISM330DLC_GYRO_SetFullScale`'s choice. -/
def gyroFsOf (fullScale : ℤ) : FsG := firstFit fullScale gyroFsRungs .fs2000dps

def gyro : Sensor OdrG FsG where
  isEnabled obj := obj.gyroIsEnabled
  markEnabled obj := { obj with gyroIsEnabled := 1 }
  odr obj := obj.gyroOdr
  keepOdr obj value := { obj with gyroOdr := value }
  odrOf := gyroOdrOf
  fsOf := gyroFsOf
  dataRateSet := gyDataRateSet
  fullScaleSet := gyFullScaleSet
  odr_keepOdr _ _ := rfl
  isEnabled_keepOdr _ _ := rfl

def gyroEnable : Object → BusProg (Status × Object) := gyro.enable

def gyroSetOutputDataRate : Object → ℚ → BusProg (Status × Object) := gyro.setOutputDataRate

def gyroSetFullScale : ℤ → BusProg Status := gyro.setFullScale

/-! ## Sensitivity and axes -/

/-- `ISM330DLC_ACC_SENSITIVITY_FS_*`, in mg/LSB. -/
def accSensitivity : FsXl → Option ℚ
  | .fs2g => some (61 / 1000)
  | .fs4g => some (122 / 1000)
  | .fs8g => some (244 / 1000)
  | .fs16g => some (488 / 1000)
  | .xlFsNd => none

/-- `ISM330DLC_GYRO_SENSITIVITY_FS_*`, in mdps/LSB. -/
def gyroSensitivity : FsG → Option ℚ
  | .fs125dps => some (4375 / 1000)
  | .fs250dps => some (8750 / 1000)
  | .fs500dps => some (17500 / 1000)
  | .fs1000dps => some 35
  | .fs2000dps => some 70

/-- The common body of `ISM330DLC_ACC_GetSensitivity` and `ISM330DLC_GYRO_GetSensitivity`;
`none` is the error return, which leaves the out parameter unwritten. -/
def getSensitivity {FS : Type} (F : FloatUnit) (fullScaleGet : BusProg (Status × FS))
    (sensitivity : FS → Option ℚ) : BusProg (Option ℚ) :=
  fullScaleGet >>= fun r =>
    if r.1 = .ok then .ret ((sensitivity r.2).map F.round) else .ret none

def accGetSensitivity (F : FloatUnit) : BusProg (Option ℚ) :=
  getSensitivity F xlFullScaleGet accSensitivity

def gyroGetSensitivity (F : FloatUnit) : BusProg (Option ℚ) :=
  getSensitivity F gyFullScaleGet gyroSensitivity

/-- `(int32_t)((float)((float)raw * sensitivity))`. -/
def scaleAxis (F : FloatUnit) (raw : Int16) (sensitivity : ℚ) : Int32 :=
  Int32.ofInt (truncate (F.round (F.round raw.toInt * sensitivity)))

def scaleAxes (F : FloatUnit) (raw : AxesRaw) (sensitivity : ℚ) : Axes :=
  ⟨scaleAxis F raw.x sensitivity, scaleAxis F raw.y sensitivity, scaleAxis F raw.z sensitivity⟩

/-- The common body of `ISM330DLC_ACC_GetAxes` and `ISM330DLC_GYRO_GetAxes`:
`out` is the caller's structure, written only after both reads succeeded. -/
def getAxes (F : FloatUnit) (rawGet : BusProg (Status × AxesRaw))
    (getSensitivity : BusProg (Option ℚ)) (out : Axes) : BusProg (Status × Axes) :=
  rawGet >>= fun raw =>
    if raw.1 = .ok then
      getSensitivity >>= fun sensitivity =>
        match sensitivity with
        | some sensitivity => .ret (.ok, scaleAxes F raw.2 sensitivity)
        | none => .ret (.error, out)
    else .ret (.error, out)

def accGetAxes (F : FloatUnit) (acceleration : Axes) : BusProg (Status × Axes) :=
  getAxes F accelerationRawGet (accGetSensitivity F) acceleration

def gyroGetAxes (F : FloatUnit) (angularRate : Axes) : BusProg (Status × Axes) :=
  getAxes F angularRateRawGet (gyroGetSensitivity F) angularRate

end Hal

end N6Samples.Ism330dlc
