import N6Samples.Imu.Hal

/-! # The Zephyr sensor driver (`ism330dlc_i2c.c`) -/

namespace N6Samples.Ism330dlc

open Transaction Rounding

/-- The error codes the driver returns, negated in C. -/
inductive Errno where
  | enodev | eio | enotsup
deriving DecidableEq

/-- `enum sensor_channel`; the driver serves none of the channels under `other`. -/
inductive SensorChannel where
  | all
  | accelX | accelY | accelZ | accelXyz
  | gyroX | gyroY | gyroZ | gyroXyz
  | other (id : Nat)
deriving DecidableEq

structure SensorValue where
  val1 : Int32
  val2 : Int32
deriving DecidableEq

/-- `struct ism330dlc_data` without the bus pointer. -/
structure Data where
  obj : Object
  acc : Axes
  gyro : Axes
deriving DecidableEq

/-- The statically allocated instance data before the first call. -/
def Data.zeroed : Data :=
  ⟨⟨0, 0, 0, .off, .off⟩, ⟨0, 0, 0⟩, ⟨0, 0, 0⟩⟩

/-- `struct ism330dlc_config`: rates in Hz, ranges in g and dps. -/
structure Config where
  accelOdr : ℤ
  accelRange : ℤ
  gyroOdr : ℤ
  gyroRange : ℤ
deriving DecidableEq

namespace Driver

/-! ## Sample fetch -/

def fetchAcc (chan : SensorChannel) : Bool :=
  chan = .all || chan = .accelXyz || chan = .accelX || chan = .accelY || chan = .accelZ

def fetchGyro (chan : SensorChannel) : Bool :=
  chan = .all || chan = .gyroXyz || chan = .gyroX || chan = .gyroY || chan = .gyroZ

/-- `ISM330DLC_ACC_GetAxes(&data->obj, &data->acc)`. -/
def readAcc (F : FloatUnit) (data : Data) : BusProg (Status × Data) :=
  Hal.accGetAxes F data.acc >>= fun r => .ret (r.1, { data with acc := r.2 })

/-- `ISM330DLC_GYRO_GetAxes(&data->obj, &data->gyro)`. -/
def readGyro (F : FloatUnit) (data : Data) : BusProg (Status × Data) :=
  Hal.gyroGetAxes F data.gyro >>= fun r => .ret (r.1, { data with gyro := r.2 })

def sampleFetch (F : FloatUnit) (chan : SensorChannel) (data : Data) :
    BusProg (Except Errno Unit × Data) :=
  if !fetchAcc chan && !fetchGyro chan then .ret (.error .enotsup, data)
  else
    checkObj (if fetchAcc chan then readAcc F data else .ret (.ok, data))
      (fun data => (.error .eio, data)) fun data =>
    checkObj (if fetchGyro chan then readGyro F data else .ret (.ok, data))
      (fun data => (.error .eio, data)) fun data =>
    .ret (.ok (), data)

/-! ## Unit conversion -/

/-- The split both conversions end with. -/
def microToSensorValue (micro : Int64) : SensorValue :=
  ⟨(micro / 1000000).toInt32, (micro % 1000000).toInt32⟩

def mgMicro (mg : Int32) : Int64 := mg.toInt64 * 9807

def mgToSensorValue (mg : Int32) : SensorValue := microToSensorValue (mgMicro mg)

def mdpsMicro (mdps : Int32) : Int64 := mdps.toInt64 * 17453 / 1000

def mdpsToSensorValue (mdps : Int32) : SensorValue := microToSensorValue (mdpsMicro mdps)

/-! ## Channel get -/

/-- The values written to the caller's array, in order. -/
def channelGet (chan : SensorChannel) (data : Data) : Except Errno (List SensorValue) :=
  match chan with
  | .accelX => .ok [mgToSensorValue data.acc.x]
  | .accelY => .ok [mgToSensorValue data.acc.y]
  | .accelZ => .ok [mgToSensorValue data.acc.z]
  | .accelXyz =>
      .ok [mgToSensorValue data.acc.x, mgToSensorValue data.acc.y, mgToSensorValue data.acc.z]
  | .gyroX => .ok [mdpsToSensorValue data.gyro.x]
  | .gyroY => .ok [mdpsToSensorValue data.gyro.y]
  | .gyroZ => .ok [mdpsToSensorValue data.gyro.z]
  | .gyroXyz =>
      .ok [mdpsToSensorValue data.gyro.x, mdpsToSensorValue data.gyro.y,
        mdpsToSensorValue data.gyro.z]
  | _ => .error .enotsup

/-! ## Driver init -/

/-- The accelerometer block of `ism330dlc_init`. -/
def configureAcc (F : FloatUnit) (cfg : Config) (obj : Object) : BusProg (Status × Object) :=
  checkObj (Hal.accSetOutputDataRate obj (F.round cfg.accelOdr)) (fun obj => (.error, obj))
    fun obj =>
  check (Hal.accSetFullScale cfg.accelRange) (.error, obj) <|
  Hal.accEnable obj

/-- The gyroscope block of `ism330dlc_init`. -/
def configureGyro (F : FloatUnit) (cfg : Config) (obj : Object) : BusProg (Status × Object) :=
  checkObj (Hal.gyroSetOutputDataRate obj (F.round cfg.gyroOdr)) (fun obj => (.error, obj))
    fun obj =>
  check (Hal.gyroSetFullScale cfg.gyroRange) (.error, obj) <|
  Hal.gyroEnable obj

/-- What follows the identity check. -/
def setup (F : FloatUnit) (cfg : Config) (data : Data) : BusProg (Except Errno Unit × Data) :=
  let fail := fun obj => (.error .eio, { data with obj := obj })
  checkObj (Hal.init data.obj) fail fun obj =>
  checkObj (configureAcc F cfg obj) fail fun obj =>
  checkObj (configureGyro F cfg obj) fail fun obj =>
  .ret (.ok (), { data with obj := obj })

/-- `ism330dlc_init`; `busReady` is the answer of `device_is_ready`. -/
def init (F : FloatUnit) (cfg : Config) (busReady : Bool) (data : Data) :
    BusProg (Except Errno Unit × Data) :=
  if busReady then
    let data := { data with obj := { data.obj with isInitialized := 0 } }
    Hal.readId >>= fun id =>
      if id.status = .ok ∧ byteAt id.buf 0 = ism330dlcId then setup F cfg data
      else .ret (.error .enodev, data)
  else .ret (.error .enodev, data)

end Driver

end N6Samples.Ism330dlc
