import N6Samples.Imu.Driver
import N6Samples.Lib.Session

/-! # Sample fetches and the sample cache

A sample is defined on the transactions of one fetch: the first good burst of six
data bytes and the first good read of the control register. The fetch functions
commit exactly those samples, whatever the bus does.
-/

namespace N6Samples.Ism330dlc

open Transaction Rounding

/-! ## Samples in a log -/

/-- The buffer of the event, if it is a successful read of `len` bytes at `reg`. -/
def goodRead (reg : Byte) (len : Nat) : BusEvent → Option (Vector Byte len)
  | ⟨.read r l, resp⟩ =>
      if h : r = reg ∧ l = len then
        if resp.status = .ok then some (resp.buf.cast h.2) else none
      else none
  | ⟨.write _ _, _⟩ => none

def burst (reg : Byte) (len : Nat) (log : BusLog) : Option (Vector Byte len) :=
  log.findSome? (goodRead reg len)

/-- Where a sensor's samples come from, and the channels that cover it. -/
structure Source where
  dataReg : Byte
  ctrlReg : Byte
  sensitivity : Byte → ℚ
  channels : List SensorChannel

/-- In mg per LSB, for the full scale in `CTRL1_XL`. -/
def accSource : Source where
  dataReg := outxLXlReg
  ctrlReg := ctrl1XlReg
  sensitivity ctrl := (Hal.accSensitivity (decodeFsXl (Layout.ofByte ctrl : Ctrl1Xl).fsXl)).getD 0
  channels := [.all, .accelXyz, .accelX, .accelY, .accelZ]

/-- In mdps per LSB, for the full scale in `CTRL2_G`. -/
def gyroSource : Source where
  dataReg := outxLGReg
  ctrlReg := ctrl2GReg
  sensitivity ctrl := (Hal.gyroSensitivity (decodeFsG (Layout.ofByte ctrl : Ctrl2G).fsG)).getD 0
  channels := [.all, .gyroXyz, .gyroX, .gyroY, .gyroZ]

/-- A little-endian two's-complement word, scaled in `float` and truncated. -/
def decodeAxis (F : FloatUnit) (lo hi : Byte) (sensitivity : ℚ) : Int32 :=
  Int32.ofInt (truncate (F.round ((hi ++ lo).toInt * F.round sensitivity)))

def decodeAxes (F : FloatUnit) (burst : Vector Byte 6) (sensitivity : ℚ) : Axes :=
  ⟨decodeAxis F (byteAt burst 0) (byteAt burst 1) sensitivity,
    decodeAxis F (byteAt burst 2) (byteAt burst 3) sensitivity,
    decodeAxis F (byteAt burst 4) (byteAt burst 5) sensitivity⟩

@[simp] theorem decodeAxis_zero (F : FloatUnit) (sensitivity : ℚ) :
    decodeAxis F 0#8 0#8 sensitivity = 0 := by
  have hround : F.round 0 = 0 := by exact_mod_cast F.round_int (n := 0) (by norm_num)
  have hword : ((0#8 ++ 0#8 : BitVec 16).toInt : ℚ) = 0 := by exact_mod_cast (by decide)
  rw [decodeAxis, hword, zero_mul, hround]
  decide

/-- The sample of one fetch: both factors come from the same log. -/
def sample (F : FloatUnit) (src : Source) (log : BusLog) : Option Axes :=
  match burst src.dataReg 6 log, burst src.ctrlReg 1 log with
  | some raw, some ctrl => some (decodeAxes F raw (src.sensitivity (byteAt ctrl 0)))
  | _, _ => none

/-- A bus on which no read fails. -/
def Answers {S : Type} (peer : BusPeer S) : Prop :=
  ∀ s reg len, (peer s (.read reg len)).1.status = .ok

/-- A bus that answers every read with the same byte. -/
def constantPeer (b : Byte) : BusPeer Unit := fun _ cmd =>
  match cmd with
  | .read _ _ => (⟨.ok, Vector.replicate _ b⟩, ())
  | .write _ _ => (.ok, ())

/-! ## One sensor -/

/-- The getter never decodes the error code, so a sensitivity is always known. -/
theorem accSensitivity_decode (fsXl : BitVec 2) :
    Hal.accSensitivity (decodeFsXl fsXl) =
      some ((Hal.accSensitivity (decodeFsXl fsXl)).getD 0) := by
  cases h : decodeFsXl fsXl with
  | xlFsNd => exact absurd h (decodeFsXl_ne fsXl)
  | _ => rfl

theorem gyroSensitivity_some (fs : FsG) :
    Hal.gyroSensitivity fs = some ((Hal.gyroSensitivity fs).getD 0) := by
  cases fs <;> rfl

theorem scaleAxes_rawAxes (F : FloatUnit) (buf : Vector Byte 6) (sensitivity : ℚ) :
    Hal.scaleAxes F (rawAxes buf) (F.round sensitivity) = decodeAxes F buf sensitivity := by
  have hword : ∀ lo hi : Byte, F.round ((rawWord lo hi).toInt : ℚ) = (hi ++ lo).toInt := by
    intro lo hi
    have hlo := (hi ++ lo).le_toInt
    have hhi := (hi ++ lo).toInt_lt
    rw [rawWord_toInt]
    exact F.round_int (abs_lt.mpr ⟨by omega, by omega⟩)
  simp only [Hal.scaleAxes, Hal.scaleAxis, rawAxes, hword, decodeAxes, decodeAxis]

/-- The two reads of one sensor, in the order the driver issues them. -/
structure Reads (src : Source) (F : FloatUnit) (rawGet : BusProg (Status × AxesRaw))
    (getSensitivity : BusProg (Option ℚ)) : Prop where
  raw : rawGet = readReg src.dataReg 6 >>= fun r => .ret (r.status, rawAxes r.buf)
  sensitivity : getSensitivity = readReg src.ctrlReg 1 >>= fun r =>
    .ret (if r.status = .ok then some (F.round (src.sensitivity (byteAt r.buf 0))) else none)

theorem getSensitivity_eq {FS : Type} (F : FloatUnit) (ctrlReg : Byte) (decode : Byte → FS)
    {table : FS → Option ℚ} {sensitivity : Byte → ℚ}
    (h : ∀ ctrl, table (decode ctrl) = some (sensitivity ctrl)) :
    Hal.getSensitivity F
        (readReg ctrlReg 1 >>= fun r => .ret (r.status, decode (byteAt r.buf 0))) table =
      readReg ctrlReg 1 >>= fun r =>
        .ret (if r.status = .ok then some (F.round (sensitivity (byteAt r.buf 0))) else none) := by
  rw [Hal.getSensitivity, Prog.bind_assoc]
  congr 1
  funext r
  rw [Prog.ret_bind, h]
  cases r.status <;> rfl

theorem acc_reads (F : FloatUnit) :
    Reads accSource F accelerationRawGet (Hal.accGetSensitivity F) where
  raw := rfl
  sensitivity := getSensitivity_eq F ctrl1XlReg
    (fun ctrl => decodeFsXl (Layout.ofByte ctrl : Ctrl1Xl).fsXl) fun _ => accSensitivity_decode _

theorem gyro_reads (F : FloatUnit) :
    Reads gyroSource F angularRateRawGet (Hal.gyroGetSensitivity F) where
  raw := rfl
  sensitivity := getSensitivity_eq F ctrl2GReg
    (fun ctrl => decodeFsG (Layout.ofByte ctrl : Ctrl2G).fsG) fun _ => gyroSensitivity_some _

/-- Whatever the bus answers, `out` is overwritten exactly by the sample of the log,
and it keeps its value when the log holds none. -/
theorem getAxes_value {src : Source} {F : FloatUnit} {rawGet : BusProg (Status × AxesRaw)}
    {getSensitivity : BusProg (Option ℚ)} (h : Reads src F rawGet getSensitivity)
    (hne : src.dataReg ≠ src.ctrlReg) (out : Axes) {S : Type} (peer : BusPeer S) (s : S) :
    (run peer (Hal.getAxes F rawGet getSensitivity out) s).value =
      match sample F src (run peer (Hal.getAxes F rawGet getSensitivity out) s).log with
      | some axes => (.ok, axes)
      | none => (.error, out) := by
  rw [Hal.getAxes, h.raw, h.sensitivity]
  simp only [readReg, Prog.request_bind, Prog.call_bind, Prog.ret_bind, run_call]
  cases hraw : (peer s (.read src.dataReg 6)).1.status with
  | error =>
      simp [sample, burst, goodRead, hraw]
  | ok =>
      cases hctrl : (peer (peer s (.read src.dataReg 6)).2 (.read src.ctrlReg 1)).1.status with
      | error => simp [sample, burst, goodRead, hraw, hctrl, hne]
      | ok => simp [sample, burst, goodRead, hraw, hctrl, hne, scaleAxes_rawAxes]

/-- The fetch of one sensor only reads that sensor's two registers. -/
theorem getAxes_emits {src : Source} {F : FloatUnit} {rawGet : BusProg (Status × AxesRaw)}
    {getSensitivity : BusProg (Option ℚ)} (h : Reads src F rawGet getSensitivity) (out : Axes) :
    Emits (fun e => e.cmd = .read src.dataReg 6 ∨ e.cmd = .read src.ctrlReg 1)
      (Hal.getAxes F rawGet getSensitivity out) := by
  rw [Hal.getAxes, h.raw, h.sensitivity]
  refine Emits.bind (Emits.bind (Emits.request fun _ => Or.inl rfl) fun _ => Emits.ret _) ?_
  intro raw
  by_cases hraw : raw.1 = .ok
  · rw [if_pos hraw]
    refine Emits.bind (Emits.bind (Emits.request fun _ => Or.inr rfl) fun _ => Emits.ret _) ?_
    intro sensitivity
    cases sensitivity with
    | none => exact Emits.ret _
    | some sensitivity => exact Emits.ret _
  · rw [if_neg hraw]
    exact Emits.ret _

/-! ## Logs of two sensors -/

/-- No event of the log belongs to the source. -/
def Foreign (src : Source) (log : BusLog) : Prop :=
  ∀ e ∈ log, e.cmd ≠ .read src.dataReg 6 ∧ e.cmd ≠ .read src.ctrlReg 1

theorem goodRead_eq_none {reg : Byte} {len : Nat} {e : BusEvent} (h : e.cmd ≠ .read reg len) :
    goodRead reg len e = none := by
  rcases e with ⟨cmd, resp⟩
  cases cmd with
  | write r d => rfl
  | read r l =>
      simp only [ne_eq, Cmd.read.injEq] at h
      simp only [goodRead, dif_neg h]

theorem burst_append (reg : Byte) (len : Nat) (log rest : BusLog) :
    burst reg len (log ++ rest) = (burst reg len log).or (burst reg len rest) := by
  simp only [burst, List.findSome?_append]

theorem Foreign.burst_eq_none {src : Source} {log : BusLog} (h : Foreign src log) :
    burst src.dataReg 6 log = none ∧ burst src.ctrlReg 1 log = none := by
  constructor
  · exact List.findSome?_eq_none_iff.mpr fun e he => goodRead_eq_none (h e he).1
  · exact List.findSome?_eq_none_iff.mpr fun e he => goodRead_eq_none (h e he).2

theorem Foreign.sample_eq_none {src : Source} {log : BusLog} (h : Foreign src log)
    (F : FloatUnit) : sample F src log = none := by
  simp only [sample, h.burst_eq_none]

theorem Foreign.sample_append {src : Source} {log : BusLog} (h : Foreign src log) (F : FloatUnit)
    (rest : BusLog) : sample F src (rest ++ log) = sample F src rest := by
  simp only [sample, burst_append, h.burst_eq_none, Option.or_none]

theorem Foreign.append_sample {src : Source} {log : BusLog} (h : Foreign src log) (F : FloatUnit)
    (rest : BusLog) : sample F src (log ++ rest) = sample F src rest := by
  simp only [sample, burst_append, h.burst_eq_none, Option.none_or]

namespace Driver

variable {S : Type}

theorem readAcc_value (F : FloatUnit) (data : Data) (peer : BusPeer S) (s : S) :
    (run peer (readAcc F data) s).value =
      match sample F accSource (run peer (readAcc F data) s).log with
      | some axes => (.ok, { data with acc := axes })
      | none => (.error, data) := by
  have h := getAxes_value (acc_reads F) (by decide) data.acc peer s
  simp only [readAcc, Hal.accGetAxes, run_bind, run_ret, List.append_nil, h]
  split <;> rfl

theorem readGyro_value (F : FloatUnit) (data : Data) (peer : BusPeer S) (s : S) :
    (run peer (readGyro F data) s).value =
      match sample F gyroSource (run peer (readGyro F data) s).log with
      | some axes => (.ok, { data with gyro := axes })
      | none => (.error, data) := by
  have h := getAxes_value (gyro_reads F) (by decide) data.gyro peer s
  simp only [readGyro, Hal.gyroGetAxes, run_bind, run_ret, List.append_nil, h]
  split <;> rfl

theorem readAcc_foreign (F : FloatUnit) (data : Data) (peer : BusPeer S) (s : S) :
    Foreign gyroSource (run peer (readAcc F data) s).log := by
  intro e he
  have hemits := Emits.bind (getAxes_emits (acc_reads F) data.acc)
    (fun r => Emits.ret (r.1, { data with acc := r.2 }))
  obtain h | h := hemits peer s e he <;> rw [h] <;> decide

theorem readGyro_foreign (F : FloatUnit) (data : Data) (peer : BusPeer S) (s : S) :
    Foreign accSource (run peer (readGyro F data) s).log := by
  intro e he
  have hemits := Emits.bind (getAxes_emits (gyro_reads F) data.gyro)
    (fun r => Emits.ret (r.1, { data with gyro := r.2 }))
  obtain h | h := hemits peer s e he <;> rw [h] <;> decide

/-! ## The whole fetch -/

/-- The sample a fetch of `chan` takes from `src`. -/
def covered (F : FloatUnit) (src : Source) (chan : SensorChannel) (log : BusLog) : Option Axes :=
  if chan ∈ src.channels then sample F src log else none

/-- What a fetch with this log returns and leaves in the cache. -/
def fetched (F : FloatUnit) (chan : SensorChannel) (log : BusLog) (data : Data) :
    Except Errno Unit × Data :=
  let acc := covered F accSource chan log
  let gyro := covered F gyroSource chan log
  let missing := fun (src : Source) (got : Option Axes) => chan ∈ src.channels ∧ got = none
  (if chan ∉ accSource.channels ∧ chan ∉ gyroSource.channels then .error .enotsup
    else if missing accSource acc ∨ missing gyroSource gyro then .error .eio
    else .ok (),
    { data with acc := acc.getD data.acc, gyro := gyro.getD data.gyro })

theorem sampleFetch_none {chan : SensorChannel} (ha : fetchAcc chan = false)
    (hg : fetchGyro chan = false) (F : FloatUnit) (data : Data) :
    sampleFetch F chan data = .ret (.error .enotsup, data) := by
  simp [sampleFetch, ha, hg]

theorem sampleFetch_acc {chan : SensorChannel} (ha : fetchAcc chan = true)
    (hg : fetchGyro chan = false) (F : FloatUnit) (data : Data) :
    sampleFetch F chan data = readAcc F data >>= fun r =>
      .ret (if r.1 = .ok then .ok () else .error .eio, r.2) := by
  simp only [sampleFetch, ha, hg, checkObj, Bool.not_true, Bool.not_false, Bool.false_and,
    Bool.false_eq_true, if_true, if_false, Prog.ret_bind]
  congr 1
  funext r
  cases r.1 <;> rfl

theorem sampleFetch_gyro {chan : SensorChannel} (ha : fetchAcc chan = false)
    (hg : fetchGyro chan = true) (F : FloatUnit) (data : Data) :
    sampleFetch F chan data = readGyro F data >>= fun r =>
      .ret (if r.1 = .ok then .ok () else .error .eio, r.2) := by
  simp only [sampleFetch, ha, hg, checkObj, Bool.not_true, Bool.not_false, Bool.and_false,
    Bool.false_eq_true, if_true, if_false, Prog.ret_bind]
  congr 1
  funext r
  cases r.1 <;> rfl

theorem sampleFetch_all {chan : SensorChannel} (ha : fetchAcc chan = true)
    (hg : fetchGyro chan = true) (F : FloatUnit) (data : Data) :
    sampleFetch F chan data = readAcc F data >>= fun r =>
      if r.1 = .ok then
        readGyro F r.2 >>= fun q => .ret (if q.1 = .ok then .ok () else .error .eio, q.2)
      else .ret (.error .eio, r.2) := by
  simp only [sampleFetch, ha, hg, checkObj, Bool.not_true, Bool.and_self, Bool.false_eq_true,
    if_true, if_false]
  congr 1
  funext r
  cases r.1 with
  | error => rfl
  | ok =>
      simp only [if_true]
      congr 1
      funext q
      cases q.1 <;> rfl

theorem mem_accChannels (chan : SensorChannel) :
    chan ∈ accSource.channels ↔ fetchAcc chan = true := by
  simp [accSource, fetchAcc, or_assoc]

theorem mem_gyroChannels (chan : SensorChannel) :
    chan ∈ gyroSource.channels ↔ fetchGyro chan = true := by
  simp [gyroSource, fetchGyro, or_assoc]

theorem sampleFetch_value (F : FloatUnit) (chan : SensorChannel) (data : Data) (peer : BusPeer S)
    (s : S) :
    (run peer (sampleFetch F chan data) s).value =
      fetched F chan (run peer (sampleFetch F chan data) s).log data := by
  have hacc := readAcc_value F data peer s
  have hgyro := readGyro_value F data peer s
  cases ha : fetchAcc chan with
  | false =>
      cases hg : fetchGyro chan with
      | false =>
          simp [sampleFetch_none ha hg, fetched, covered, mem_accChannels, mem_gyroChannels, ha, hg]
      | true =>
          simp only [sampleFetch_gyro ha hg, run_bind, run_ret, List.append_nil, fetched, covered,
            mem_accChannels, mem_gyroChannels, ha, hg]
          rw [hgyro]
          cases sample F gyroSource (run peer (readGyro F data) s).log <;> simp
  | true =>
      cases hg : fetchGyro chan with
      | false =>
          simp only [sampleFetch_acc ha hg, run_bind, run_ret, List.append_nil, fetched, covered,
            mem_accChannels, mem_gyroChannels, ha, hg]
          rw [hacc]
          cases sample F accSource (run peer (readAcc F data) s).log <;> simp
      | true =>
          have hnone := (readAcc_foreign F data peer s).sample_eq_none F
          simp only [sampleFetch_all ha hg, run_bind, fetched, covered, mem_accChannels,
            mem_gyroChannels, ha, hg]
          cases hsample : sample F accSource (run peer (readAcc F data) s).log with
          | none =>
              rw [hsample] at hacc
              simp [hacc, hsample, hnone]
          | some axes =>
              rw [hsample] at hacc
              simp only [hacc, if_true, run_bind, run_ret, List.append_nil]
              generalize (run peer (readAcc F data) s).state = s'
              have hgyro' := readGyro_value F { data with acc := axes } peer s'
              rw [(readGyro_foreign F _ peer s').sample_append, hsample,
                (readAcc_foreign F data peer s).append_sample, hgyro']
              cases sample F gyroSource (run peer (readGyro F { data with acc := axes }) s').log <;>
                simp

/-! ## Fetches on a bus that answers -/

theorem getAxes_ok {src : Source} {F : FloatUnit} {rawGet : BusProg (Status × AxesRaw)}
    {getSensitivity : BusProg (Option ℚ)} (h : Reads src F rawGet getSensitivity)
    {peer : BusPeer S} (hpeer : Answers peer) (out : Axes) (s : S) :
    (run peer (Hal.getAxes F rawGet getSensitivity out) s).value.1 = .ok := by
  rw [Hal.getAxes, h.raw, h.sensitivity]
  simp only [readReg, Prog.request_bind, Prog.call_bind, Prog.ret_bind, run_call, run_ret,
    hpeer _ _ _, if_true]

theorem readAcc_ok {peer : BusPeer S} (hpeer : Answers peer) (F : FloatUnit) (data : Data)
    (s : S) : (run peer (readAcc F data) s).value.1 = .ok := by
  simp only [readAcc, run_bind, run_ret]
  exact getAxes_ok (acc_reads F) hpeer data.acc s

theorem readGyro_ok {peer : BusPeer S} (hpeer : Answers peer) (F : FloatUnit) (data : Data)
    (s : S) : (run peer (readGyro F data) s).value.1 = .ok := by
  simp only [readGyro, run_bind, run_ret]
  exact getAxes_ok (gyro_reads F) hpeer data.gyro s

/-- A fetch of a channel the driver serves succeeds. -/
theorem sampleFetch_ok {peer : BusPeer S} (hpeer : Answers peer) (F : FloatUnit)
    {chan : SensorChannel} (hchan : chan ∈ accSource.channels ∨ chan ∈ gyroSource.channels)
    (data : Data) (s : S) : (run peer (sampleFetch F chan data) s).value.1 = .ok () := by
  rw [mem_accChannels, mem_gyroChannels] at hchan
  cases ha : fetchAcc chan with
  | false =>
      have hg := hchan.resolve_left (by rw [ha]; decide)
      simp only [sampleFetch_gyro ha hg, run_bind, run_ret, readGyro_ok hpeer, if_true]
  | true =>
      cases hg : fetchGyro chan with
      | false => simp only [sampleFetch_acc ha hg, run_bind, run_ret, readAcc_ok hpeer, if_true]
      | true =>
          simp only [sampleFetch_all ha hg, run_bind, run_ret, readAcc_ok hpeer, if_true,
            readGyro_ok hpeer]

/-- So each sensor the channel covers has a sample. -/
theorem sampleFetch_samples {peer : BusPeer S} (hpeer : Answers peer) (F : FloatUnit)
    {src : Source} (hsrc : src = accSource ∨ src = gyroSource) {chan : SensorChannel}
    (hchan : chan ∈ src.channels) (data : Data) (s : S) :
    (covered F src chan (run peer (sampleFetch F chan data) s).log).isSome = true := by
  have hserved : chan ∈ accSource.channels ∨ chan ∈ gyroSource.channels := by
    rcases hsrc with rfl | rfl
    · exact Or.inl hchan
    · exact Or.inr hchan
  have hok := sampleFetch_ok hpeer F hserved data s
  rw [sampleFetch_value, fetched] at hok
  simp only at hok
  split at hok
  · cases hok
  · split at hok
    · cases hok
    · rename_i hmissing
      rw [Option.isSome_iff_ne_none]
      intro hnone
      rcases hsrc with rfl | rfl
      · exact hmissing (Or.inl ⟨hchan, hnone⟩)
      · exact hmissing (Or.inr ⟨hchan, hnone⟩)

/-! ## Failed fetches -/

/-- The gyroscope is only read after the accelerometer. -/
theorem sampleFetch_acc_first {chan : SensorChannel} (hall : chan = .all) (F : FloatUnit)
    (data : Data) (peer : BusPeer S) (s : S)
    (hacc : sample F accSource (run peer (sampleFetch F chan data) s).log = none) :
    sample F gyroSource (run peer (sampleFetch F chan data) s).log = none := by
  subst hall
  have hvalue := readAcc_value F data peer s
  simp only [sampleFetch_all (rfl : fetchAcc .all = true) (rfl : fetchGyro .all = true),
    run_bind] at hacc ⊢
  cases hsample : sample F accSource (run peer (readAcc F data) s).log with
  | none =>
      rw [hsample] at hvalue
      simp only [hvalue, reduceCtorEq, if_false, run_ret, List.append_nil]
      exact (readAcc_foreign F data peer s).sample_eq_none F
  | some axes =>
      rw [hsample] at hvalue
      simp only [hvalue, if_true, run_bind, run_ret, List.append_nil] at hacc
      rw [(readGyro_foreign F _ peer _).sample_append, hsample] at hacc
      cases hacc

theorem fetched_single {F : FloatUnit} {chan : SensorChannel} {log : BusLog} {data : Data}
    (hall : chan ≠ .all) (hfail : (fetched F chan log data).1 ≠ .ok ()) :
    (fetched F chan log data).2 = data := by
  have hboth : ¬(chan ∈ accSource.channels ∧ chan ∈ gyroSource.channels) := by
    revert hall
    cases chan <;> simp [accSource, gyroSource]
  by_cases ha : chan ∈ accSource.channels
  · have hg : chan ∉ gyroSource.channels := fun hg => hboth ⟨ha, hg⟩
    cases hacc : sample F accSource log with
    | none => simp [fetched, covered, ha, hg, hacc]
    | some acc => simp [fetched, covered, ha, hg, hacc] at hfail
  · by_cases hg : chan ∈ gyroSource.channels
    · cases hgyro : sample F gyroSource log with
      | none => simp [fetched, covered, ha, hg, hgyro]
      | some gyro => simp [fetched, covered, ha, hg, hgyro] at hfail
    · simp [fetched, covered, ha, hg]

/-- A failed fetch leaves the cache as it was, except that a full fetch whose
gyroscope part failed keeps the accelerometer sample it had already decoded. -/
theorem sampleFetch_failure (F : FloatUnit) (chan : SensorChannel) (data : Data)
    (peer : BusPeer S) (s : S)
    (hfail : (run peer (sampleFetch F chan data) s).value.1 ≠ .ok ()) :
    let o := run peer (sampleFetch F chan data) s
    o.value.2.gyro = data.gyro ∧
      o.value.2.acc =
        (if chan = .all then (sample F accSource o.log).getD data.acc else data.acc) ∧
      (chan = .all → (sample F accSource o.log).isSome → sample F gyroSource o.log = none) := by
  intro o
  have hfirst : chan = .all → sample F accSource o.log = none → sample F gyroSource o.log = none :=
    fun hall => sampleFetch_acc_first hall F data peer s
  have hvalue : o.value = fetched F chan o.log data := sampleFetch_value F chan data peer s
  change o.value.1 ≠ .ok () at hfail
  rw [hvalue] at hfail ⊢
  by_cases hall : chan = .all
  · have hacc : chan ∈ accSource.channels := by rw [hall]; decide
    have hgyro : chan ∈ gyroSource.channels := by rw [hall]; decide
    have hnone : sample F gyroSource o.log = none := by
      cases ha : sample F accSource o.log with
      | none => exact hfirst hall ha
      | some acc =>
          cases hg : sample F gyroSource o.log with
          | none => rfl
          | some gyro => simp [fetched, covered, hacc, hgyro, ha, hg] at hfail
    refine ⟨?_, ?_, fun _ _ => hnone⟩
    · simp only [fetched, covered, hnone, ite_self, Option.getD_none]
    · simp only [fetched, covered, if_pos hacc, if_pos hall]
  · rw [fetched_single hall hfail, if_neg hall]
    exact ⟨rfl, rfl, fun h => absurd h hall⟩

/-- A bus on which the gyroscope's data registers do not answer. -/
def gyroFaultPeer : BusPeer Unit := fun _ cmd =>
  match cmd with
  | .read reg _ => (⟨if reg = outxLGReg then .error else .ok, Vector.replicate _ 0⟩, ())
  | .write _ _ => (.ok, ())

theorem sampleFetch_failure_single_sensor :
    let data : Data :=
      ⟨⟨1, 1, 1, .odr104Hz, .odr104Hz⟩, ⟨1000, 0, 0⟩, ⟨70, 70, 70⟩⟩
    let o := run gyroFaultPeer (sampleFetch (FloatArith.exact 24) .gyroXyz data) ()
    o.value.1 ≠ .ok () ∧ o.value.2.gyro = data.gyro ∧ o.value.2.acc = data.acc := by
  intro data o
  have hfail : o.value.1 ≠ .ok () := by
    change Except.error Errno.eio ≠ Except.ok ()
    exact fun h => nomatch h
  have h := sampleFetch_failure (FloatArith.exact 24) .gyroXyz data gyroFaultPeer () hfail
  exact ⟨hfail, h.1, h.2.1⟩

/-- Single precision, round to nearest even. -/
def binary32 : FloatUnit := FloatArith.nearestEven (by decide)

/-- One g in the cache, a device that now reports zero: the failed full fetch
overwrites the accelerometer and keeps the old gyroscope axes. -/
theorem sampleFetch_failure_commits_acc :
    let data : Data :=
      ⟨⟨1, 1, 1, .odr104Hz, .odr104Hz⟩, ⟨1000, 0, 0⟩, ⟨70, 70, 70⟩⟩
    let o := run gyroFaultPeer (sampleFetch binary32 .all data) ()
    o.value.1 = .error .eio ∧ o.value.2.gyro = data.gyro ∧ o.value.2.acc = ⟨0, 0, 0⟩ ∧
      o.value.2.acc ≠ data.acc := by
  intro data o
  have hburst : burst outxLXlReg 6 o.log = some (Vector.replicate 6 0) := rfl
  have hctrl : burst ctrl1XlReg 1 o.log = some (Vector.replicate 1 0) := rfl
  have hgyro : sample binary32 gyroSource o.log = none := rfl
  have hacc : sample binary32 accSource o.log = some ⟨0, 0, 0⟩ := by
    simp [sample, accSource, hburst, hctrl, decodeAxes]
  have hvalue : o.value = fetched binary32 .all o.log data :=
    sampleFetch_value binary32 .all data gyroFaultPeer ()
  have hcovered : covered binary32 accSource .all o.log = some ⟨0, 0, 0⟩ := by
    rw [covered, if_pos (by decide), hacc]
  have hmissing : covered binary32 gyroSource .all o.log = none := by
    rw [covered, if_pos (by decide), hgyro]
  rw [hvalue]
  simp only [fetched, hcovered, hmissing]
  decide

end Driver

end N6Samples.Ism330dlc
