import N6Samples.Imu.Device

/-! # Configuration of the device

Once the software reset is over, every setter is an exact update of the register
file or reports an error. The initialization is such a sequence of updates, so a
run that returns zero leaves exactly the devicetree configuration.
-/

namespace N6Samples.Ism330dlc

open Transaction Rounding FirstFit

/-! ## Steps on a quiet device -/

/-- From `P`, the program keeps the device quiet, never sets `SW_RESET`, and ends
with a value and a register file in `Q`. -/
def Steps {α : Type} (board : Board) (delay : Nat → Nat) (P : Imu → Prop) (prog : BusProg α)
    (Q : α → Regs → Prop) : Prop :=
  Triple (Imu.peer board delay) P prog fun value d log =>
    (∀ e ∈ log, ¬SetsReset e) ∧ ∃ regs, Quiet regs d ∧ Q value regs

/-- The postcondition of a fallible program that ends with `regs` and `value`. -/
def Leaves {α : Type} (regs : Regs) (value : α) (r : Status × α) (regs' : Regs) : Prop :=
  r.1 = .ok → regs' = regs ∧ r.2 = value

namespace Steps

variable {α β : Type} {board : Board} {delay : Nat → Nat} {P : Imu → Prop}

theorem ret {value : α} {regs : Regs} {Q : α → Regs → Prop} (h : Q value regs) :
    Steps board delay (Quiet regs) (.ret value) Q := by
  apply Triple.ret
  intro d hd
  refine ⟨?_, regs, hd, h⟩
  intro e he
  cases he

theorem bind {prog : BusProg α} {next : α → BusProg β} {Q : α → Regs → Prop}
    {T : β → Regs → Prop} (first : Steps board delay P prog Q)
    (second : ∀ value regs, Q value regs → Steps board delay (Quiet regs) (next value) T) :
    Steps board delay P (prog >>= next) T := by
  refine Triple.bind first ?_
  rintro value log d ⟨hlog, regs, hquiet, hQ⟩
  rcases second value regs hQ d hquiet with ⟨hrest, hT⟩
  refine ⟨?_, hT⟩
  intro e he
  cases List.mem_append.mp he with
  | inl he => exact hlog e he
  | inr he => exact hrest e he

theorem check {p : BusProg Status} {onError : α} {rest : BusProg α} {regs : Regs}
    {Q : α → Regs → Prop} (first : Steps board delay P p fun status regs' =>
      status = .ok → regs' = regs)
    (herror : ∀ regs', Q onError regs') (hrest : Steps board delay (Quiet regs) rest Q) :
    Steps board delay P (check p onError rest) Q := by
  refine first.bind ?_
  intro status regs' hstatus
  by_cases hok : status = .ok
  · rw [if_pos hok, hstatus hok]
    exact hrest
  · rw [if_neg hok]
    exact Steps.ret (herror regs')

theorem checkObj {σ : Type} {p : BusProg (Status × σ)} {onError : σ → α} {rest : σ → BusProg α}
    {regs : Regs} {obj : σ} {Q : α → Regs → Prop}
    (first : Steps board delay P p (Leaves regs obj))
    (herror : ∀ obj' regs', Q (onError obj') regs')
    (hrest : Steps board delay (Quiet regs) (rest obj) Q) :
    Steps board delay P (checkObj p onError rest) Q := by
  refine first.bind ?_
  intro r regs' hr
  by_cases hok : r.1 = .ok
  · rw [if_pos hok, (hr hok).1, (hr hok).2]
    exact hrest
  · rw [if_neg hok]
    exact Steps.ret (herror _ regs')

/-- A setter that is followed by a successful return. -/
theorem check_ret {σ : Type} {p : BusProg Status} {regs : Regs} {obj obj' : σ}
    (first : Steps board delay P p fun status regs' => status = .ok → regs' = regs) :
    Steps board delay P (Ism330dlc.check p (.error, obj') (.ret (.ok, obj))) (Leaves regs obj) := by
  apply first.check
  · exact fun _ h => nomatch h
  · exact Steps.ret fun _ => ⟨rfl, rfl⟩

theorem of_quiet {prog : BusProg α} {regs : Regs} {Q : α → Regs → Prop}
    (h : Steps board delay (Ready board regs) prog Q) :
    Steps board delay (Quiet regs) prog Q :=
  Triple.consequence h (fun _ hd => hd.ready) fun _ _ _ hpost => hpost

theorem readReg {regs : Regs} (reg : Byte) :
    Steps board delay (Ready board regs) (readReg reg 1) fun r regs' =>
      regs' = regs ∧ (r.status = .ok → byteAt r.buf 0 = regs reg) := by
  apply Triple.request
  intro d hd
  rcases peer_read delay hd reg with ⟨hquiet, hbuf⟩
  refine ⟨?_, regs, hquiet, rfl, hbuf⟩
  intro e he
  rw [List.mem_singleton.mp he]
  exact fun hset => nomatch hset.choose_spec.1

theorem writeReg {regs : Regs} {reg data : Byte}
    (hdata : reg = ctrl3CReg → (Layout.ofByte data : Ctrl3C).swReset = 0) :
    Steps board delay (Ready board regs) (writeReg reg data) fun status regs' =>
      status = .ok → regs' = Function.update regs reg data := by
  apply Triple.request
  intro d hd
  refine ⟨?_, peer_write delay hd hdata⟩
  intro e he
  rw [List.mem_singleton.mp he]
  rintro ⟨data', hcmd, hset⟩
  rcases Cmd.write.inj hcmd with ⟨hreg, rfl⟩
  rw [hdata hreg] at hset
  exact absurd hset (by decide)

/-- The read-modify-write of a setter that leaves `SW_RESET` clear. -/
theorem setField {ρ : Type} [Layout ρ] {regs : Regs} {reg : Byte} {change : ρ → ρ}
    (hcalm : reg = ctrl3CReg →
      (Layout.ofByte (Layout.toByte (change (regs.get ρ reg))) : Ctrl3C).swReset = 0) :
    Steps board delay (Ready board regs) (setField reg change) fun status regs' =>
      status = .ok → regs' = regs.modify reg change := by
  refine (readReg reg).bind ?_
  rintro r regs' ⟨rfl, hbuf⟩
  by_cases hok : r.status = .ok
  · rw [if_pos hok, hbuf hok]
    exact of_quiet (writeReg hcalm)
  · rw [if_neg hok]
    exact Steps.ret fun h => absurd h hok

/-- A setter of another register than `CTRL3_C` has nothing to keep clear. -/
theorem setField_of_ne {ρ : Type} [Layout ρ] {regs : Regs} {reg : Byte} {change : ρ → ρ}
    (hreg : reg ≠ ctrl3CReg) :
    Steps board delay (Quiet regs) (Ism330dlc.setField reg change) fun status regs' =>
      status = .ok → regs' = regs.modify reg change :=
  of_quiet (setField fun h => absurd h hreg)

end Steps

/-! ## Setters -/

section Setters

variable (board : Board) (delay : Nat → Nat) {regs : Regs}

theorem autoIncrementSet_steps (hreset : regs.swReset = 0) :
    Steps board delay (Ready board regs) (autoIncrementSet propertyEnable) fun status regs' =>
      status = .ok → regs' = regs.modify ctrl3CReg fun r : Ctrl3C => { r with ifInc := 1 } :=
  Steps.setField fun _ => by rw [Layout.ofByte_toByte]; exact hreset

theorem blockDataUpdateSet_steps (hreset : regs.swReset = 0) :
    Steps board delay (Quiet regs) (blockDataUpdateSet propertyEnable) fun status regs' =>
      status = .ok → regs' = regs.modify ctrl3CReg fun r : Ctrl3C => { r with bdu := 1 } :=
  Steps.of_quiet (Steps.setField fun _ => by rw [Layout.ofByte_toByte]; exact hreset)

theorem fifoModeSet_steps (val : FifoMode) :
    Steps board delay (Quiet regs) (fifoModeSet val) fun status regs' =>
      status = .ok → regs' = regs.modify fifoCtrl5Reg fun r : FifoCtrl5 =>
        { r with fifoMode := BitVec.ofNat 3 val.code } :=
  Steps.setField_of_ne (by decide)

theorem xlDataRateSet_steps (val : OdrXl) :
    Steps board delay (Quiet regs) (xlDataRateSet val) fun status regs' =>
      status = .ok → regs' = regs.modify ctrl1XlReg fun r : Ctrl1Xl =>
        { r with odrXl := BitVec.ofNat 4 val.code } :=
  Steps.setField_of_ne (by decide)

theorem xlFullScaleSet_steps (val : FsXl) :
    Steps board delay (Quiet regs) (xlFullScaleSet val) fun status regs' =>
      status = .ok → regs' = regs.modify ctrl1XlReg fun r : Ctrl1Xl =>
        { r with fsXl := BitVec.ofNat 2 val.code } :=
  Steps.setField_of_ne (by decide)

theorem gyDataRateSet_steps (val : OdrG) :
    Steps board delay (Quiet regs) (gyDataRateSet val) fun status regs' =>
      status = .ok → regs' = regs.modify ctrl2GReg fun r : Ctrl2G =>
        { r with odrG := BitVec.ofNat 4 val.code } :=
  Steps.setField_of_ne (by decide)

theorem gyFullScaleSet_steps (val : FsG) :
    Steps board delay (Quiet regs) (gyFullScaleSet val) fun status regs' =>
      status = .ok → regs' = regs.modify ctrl2GReg fun r : Ctrl2G =>
        { r with fsG := BitVec.ofNat 3 val.code } :=
  Steps.setField_of_ne (by decide)

end Setters

/-! ## The rest of the initialization -/

/-- `ISM330DLC_Init` after its reset request. -/
def Hal.afterReset (obj : Object) : BusProg (Status × Object) :=
  check (autoIncrementSet propertyEnable) (.error, obj) <|
  check (blockDataUpdateSet propertyEnable) (.error, obj) <|
  check (fifoModeSet .bypass) (.error, obj) <|
  let obj := { obj with accOdr := .odr104Hz }
  check (xlDataRateSet .off) (.error, obj) <|
  check (xlFullScaleSet .fs2g) (.error, obj) <|
  let obj := { obj with gyroOdr := .odr104Hz }
  check (gyDataRateSet .off) (.error, obj) <|
  check (gyFullScaleSet .fs2000dps) (.error, obj) <|
  .ret (.ok, { obj with isInitialized := 1 })

theorem Hal.init_eq (obj : Object) :
    Hal.init obj = check (resetSet propertyEnable) (.error, obj) (Hal.afterReset obj) := rfl

/-- The register file `ISM330DLC_Init` leaves when it starts from `regs`. -/
def Regs.initialized (regs : Regs) : Regs :=
  ((regs.modify ctrl3CReg fun r : Ctrl3C => { r with ifInc := 1, bdu := 1 }).modify fifoCtrl5Reg
    fun r : FifoCtrl5 => { r with fifoMode := 0 }).modify ctrl1XlReg
    (fun r : Ctrl1Xl => { r with odrXl := 0, fsXl := 0 }) |>.modify ctrl2GReg
    fun r : Ctrl2G => { r with odrG := 0, fsG := 6 }

theorem Regs.modify_modify {ρ : Type} [Layout ρ] (regs : Regs) (reg : Byte) (f g : ρ → ρ) :
    (regs.modify reg f).modify reg g = regs.modify reg fun r => g (f r) := by
  simp only [Regs.modify, Regs.get, Function.update_self, Layout.ofByte_toByte,
    Function.update_idem]

theorem Hal.afterReset_steps (board : Board) (delay : Nat → Nat) {regs : Regs}
    (hreset : regs.swReset = 0) (obj : Object) :
    Steps board delay (Ready board regs) (Hal.afterReset obj) (Leaves regs.initialized
      { obj with accOdr := .odr104Hz, gyroOdr := .odr104Hz, isInitialized := 1 }) := by
  have herror : ∀ {obj obj' : Object} {regs : Regs} (regs' : Regs),
      Leaves regs obj (.error, obj') regs' := fun _ h => nomatch h
  unfold Hal.afterReset
  refine (autoIncrementSet_steps board delay hreset).check herror ?_
  refine (blockDataUpdateSet_steps board delay ?_).check herror ?_
  · rw [Regs.swReset, Regs.get_modify]
    exact hreset
  refine (fifoModeSet_steps board delay .bypass).check herror ?_
  refine (xlDataRateSet_steps board delay .off).check herror ?_
  refine (xlFullScaleSet_steps board delay .fs2g).check herror ?_
  refine (gyDataRateSet_steps board delay .off).check herror ?_
  refine (gyFullScaleSet_steps board delay .fs2000dps).check herror ?_
  refine Steps.ret fun _ => ⟨?_, rfl⟩
  simp only [Regs.modify_modify]
  rfl

/-! ## Rates and ranges from the devicetree -/

namespace Driver

/-- The block of `ism330dlc_init` for one sensor. -/
def configure {O FS : Type} (s : Hal.Sensor O FS) (F : FloatUnit) (odr range : ℤ) (obj : Object) :
    BusProg (Status × Object) :=
  checkObj (s.setOutputDataRate obj (F.round odr)) (fun obj => (.error, obj)) fun obj =>
  check (s.setFullScale range) (.error, obj) <|
  s.enable obj

/-- The object after a successful `configure`. -/
def configuredObj {O FS : Type} (s : Hal.Sensor O FS) (odr : O) (obj : Object) : Object :=
  if s.isEnabled obj = 1 then obj else s.markEnabled (s.keepOdr obj odr)

theorem configuredObj_acc (odr : OdrXl) (obj : Object) :
    (configuredObj Hal.acc odr obj).accIsEnabled = 1 := by
  unfold configuredObj
  split
  · next henabled => exact henabled
  · rfl

theorem configuredObj_gyro (odr : OdrG) (obj : Object) :
    (configuredObj Hal.gyro odr obj).gyroIsEnabled = 1 ∧
      (configuredObj Hal.gyro odr obj).accIsEnabled = obj.accIsEnabled := by
  unfold configuredObj
  split
  · next henabled => exact ⟨henabled, rfl⟩
  · exact ⟨rfl, rfl⟩

/-- The rate reaches the chip by either route: at once when the sensor is marked
enabled, through the object and `enable` otherwise. -/
theorem configure_steps {O FS : Type} (s : Hal.Sensor O FS) {board : Board} {delay : Nat → Nat}
    {setOdr : O → Regs → Regs} {setFs : FS → Regs → Regs}
    (hodr : ∀ {regs} value, Steps board delay (Quiet regs) (s.dataRateSet value) fun status regs' =>
      status = .ok → regs' = setOdr value regs)
    (hfs : ∀ {regs} value, Steps board delay (Quiet regs) (s.fullScaleSet value) fun status regs' =>
      status = .ok → regs' = setFs value regs)
    (hcomm : ∀ odr fs regs, setOdr odr (setFs fs regs) = setFs fs (setOdr odr regs))
    {regs : Regs} (F : FloatUnit) (odr range : ℤ) (obj : Object) :
    Steps board delay (Quiet regs) (configure s F odr range obj) (Leaves
      (setFs (s.fsOf range) (setOdr (s.odrOf (F.round odr)) regs))
      (configuredObj s (s.odrOf (F.round odr)) obj)) := by
  have hscale : ∀ {regs}, Steps board delay (Quiet regs) (s.setFullScale range)
      fun status regs' => status = .ok → regs' = setFs (s.fsOf range) regs := by
    intro regs
    unfold Hal.Sensor.setFullScale
    apply Steps.check (hfs _)
    · exact fun _ h => nomatch h
    · exact Steps.ret fun _ => rfl
  unfold configure configuredObj Hal.Sensor.setOutputDataRate Hal.Sensor.enable
  by_cases henabled : s.isEnabled obj = 1
  · simp only [if_pos henabled]
    apply Steps.checkObj (Steps.check_ret (hodr _))
    · exact fun _ _ h => nomatch h
    apply hscale.check (fun _ h => nomatch h)
    rw [if_pos henabled]
    exact Steps.ret fun _ => ⟨rfl, rfl⟩
  · simp only [if_neg henabled]
    apply Steps.checkObj (Steps.ret fun _ => ⟨rfl, rfl⟩)
    · exact fun _ _ h => nomatch h
    apply hscale.check (fun _ h => nomatch h)
    rw [s.isEnabled_keepOdr, if_neg henabled, s.odr_keepOdr, ← hcomm]
    exact Steps.check_ret (hodr _)

theorem configureAcc_steps (board : Board) (delay : Nat → Nat) {regs : Regs} (F : FloatUnit)
    (cfg : Config) (obj : Object) :
    let odr := Hal.accOdrOf (F.round cfg.accelOdr)
    Steps board delay (Quiet regs) (configureAcc F cfg obj) (Leaves
      ((regs.modify ctrl1XlReg fun r : Ctrl1Xl =>
          { r with odrXl := BitVec.ofNat 4 odr.code }).modify ctrl1XlReg fun r : Ctrl1Xl =>
          { r with fsXl := BitVec.ofNat 2 (Hal.accFsOf cfg.accelRange).code })
      (configuredObj Hal.acc odr obj)) :=
  configure_steps Hal.acc (xlDataRateSet_steps board delay) (xlFullScaleSet_steps board delay)
    (fun _ _ _ => by simp only [Regs.modify_modify]) F cfg.accelOdr cfg.accelRange obj

theorem configureGyro_steps (board : Board) (delay : Nat → Nat) {regs : Regs} (F : FloatUnit)
    (cfg : Config) (obj : Object) :
    let odr := Hal.gyroOdrOf (F.round cfg.gyroOdr)
    Steps board delay (Quiet regs) (configureGyro F cfg obj) (Leaves
      ((regs.modify ctrl2GReg fun r : Ctrl2G =>
          { r with odrG := BitVec.ofNat 4 odr.code }).modify ctrl2GReg fun r : Ctrl2G =>
          { r with fsG := BitVec.ofNat 3 (Hal.gyroFsOf cfg.gyroRange).code })
      (configuredObj Hal.gyro odr obj)) :=
  configure_steps Hal.gyro (gyDataRateSet_steps board delay) (gyFullScaleSet_steps board delay)
    (fun _ _ _ => by simp only [Regs.modify_modify]) F cfg.gyroOdr cfg.gyroRange obj

/-! ## The whole initialization -/

/-- `ism330dlc_init` after the reset request was accepted. -/
def afterReset (F : FloatUnit) (cfg : Config) (data : Data) :
    BusProg (Except Errno Unit × Data) :=
  let fail := fun obj => (.error .eio, { data with obj := obj })
  checkObj (Hal.afterReset data.obj) fail fun obj =>
  checkObj (configureAcc F cfg obj) fail fun obj =>
  checkObj (configureGyro F cfg obj) fail fun obj =>
  .ret (.ok (), { data with obj := obj })

theorem setup_eq (F : FloatUnit) (cfg : Config) (data : Data) :
    setup F cfg data =
      check (resetSet propertyEnable) (.error .eio, data) (afterReset F cfg data) := by
  unfold setup checkObj
  rw [Hal.init_eq, check, Prog.bind_assoc, check]
  congr 1
  funext status
  cases status <;> rfl

/-- The register file a successful initialization leaves on top of the defaults. -/
def configured (F : FloatUnit) (cfg : Config) (defaults : Regs) : Regs :=
  (defaults.initialized.modify ctrl1XlReg fun r : Ctrl1Xl =>
      { r with odrXl := BitVec.ofNat 4 (Hal.accOdrOf (F.round cfg.accelOdr)).code
               fsXl := BitVec.ofNat 2 (Hal.accFsOf cfg.accelRange).code }).modify ctrl2GReg
    fun r : Ctrl2G =>
      { r with odrG := BitVec.ofNat 4 (Hal.gyroOdrOf (F.round cfg.gyroOdr)).code
               fsG := BitVec.ofNat 3 (Hal.gyroFsOf cfg.gyroRange).code }

theorem afterReset_steps (board : Board) (delay : Nat → Nat) {regs : Regs}
    (hreset : regs.swReset = 0) (F : FloatUnit) (cfg : Config) (data : Data) :
    Steps board delay (Ready board regs) (afterReset F cfg data) fun r regs' =>
      r.1 = .ok () → regs' = configured F cfg regs ∧
        r.2.obj.accIsEnabled = 1 ∧ r.2.obj.gyroIsEnabled = 1 := by
  unfold afterReset
  refine (Hal.afterReset_steps board delay hreset data.obj).checkObj (fun _ _ h => nomatch h) ?_
  refine (configureAcc_steps board delay F cfg _).checkObj (fun _ _ h => nomatch h) ?_
  refine (configureGyro_steps board delay F cfg _).checkObj (fun _ _ h => nomatch h) ?_
  apply Steps.ret
  intro _
  obtain ⟨hgyro, hacc⟩ := configuredObj_gyro (Hal.gyroOdrOf (F.round cfg.gyroOdr))
    (configuredObj Hal.acc (Hal.accOdrOf (F.round cfg.accelOdr))
      { data.obj with accOdr := .odr104Hz, gyroOdr := .odr104Hz, isInitialized := 1 })
  refine ⟨?_, hacc.trans (configuredObj_acc _ _), hgyro⟩
  rw [configured, Regs.modify_modify, Regs.modify_modify]

end Driver

end N6Samples.Ism330dlc
