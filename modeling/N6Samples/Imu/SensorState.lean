import N6Samples.Imu.HalControl
import N6Samples.Imu.Initialization
import N6Samples.Lib.Session

/-! # What the sensor calls do

Each sensor is on or off, with a rate and a full scale. On a bus where a failed write does
nothing, every sequence of calls acts on these alone: a call fails exactly when one of its
transactions does and then changes nothing, one that succeeds does what its name says, and
neither touches the other sensor.
-/

namespace N6Samples.Ism330dlc

open Transaction Rounding

/-! ## States of a sensor -/

structure SensorState (O FS : Type) where
  enabled : Bool
  rate : O
  fullScale : FS
deriving DecidableEq

structure HalState where
  acc : SensorState OdrXl FsXl
  gyro : SensorState OdrG FsG
deriving DecidableEq

/-- A transaction that reported an error. -/
def Rejected : BusEvent → Prop
  | ⟨.read _ _, resp⟩ => resp.status = .error
  | ⟨.write _ _, status⟩ => status = .error

namespace Hal

variable {O FS : Type}

/-- What a successful call does. -/
def SensorCall.apply (s : Switch O FS) (c : SensorCall) (a : SensorState O FS) :
    SensorState O FS :=
  match c with
  | .enable => { a with enabled := true }
  | .disable => { a with enabled := false }
  | .setOutputDataRate odr => { a with rate := s.odrOf odr }
  | .setFullScale fullScale => { a with fullScale := s.fsOf fullScale }
  | .getOutputDataRate | .getFullScale | .getSensitivity => a

/-- What a successful call returns. -/
def SensorCall.answer (s : Switch O FS) (F : FloatUnit) (c : SensorCall) (a : SensorState O FS) :
    Reply :=
  match c with
  | .enable | .disable | .setOutputDataRate _ | .setFullScale _ => .ok
  | .getOutputDataRate => .ofValue ((s.rate (if a.enabled then a.rate else s.off)).map F.round)
  | .getFullScale => .ofValue ((s.range a.fullScale).map Int.cast)
  | .getSensitivity => .ofValue ((s.sensitivity a.fullScale).map F.round)

/-- The deinitialization switches both sensors off and forgets their rates. -/
def Call.apply (c : Call) (a : HalState) : HalState :=
  match c with
  | .acc c => { a with acc := c.apply accSwitch a.acc }
  | .gyro c => { a with gyro := c.apply gyroSwitch a.gyro }
  | .deInit =>
      { acc := { a.acc with enabled := false, rate := .off }
        gyro := { a.gyro with enabled := false, rate := .off } }

def Call.answer (F : FloatUnit) (c : Call) (a : HalState) : Reply :=
  match c with
  | .acc c => c.answer accSwitch F a.acc
  | .gyro c => c.answer gyroSwitch F a.gyro
  | .deInit => .ok

/-- What a failed call may have done: the deinitialization can stop after the first sensor. -/
def Call.Failed (c : Call) (a a' : HalState) : Prop :=
  a' = a ∨ c = .deInit ∧ a' = { a with acc := { a.acc with enabled := false } }

/-- A call with its transactions and what it returned. -/
abbrev CallEntry := Entry Cmd Resp Call Reply

/-- A call fails exactly when one of its transactions does; it has done what its reply says. -/
inductive Explains (F : FloatUnit) : HalState → List CallEntry → HalState → Prop
  | nil (a : HalState) : Explains F a [] a
  | done {a b : HalState} {e : CallEntry} {es : List CallEntry}
      (hlog : ∀ x ∈ e.log, ¬ Rejected x) (hok : e.result ≠ .error)
      (hresult : e.result = e.call.answer F a) (h : Explains F (e.call.apply a) es b) :
      Explains F a (e :: es) b
  | failed {a a' b : HalState} {e : CallEntry} {es : List CallEntry}
      (hlog : ∃ x ∈ e.log, Rejected x) (hresult : e.result = .error) (ha : e.call.Failed a a')
      (h : Explains F a' es b) : Explains F a (e :: es) b

end Hal

/-! ## The state in the object and the registers -/

/-- Where the driver and the chip keep the state of one sensor. -/
structure Wiring {O FS : Type} (s : Hal.Switch O FS) (ρ : Type) [Layout ρ] where
  reg : Byte
  setOdr : O → ρ → ρ
  setFs : FS → ρ → ρ
  odr : ρ → O
  fs : ρ → FS
  /-- The object without the fields of this sensor, and the register without its fields. -/
  others : Object → Object
  rest : ρ → ρ
  reg_ne : reg ≠ ctrl3CReg
  dataRateSet_eq : ∀ v, s.dataRateSet v = setField reg (setOdr v)
  fullScaleSet_eq : ∀ v, s.fullScaleSet v = setField reg (setFs v)
  dataRateGet_eq : s.dataRateGet = readReg reg 1 >>= fun r =>
    .ret (r.status, odr (Layout.ofByte (byteAt r.buf 0)))
  fullScaleGet_eq : s.fullScaleGet = readReg reg 1 >>= fun r =>
    .ret (r.status, fs (Layout.ofByte (byteAt r.buf 0)))
  odr_setOdr : ∀ v r, odr (setOdr v r) = v
  odr_setFs : ∀ v r, odr (setFs v r) = odr r
  fs_setFs : ∀ z r, fs (setFs (s.fsOf z) r) = s.fsOf z
  fs_setOdr : ∀ v r, fs (setOdr v r) = fs r
  rest_setOdr : ∀ v r, rest (setOdr v r) = rest r
  rest_setFs : ∀ v r, rest (setFs v r) = rest r
  rate_isSome : ∀ v, (s.rate v).isSome
  range_isSome : ∀ r, (s.range (fs r)).isSome
  sensitivity_isSome : ∀ r, (s.sensitivity (fs r)).isSome
  isEnabled_markEnabled : ∀ obj, s.isEnabled (s.markEnabled obj) = 1
  isEnabled_markDisabled : ∀ obj, s.isEnabled (s.markDisabled obj) = 0
  odr_markDisabled : ∀ obj, s.odr (s.markDisabled obj) = s.odr obj
  others_markEnabled : ∀ obj, others (s.markEnabled obj) = others obj
  others_markDisabled : ∀ obj, others (s.markDisabled obj) = others obj
  others_keepOdr : ∀ obj v, others (s.keepOdr obj v) = others obj

theorem accFsOf_ne (fullScale : ℤ) : Hal.accFsOf fullScale ≠ .xlFsNd := by
  unfold Hal.accFsOf Hal.accFsRungs
  simp only [FirstFit.firstFit]
  split_ifs <;> decide

theorem accRange_isSome {fs : FsXl} (h : fs ≠ .xlFsNd) : (Hal.accRange fs).isSome := by
  cases fs with
  | xlFsNd => exact absurd rfl h
  | _ => rfl

theorem accSensitivity_isSome {fs : FsXl} (h : fs ≠ .xlFsNd) : (Hal.accSensitivity fs).isSome := by
  cases fs with
  | xlFsNd => exact absurd rfl h
  | _ => rfl

def accWiring : Wiring Hal.accSwitch Ctrl1Xl where
  reg := ctrl1XlReg
  setOdr v r := { r with odrXl := BitVec.ofNat 4 v.code }
  setFs v r := { r with fsXl := BitVec.ofNat 2 v.code }
  odr r := decodeOdrXl r.odrXl
  fs r := decodeFsXl r.fsXl
  others obj := { obj with accIsEnabled := 0, accOdr := .off }
  rest r := { r with odrXl := 0, fsXl := 0 }
  reg_ne := by decide
  dataRateSet_eq _ := rfl
  fullScaleSet_eq _ := rfl
  dataRateGet_eq := rfl
  fullScaleGet_eq := rfl
  odr_setOdr v _ := decodeOdrXl_code v
  odr_setFs _ _ := rfl
  fs_setFs z _ := decodeFsXl_code (accFsOf_ne z)
  fs_setOdr _ _ := rfl
  rest_setOdr _ _ := rfl
  rest_setFs _ _ := rfl
  rate_isSome v := by cases v <;> rfl
  range_isSome r := accRange_isSome (decodeFsXl_ne r.fsXl)
  sensitivity_isSome r := accSensitivity_isSome (decodeFsXl_ne r.fsXl)
  isEnabled_markEnabled _ := rfl
  isEnabled_markDisabled _ := rfl
  odr_markDisabled _ := rfl
  others_markEnabled _ := rfl
  others_markDisabled _ := rfl
  others_keepOdr _ _ := rfl

def gyroWiring : Wiring Hal.gyroSwitch Ctrl2G where
  reg := ctrl2GReg
  setOdr v r := { r with odrG := BitVec.ofNat 4 v.code }
  setFs v r := { r with fsG := BitVec.ofNat 3 v.code }
  odr r := decodeOdrG r.odrG
  fs r := decodeFsG r.fsG
  others obj := { obj with gyroIsEnabled := 0, gyroOdr := .off }
  rest r := { r with odrG := 0, fsG := 0 }
  reg_ne := by decide
  dataRateSet_eq _ := rfl
  fullScaleSet_eq _ := rfl
  dataRateGet_eq := rfl
  fullScaleGet_eq := rfl
  odr_setOdr v _ := decodeOdrG_code v
  odr_setFs _ _ := rfl
  fs_setFs _ _ := decodeFsG_code _
  fs_setOdr _ _ := rfl
  rest_setOdr _ _ := rfl
  rest_setFs _ _ := rfl
  rate_isSome v := by cases v <;> rfl
  range_isSome r := by cases decodeFsG r.fsG <;> rfl
  sensitivity_isSome r := by cases decodeFsG r.fsG <;> rfl
  isEnabled_markEnabled _ := rfl
  isEnabled_markDisabled _ := rfl
  odr_markDisabled _ := rfl
  others_markEnabled _ := rfl
  others_markDisabled _ := rfl
  others_keepOdr _ _ := rfl

namespace Wiring

variable {O FS ρ : Type} [Layout ρ] {s : Hal.Switch O FS} (w : Wiring s ρ)

/-- The object and the registers hold the state. -/
structure Holds (a : SensorState O FS) (obj : Object) (regs : Regs) : Prop where
  flag : s.isEnabled obj = if a.enabled then 1 else 0
  kept : a.enabled = false → s.odr obj = a.rate
  rate : w.odr (regs.get ρ w.reg) = if a.enabled then a.rate else s.off
  fullScale : w.fs (regs.get ρ w.reg) = a.fullScale

/-- Only the state of this sensor differs. -/
structure Apart (obj : Object) (regs : Regs) (obj' : Object) (regs' : Regs) : Prop where
  object : w.others obj' = w.others obj
  registers : ∀ reg ≠ w.reg, regs' reg = regs reg
  fields : w.rest (regs'.get ρ w.reg) = w.rest (regs.get ρ w.reg)

/-- A call from state `a` that leads to `a'` if it succeeds. -/
structure Tried (a a' : SensorState O FS) (obj : Object) (regs : Regs) (r : Status × Object)
    (regs' : Regs) : Prop where
  apart : w.Apart obj regs r.2 regs'
  state : r.1 = .error ∧ w.Holds a r.2 regs' ∨ r.1 = .ok ∧ w.Holds a' r.2 regs'

/-- What a call leaves, and returns. -/
structure Served (F : FloatUnit) (c : Hal.SensorCall) (a : SensorState O FS) (obj : Object)
    (regs : Regs) (r : Hal.Reply × Object) (regs' : Regs) : Prop where
  apart : w.Apart obj regs r.2 regs'
  state : r.1 = .error ∧ w.Holds a r.2 regs' ∨
    r.1 = c.answer s F a ∧ w.Holds (c.apply s a) r.2 regs'

end Wiring

/-! ## Transactions without a trace -/

/-- A write that fails does nothing. -/
def Board.Clean (board : Board) : Prop := ∀ t f, board.fault t = some f → f.applied = false

variable {board : Board} {delay : Nat → Nat} {regs : Regs}

theorem peer_write_clean (hclean : board.Clean) {d : Imu} (h : Quiet regs d) {reg : Byte}
    (data : Byte) (hreg : reg ≠ ctrl3CReg) :
    let reply := Imu.peer board delay d (.write reg data)
    Quiet (if reply.1 = .ok then Function.update regs reg data else regs) reply.2 := by
  intro reply
  have hready : Ready board regs d := h.ready
  cases hf : board.fault d.tick with
  | none =>
      rw [show reply = _ from Imu.peer_write_ok hf reg data]
      exact (Quiet.store hready delay fun heq => absurd heq hreg).next
  | some f =>
      have hnot : ¬ f.applied = true := by
        rw [hclean _ _ hf]
        exact Bool.false_ne_true
      rw [show reply = _ from Imu.peer_write_fault hf reg data, if_neg hnot]
      exact Quiet.next hready

theorem setField_clean {ρ : Type} [Layout ρ] (hclean : board.Clean) {reg : Byte}
    (hreg : reg ≠ ctrl3CReg) (change : ρ → ρ) :
    Steps board delay (Quiet regs) (setField reg change) fun status regs' =>
      regs' = if status = .ok then regs.modify reg change else regs := by
  refine (Steps.of_quiet (Steps.readReg reg)).bind ?_
  rintro r regs' ⟨rfl, hbuf⟩
  by_cases hok : r.status = .ok
  · rw [if_pos hok, hbuf hok]
    intro d hd
    refine ⟨?_, _, peer_write_clean hclean hd _ hreg, rfl⟩
    intro e he
    rw [List.mem_singleton.mp he]
    rintro ⟨data, hcmd, -⟩
    exact hreg (Cmd.write.inj hcmd).1
  · rw [if_neg hok]
    exact Steps.ret (if_neg hok).symm

/-- A read that is decoded. -/
theorem readReg_decoded {ρ α : Type} [Layout ρ] {reg : Byte} (decode : ρ → α) :
    Steps board delay (Quiet regs)
      (readReg reg 1 >>= fun r => .ret (r.status, decode (Layout.ofByte (byteAt r.buf 0))))
      fun r regs' => regs' = regs ∧ (r.1 = .ok → r.2 = decode (regs.get ρ reg)) := by
  refine (Steps.of_quiet (Steps.readReg reg)).bind ?_
  rintro r regs' ⟨rfl, hbuf⟩
  apply Steps.ret
  refine ⟨rfl, fun hok => ?_⟩
  rw [hbuf hok]
  rfl

/-! ## The calls of one sensor -/

namespace Wiring

variable {O FS ρ : Type} [Layout ρ] {s : Hal.Switch O FS} {w : Wiring s ρ}
  {a a' : SensorState O FS} {obj obj' : Object}

theorem Apart.refl (w : Wiring s ρ) (obj : Object) (regs : Regs) : w.Apart obj regs obj regs :=
  ⟨rfl, fun _ _ => rfl, rfl⟩

theorem Apart.modify {change : ρ → ρ} (hobj : w.others obj' = w.others obj)
    (hrest : ∀ r, w.rest (change r) = w.rest r) :
    w.Apart obj regs obj' (regs.modify w.reg change) := by
  refine ⟨hobj, fun reg hne => regs.modify_of_ne hne change, ?_⟩
  rw [Regs.get_modify]
  exact hrest _

theorem Holds.enabled_of_flag (h : w.Holds a obj regs) (hflag : s.isEnabled obj = 1) :
    a.enabled = true := by
  cases henabled : a.enabled with
  | true => rfl
  | false =>
      have hzero := h.flag
      rw [henabled, hflag] at hzero
      exact absurd hzero (by decide)

theorem Holds.disabled_of_flag (h : w.Holds a obj regs) (hflag : s.isEnabled obj ≠ 1) :
    a.enabled = false := by
  cases henabled : a.enabled with
  | false => rfl
  | true =>
      have hone := h.flag
      rw [henabled] at hone
      exact absurd hone hflag

theorem dataRateSet_steps (w : Wiring s ρ) (hclean : board.Clean) (v : O) :
    Steps board delay (Quiet regs) (s.dataRateSet v) fun status regs' =>
      regs' = if status = .ok then regs.modify w.reg (w.setOdr v) else regs := by
  rw [w.dataRateSet_eq]
  exact setField_clean hclean w.reg_ne _

theorem fullScaleSet_steps (w : Wiring s ρ) (hclean : board.Clean) (v : FS) :
    Steps board delay (Quiet regs) (s.fullScaleSet v) fun status regs' =>
      regs' = if status = .ok then regs.modify w.reg (w.setFs v) else regs := by
  rw [w.fullScaleSet_eq]
  exact setField_clean hclean w.reg_ne _

/-- A setter and its successful return. -/
theorem Tried.check {p : BusProg Status} {change : ρ → ρ} {objError objOk : Object}
    (first : Steps board delay (Quiet regs) p fun status regs' =>
      regs' = if status = .ok then regs.modify w.reg change else regs)
    (hobjError : w.others objError = w.others obj) (hobjOk : w.others objOk = w.others obj)
    (hrest : ∀ r, w.rest (change r) = w.rest r) (herror : w.Holds a objError regs)
    (hok : w.Holds a' objOk (regs.modify w.reg change)) :
    Steps board delay (Quiet regs) (Ism330dlc.check p (.error, objError) (.ret (.ok, objOk)))
      (w.Tried a a' obj regs) := by
  refine first.bind ?_
  rintro status regs' rfl
  by_cases hstatus : status = .ok
  · rw [if_pos hstatus, if_pos hstatus]
    exact Steps.ret ⟨Apart.modify hobjOk hrest, Or.inr ⟨rfl, hok⟩⟩
  · rw [if_neg hstatus, if_neg hstatus]
    exact Steps.ret ⟨⟨hobjError, fun _ _ => rfl, rfl⟩, Or.inl ⟨rfl, herror⟩⟩

theorem enable_steps (hclean : board.Clean) (h : w.Holds a obj regs) :
    Steps board delay (Quiet regs) (s.enable obj)
      (w.Tried a { a with enabled := true } obj regs) := by
  unfold Hal.Sensor.enable
  by_cases hflag : s.isEnabled obj = 1
  · have hsame : { a with enabled := true } = a := by
      rw [← h.enabled_of_flag hflag]
    rw [if_pos hflag, hsame]
    exact Steps.ret ⟨Apart.refl w obj regs, Or.inr ⟨rfl, h⟩⟩
  · have hoff := h.disabled_of_flag hflag
    rw [if_neg hflag]
    refine Tried.check (w.dataRateSet_steps hclean _) rfl (w.others_markEnabled obj)
      (w.rest_setOdr _) h ?_
    refine ⟨w.isEnabled_markEnabled obj, nofun, ?_, ?_⟩
    · rw [Regs.get_modify, w.odr_setOdr, h.kept hoff]
      rfl
    · rw [Regs.get_modify, w.fs_setOdr]
      exact h.fullScale

theorem disable_steps (hclean : board.Clean) (h : w.Holds a obj regs) :
    Steps board delay (Quiet regs) (s.disable obj)
      (w.Tried a { a with enabled := false } obj regs) := by
  unfold Hal.Switch.disable
  by_cases hflag : s.isEnabled obj = 0
  · have hoff : a.enabled = false := h.disabled_of_flag (by rw [hflag]; decide)
    have hsame : { a with enabled := false } = a := by rw [← hoff]
    rw [if_pos hflag, hsame]
    exact Steps.ret ⟨Apart.refl w obj regs, Or.inr ⟨rfl, h⟩⟩
  · have hon : a.enabled = true := by
      cases henabled : a.enabled with
      | true => rfl
      | false =>
          have hzero := h.flag
          rw [henabled] at hzero
          exact absurd hzero hflag
    have hrate : w.odr (regs.get ρ w.reg) = a.rate := by
      rw [h.rate, if_pos hon]
    -- what the failed read leaves in the object is not used while the sensor is on
    have hkept : ∀ v, w.Holds a (s.keepOdr obj v) regs := by
      intro v
      refine ⟨?_, fun hoff => absurd hoff (by rw [hon]; decide), h.rate, h.fullScale⟩
      rw [s.isEnabled_keepOdr]
      exact h.flag
    rw [if_neg hflag, w.dataRateGet_eq]
    refine (readReg_decoded w.odr).bind ?_
    rintro ⟨status, v⟩ regs' ⟨rfl, hvalue⟩
    by_cases hstatus : status = .ok
    · rw [if_pos hstatus]
      refine Tried.check (w.dataRateSet_steps hclean _) (w.others_keepOdr obj v) ?_
        (w.rest_setOdr _) (hkept v) ?_
      · rw [w.others_markDisabled, w.others_keepOdr]
      · refine ⟨w.isEnabled_markDisabled _, fun _ => ?_, ?_, ?_⟩
        · rw [w.odr_markDisabled, s.odr_keepOdr]
          exact (hvalue hstatus).trans hrate
        · rw [Regs.get_modify, w.odr_setOdr]
          rfl
        · rw [Regs.get_modify, w.fs_setOdr]
          exact h.fullScale
    · rw [if_neg hstatus]
      exact Steps.ret ⟨⟨w.others_keepOdr obj v, fun _ _ => rfl, rfl⟩, Or.inl ⟨rfl, hkept v⟩⟩

theorem setOutputDataRate_steps (hclean : board.Clean) (h : w.Holds a obj regs) (odr : ℚ) :
    Steps board delay (Quiet regs) (s.setOutputDataRate obj odr)
      (w.Tried a { a with rate := s.odrOf odr } obj regs) := by
  unfold Hal.Sensor.setOutputDataRate
  by_cases hflag : s.isEnabled obj = 1
  · have hon := h.enabled_of_flag hflag
    rw [if_pos hflag]
    refine Tried.check (w.dataRateSet_steps hclean _) rfl rfl (w.rest_setOdr _) h ?_
    refine ⟨h.flag, fun hoff => absurd hoff (by rw [hon]; decide), ?_, ?_⟩
    · rw [Regs.get_modify, w.odr_setOdr]
      exact (if_pos hon).symm
    · rw [Regs.get_modify, w.fs_setOdr]
      exact h.fullScale
  · have hoff := h.disabled_of_flag hflag
    rw [if_neg hflag]
    refine Steps.ret ⟨⟨w.others_keepOdr obj _, fun _ _ => rfl, rfl⟩, Or.inr ⟨rfl, ?_⟩⟩
    refine ⟨?_, fun _ => s.odr_keepOdr obj _, ?_, h.fullScale⟩
    · rw [s.isEnabled_keepOdr]
      exact h.flag
    · rw [h.rate, hoff]
      rfl

theorem setFullScale_steps (hclean : board.Clean) (h : w.Holds a obj regs) (fullScale : ℤ) :
    Steps board delay (Quiet regs) (s.setFullScale fullScale) fun status regs' =>
      w.Tried a { a with fullScale := s.fsOf fullScale } obj regs (status, obj) regs' := by
  unfold Hal.Sensor.setFullScale check
  refine (w.fullScaleSet_steps hclean _).bind ?_
  rintro status regs' rfl
  by_cases hstatus : status = .ok
  · rw [if_pos hstatus, if_pos hstatus]
    refine Steps.ret ⟨Apart.modify rfl (w.rest_setFs _), Or.inr ⟨rfl, h.flag, h.kept, ?_, ?_⟩⟩
    · rw [Regs.get_modify, w.odr_setFs]
      exact h.rate
    · rw [Regs.get_modify, w.fs_setFs]
  · rw [if_neg hstatus, if_neg hstatus]
    exact Steps.ret ⟨Apart.refl w obj regs, Or.inl ⟨rfl, h⟩⟩

/-- The getters read the register and look the code up. -/
theorem getter_steps {α β : Type} {get : BusProg (Status × α)} {decode : ρ → α}
    (hget : get = readReg w.reg 1 >>= fun r =>
      .ret (r.status, decode (Layout.ofByte (byteAt r.buf 0)))) (value : α → Option β) :
    Steps board delay (Quiet regs)
      (get >>= fun r => if r.1 = .ok then .ret (value r.2) else .ret none) fun v regs' =>
        regs' = regs ∧ (v = none ∨ v = value (decode (regs.get ρ w.reg))) := by
  rw [hget]
  refine (readReg_decoded decode).bind ?_
  rintro ⟨status, v⟩ regs' ⟨rfl, hvalue⟩
  by_cases hstatus : status = .ok
  · rw [if_pos hstatus]
    exact Steps.ret ⟨rfl, Or.inr (congrArg value (hvalue hstatus))⟩
  · rw [if_neg hstatus]
    exact Steps.ret ⟨rfl, Or.inl rfl⟩

/-- A call that changes the state. -/
theorem Tried.served {F : FloatUnit} {c : Hal.SensorCall} {p : BusProg (Status × Object)}
    (h : Steps board delay (Quiet regs) p (w.Tried a (c.apply s a) obj regs))
    (hanswer : c.answer s F a = .ok) :
    Steps board delay (Quiet regs) (p >>= fun r => .ret (Hal.Reply.ofStatus r.1, r.2))
      (w.Served F c a obj regs) := by
  refine h.bind ?_
  rintro ⟨status, obj'⟩ regs' ⟨hapart, hstate⟩
  apply Steps.ret
  refine ⟨hapart, ?_⟩
  rcases hstate with ⟨rfl, hholds⟩ | ⟨rfl, hholds⟩
  · exact Or.inl ⟨rfl, hholds⟩
  · exact Or.inr ⟨hanswer.symm, hholds⟩

/-- A call that returns a value. -/
theorem Served.of_value {F : FloatUnit} {c : Hal.SensorCall} {β : Type} {p : BusProg (Option β)}
    {expected : Option β} (reply : Option β → Hal.Reply) (h : w.Holds a obj regs)
    (hp : Steps board delay (Quiet regs) p fun v regs' =>
      regs' = regs ∧ (v = none ∨ v = expected))
    (hnone : reply none = .error) (hanswer : c.answer s F a = reply expected)
    (happly : c.apply s a = a) :
    Steps board delay (Quiet regs) (p >>= fun v => .ret (reply v, obj))
      (w.Served F c a obj regs) := by
  refine hp.bind ?_
  rintro v regs' ⟨rfl, hv⟩
  apply Steps.ret
  refine ⟨Apart.refl w obj regs', ?_⟩
  rcases hv with rfl | rfl
  · exact Or.inl ⟨hnone, h⟩
  · rw [happly]
    exact Or.inr ⟨hanswer.symm, h⟩

theorem call_steps (hclean : board.Clean) (F : FloatUnit) (h : w.Holds a obj regs)
    (c : Hal.SensorCall) : Steps board delay (Quiet regs) (s.call F c obj)
      (w.Served F c a obj regs) := by
  cases c with
  | enable => exact Tried.served (enable_steps hclean h) rfl
  | disable => exact Tried.served (disable_steps hclean h) rfl
  | setOutputDataRate odr => exact Tried.served (setOutputDataRate_steps hclean h odr) rfl
  | setFullScale fullScale =>
      refine (setFullScale_steps hclean h fullScale).bind ?_
      rintro status regs' ⟨hapart, hstate⟩
      apply Steps.ret
      refine ⟨hapart, ?_⟩
      rcases hstate with ⟨rfl, hholds⟩ | ⟨rfl, hholds⟩
      · exact Or.inl ⟨rfl, hholds⟩
      · exact Or.inr ⟨rfl, hholds⟩
  | getOutputDataRate =>
      refine Served.of_value Hal.Reply.ofValue h
        (getter_steps w.dataRateGet_eq fun odr => (s.rate odr).map F.round) rfl ?_ rfl
      rw [h.rate]
      rfl
  | getFullScale =>
      refine Served.of_value (fun v => .ofValue (v.map Int.cast)) h
        (getter_steps w.fullScaleGet_eq s.range) rfl ?_ rfl
      rw [h.fullScale]
      rfl
  | getSensitivity =>
      refine Served.of_value Hal.Reply.ofValue h
        (getter_steps w.fullScaleGet_eq fun fs => (s.sensitivity fs).map F.round) rfl ?_ rfl
      rw [h.fullScale]
      rfl

end Wiring

/-! ## Calls that fail -/

theorem readReg_tells (reg : Byte) (len : ℕ) :
    Tells Rejected (fun r : ReadResult len => r.status = .ok) (readReg reg len) := by
  refine @Tells.request Cmd Resp Rejected (.read reg len) (fun resp => resp.status = .ok) ?_
  intro resp
  cases h : resp.status <;> simp [Rejected, h]

theorem writeReg_tells (reg data : Byte) :
    Tells Rejected (· = Status.ok) (writeReg reg data) := by
  refine @Tells.request Cmd Resp Rejected (.write reg data) (fun status => status = .ok) ?_
  intro status
  cases status <;> simp [Rejected]

theorem setField_tells {ρ : Type} [Layout ρ] (reg : Byte) (change : ρ → ρ) :
    Tells Rejected (· = Status.ok) (setField reg change) := by
  apply (readReg_tells reg 1).bind
  · intro r hok
    rw [if_pos hok]
    exact writeReg_tells reg _
  · intro r hbad
    rw [if_neg hbad]
    exact Returns.ret hbad

theorem check_tells {α : Type} {ok : α → Prop} {p : BusProg Status} {onError : α}
    {rest : BusProg α} (first : Tells Rejected (· = Status.ok) p) (herror : ¬ ok onError)
    (hrest : Tells Rejected ok rest) : Tells Rejected ok (check p onError rest) := by
  apply first.bind
  · intro status hok
    rw [if_pos hok]
    exact hrest
  · intro status hbad
    rw [if_neg hbad]
    exact Returns.ret herror

theorem checkObj_tells {σ α : Type} {ok : α → Prop} {p : BusProg (Status × σ)}
    {onError : σ → α} {rest : σ → BusProg α} (first : Tells Rejected (fun r => r.1 = .ok) p)
    (herror : ∀ obj, ¬ ok (onError obj)) (hrest : ∀ obj, Tells Rejected ok (rest obj)) :
    Tells Rejected ok (checkObj p onError rest) := by
  apply first.bind
  · intro r hok
    rw [if_pos hok]
    exact hrest r.2
  · intro r hbad
    rw [if_neg hbad]
    exact Returns.ret (herror r.2)

theorem Hal.Reply.ofStatus_ne_error (status : Status) :
    Hal.Reply.ofStatus status ≠ .error ↔ status = .ok := by
  cases status <;> simp [Hal.Reply.ofStatus]

namespace Wiring

variable {O FS ρ : Type} [Layout ρ] {s : Hal.Switch O FS}

theorem dataRateSet_tells (w : Wiring s ρ) (v : O) : Tells Rejected (· = Status.ok) (s.dataRateSet v) := by
  rw [w.dataRateSet_eq]
  exact setField_tells w.reg _

theorem enable_tells (w : Wiring s ρ) (obj : Object) :
    Tells Rejected (fun r => r.1 = .ok) (s.enable obj) := by
  unfold Hal.Sensor.enable
  split
  · exact Tells.ret rfl
  · exact check_tells (w.dataRateSet_tells _) nofun (Tells.ret rfl)

theorem disable_tells (w : Wiring s ρ) (obj : Object) :
    Tells Rejected (fun r => r.1 = .ok) (s.disable obj) := by
  unfold Hal.Switch.disable
  split
  · exact Tells.ret rfl
  · have hget : Tells Rejected (fun r => r.1 = .ok) s.dataRateGet := by
      rw [w.dataRateGet_eq]
      exact (readReg_tells w.reg 1).map fun _ => Iff.rfl
    apply hget.bind
    · intro r hok
      rw [if_pos hok]
      exact check_tells (w.dataRateSet_tells _) nofun (Tells.ret rfl)
    · intro r hbad
      rw [if_neg hbad]
      exact Returns.ret nofun

theorem setOutputDataRate_tells (w : Wiring s ρ) (obj : Object) (odr : ℚ) :
    Tells Rejected (fun r => r.1 = .ok) (s.setOutputDataRate obj odr) := by
  unfold Hal.Sensor.setOutputDataRate
  split
  · exact check_tells (w.dataRateSet_tells _) nofun (Tells.ret rfl)
  · exact Tells.ret rfl

theorem setFullScale_tells (w : Wiring s ρ) (fullScale : ℤ) :
    Tells Rejected (· = Status.ok) (s.setFullScale fullScale) := by
  unfold Hal.Sensor.setFullScale
  rw [w.fullScaleSet_eq]
  exact check_tells (setField_tells w.reg _) nofun (Tells.ret rfl)

/-- A getter whose table knows every code. -/
theorem getter_tells (w : Wiring s ρ) {α β : Type} {get : BusProg (Status × α)}
    {decode : ρ → α} (hget : get = readReg w.reg 1 >>= fun r =>
      .ret (r.status, decode (Layout.ofByte (byteAt r.buf 0))))
    (value : α → Option β) (hvalue : ∀ r, (value (decode r)).isSome) :
    Tells Rejected (fun v => v.isSome = true)
      (get >>= fun r => if r.1 = .ok then .ret (value r.2) else .ret none) := by
  rw [hget, Prog.bind_assoc]
  apply (readReg_tells w.reg 1).bind
  · intro r hok
    rw [Prog.ret_bind, if_pos hok]
    exact Tells.ret (hvalue _)
  · intro r hbad
    rw [Prog.ret_bind, if_neg hbad]
    exact Returns.ret nofun

/-- A call returns an error exactly when one of its transactions does. -/
theorem call_tells (w : Wiring s ρ) (obj : Object) (F : FloatUnit) (c : Hal.SensorCall) :
    Tells Rejected (fun r => r.1 ≠ .error) (s.call F c obj) := by
  cases c with
  | enable => exact (w.enable_tells obj).map fun r => Hal.Reply.ofStatus_ne_error r.1
  | disable => exact (w.disable_tells obj).map fun r => Hal.Reply.ofStatus_ne_error r.1
  | setOutputDataRate odr =>
      exact (w.setOutputDataRate_tells obj odr).map fun r => Hal.Reply.ofStatus_ne_error r.1
  | setFullScale fullScale =>
      exact (w.setFullScale_tells fullScale).map fun r => Hal.Reply.ofStatus_ne_error r
  | getOutputDataRate =>
      refine (w.getter_tells w.dataRateGet_eq (fun odr => (s.rate odr).map F.round)
        fun r => ?_).map fun v => ?_
      · rw [Option.isSome_map]
        exact w.rate_isSome _
      · cases v <;> simp [Hal.Reply.ofValue]
  | getFullScale =>
      refine (w.getter_tells w.fullScaleGet_eq s.range w.range_isSome).map fun v => ?_
      cases v <;> simp [Hal.Reply.ofValue]
  | getSensitivity =>
      refine (w.getter_tells w.fullScaleGet_eq (fun fs => (s.sensitivity fs).map F.round)
        fun r => ?_).map fun v => ?_
      · rw [Option.isSome_map]
        exact w.sensitivity_isSome _
      · cases v <;> simp [Hal.Reply.ofValue]

end Wiring

theorem halCall_tells (F : FloatUnit) (c : Hal.Call) (obj : Object) :
    Tells Rejected (fun r => r.1 ≠ .error) (Hal.call F c obj) := by
  cases c with
  | acc c => exact accWiring.call_tells obj F c
  | gyro c => exact gyroWiring.call_tells obj F c
  | deInit =>
      have hdeInit : Tells Rejected (fun r => r.1 = Status.ok) (Hal.deInit obj) := by
        refine checkObj_tells (accWiring.disable_tells obj) (fun _ => nofun) fun obj => ?_
        refine checkObj_tells (gyroWiring.disable_tells obj) (fun _ => nofun) fun obj => ?_
        exact Tells.ret rfl
      exact hdeInit.map fun r => Hal.Reply.ofStatus_ne_error r.1

/-! ## Both sensors -/

/-- The registers the calls do not touch. -/
structure Untouched (regs regs' : Regs) : Prop where
  others : ∀ reg, reg ≠ ctrl1XlReg → reg ≠ ctrl2GReg → regs' reg = regs reg
  acc : accWiring.rest (regs'.get Ctrl1Xl ctrl1XlReg) = accWiring.rest (regs.get Ctrl1Xl ctrl1XlReg)
  gyro : gyroWiring.rest (regs'.get Ctrl2G ctrl2GReg) = gyroWiring.rest (regs.get Ctrl2G ctrl2GReg)

structure HalHolds (a : HalState) (obj : Object) (regs : Regs) : Prop where
  acc : accWiring.Holds a.acc obj regs
  gyro : gyroWiring.Holds a.gyro obj regs

section Both

variable {a a' : HalState} {obj obj' : Object} {regs' regs'' : Regs}

theorem Untouched.refl (regs : Regs) : Untouched regs regs := ⟨fun _ _ _ => rfl, rfl, rfl⟩

theorem Untouched.trans (h : Untouched regs regs') (h' : Untouched regs' regs'') :
    Untouched regs regs'' :=
  ⟨fun reg hacc hgyro => (h'.others reg hacc hgyro).trans (h.others reg hacc hgyro),
    h'.acc.trans h.acc, h'.gyro.trans h.gyro⟩

theorem regs_get_congr {ρ : Type} [Layout ρ] {reg : Byte} (h : regs' reg = regs reg) :
    regs'.get ρ reg = regs.get ρ reg := by
  rw [Regs.get, h]
  rfl

/-- The accelerometer's calls leave the gyroscope alone. -/
theorem gyro_of_accApart (h : accWiring.Apart obj regs obj' regs') :
    Untouched regs regs' ∧
      (gyroWiring.Holds a.gyro obj regs → gyroWiring.Holds a.gyro obj' regs') := by
  have hreg : regs'.get Ctrl2G ctrl2GReg = regs.get Ctrl2G ctrl2GReg :=
    regs_get_congr (h.registers ctrl2GReg (by decide))
  have hflag : obj'.gyroIsEnabled = obj.gyroIsEnabled := by
    have hsame := congrArg Object.gyroIsEnabled h.object
    exact hsame
  have hodr : obj'.gyroOdr = obj.gyroOdr := by
    have hsame := congrArg Object.gyroOdr h.object
    exact hsame
  refine ⟨⟨fun reg hne _ => h.registers reg hne, h.fields, by rw [hreg]⟩, fun hholds => ?_⟩
  refine ⟨hflag.trans hholds.flag, fun hoff => hodr.trans (hholds.kept hoff), ?_, ?_⟩
  · exact (congrArg gyroWiring.odr hreg).trans hholds.rate
  · exact (congrArg gyroWiring.fs hreg).trans hholds.fullScale

theorem acc_of_gyroApart (h : gyroWiring.Apart obj regs obj' regs') :
    Untouched regs regs' ∧ (accWiring.Holds a.acc obj regs → accWiring.Holds a.acc obj' regs') := by
  have hreg : regs'.get Ctrl1Xl ctrl1XlReg = regs.get Ctrl1Xl ctrl1XlReg :=
    regs_get_congr (h.registers ctrl1XlReg (by decide))
  have hflag : obj'.accIsEnabled = obj.accIsEnabled := by
    have hsame := congrArg Object.accIsEnabled h.object
    exact hsame
  have hodr : obj'.accOdr = obj.accOdr := by
    have hsame := congrArg Object.accOdr h.object
    exact hsame
  refine ⟨⟨fun reg _ hne => h.registers reg hne, by rw [hreg], h.fields⟩, fun hholds => ?_⟩
  refine ⟨hflag.trans hholds.flag, fun hoff => hodr.trans (hholds.kept hoff), ?_, ?_⟩
  · exact (congrArg accWiring.odr hreg).trans hholds.rate
  · exact (congrArg accWiring.fs hreg).trans hholds.fullScale

/-- What a call from state `a` leaves, and returns. -/
structure Handled (F : FloatUnit) (c : Hal.Call) (a : HalState) (regs : Regs)
    (r : Hal.Reply × Object) (regs' : Regs) : Prop where
  untouched : Untouched regs regs'
  state : (r.1 = .error ∧ ∃ a', c.Failed a a' ∧ HalHolds a' r.2 regs') ∨
    r.1 = c.answer F a ∧ HalHolds (c.apply a) r.2 regs'

/-- Both sensors off, without a rate to come back to. -/
theorem HalHolds.forget (h : HalHolds a obj regs) (hacc : a.acc.enabled = false)
    (hgyro : a.gyro.enabled = false) :
    HalHolds (Hal.Call.deInit.apply a)
      { obj with accOdr := .off, gyroOdr := .off, isInitialized := 0 } regs := by
  have hflags : obj.accIsEnabled = 0 ∧ obj.gyroIsEnabled = 0 := by
    have haccFlag := h.acc.flag
    have hgyroFlag := h.gyro.flag
    rw [hacc] at haccFlag
    rw [hgyro] at hgyroFlag
    exact ⟨haccFlag, hgyroFlag⟩
  constructor
  · refine ⟨hflags.1, fun _ => rfl, ?_, h.acc.fullScale⟩
    rw [h.acc.rate, hacc]
    rfl
  · refine ⟨hflags.2, fun _ => rfl, ?_, h.gyro.fullScale⟩
    rw [h.gyro.rate, hgyro]
    rfl

theorem deInit_steps (hclean : board.Clean) (F : FloatUnit) (h : HalHolds a obj regs) :
    Steps board delay (Quiet regs) (Hal.call F .deInit obj) (Handled F .deInit a regs) := by
  unfold Hal.call Hal.deInit checkObj
  refine Steps.bind (Q := fun r regs' => Handled F .deInit a regs (.ofStatus r.1, r.2) regs') ?_
    fun _ _ hhandled => Steps.ret hhandled
  refine (Wiring.disable_steps hclean h.acc).bind ?_
  rintro ⟨status, first⟩ regs' ⟨hapart, hstate⟩
  obtain ⟨huntouched, hother⟩ := gyro_of_accApart (a := a) hapart
  rcases hstate with ⟨rfl, hacc⟩ | ⟨rfl, hacc⟩
  · exact Steps.ret ⟨huntouched, Or.inl ⟨rfl, a, Or.inl rfl, hacc, hother h.gyro⟩⟩
  · rw [if_pos rfl]
    refine (Wiring.disable_steps hclean (hother h.gyro)).bind ?_
    rintro ⟨status, second⟩ regs'' ⟨hapart', hstate'⟩
    obtain ⟨huntouched', hother'⟩ := acc_of_gyroApart
      (a := { a with acc := { a.acc with enabled := false } }) hapart'
    have hall := huntouched.trans huntouched'
    rcases hstate' with ⟨rfl, hgyro⟩ | ⟨rfl, hgyro⟩
    · exact Steps.ret ⟨hall, Or.inl ⟨rfl, _, Or.inr ⟨rfl, rfl⟩, hother' hacc, hgyro⟩⟩
    · rw [if_pos rfl]
      refine Steps.ret ⟨hall, Or.inr ⟨rfl, ?_⟩⟩
      have hoff : HalHolds ⟨{ a.acc with enabled := false }, { a.gyro with enabled := false }⟩
          second regs'' := ⟨hother' hacc, hgyro⟩
      exact hoff.forget rfl rfl

theorem halCall_steps (hclean : board.Clean) (F : FloatUnit) (h : HalHolds a obj regs)
    (c : Hal.Call) :
    Steps board delay (Quiet regs) (Hal.call F c obj) (Handled F c a regs) := by
  cases c with
  | acc c =>
      intro d hd
      obtain ⟨hlog, regs', hquiet, hapart, hstate⟩ := Wiring.call_steps hclean F h.acc c d hd
      obtain ⟨huntouched, hother⟩ := gyro_of_accApart (a := a) hapart
      refine ⟨hlog, regs', hquiet, huntouched, ?_⟩
      rcases hstate with ⟨herror, hacc⟩ | ⟨hanswer, hacc⟩
      · exact Or.inl ⟨herror, a, Or.inl rfl, hacc, hother h.gyro⟩
      · exact Or.inr ⟨hanswer, hacc, hother h.gyro⟩
  | gyro c =>
      intro d hd
      obtain ⟨hlog, regs', hquiet, hapart, hstate⟩ := Wiring.call_steps hclean F h.gyro c d hd
      obtain ⟨huntouched, hother⟩ := acc_of_gyroApart (a := a) hapart
      refine ⟨hlog, regs', hquiet, huntouched, ?_⟩
      rcases hstate with ⟨herror, hgyro⟩ | ⟨hanswer, hgyro⟩
      · exact Or.inl ⟨herror, a, Or.inl rfl, hother h.acc, hgyro⟩
      · exact Or.inr ⟨hanswer, hother h.acc, hgyro⟩
  | deInit => exact deInit_steps hclean F h

/-- A call that can only fail leaves the state alone. -/
theorem apply_of_answer_error {F : FloatUnit} {c : Hal.Call} (h : c.answer F a = .error) :
    c.apply a = a := by
  cases c with
  | acc c | gyro c =>
      cases c with
      | enable | disable | setOutputDataRate odr | setFullScale fullScale => cases h
      | getOutputDataRate | getFullScale | getSensitivity => rfl
  | deInit => cases h

/-- A call is explained by what it returned. -/
theorem halCall_explained (hclean : board.Clean) (delay : Nat → Nat) (F : FloatUnit)
    (h : HalHolds a obj regs) (c : Hal.Call) {d : Imu} (hd : Quiet regs d) :
    let o := run (Imu.peer board delay) (Hal.call F c obj) d
    ∃ regs' a', Quiet regs' o.state ∧ Untouched regs regs' ∧ HalHolds a' o.value.2 regs' ∧
      ∀ es b, Hal.Explains F a' es b → Hal.Explains F a (⟨c, o.log, o.value.1⟩ :: es) b := by
  intro o
  have htells := halCall_tells F c obj (Imu.peer board delay) d
  obtain ⟨-, regs', hquiet, huntouched, hstate⟩ := halCall_steps hclean F h c d hd
  have hrejected : o.value.1 = .error → ∃ x ∈ o.log, Rejected x := by
    intro herror
    by_contra hnone
    push Not at hnone
    exact htells.mpr hnone herror
  by_cases herror : o.value.1 = .error
  · obtain ⟨a', hfailed, hholds⟩ : ∃ a', c.Failed a a' ∧ HalHolds a' o.value.2 regs' := by
      rcases hstate with ⟨-, hfailed⟩ | ⟨hanswer, hholds⟩
      · exact hfailed
      · rw [apply_of_answer_error (hanswer.symm.trans herror)] at hholds
        exact ⟨a, Or.inl rfl, hholds⟩
    exact ⟨regs', a', hquiet, huntouched, hholds, fun es b hexplains =>
      .failed (hrejected herror) herror hfailed hexplains⟩
  · obtain ⟨hanswer, hholds⟩ := hstate.resolve_left fun hbad => herror hbad.1
    exact ⟨regs', c.apply a, hquiet, huntouched, hholds, fun es b hexplains =>
      .done (htells.mp herror) herror hanswer hexplains⟩

/-- So is every sequence of calls. -/
theorem halCalls_explained (hclean : board.Clean) (delay : Nat → Nat) (F : FloatUnit)
    (cs : List Hal.Call) (h : HalHolds a obj regs) {d : Imu} (hd : Quiet regs d) :
    let peer := Imu.peer board delay
    let last := afterCalls (Hal.call F) peer cs obj d
    ∃ regs' b, Quiet regs' last.2 ∧ Untouched regs regs' ∧ HalHolds b last.1 regs' ∧
      Hal.Explains F a (runCalls (Hal.call F) peer cs obj d) b := by
  induction cs generalizing a obj regs d with
  | nil => exact ⟨regs, a, hd, Untouched.refl regs, h, .nil a⟩
  | cons c cs ih =>
      obtain ⟨regs', a', hquiet, huntouched, hholds, hexplain⟩ :=
        halCall_explained hclean delay F h c hd
      obtain ⟨regs'', b, hquiet', huntouched', hlast, hrest⟩ := ih hholds hquiet
      exact ⟨regs'', b, hquiet', huntouched.trans huntouched', hlast, hexplain _ b hrest⟩

end Both

/-! ## After the initialization -/

namespace Driver

/-- The state that `ism330dlc_init` leaves. -/
def configuredState (F : FloatUnit) (cfg : Config) : HalState where
  acc := ⟨true, Hal.accOdrOf (F.round cfg.accelOdr), Hal.accFsOf cfg.accelRange⟩
  gyro := ⟨true, Hal.gyroOdrOf (F.round cfg.gyroOdr), Hal.gyroFsOf cfg.gyroRange⟩

theorem configured_swReset (F : FloatUnit) (cfg : Config) (board : Board) :
    (configured F cfg board.defaults).swReset = 0 := by
  rw [Regs.swReset, (configured_spec F cfg board.defaults).ctrl3C]
  exact board.defaults_swReset

theorem configured_holds (F : FloatUnit) (cfg : Config) (defaults : Regs) {obj : Object}
    (hacc : obj.accIsEnabled = 1) (hgyro : obj.gyroIsEnabled = 1) :
    HalHolds (configuredState F cfg) obj (configured F cfg defaults) := by
  have hctrl1 : (configured F cfg defaults).get Ctrl1Xl ctrl1XlReg =
      { defaults.initialized.get Ctrl1Xl ctrl1XlReg with
        odrXl := BitVec.ofNat 4 (Hal.accOdrOf (F.round cfg.accelOdr)).code
        fsXl := BitVec.ofNat 2 (Hal.accFsOf cfg.accelRange).code } := by
    simp (disch := decide) only [configured, Regs.get_modify, Regs.get_modify_of_ne]
  have hctrl2 : (configured F cfg defaults).get Ctrl2G ctrl2GReg =
      { defaults.initialized.get Ctrl2G ctrl2GReg with
        odrG := BitVec.ofNat 4 (Hal.gyroOdrOf (F.round cfg.gyroOdr)).code
        fsG := BitVec.ofNat 3 (Hal.gyroFsOf cfg.gyroRange).code } := by
    simp (disch := decide) only [configured, Regs.get_modify, Regs.get_modify_of_ne]
  constructor
  · refine ⟨hacc, fun hoff => Bool.noConfusion hoff, ?_, ?_⟩
    · exact (congrArg accWiring.odr hctrl1).trans (decodeOdrXl_code _)
    · exact (congrArg accWiring.fs hctrl1).trans (decodeFsXl_code (accFsOf_ne _))
  · refine ⟨hgyro, fun hoff => Bool.noConfusion hoff, ?_, ?_⟩
    · exact (congrArg gyroWiring.odr hctrl2).trans (decodeOdrG_code _)
    · exact (congrArg gyroWiring.fs hctrl2).trans (decodeFsG_code _)

theorem init_configures (F : FloatUnit) (board : Board) {delay : Nat → Nat} (cfg : Config)
    (busReady : Bool) (data : Data) {d : Imu} (hdelay : delay (d.tick + 2) = 0) :
    let o := run (Imu.peer board delay) (init F cfg busReady data) d
    o.value.1 = .ok () →
      Quiet (configured F cfg board.defaults) o.state ∧
        HalHolds (configuredState F cfg) o.value.2.obj (configured F cfg board.defaults) := by
  intro o hok
  cases busReady with
  | false => cases hok
  | true =>
      have hrun : o = _ := init_run (Imu.peer board delay) F cfg data d
      by_cases hid : (Imu.peer board delay d (.read whoAmIReg 1)).1.status = .ok ∧
          byteAt (Imu.peer board delay d (.read whoAmIReg 1)).1.buf 0 = ism330dlcId
      · rw [if_pos hid] at hrun
        rw [hrun] at hok ⊢
        have hreset : delay ((Imu.peer board delay d (.read whoAmIReg 1)).2.tick + 1) = 0 := by
          rw [Imu.peer_tick]
          exact hdelay
        obtain ⟨hpending, hregs, hacc, hgyro⟩ :=
          setup_configures board hreset F cfg (unidentified data) hok
        exact ⟨⟨hpending, hregs, configured_swReset F cfg board⟩,
          configured_holds F cfg board.defaults hacc hgyro⟩
      · rw [if_neg hid] at hrun
        rw [hrun] at hok
        cases hok

/-- The run of `ism330dlc_init`. -/
def initRun (F : FloatUnit) (board : Board) (delay : Nat → Nat) (cfg : Config) (busReady : Bool)
    (data : Data) (d : Imu) : Outcome Cmd Resp Imu (Except Errno Unit × Data) :=
  run (Imu.peer board delay) (init F cfg busReady data) d

/-- Any sequence of calls after an initialization that returns zero, on a bus where a failed
write does nothing and with a software reset that is over by the transaction after the one that
asks for it. -/
theorem halCalls_after_init (F : FloatUnit) (board : Board) (hclean : board.Clean)
    (delay : Nat → Nat) (cfg : Config) (busReady : Bool) (data : Data) (d : Imu)
    (hreset : delay (d.tick + 2) = 0) (cs : List Hal.Call)
    (hok : (initRun F board delay cfg busReady data d).value.1 = .ok ()) :
    let o := initRun F board delay cfg busReady data d
    let entries := runCalls (Hal.call F) (Imu.peer board delay) cs o.value.2.obj o.state
    let last := afterCalls (Hal.call F) (Imu.peer board delay) cs o.value.2.obj o.state
    Untouched o.state.regs last.2.regs ∧
      ∃ b, Hal.Explains F (configuredState F cfg) entries b ∧
        HalHolds b last.1 last.2.regs := by
  intro o entries last
  obtain ⟨hquiet, hholds⟩ := init_configures F board cfg busReady data hreset hok
  obtain ⟨regs, b, hquiet', huntouched, hlast, hexplains⟩ :=
    halCalls_explained hclean delay F cs hholds hquiet
  have hbefore : o.state.regs = configured F cfg board.defaults := hquiet.regs_eq
  have hafter : last.2.regs = regs := hquiet'.regs_eq
  rw [hbefore, hafter]
  exact ⟨huntouched, b, hexplains, hlast⟩

/-- The accelerometer is switched off and on again at another rate; then the bus fails once. -/
def switched : List Hal.Call :=
  [.acc .disable, .acc (.setOutputDataRate 26), .acc .enable, .acc .getOutputDataRate,
    .gyro .getFullScale, .acc .getSensitivity, .gyro .getSensitivity]

/-- A chip whose bus fails once. -/
def faultAt (tick : Nat) : Board :=
  { faultlessBoard with fault := fun t => if t = tick then some ⟨fun _ => 0xFF, false⟩ else none }

theorem faultAt_clean (tick : Nat) : (faultAt tick).Clean := by
  intro t f hf
  obtain ⟨-, hsome⟩ := (Option.ite_none_right_eq_some ..).mp hf
  rw [← Option.some.inj hsome]

/-- A chip just switched on. -/
def freshChip : Imu :=
  ⟨chipDefaults, none, 0⟩

theorem halCalls_after_init_switched :
    let o := initRun (FloatArith.exact 24) (faultAt 32) (fun _ => 0) ⟨104, 4, 104, 500⟩ true
      Data.zeroed freshChip
    let entries := runCalls (Hal.call (FloatArith.exact 24)) (Imu.peer (faultAt 32) fun _ => 0)
      switched o.value.2.obj o.state
    let last := afterCalls (Hal.call (FloatArith.exact 24)) (Imu.peer (faultAt 32) fun _ => 0)
      switched o.value.2.obj o.state
    (entries.map Entry.result =
        [.ok, .ok, .ok, .value 26, .value 500, .error, .value (17500 / 1000)]) ∧
      Untouched o.state.regs last.2.regs ∧
      ∃ b, Hal.Explains (FloatArith.exact 24)
          (configuredState (FloatArith.exact 24) ⟨104, 4, 104, 500⟩) entries b ∧
        HalHolds b last.1 last.2.regs := by
  refine And.intro ?_ (halCalls_after_init (FloatArith.exact 24) (faultAt 32) (faultAt_clean 32)
    (fun _ => 0) ⟨104, 4, 104, 500⟩ true Data.zeroed freshChip rfl switched ?_)
  · decide +kernel
  · decide +kernel

end Driver

end N6Samples.Ism330dlc
