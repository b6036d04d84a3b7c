import Mathlib.Tactic.NormNum
import N6Samples.Imu.Configuration

/-! # What initialization establishes

With a reset that is over by the next transaction, a run of the initialization
that returns zero leaves the devicetree configuration on top of the reset
defaults, for every prior device and object and every pattern of bus failures.
-/

namespace N6Samples.Ism330dlc

open Transaction Rounding FirstFit

/-! ## Supported rates and ranges -/

/-- The rates both sensors support, in Hz. -/
def supportedRates : List ℚ := [25 / 2, 26, 52, 104, 208, 416, 833, 1660, 3330, 6660]

def supportedAccRanges : List ℤ := [2, 4, 8, 16]

def supportedGyroRanges : List ℤ := [125, 250, 500, 1000, 2000]

def OdrXl.hz : OdrXl → ℚ
  | .off => 0
  | .odr12Hz5 => 25 / 2
  | .odr26Hz => 26
  | .odr52Hz => 52
  | .odr104Hz => 104
  | .odr208Hz => 208
  | .odr416Hz => 416
  | .odr833Hz => 833
  | .odr1k66Hz => 1660
  | .odr3k33Hz => 3330
  | .odr6k66Hz => 6660
  | .odr1Hz6 => 8 / 5

def OdrG.hz : OdrG → ℚ
  | .off => 0
  | .odr12Hz5 => 25 / 2
  | .odr26Hz => 26
  | .odr52Hz => 52
  | .odr104Hz => 104
  | .odr208Hz => 208
  | .odr416Hz => 416
  | .odr833Hz => 833
  | .odr1k66Hz => 1660
  | .odr3k33Hz => 3330
  | .odr6k66Hz => 6660

/-- The range of a full scale in g; the error code has none. -/
def FsXl.range : FsXl → ℤ
  | .fs2g => 2
  | .fs4g => 4
  | .fs8g => 8
  | .fs16g => 16
  | .xlFsNd => 0

def FsG.range : FsG → ℤ
  | .fs125dps => 125
  | .fs250dps => 250
  | .fs500dps => 500
  | .fs1000dps => 1000
  | .fs2000dps => 2000

theorem round_le_rate_iff (F : FloatUnit) (n : ℤ) {t : ℚ} (ht : t ∈ supportedRates) :
    F.round n ≤ t ↔ (n : ℚ) ≤ t := by
  have hhalf : ⌊(25 / 2 : ℚ)⌋ = 12 := by rw [Int.floor_eq_iff]; norm_num
  have hint : ∀ m : ℤ, |m| < 2 ^ 24 → |m + 1| < 2 ^ 24 → (F.round n ≤ m ↔ (n : ℚ) ≤ m) := by
    intro m hm hnext
    refine F.round_int_le_iff (representable_int hm) ?_ n
    rw [Int.floor_intCast]
    exact representable_int hnext
  simp only [supportedRates, List.mem_cons, List.not_mem_nil, or_false] at ht
  rcases ht with rfl | rfl | rfl | rfl | rfl | rfl | rfl | rfl | rfl | rfl
  · refine F.round_int_le_iff ?_ ?_ n
    · simpa using representable_half (p := 24) (n := 25) (by norm_num)
    · rw [hhalf]
      exact representable_int (by norm_num)
  all_goals exact_mod_cast hint _ (by norm_num) (by norm_num)

theorem rate_bestFit {α : Type} (F : FloatUnit) (n : ℤ) (rungs : List (ℚ × α)) (top : α)
    (value : α → ℚ) (hvalue : ∀ rung ∈ rungs, value rung.2 = rung.1)
    (hlevels : levels rungs (value top) = supportedRates) :
    BestFit supportedRates (n : ℚ) (value (firstFit (F.round n) rungs top)) := by
  have hcongr : firstFit (F.round n) rungs top = firstFit (n : ℚ) rungs top := by
    refine firstFit_congr fun rung hrung => round_le_rate_iff F n ?_
    rw [← hlevels]
    exact List.mem_append_left _ (List.mem_map_of_mem hrung)
  have hsorted : supportedRates.Pairwise (· < ·) := by norm_num [supportedRates]
  rw [hcongr, ← hlevels]
  rw [← hlevels] at hsorted
  exact firstFit_bestFit _ rungs top value hvalue hsorted

theorem accOdr_bestFit (F : FloatUnit) (n : ℤ) :
    BestFit supportedRates (n : ℚ) (Hal.accOdrOf (F.round n)).hz :=
  rate_bestFit F n Hal.accOdrRungs .odr6k66Hz OdrXl.hz (by simp [Hal.accOdrRungs, OdrXl.hz]) rfl

theorem gyroOdr_bestFit (F : FloatUnit) (n : ℤ) :
    BestFit supportedRates (n : ℚ) (Hal.gyroOdrOf (F.round n)).hz :=
  rate_bestFit F n Hal.gyroOdrRungs .odr6k66Hz OdrG.hz (by simp [Hal.gyroOdrRungs, OdrG.hz]) rfl

theorem accFs_bestFit (n : ℤ) : BestFit supportedAccRanges n (Hal.accFsOf n).range :=
  firstFit_bestFit n Hal.accFsRungs .fs16g FsXl.range (by decide) (by decide)

theorem gyroFs_bestFit (n : ℤ) : BestFit supportedGyroRanges n (Hal.gyroFsOf n).range :=
  firstFit_bestFit n Hal.gyroFsRungs .fs2000dps FsG.range (by decide) (by decide)

/-! ## The configured register file -/

/-- The devicetree configuration on top of the reset defaults. -/
structure Configured (cfg : Config) (defaults regs : Regs) : Prop where
  acc : ∃ odr fs, regs.get Ctrl1Xl ctrl1XlReg =
      { defaults.get Ctrl1Xl ctrl1XlReg with
        odrXl := BitVec.ofNat 4 (OdrXl.code odr), fsXl := BitVec.ofNat 2 (FsXl.code fs) } ∧
    BestFit supportedRates (cfg.accelOdr : ℚ) odr.hz ∧
    BestFit supportedAccRanges cfg.accelRange fs.range
  gyro : ∃ odr fs, regs.get Ctrl2G ctrl2GReg =
      { defaults.get Ctrl2G ctrl2GReg with
        odrG := BitVec.ofNat 4 (OdrG.code odr), fsG := BitVec.ofNat 3 (FsG.code fs) } ∧
    BestFit supportedRates (cfg.gyroOdr : ℚ) odr.hz ∧
    BestFit supportedGyroRanges cfg.gyroRange fs.range
  ctrl3C : regs.get Ctrl3C ctrl3CReg =
    { defaults.get Ctrl3C ctrl3CReg with bdu := 1, ifInc := 1 }
  fifoCtrl5 : regs.get FifoCtrl5 fifoCtrl5Reg =
    { defaults.get FifoCtrl5 fifoCtrl5Reg with fifoMode := BitVec.ofNat 3 FifoMode.bypass.code }
  others : ∀ reg, reg ≠ ctrl1XlReg → reg ≠ ctrl2GReg → reg ≠ ctrl3CReg → reg ≠ fifoCtrl5Reg →
    regs reg = defaults reg

theorem configured_spec (F : FloatUnit) (cfg : Config) (defaults : Regs) :
    Configured cfg defaults (Driver.configured F cfg defaults) := by
  unfold Driver.configured Regs.initialized
  constructor
  · refine ⟨_, _, ?_, accOdr_bestFit F cfg.accelOdr, accFs_bestFit cfg.accelRange⟩
    simp (disch := decide) only [Regs.get_modify, Regs.get_modify_of_ne]
  · refine ⟨_, _, ?_, gyroOdr_bestFit F cfg.gyroOdr, gyroFs_bestFit cfg.gyroRange⟩
    simp (disch := decide) only [Regs.get_modify, Regs.get_modify_of_ne]
  · simp (disch := decide) only [Regs.get_modify, Regs.get_modify_of_ne]
  · simp (disch := decide) only [Regs.get_modify, Regs.get_modify_of_ne]
    rfl
  · intro reg h1 h2 h3 h4
    simp only [Regs.modify_of_ne _ h1, Regs.modify_of_ne _ h2, Regs.modify_of_ne _ h3,
      Regs.modify_of_ne _ h4]

/-! ## The reset request -/

/-- From any device the request either fails, or starts a reset and logs it last. -/
theorem resetSet_run (board : Board) (delay : Nat → Nat) (d : Imu) :
    let o := run (Imu.peer board delay) (resetSet propertyEnable) d
    ∃ r : BusEvent, r.cmd = .read ctrl3CReg 1 ∧
      ((board.fault d.tick = none ∧ board.fault (d.tick + 1) = none ∧ o.value = .ok ∧
          o.state.pending = some (delay (d.tick + 1)) ∧ o.state.tick = d.tick + 2 ∧
          o.state.regs.swReset = 1 ∧ ∃ w, SetsReset w ∧ o.log = [r, w]) ∨
        ((board.fault d.tick ≠ none ∨ board.fault (d.tick + 1) ≠ none) ∧ o.value = .error ∧
          (o.log = [r] ∨ ∃ w, o.log = [r, w]))) := by
  intro o
  let reply := Imu.peer board delay d (.read ctrl3CReg 1)
  let data : Byte := Layout.toByte
    { (Layout.ofByte (byteAt reply.1.buf 0) : Ctrl3C) with swReset := propertyEnable.setWidth 1 }
  have hdata : (Layout.ofByte data : Ctrl3C).swReset = 1 := by
    simp only [data, Layout.ofByte_toByte]
    decide
  refine ⟨⟨.read ctrl3CReg 1, reply.1⟩, rfl, ?_⟩
  cases hread : board.fault d.tick with
  | some f =>
      have hreply : reply = _ := Imu.peer_read_fault hread ctrl3CReg 1
      have ho : o = ⟨.error, reply.2, [⟨.read ctrl3CReg 1, reply.1⟩]⟩ := by
        simp [o, resetSet, setField, readReg, reply, hreply]
      rw [ho]
      exact Or.inr ⟨Or.inl (Option.some_ne_none f), rfl, Or.inl rfl⟩
  | none =>
      have hreply : reply = _ := Imu.peer_read_ok hread ctrl3CReg 1
      have htick : reply.2.tick = d.tick + 1 := by
        rw [hreply, Imu.next_tick, Imu.advance_tick]
      let second := Imu.peer board delay reply.2 (.write ctrl3CReg data)
      have ho : o = ⟨second.1, second.2, [⟨.read ctrl3CReg 1, reply.1⟩,
          ⟨.write ctrl3CReg data, second.1⟩]⟩ := by
        simp [o, resetSet, setField, readReg, writeReg, Prog.request, reply, hreply, second, data]
      rw [ho]
      rw [← htick]
      cases hwrite : board.fault reply.2.tick with
      | some f =>
          have hsecond : second = _ := Imu.peer_write_fault hwrite ctrl3CReg data
          refine Or.inr ⟨Or.inr (Option.some_ne_none f), ?_, Or.inr ⟨_, rfl⟩⟩
          rw [hsecond]
      | none =>
          have hsecond : second = _ := Imu.peer_write_ok hwrite ctrl3CReg data
          refine Or.inl ⟨rfl, rfl, ?_, ?_, ?_, ?_, _, ⟨data, rfl, hdata⟩, rfl⟩
          · rw [hsecond]
          · simp only [hsecond, Imu.next_pending, Imu.store, hdata, and_self, if_true,
              Imu.advance_tick]
          · simp only [hsecond, Imu.next_tick, Imu.store, Imu.advance_tick, htick]
          · simp only [hsecond, Imu.next_regs, Imu.store, Regs.swReset, Regs.get,
              Function.update_self, hdata]

theorem ready_of_pending_zero (board : Board) {d : Imu} (h : d.pending = some 0) :
    Ready board board.defaults d := by
  have hadvance : d.advance board = { d with regs := board.defaults, pending := none } := by
    unfold Imu.advance
    rw [h]
  rw [Ready, hadvance]
  exact ⟨rfl, rfl, board.defaults_swReset⟩

/-! ## The whole run -/

namespace Driver

/-- The data with which the identity check is made. -/
def unidentified (data : Data) : Data :=
  { data with obj := { data.obj with isInitialized := 0 } }

theorem init_run {S : Type} (peer : BusPeer S) (F : FloatUnit) (cfg : Config) (data : Data)
    (s : S) :
    let id := peer s (.read whoAmIReg 1)
    let first : BusEvent := ⟨.read whoAmIReg 1, id.1⟩
    run peer (init F cfg true data) s =
      if id.1.status = .ok ∧ byteAt id.1.buf 0 = ism330dlcId then
        let rest := run peer (setup F cfg (unidentified data)) id.2
        ⟨rest.value, rest.state, first :: rest.log⟩
      else ⟨(.error .enodev, unidentified data), id.2, [first]⟩ := by
  intro id first
  simp only [init, if_true, Hal.readId, deviceIdGet, readReg, Prog.request_bind, run_call]
  by_cases hid : id.1.status = .ok ∧ byteAt id.1.buf 0 = ism330dlcId
  · rw [if_pos hid, if_pos hid]
    rfl
  · rw [if_neg hid, if_neg hid]
    rfl

/-- The run after the identity check: the reset request, then the rest. -/
theorem setup_run {S : Type} (peer : BusPeer S) (F : FloatUnit) (cfg : Config) (data : Data)
    (s : S) :
    let reset := run peer (resetSet propertyEnable) s
    run peer (setup F cfg data) s =
      if reset.value = .ok then
        let rest := run peer (afterReset F cfg data) reset.state
        ⟨rest.value, rest.state, reset.log ++ rest.log⟩
      else ⟨(.error .eio, data), reset.state, reset.log⟩ := by
  intro reset
  rw [setup_eq, check, run_bind]
  by_cases hreset : reset.value = .ok
  · simp only [reset, if_pos hreset]
  · simp only [reset, if_neg hreset, run_ret, List.append_nil]

/-- When the reset is over by the next transaction, the run after the request
establishes the configuration or reports an error. -/
theorem setup_configures (board : Board) {delay : Nat → Nat} {d : Imu}
    (hdelay : delay (d.tick + 1) = 0) (F : FloatUnit) (cfg : Config) (data : Data) :
    let o := run (Imu.peer board delay) (setup F cfg data) d
    o.value.1 = .ok () →
      o.state.pending = none ∧ o.state.regs = configured F cfg board.defaults ∧
        o.value.2.obj.accIsEnabled = 1 ∧ o.value.2.obj.gyroIsEnabled = 1 := by
  intro o hok
  have hrun : o = _ := setup_run (Imu.peer board delay) F cfg data d
  rcases resetSet_run board delay d with ⟨r, -, hreset⟩
  cases hreset with
  | inr hfail =>
      rcases hfail with ⟨-, hvalue, -⟩
      rw [hrun, if_neg (by rw [hvalue]; decide)] at hok
      cases hok
  | inl hdone =>
      rcases hdone with ⟨-, -, hvalue, hpending, -⟩
      rw [hdelay] at hpending
      rw [if_pos hvalue] at hrun
      rw [hrun] at hok ⊢
      obtain ⟨-, regs, hquiet, hpost⟩ :=
        afterReset_steps board delay board.defaults_swReset F cfg data _
          (ready_of_pending_zero board hpending)
      rcases hpost hok with ⟨hregs, hflags⟩
      exact ⟨hquiet.pending, hquiet.regs_eq.trans hregs, hflags⟩

/-- A run that returns zero establishes exactly the devicetree configuration; a chip
that does not identify itself is left untouched. -/
theorem init_establishes_configuration (F : FloatUnit) (board : Board) (cfg : Config)
    (busReady : Bool) (data : Data) (d : Imu) :
    let peer := Imu.peer board fun _ => 0
    let o := run peer (init F cfg busReady data) d
    (o.value.1 = .ok () →
      o.state.pending = none ∧ Configured cfg board.defaults o.state.regs ∧
        o.value.2.obj.accIsEnabled = 1 ∧ o.value.2.obj.gyroIsEnabled = 1) ∧
    (let id := (peer d (.read whoAmIReg 1)).1
     id.status ≠ .ok ∨ byteAt id.buf 0 ≠ ism330dlcId →
      o.value.1 = .error .enodev ∧ ∀ e ∈ o.log, ∀ reg value, e.cmd ≠ .write reg value) := by
  intro peer o
  cases busReady with
  | false =>
      refine ⟨fun hok => (nomatch hok), fun _ => ⟨rfl, ?_⟩⟩
      intro e he
      cases he
  | true =>
      have hrun : o = _ := init_run peer F cfg data d
      constructor
      · intro hok
        by_cases hid : (peer d (.read whoAmIReg 1)).1.status = .ok ∧
            byteAt (peer d (.read whoAmIReg 1)).1.buf 0 = ism330dlcId
        · rw [if_pos hid] at hrun
          rw [hrun] at hok ⊢
          obtain ⟨hpending, hregs, hflags⟩ :=
            setup_configures board rfl F cfg (unidentified data) hok
          refine ⟨hpending, ?_, hflags⟩
          rw [hregs]
          exact configured_spec F cfg board.defaults
        · rw [if_neg hid] at hrun
          rw [hrun] at hok
          cases hok
      · intro id hmismatch
        have hid : ¬(id.status = .ok ∧ byteAt id.buf 0 = ism330dlcId) := by
          intro hid
          cases hmismatch with
          | inl h => exact h hid.1
          | inr h => exact h hid.2
        rw [if_neg hid] at hrun
        rw [hrun]
        refine ⟨rfl, ?_⟩
        intro e he reg value
        rw [List.mem_singleton.mp he]
        exact fun h => nomatch h

/-- Defaults of a chip that identifies itself, with `IF_INC` set. -/
def chipDefaults : Regs := fun reg =>
  if reg = whoAmIReg then ism330dlcId else if reg = ctrl3CReg then 0x04 else 0

def faultlessBoard : Board := ⟨chipDefaults, by decide, fun _ => none⟩

/-- A repeated initialization, with the accelerometer still marked enabled. -/
theorem init_establishes_configuration_repeated :
    let cfg : Config := ⟨104, 4, 104, 500⟩
    let data : Data := ⟨⟨1, 1, 0, .odr52Hz, .off⟩, ⟨0, 0, 0⟩, ⟨0, 0, 0⟩⟩
    let o := run (Imu.peer faultlessBoard fun _ => 0)
      (init (FloatArith.exact 24) cfg true data) ⟨chipDefaults, none, 0⟩
    Configured cfg chipDefaults o.state.regs := by
  intro cfg data o
  have hok : o.value.1 = .ok () := rfl
  exact ((init_establishes_configuration (FloatArith.exact 24) faultlessBoard cfg true data
    ⟨chipDefaults, none, 0⟩).1 hok).2.1

end Driver

end N6Samples.Ism330dlc
