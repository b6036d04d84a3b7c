import N6Samples.Imu.Initialization

/-! # Writes while a software reset is running

`ISM330DLC_Init` requests a reset and goes on with read-modify-writes of the same
register without waiting for `SW_RESET` to clear. The run is safe exactly when the
reset is over by the next transaction, or when the run ends before that matters.
-/

namespace N6Samples.Ism330dlc

open Transaction Rounding FirstFit

/-! ## The property of a run -/

def IsWrite (e : BusEvent) : Prop := ∃ reg data, e.cmd = .write reg data

/-- A good read of `CTRL3_C` that returned `SW_RESET` clear. -/
def ReadsResetClear (e : BusEvent) : Prop :=
  ∃ resp : ReadResult 1, e = ⟨.read ctrl3CReg 1, resp⟩ ∧ resp.status = .ok ∧
    (Layout.ofByte (byteAt resp.buf 0) : Ctrl3C).swReset = 0

/-- Between a write that sets `SW_RESET` and any later write, the bit was read clear. -/
def NoWriteWhilePending (log : BusLog) : Prop :=
  ∀ before set between write after, log = before ++ set :: (between ++ write :: after) →
    SetsReset set → IsWrite write → ∃ r ∈ between, ReadsResetClear r

/-- The settings of a successful run are in the register file once no reset is running. -/
def SettingsSurvive (F : FloatUnit) (board : Board) (cfg : Config)
    (o : Outcome Cmd Resp Imu (Except Errno Unit × Data)) : Prop :=
  o.value.1 = .ok () →
    let regs := o.state.settled board
    (regs.get Ctrl3C ctrl3CReg).bdu = 1 ∧ (regs.get Ctrl3C ctrl3CReg).ifInc = 1 ∧
      (regs.get Ctrl1Xl ctrl1XlReg).odrXl =
        BitVec.ofNat 4 (Hal.accOdrOf (F.round cfg.accelOdr)).code ∧
      (regs.get Ctrl1Xl ctrl1XlReg).fsXl = BitVec.ofNat 2 (Hal.accFsOf cfg.accelRange).code ∧
      (regs.get Ctrl2G ctrl2GReg).odrG =
        BitVec.ofNat 4 (Hal.gyroOdrOf (F.round cfg.gyroOdr)).code ∧
      (regs.get Ctrl2G ctrl2GReg).fsG = BitVec.ofNat 3 (Hal.gyroFsOf cfg.gyroRange).code

/-- The run ends before the first write after the reset request, or the reset is over
by the transaction that follows the request. -/
def ResetHarmless (board : Board) (delay : Nat → Nat) (busReady : Bool) (d : Imu) : Prop :=
  busReady = false ∨
    (let id := (Imu.peer board delay d (.read whoAmIReg 1)).1
     ¬(id.status = .ok ∧ byteAt id.buf 0 = ism330dlcId)) ∨
    board.fault (d.tick + 1) ≠ none ∨ board.fault (d.tick + 2) ≠ none ∨
    board.fault (d.tick + 3) ≠ none ∨ delay (d.tick + 2) = 0

/-! ## Logs -/

theorem not_setsReset_of_read {e : BusEvent} {reg : Byte} {len : Nat} (h : e.cmd = .read reg len) :
    ¬SetsReset e := by
  rintro ⟨data, hcmd, -⟩
  rw [h] at hcmd
  cases hcmd

theorem not_isWrite_of_read {e : BusEvent} {reg : Byte} {len : Nat} (h : e.cmd = .read reg len) :
    ¬IsWrite e := by
  rintro ⟨reg', data, hcmd⟩
  rw [h] at hcmd
  cases hcmd

theorem NoWriteWhilePending.nil : NoWriteWhilePending [] := by
  intro before set between write after h
  simp at h

/-- An event that does not set the bit puts no condition on what follows it. -/
theorem NoWriteWhilePending.cons {e : BusEvent} {log : BusLog} (he : ¬SetsReset e)
    (h : NoWriteWhilePending log) : NoWriteWhilePending (e :: log) := by
  intro before set between write after hlog hset hwrite
  cases before with
  | nil =>
      rcases List.cons.inj hlog with ⟨rfl, -⟩
      exact absurd hset he
  | cons first before =>
      exact h before set between write after (List.cons.inj hlog).2 hset hwrite

theorem NoWriteWhilePending.of_cons {e : BusEvent} {log : BusLog}
    (h : NoWriteWhilePending (e :: log)) : NoWriteWhilePending log := by
  intro before set between write after hlog
  exact h (e :: before) set between write after (congrArg (e :: ·) hlog)

theorem NoWriteWhilePending.singleton (e : BusEvent) : NoWriteWhilePending [e] := by
  intro before set between write after hlog
  have hlength := congrArg List.length hlog
  simp only [List.length_nil, List.length_append, List.length_cons] at hlength
  omega

/-- After a request, the next event settles the matter if it is a read that shows the
bit clear, or if nothing follows it. -/
theorem NoWriteWhilePending.request {set e : BusEvent} {log : BusLog} {reg : Byte} {len : Nat}
    (he : e.cmd = .read reg len) (hclear : ReadsResetClear e ∨ log = [])
    (hcalm : ∀ e ∈ log, ¬SetsReset e) : NoWriteWhilePending (set :: e :: log) := by
  intro before set' between write after hlog hset hwrite
  cases before with
  | cons first before =>
      have hmem : set' ∈ e :: log := by
        rw [(List.cons.inj hlog).2]
        exact List.mem_append_right _ List.mem_cons_self
      cases List.mem_cons.mp hmem with
      | inl h => exact absurd hset (not_setsReset_of_read (h ▸ he))
      | inr h => exact absurd hset (hcalm set' h)
  | nil =>
      have hrest := (List.cons.inj hlog).2
      cases between with
      | nil =>
          rcases List.cons.inj hrest with ⟨rfl, -⟩
          exact absurd hwrite (not_isWrite_of_read he)
      | cons first between =>
          rcases List.cons.inj hrest with ⟨rfl, htail⟩
          cases hclear with
          | inl h => exact ⟨e, List.mem_cons_self, h⟩
          | inr h =>
              rw [h] at htail
              simp at htail

/-! ## The run after the request -/

namespace Driver

variable {board : Board} {delay : Nat → Nat}

/-- Whatever the bus answers, the first transaction after the request reads `CTRL3_C`. -/
theorem afterReset_head {S : Type} (peer : BusPeer S) (F : FloatUnit) (cfg : Config)
    (data : Data) (s : S) :
    ∃ tail, (run peer (afterReset F cfg data) s).log =
      ⟨.read ctrl3CReg 1, (peer s (.read ctrl3CReg 1)).1⟩ :: tail := ⟨_, rfl⟩

/-- A good read is followed by a write. -/
theorem afterReset_write {S : Type} (peer : BusPeer S) (F : FloatUnit) (cfg : Config)
    (data : Data) (s : S) (hok : (peer s (.read ctrl3CReg 1)).1.status = .ok) :
    ∃ value status tail, (run peer (afterReset F cfg data) s).log =
      ⟨.read ctrl3CReg 1, (peer s (.read ctrl3CReg 1)).1⟩ ::
        ⟨.write ctrl3CReg value, status⟩ :: tail := by
  simp only [afterReset, Hal.afterReset, checkObj, check, autoIncrementSet, setField, readReg,
    writeReg, Prog.request_bind, Prog.call_bind, run_call, if_pos hok]
  exact ⟨_, _, _, rfl⟩

/-- A failed read ends the run. -/
theorem afterReset_fault {S : Type} (peer : BusPeer S) (F : FloatUnit) (cfg : Config)
    (data : Data) (s : S) (hfail : (peer s (.read ctrl3CReg 1)).1.status ≠ .ok) :
    (run peer (afterReset F cfg data) s).value.1 = .error .eio ∧
      (run peer (afterReset F cfg data) s).log =
        [⟨.read ctrl3CReg 1, (peer s (.read ctrl3CReg 1)).1⟩] := by
  simp [afterReset, Hal.afterReset, checkObj, check, autoIncrementSet, setField, readReg, hfail]

/-- A reset that outlasts the next transaction is still seen by it. -/
theorem read_while_pending (delay : Nat → Nat) {d : Imu} {left : Nat}
    (hpending : d.pending = some (left + 1))
    (hreset : d.regs.swReset = 1) (hfault : board.fault d.tick = none) :
    let reply := (Imu.peer board delay d (.read ctrl3CReg 1)).1
    reply.status = .ok ∧ (Layout.ofByte (byteAt reply.buf 0) : Ctrl3C).swReset = 1 := by
  intro reply
  have hadvance : d.advance board = { d with pending := some left } := by
    unfold Imu.advance
    rw [hpending]
  have hreply : reply = _ := congrArg Prod.fst (Imu.peer_read_ok hfault ctrl3CReg 1)
  rw [hreply, hadvance]
  refine ⟨rfl, ?_⟩
  simpa [Regs.swReset, Regs.get] using hreset

theorem settled_of_configured {F : FloatUnit} {cfg : Config}
    {o : Outcome Cmd Resp Imu (Except Errno Unit × Data)} (hpending : o.state.pending = none)
    (hregs : o.state.regs = configured F cfg board.defaults) :
    SettingsSurvive F board cfg o := by
  intro _
  have hsettled : o.state.settled board = configured F cfg board.defaults := by
    unfold Imu.settled
    rw [hpending, hregs]
  intro regs
  simp only [regs, hsettled, configured, Regs.initialized]
  simp (disch := decide) only [Regs.get_modify, Regs.get_modify_of_ne, and_self]

/-- The run after the request ends at once when its first transaction fails. -/
theorem afterReset_of_fault (delay : Nat → Nat) {s : Imu} (hfault : board.fault s.tick ≠ none)
    (F : FloatUnit) (cfg : Config) (data : Data) (set : BusEvent) :
    let o := run (Imu.peer board delay) (afterReset F cfg data) s
    o.value.1 = .error .eio ∧ NoWriteWhilePending (set :: o.log) := by
  intro o
  have hstatus : (Imu.peer board delay s (.read ctrl3CReg 1)).1.status ≠ .ok := by
    rcases Option.ne_none_iff_exists'.mp hfault with ⟨f, hf⟩
    rw [Imu.peer_read_fault hf]
    exact fun hok => nomatch hok
  obtain ⟨herror, hlog⟩ := afterReset_fault (Imu.peer board delay) F cfg data s hstatus
  refine ⟨herror, ?_⟩
  rw [hlog]
  exact NoWriteWhilePending.request rfl (Or.inr rfl) (List.forall_mem_nil _)

/-- Once the reset is over, the first transaction after the request reads the bit clear. -/
theorem afterReset_of_ready {s : Imu} (hready : Ready board board.defaults s)
    (hfault : board.fault s.tick = none) (F : FloatUnit) (cfg : Config) (data : Data)
    (set : BusEvent) :
    NoWriteWhilePending (set :: (run (Imu.peer board delay) (afterReset F cfg data) s).log) := by
  obtain ⟨hcalm, -⟩ := afterReset_steps board delay board.defaults_swReset F cfg data s hready
  rcases afterReset_head (Imu.peer board delay) F cfg data s with ⟨tail, hhead⟩
  rcases peer_read delay hready ctrl3CReg with ⟨-, hbuf⟩
  have hstatus : (Imu.peer board delay s (.read ctrl3CReg 1)).1.status = .ok := by
    rw [Imu.peer_read_ok hfault]
  rw [hhead] at hcalm ⊢
  refine NoWriteWhilePending.request rfl (Or.inl ⟨_, rfl, hstatus, ?_⟩)
    fun e he => hcalm e (List.mem_cons_of_mem _ he)
  rw [hbuf hstatus]
  exact board.defaults_swReset

theorem setup_of_harmless {d : Imu} (F : FloatUnit) (cfg : Config) (data : Data)
    (h : board.fault d.tick ≠ none ∨ board.fault (d.tick + 1) ≠ none ∨
      board.fault (d.tick + 2) ≠ none ∨ delay (d.tick + 1) = 0) :
    let o := run (Imu.peer board delay) (setup F cfg data) d
    NoWriteWhilePending o.log ∧ SettingsSurvive F board cfg o := by
  intro o
  have hrun : o = _ := setup_run (Imu.peer board delay) F cfg data d
  rcases resetSet_run board delay d with ⟨r, hr, hreset⟩
  have hcalm := not_setsReset_of_read hr
  cases hreset with
  | inr hfail =>
      rcases hfail with ⟨-, hvalue, hlog⟩
      rw [if_neg (by rw [hvalue]; decide)] at hrun
      rw [hrun]
      refine ⟨?_, fun hok => (nomatch hok)⟩
      cases hlog with
      | inl hlog =>
          rw [hlog]
          exact NoWriteWhilePending.singleton r
      | inr hlog =>
          rcases hlog with ⟨w, hlog⟩
          rw [hlog]
          exact NoWriteWhilePending.cons hcalm (NoWriteWhilePending.singleton w)
  | inl hdone =>
      rcases hdone with ⟨hfault0, hfault1, hvalue, hpending, htick, -, w, -, hlog⟩
      rw [if_pos hvalue] at hrun
      by_cases hfault2 : board.fault (d.tick + 2) = none
      · have hdelay : delay (d.tick + 1) = 0 := by
          simpa [hfault0, hfault1, hfault2] using h
        have hconfig := setup_configures board hdelay F cfg data
        refine ⟨?_, fun hok => settled_of_configured (hconfig hok).1 (hconfig hok).2.1 hok⟩
        rw [hdelay] at hpending
        rw [← htick] at hfault2
        have hready := ready_of_pending_zero board hpending
        simp only [hrun, hlog]
        exact NoWriteWhilePending.cons hcalm (afterReset_of_ready hready hfault2 F cfg data w)
      · rw [← htick] at hfault2
        obtain ⟨herror, hsafe⟩ := afterReset_of_fault delay hfault2 F cfg data w
        simp only [hrun, hlog]
        refine ⟨NoWriteWhilePending.cons hcalm hsafe, ?_⟩
        intro hok
        rw [herror] at hok
        cases hok

theorem harmless_of_setup {d : Imu} (F : FloatUnit) (cfg : Config) (data : Data)
    (h : NoWriteWhilePending (run (Imu.peer board delay) (setup F cfg data) d).log) :
    board.fault d.tick ≠ none ∨ board.fault (d.tick + 1) ≠ none ∨
      board.fault (d.tick + 2) ≠ none ∨ delay (d.tick + 1) = 0 := by
  by_contra hnone
  simp only [not_or, not_not] at hnone
  rcases hnone with ⟨hfault0, hfault1, hfault2, hdelay⟩
  let o := run (Imu.peer board delay) (setup F cfg data) d
  have hrun : o = _ := setup_run (Imu.peer board delay) F cfg data d
  rcases resetSet_run board delay d with ⟨r, hr, hreset⟩
  cases hreset with
  | inr hfail =>
      cases hfail.1 with
      | inl hne => exact hne hfault0
      | inr hne => exact hne hfault1
  | inl hdone =>
      rcases hdone with ⟨-, -, hvalue, hpending, htick, hbit, w, hset, hlog⟩
      rw [if_pos hvalue] at hrun
      rcases Nat.exists_eq_succ_of_ne_zero hdelay with ⟨left, hleft⟩
      rw [hleft] at hpending
      rw [← htick] at hfault2
      rcases read_while_pending delay hpending hbit hfault2 with ⟨hstatus, hseen⟩
      obtain ⟨value, status, tail, hrest⟩ :=
        afterReset_write (Imu.peer board delay) F cfg data _ hstatus
      change NoWriteWhilePending o.log at h
      rw [hrun] at h
      obtain ⟨e, he, resp, heq, -, hclear⟩ := h [r] w [_] ⟨.write ctrl3CReg value, status⟩ tail
        (by simp only [hlog, hrest]; rfl) hset ⟨_, _, rfl⟩
      rw [List.mem_singleton.mp he] at heq
      cases heq
      rw [hseen] at hclear
      exact absurd hclear (by decide)

theorem harmless_of_init (board : Board) (delay : Nat → Nat) (F : FloatUnit) (cfg : Config)
    (busReady : Bool) (data : Data) (d : Imu)
    (h : NoWriteWhilePending (run (Imu.peer board delay) (init F cfg busReady data) d).log) :
    ResetHarmless board delay busReady d := by
  cases busReady with
  | false => exact Or.inl rfl
  | true =>
      rw [init_run] at h
      by_cases hid : (Imu.peer board delay d (.read whoAmIReg 1)).1.status = .ok ∧
          byteAt (Imu.peer board delay d (.read whoAmIReg 1)).1.buf 0 = ism330dlcId
      · rw [if_pos hid] at h
        have hharmless := harmless_of_setup F cfg (unidentified data) h.of_cons
        rw [Imu.peer_tick] at hharmless
        exact Or.inr (Or.inr hharmless)
      · exact Or.inr (Or.inl hid)

theorem init_of_harmless (board : Board) (delay : Nat → Nat) (F : FloatUnit) (cfg : Config)
    (busReady : Bool) (data : Data) (d : Imu) (h : ResetHarmless board delay busReady d) :
    let o := run (Imu.peer board delay) (init F cfg busReady data) d
    NoWriteWhilePending o.log ∧ SettingsSurvive F board cfg o := by
  intro o
  cases busReady with
  | false => exact ⟨NoWriteWhilePending.nil, fun hok => nomatch hok⟩
  | true =>
      have hrun : o = _ := init_run (Imu.peer board delay) F cfg data d
      by_cases hid : (Imu.peer board delay d (.read whoAmIReg 1)).1.status = .ok ∧
          byteAt (Imu.peer board delay d (.read whoAmIReg 1)).1.buf 0 = ism330dlcId
      · have hharmless := (h.resolve_left (by decide)).resolve_left (not_not.mpr hid)
        have hsetup := setup_of_harmless (d := (Imu.peer board delay d (.read whoAmIReg 1)).2)
          F cfg (unidentified data) (by rw [Imu.peer_tick]; exact hharmless)
        rw [if_pos hid] at hrun
        rw [hrun]
        exact ⟨NoWriteWhilePending.cons (not_setsReset_of_read rfl) hsetup.1, hsetup.2⟩
      · rw [if_neg hid] at hrun
        rw [hrun]
        exact ⟨NoWriteWhilePending.singleton _, fun hok => nomatch hok⟩

/-- The run is safe, and its settings survive, exactly in the harmless cases. -/
theorem init_reset_safe_iff (F : FloatUnit) (board : Board) (delay : Nat → Nat) (cfg : Config)
    (busReady : Bool) (data : Data) (d : Imu) :
    let o := run (Imu.peer board delay) (init F cfg busReady data) d
    (NoWriteWhilePending o.log ∧ SettingsSurvive F board cfg o) ↔
      ResetHarmless board delay busReady d :=
  ⟨fun h => harmless_of_init board delay F cfg busReady data d h.1,
    init_of_harmless board delay F cfg busReady data d⟩

/-- A chip whose reset takes thirty transactions: the run writes while the reset
is running, reports success, and the reset then clears what it wrote. -/
theorem init_loses_configuration :
    let o := run (Imu.peer faultlessBoard fun _ => 30)
      (init (FloatArith.exact 24) ⟨104, 4, 104, 500⟩ true Data.zeroed) ⟨chipDefaults, none, 0⟩
    ¬NoWriteWhilePending o.log ∧ o.value.1 = .ok () ∧
      ((o.state.settled faultlessBoard).get Ctrl3C ctrl3CReg).bdu = 0 ∧
      ((o.state.settled faultlessBoard).get Ctrl1Xl ctrl1XlReg).odrXl = 0 := by
  intro o
  have hpending : o.state.pending = some 12 := by decide +kernel
  have hsettled : o.state.settled faultlessBoard = chipDefaults := by
    unfold Imu.settled
    rw [hpending]
    rfl
  refine ⟨?_, rfl, ?_, ?_⟩
  · intro h
    rcases harmless_of_init _ _ _ _ _ _ _ h with h | h | h | h | h | h
    · exact absurd h (by decide)
    · exact h ⟨rfl, rfl⟩
    · exact h rfl
    · exact h rfl
    · exact h rfl
    · exact absurd h (by decide)
  · rw [hsettled]
    decide
  · rw [hsettled]
    decide

end Driver

end N6Samples.Ism330dlc
