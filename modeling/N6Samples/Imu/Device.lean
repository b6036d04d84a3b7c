import Mathlib.Logic.Function.Basic
import N6Samples.Imu.Driver

/-! # The device behind the bus

The register file of the sensor with its software reset. Setting `SW_RESET`
starts a reset that completes some transactions later: it then restores every
default and clears the bit. Which transactions fail, what a failed one leaves
behind and how long a reset takes are chosen by the environment.
-/

namespace N6Samples.Ism330dlc

open Transaction Rounding FirstFit

/-! ## Register files -/

abbrev Regs := Byte → Byte

/-- A register of the file, read in its layout. -/
def Regs.get (ρ : Type) [Layout ρ] (regs : Regs) (reg : Byte) : ρ := Layout.ofByte (regs reg)

def Regs.modify {ρ : Type} [Layout ρ] (regs : Regs) (reg : Byte) (change : ρ → ρ) : Regs :=
  Function.update regs reg (Layout.toByte (change (regs.get ρ reg)))

theorem Regs.get_modify {ρ : Type} [Layout ρ] (regs : Regs) (reg : Byte) (change : ρ → ρ) :
    (regs.modify reg change).get ρ reg = change (regs.get ρ reg) := by
  simp only [Regs.get, Regs.modify, Function.update_self, Layout.ofByte_toByte]

theorem Regs.get_modify_of_ne {ρ τ : Type} [Layout ρ] [Layout τ] (regs : Regs) {reg other : Byte}
    (h : other ≠ reg) (change : ρ → ρ) :
    (regs.modify reg change).get τ other = regs.get τ other := by
  simp only [Regs.get, Regs.modify, Function.update_of_ne h]

theorem Regs.modify_of_ne {ρ : Type} [Layout ρ] (regs : Regs) {reg other : Byte}
    (h : other ≠ reg) (change : ρ → ρ) : regs.modify reg change other = regs other := by
  simp only [Regs.modify, Function.update_of_ne h]

/-- `SW_RESET` as it is stored in `CTRL3_C`. -/
def Regs.swReset (regs : Regs) : BitVec 1 := (regs.get Ctrl3C ctrl3CReg).swReset

/-! ## Environment -/

/-- A failed transaction: what it leaves in the read buffer, and whether a write
took effect although it reported an error. -/
structure Fault where
  garbage : Nat → Byte
  applied : Bool

/-- The reset defaults of the chip and the bus failures by transaction number. -/
structure Board where
  defaults : Regs
  defaults_swReset : defaults.swReset = 0
  fault : Nat → Option Fault

/-! ## Transitions -/

/-- `pending` counts the transactions a started reset still lets pass. -/
structure Imu where
  regs : Regs
  pending : Option Nat
  tick : Nat

namespace Imu

/-- A due reset completes before the next transaction is served. -/
def advance (board : Board) (d : Imu) : Imu :=
  match d.pending with
  | none => d
  | some 0 => { d with regs := board.defaults, pending := none }
  | some (left + 1) => { d with pending := some left }

/-- Setting `SW_RESET`, also while a reset is running, starts a reset. -/
def store (delay : Nat → Nat) (d : Imu) (reg data : Byte) : Imu :=
  { d with
    regs := Function.update d.regs reg data
    pending :=
      if reg = ctrl3CReg ∧ (Layout.ofByte data : Ctrl3C).swReset = 1 then some (delay d.tick)
      else d.pending }

def next (d : Imu) : Imu := { d with tick := d.tick + 1 }

/-- `delay t` is the length of the reset that transaction `t` starts. -/
def peer (board : Board) (delay : Nat → Nat) : BusPeer Imu := fun d cmd =>
  let d := d.advance board
  match cmd, board.fault d.tick with
  | .read reg _, none => (⟨.ok, Vector.ofFn fun i => d.regs (reg + BitVec.ofNat 8 i)⟩, d.next)
  | .read _ _, some f => (⟨.error, Vector.ofFn fun i => f.garbage i⟩, d.next)
  | .write reg data, none => (.ok, (d.store delay reg data).next)
  | .write reg data, some f =>
      (.error, (if f.applied then d.store delay reg data else d).next)

/-- The register file once a running reset has completed. -/
def settled (board : Board) (d : Imu) : Regs :=
  match d.pending with
  | none => d.regs
  | some _ => board.defaults

@[simp] theorem next_regs (d : Imu) : d.next.regs = d.regs := rfl
@[simp] theorem next_pending (d : Imu) : d.next.pending = d.pending := rfl
@[simp] theorem next_tick (d : Imu) : d.next.tick = d.tick + 1 := rfl

@[simp] theorem advance_tick (board : Board) (d : Imu) : (d.advance board).tick = d.tick := by
  unfold advance
  split <;> rfl

variable {board : Board} {delay : Nat → Nat} {d : Imu} {f : Fault}

theorem peer_read_ok (h : board.fault d.tick = none) (reg : Byte) (len : Nat) :
    peer board delay d (.read reg len) =
      (⟨.ok, Vector.ofFn fun i => (d.advance board).regs (reg + BitVec.ofNat 8 i)⟩,
        (d.advance board).next) := by
  simp only [peer, advance_tick, h]

theorem peer_read_fault (h : board.fault d.tick = some f) (reg : Byte) (len : Nat) :
    peer board delay d (.read reg len) =
      (⟨.error, Vector.ofFn fun i => f.garbage i⟩, (d.advance board).next) := by
  simp only [peer, advance_tick, h]

theorem peer_write_ok (h : board.fault d.tick = none) (reg data : Byte) :
    peer board delay d (.write reg data) =
      (.ok, ((d.advance board).store delay reg data).next) := by
  simp only [peer, advance_tick, h]

theorem peer_write_fault (h : board.fault d.tick = some f) (reg data : Byte) :
    peer board delay d (.write reg data) =
      (.error, (if f.applied then (d.advance board).store delay reg data
        else d.advance board).next) := by
  simp only [peer, advance_tick, h]

theorem peer_tick (board : Board) (delay : Nat → Nat) (d : Imu) (cmd : Cmd) :
    (peer board delay d cmd).2.tick = d.tick + 1 := by
  cases cmd with
  | read reg len =>
      cases h : board.fault d.tick with
      | none => rw [peer_read_ok h, next_tick, advance_tick]
      | some f => rw [peer_read_fault h, next_tick, advance_tick]
  | write reg data =>
      have hstore : ((d.advance board).store delay reg data).tick = d.tick := advance_tick board d
      cases h : board.fault d.tick with
      | none => rw [peer_write_ok h, next_tick, hstore]
      | some f =>
          rw [peer_write_fault h, next_tick]
          split
          · rw [hstore]
          · rw [advance_tick]

theorem advance_of_none {board : Board} {d : Imu} (h : d.pending = none) :
    d.advance board = d := by
  unfold advance
  rw [h]

end Imu

/-! ## States without a running reset -/

/-- No reset is running, and the register file is `regs`. -/
structure Quiet (regs : Regs) (d : Imu) : Prop where
  pending : d.pending = none
  regs_eq : d.regs = regs
  swReset : regs.swReset = 0

/-- The next transaction finds a quiet device. -/
def Ready (board : Board) (regs : Regs) (d : Imu) : Prop := Quiet regs (d.advance board)

/-- A write that sets `SW_RESET`. -/
def SetsReset (e : BusEvent) : Prop :=
  ∃ data, e.cmd = .write ctrl3CReg data ∧ (Layout.ofByte data : Ctrl3C).swReset = 1

theorem Quiet.ready {board : Board} {regs : Regs} {d : Imu} (h : Quiet regs d) :
    Ready board regs d := by
  rw [Ready, Imu.advance_of_none h.pending]
  exact h

theorem Quiet.next {regs : Regs} {d : Imu} (h : Quiet regs d) : Quiet regs d.next :=
  ⟨h.pending, h.regs_eq, h.swReset⟩

theorem Quiet.store {regs : Regs} {d : Imu} (h : Quiet regs d) (delay : Nat → Nat)
    {reg data : Byte} (hdata : reg = ctrl3CReg → (Layout.ofByte data : Ctrl3C).swReset = 0) :
    Quiet (Function.update regs reg data) (d.store delay reg data) := by
  have hcalm : ¬(reg = ctrl3CReg ∧ (Layout.ofByte data : Ctrl3C).swReset = 1) := by
    intro hset
    rw [hdata hset.1] at hset
    exact absurd hset.2 (by decide)
  refine ⟨?_, ?_, ?_⟩
  · simp only [Imu.store, if_neg hcalm, h.pending]
  · simp only [Imu.store, h.regs_eq]
  · by_cases hreg : reg = ctrl3CReg
    · subst hreg
      simp only [Regs.swReset, Regs.get, Function.update_self]
      exact hdata rfl
    · simp only [Regs.swReset, Regs.get, Function.update_of_ne (Ne.symm hreg)]
      exact h.swReset

/-! ## Transactions on a quiet device -/

theorem peer_read {board : Board} {regs : Regs} {d : Imu} (delay : Nat → Nat)
    (h : Ready board regs d) (reg : Byte) :
    let reply := Imu.peer board delay d (.read reg 1)
    Quiet regs reply.2 ∧ (reply.1.status = .ok → byteAt reply.1.buf 0 = regs reg) := by
  intro reply
  cases hf : board.fault d.tick with
  | none =>
      rw [show reply = _ from Imu.peer_read_ok hf reg 1]
      refine ⟨h.next, fun _ => ?_⟩
      simp [h.regs_eq]
  | some f =>
      rw [show reply = _ from Imu.peer_read_fault hf reg 1]
      exact ⟨h.next, fun hok => nomatch hok⟩

theorem peer_write {board : Board} {regs : Regs} {d : Imu} (delay : Nat → Nat)
    (h : Ready board regs d) {reg data : Byte}
    (hdata : reg = ctrl3CReg → (Layout.ofByte data : Ctrl3C).swReset = 0) :
    let reply := Imu.peer board delay d (.write reg data)
    ∃ regs', Quiet regs' reply.2 ∧ (reply.1 = .ok → regs' = Function.update regs reg data) := by
  intro reply
  have hstore := Quiet.store h delay hdata
  cases hf : board.fault d.tick with
  | none =>
      rw [show reply = _ from Imu.peer_write_ok hf reg data]
      exact ⟨_, hstore.next, fun _ => rfl⟩
  | some f =>
      rw [show reply = _ from Imu.peer_write_fault hf reg data]
      by_cases happlied : f.applied = true
      · rw [if_pos happlied]
        exact ⟨_, hstore.next, fun hok => nomatch hok⟩
      · rw [if_neg happlied]
        exact ⟨_, h.next, fun hok => nomatch hok⟩

end N6Samples.Ism330dlc
