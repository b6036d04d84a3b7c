import Mathlib.Data.BitVec
import N6Samples.Lib.Transaction

/-! # ISM330DLC registers and bus commands

The register layouts of `ism330dlc_reg.h` for the little-endian byte order, and
the two bus callbacks of the Zephyr driver. A read hands back whatever the
caller's buffer holds after the transaction: on an error that is arbitrary,
because the buffer is an uninitialised local of the caller.
-/

namespace N6Samples.Ism330dlc

open Transaction

abbrev Byte := BitVec 8

/-! ## Register addresses -/

def fifoCtrl5Reg : Byte := 0x0A
def whoAmIReg : Byte := 0x0F
def ctrl1XlReg : Byte := 0x10
def ctrl2GReg : Byte := 0x11
def ctrl3CReg : Byte := 0x12
def outxLGReg : Byte := 0x22
def outxLXlReg : Byte := 0x28

/-- `ISM330DLC_ID`, the expected content of `WHO_AM_I`. -/
def ism330dlcId : Byte := 0x6A

def propertyEnable : Byte := 1

/-! ## Register layouts -/

structure Ctrl1Xl where
  bw0Xl : BitVec 1
  lpf1BwSel : BitVec 1
  fsXl : BitVec 2
  odrXl : BitVec 4
deriving DecidableEq

structure Ctrl2G where
  notUsed01 : BitVec 1
  fsG : BitVec 3
  odrG : BitVec 4
deriving DecidableEq

structure Ctrl3C where
  swReset : BitVec 1
  ble : BitVec 1
  ifInc : BitVec 1
  sim : BitVec 1
  ppOd : BitVec 1
  hLactive : BitVec 1
  bdu : BitVec 1
  boot : BitVec 1
deriving DecidableEq

structure FifoCtrl5 where
  fifoMode : BitVec 3
  odrFifo : BitVec 4
  notUsed01 : BitVec 1
deriving DecidableEq

/-- A register layout read over the byte on the wire, as the C code does with
`(uint8_t *)&reg`: the fields cover the byte exactly. -/
class Layout (ρ : Type) where
  ofByte : Byte → ρ
  toByte : ρ → Byte
  ofByte_toByte : ∀ r, ofByte (toByte r) = r
  toByte_ofByte : ∀ b, toByte (ofByte b) = b

attribute [simp] Layout.ofByte_toByte Layout.toByte_ofByte

instance : Layout Ctrl1Xl where
  ofByte b := ⟨b.extractLsb' 0 1, b.extractLsb' 1 1, b.extractLsb' 2 2, b.extractLsb' 4 4⟩
  toByte r := r.odrXl ++ r.fsXl ++ r.lpf1BwSel ++ r.bw0Xl
  ofByte_toByte := by
    rintro ⟨bw0Xl, lpf1BwSel, fsXl, odrXl⟩
    revert bw0Xl lpf1BwSel fsXl odrXl
    decide
  toByte_ofByte := by decide

instance : Layout Ctrl2G where
  ofByte b := ⟨b.extractLsb' 0 1, b.extractLsb' 1 3, b.extractLsb' 4 4⟩
  toByte r := r.odrG ++ r.fsG ++ r.notUsed01
  ofByte_toByte := by
    rintro ⟨notUsed01, fsG, odrG⟩
    revert notUsed01 fsG odrG
    decide
  toByte_ofByte := by decide

instance : Layout Ctrl3C where
  ofByte b :=
    ⟨b.extractLsb' 0 1, b.extractLsb' 1 1, b.extractLsb' 2 1, b.extractLsb' 3 1,
      b.extractLsb' 4 1, b.extractLsb' 5 1, b.extractLsb' 6 1, b.extractLsb' 7 1⟩
  toByte r :=
    r.boot ++ r.bdu ++ r.hLactive ++ r.ppOd ++ r.sim ++ r.ifInc ++ r.ble ++ r.swReset
  ofByte_toByte := by
    rintro ⟨swReset, ble, ifInc, sim, ppOd, hLactive, bdu, boot⟩
    revert swReset ble ifInc sim ppOd hLactive bdu boot
    decide
  toByte_ofByte := by decide

instance : Layout FifoCtrl5 where
  ofByte b := ⟨b.extractLsb' 0 3, b.extractLsb' 3 4, b.extractLsb' 7 1⟩
  toByte r := r.notUsed01 ++ r.odrFifo ++ r.fifoMode
  ofByte_toByte := by
    rintro ⟨fifoMode, odrFifo, notUsed01⟩
    revert fifoMode odrFifo notUsed01
    decide
  toByte_ofByte := by decide

/-! ## Field codes -/

/-- `ism330dlc_fs_xl_t`; `xlFsNd` is the header's error code. -/
inductive FsXl where
  | fs2g | fs16g | fs4g | fs8g | xlFsNd
deriving DecidableEq

def FsXl.code : FsXl → Nat
  | .fs2g => 0
  | .fs16g => 1
  | .fs4g => 2
  | .fs8g => 3
  | .xlFsNd => 4

/-- `ism330dlc_odr_xl_t`. -/
inductive OdrXl where
  | off | odr12Hz5 | odr26Hz | odr52Hz | odr104Hz | odr208Hz | odr416Hz | odr833Hz
  | odr1k66Hz | odr3k33Hz | odr6k66Hz | odr1Hz6
deriving DecidableEq

def OdrXl.code : OdrXl → Nat
  | .off => 0
  | .odr12Hz5 => 1
  | .odr26Hz => 2
  | .odr52Hz => 3
  | .odr104Hz => 4
  | .odr208Hz => 5
  | .odr416Hz => 6
  | .odr833Hz => 7
  | .odr1k66Hz => 8
  | .odr3k33Hz => 9
  | .odr6k66Hz => 10
  | .odr1Hz6 => 11

/-- `ism330dlc_fs_g_t`. -/
inductive FsG where
  | fs250dps | fs125dps | fs500dps | fs1000dps | fs2000dps
deriving DecidableEq

def FsG.code : FsG → Nat
  | .fs250dps => 0
  | .fs125dps => 1
  | .fs500dps => 2
  | .fs1000dps => 4
  | .fs2000dps => 6

/-- `ism330dlc_odr_g_t`. -/
inductive OdrG where
  | off | odr12Hz5 | odr26Hz | odr52Hz | odr104Hz | odr208Hz | odr416Hz | odr833Hz
  | odr1k66Hz | odr3k33Hz | odr6k66Hz
deriving DecidableEq

def OdrG.code : OdrG → Nat
  | .off => 0
  | .odr12Hz5 => 1
  | .odr26Hz => 2
  | .odr52Hz => 3
  | .odr104Hz => 4
  | .odr208Hz => 5
  | .odr416Hz => 6
  | .odr833Hz => 7
  | .odr1k66Hz => 8
  | .odr3k33Hz => 9
  | .odr6k66Hz => 10

/-- `ism330dlc_fifo_mode_t`. -/
inductive FifoMode where
  | bypass | fifo | streamToFifo | bypassToStream | stream
deriving DecidableEq

def FifoMode.code : FifoMode → Nat
  | .bypass => 0
  | .fifo => 1
  | .streamToFifo => 3
  | .bypassToStream => 4
  | .stream => 6

/-! ## Bus commands -/

/-- `ISM330DLC_OK` or `ISM330DLC_ERROR`. -/
inductive Status where
  | ok | error
deriving DecidableEq

/-- The bus transactions of the driver. Every register write of the modelled
functions has length one. -/
inductive Cmd where
  | read (reg : Byte) (len : Nat)
  | write (reg data : Byte)
deriving DecidableEq

/-- The status of a burst read and the caller's buffer afterwards. -/
structure ReadResult (len : Nat) where
  status : Status
  buf : Vector Byte len
deriving DecidableEq

abbrev Resp : Cmd → Type
  | .read _ len => ReadResult len
  | .write _ _ => Status

abbrev BusProg (α : Type) := Prog Cmd Resp α
abbrev BusEvent := Event Cmd Resp
abbrev BusPeer (S : Type) := Peer Cmd Resp S
abbrev BusLog := List BusEvent

def readReg (reg : Byte) (len : Nat) : BusProg (ReadResult len) :=
  Prog.request (R := Resp) (Cmd.read reg len)

def writeReg (reg data : Byte) : BusProg Status := Prog.request (R := Resp) (Cmd.write reg data)

/-- `if (p != ISM330DLC_OK) return onError;` followed by `rest`. -/
def check {α : Type} (p : BusProg Status) (onError : α) (rest : BusProg α) : BusProg α :=
  p >>= fun status => if status = .ok then rest else .ret onError

end N6Samples.Ism330dlc
