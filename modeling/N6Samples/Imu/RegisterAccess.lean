import N6Samples.Imu.Register

/-! # Register access functions (`ism330dlc_reg.c`)

Every setter is the same read-modify-write of one register. The getters decode
the buffer whatever the status of the read is, as the C code does.
-/

namespace N6Samples.Ism330dlc

open Transaction

/-- Byte `i` of a buffer. -/
def byteAt {n : ℕ} (buf : Vector Byte n) (i : ℕ) : Byte := buf[i]?.getD 0

@[simp] theorem byteAt_of_lt {n : ℕ} (buf : Vector Byte n) {i : ℕ} (h : i < n) :
    byteAt buf i = buf[i] := by
  simp [byteAt, h]

/-! ## Setters -/

/-- The read-modify-write of the setters: the write follows only a successful read. -/
def setField {ρ : Type} [Layout ρ] (reg : Byte) (change : ρ → ρ) : BusProg Status :=
  readReg reg 1 >>= fun r =>
    if r.status = .ok then writeReg reg (Layout.toByte (change (Layout.ofByte (byteAt r.buf 0))))
    else .ret r.status

def resetSet (val : Byte) : BusProg Status :=
  setField ctrl3CReg fun r : Ctrl3C => { r with swReset := val.setWidth 1 }

def autoIncrementSet (val : Byte) : BusProg Status :=
  setField ctrl3CReg fun r : Ctrl3C => { r with ifInc := val.setWidth 1 }

def blockDataUpdateSet (val : Byte) : BusProg Status :=
  setField ctrl3CReg fun r : Ctrl3C => { r with bdu := val.setWidth 1 }

def fifoModeSet (val : FifoMode) : BusProg Status :=
  setField fifoCtrl5Reg fun r : FifoCtrl5 => { r with fifoMode := BitVec.ofNat 3 val.code }

def xlDataRateSet (val : OdrXl) : BusProg Status :=
  setField ctrl1XlReg fun r : Ctrl1Xl => { r with odrXl := BitVec.ofNat 4 val.code }

def xlFullScaleSet (val : FsXl) : BusProg Status :=
  setField ctrl1XlReg fun r : Ctrl1Xl => { r with fsXl := BitVec.ofNat 2 val.code }

def gyDataRateSet (val : OdrG) : BusProg Status :=
  setField ctrl2GReg fun r : Ctrl2G => { r with odrG := BitVec.ofNat 4 val.code }

def gyFullScaleSet (val : FsG) : BusProg Status :=
  setField ctrl2GReg fun r : Ctrl2G => { r with fsG := BitVec.ofNat 3 val.code }

/-! ## Getters -/

/-- The `switch` of `ism330dlc_xl_full_scale_get`. -/
def decodeFsXl (fsXl : BitVec 2) : FsXl :=
  match fsXl.toNat with
  | 0 => .fs2g
  | 1 => .fs16g
  | 2 => .fs4g
  | 3 => .fs8g
  | _ => .fs2g

/-- No field value reads as the error code of the header. -/
theorem decodeFsXl_ne (fsXl : BitVec 2) : decodeFsXl fsXl ≠ .xlFsNd := by
  revert fsXl
  decide

/-- The `switch` of `ism330dlc_gy_full_scale_get`; unused codes read as 250 dps. -/
def decodeFsG (fsG : BitVec 3) : FsG :=
  match fsG.toNat with
  | 0 => .fs250dps
  | 1 => .fs125dps
  | 2 => .fs500dps
  | 4 => .fs1000dps
  | 6 => .fs2000dps
  | _ => .fs250dps

def xlFullScaleGet : BusProg (Status × FsXl) :=
  readReg ctrl1XlReg 1 >>= fun r =>
    .ret (r.status, decodeFsXl (Layout.ofByte (byteAt r.buf 0) : Ctrl1Xl).fsXl)

def gyFullScaleGet : BusProg (Status × FsG) :=
  readReg ctrl2GReg 1 >>= fun r =>
    .ret (r.status, decodeFsG (Layout.ofByte (byteAt r.buf 0) : Ctrl2G).fsG)

def deviceIdGet : BusProg (ReadResult 1) := readReg whoAmIReg 1

structure AxesRaw where
  x : Int16
  y : Int16
  z : Int16
deriving DecidableEq

/-- `val = (int16_t)hi; val = (val * 256) + (int16_t)lo;`, with the arithmetic in
`int` and the result converted back to `int16_t`. -/
def rawWord (lo hi : Byte) : Int16 :=
  Int16.ofInt ((Int16.ofNat hi.toNat).toInt * 256 + (Int16.ofNat lo.toNat).toInt)

def rawAxes (buff : Vector Byte 6) : AxesRaw :=
  ⟨rawWord (byteAt buff 0) (byteAt buff 1), rawWord (byteAt buff 2) (byteAt buff 3),
    rawWord (byteAt buff 4) (byteAt buff 5)⟩

def angularRateRawGet : BusProg (Status × AxesRaw) :=
  readReg outxLGReg 6 >>= fun r => .ret (r.status, rawAxes r.buf)

def accelerationRawGet : BusProg (Status × AxesRaw) :=
  readReg outxLXlReg 6 >>= fun r => .ret (r.status, rawAxes r.buf)

/-- The byte pair is read as a little-endian two's-complement word. -/
theorem rawWord_toInt (lo hi : Byte) : (rawWord lo hi).toInt = (hi ++ lo).toInt := by
  have hlo := lo.isLt
  have hhi := hi.isLt
  rw [rawWord, Int16.toInt_ofNat_of_lt (by omega), Int16.toInt_ofNat_of_lt (by omega),
    Int16.toInt_ofInt, BitVec.toInt_eq_toNat_bmod, BitVec.toNat_append]
  rw [← Nat.shiftLeft_add_eq_or_of_lt hlo, Nat.shiftLeft_eq]
  congr 1

end N6Samples.Ism330dlc
