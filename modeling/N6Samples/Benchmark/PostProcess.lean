import N6Samples.Benchmark.Geometry
import N6Samples.Lib.Loop

/-! # YOLOv2 post-processing (`od_pp_yolov2.c`)

The floating-point path. Memory is made of words in blocks, so that the candidate
list can be built in place over the network output it is read from. Every access to
an entry of the scratch buffer is recorded.
-/

namespace N6Samples.Benchmark

open Loop

/-! ## Memory -/

abbrev Word := BitVec 32

/-- A pointer, with its offset in words. -/
structure Ptr where
  block : ℕ
  offset : ℕ
deriving DecidableEq

/-- The words of every block. -/
abbrev Mem := ℕ → ℕ → Word

namespace Mem

def read (mem : Mem) (p : Ptr) (i : ℕ) : Word := mem p.block (p.offset + i)

def write (mem : Mem) (p : Ptr) (i : ℕ) (w : Word) : Mem :=
  Function.update mem p.block (Function.update (mem p.block) (p.offset + i) w)

end Mem

/-! ## Floating point -/

/-- `float32_t` arithmetic on words. -/
structure FloatOps where
  lit : ℚ → Word
  add : Word → Word → Word
  sub : Word → Word → Word
  mul : Word → Word → Word
  div : Word → Word → Word
  neg : Word → Word
  expf : Word → Word
  logf : Word → Word
  lt : Word → Word → Bool
  le : Word → Word → Bool
  eq : Word → Word → Bool
  zero_eq_zero : eq (lit 0) (lit 0) = true

namespace FloatOps

variable (ops : FloatOps)

def isZero (x : Word) : Bool := ops.eq x (ops.lit 0)

/-- `vision_models_sigmoid_f`. -/
def sigmoid (x : Word) : Word := ops.div (ops.lit 1) (ops.add (ops.lit 1) (ops.expf (ops.neg x)))

def overlap (x1 w1 x2 w2 : Word) : Word :=
  let l1 := ops.sub x1 (ops.div w1 (ops.lit 2))
  let l2 := ops.sub x2 (ops.div w2 (ops.lit 2))
  let left := if ops.lt l2 l1 then l1 else l2
  let r1 := ops.add x1 (ops.div w1 (ops.lit 2))
  let r2 := ops.add x2 (ops.div w2 (ops.lit 2))
  let right := if ops.lt r1 r2 then r1 else r2
  ops.sub right left

def boxIntersection (a b : OutBuffer Word) : Word :=
  let w := ops.overlap a.xCenter a.width b.xCenter b.width
  let h := ops.overlap a.yCenter a.height b.yCenter b.height
  if ops.lt w (ops.lit 0) || ops.lt h (ops.lit 0) then ops.lit 0 else ops.mul w h

def boxUnion (a b : OutBuffer Word) : Word :=
  ops.sub (ops.add (ops.mul a.width a.height) (ops.mul b.width b.height))
    (ops.boxIntersection a b)

/-- `vision_models_box_iou`. -/
def boxIou (a b : OutBuffer Word) : Word :=
  let i := ops.boxIntersection a b
  let u := ops.boxUnion a b
  if ops.isZero i || ops.isZero u then ops.lit 0 else ops.div i u

end FloatOps

/-- `qsort` with a comparator: some permutation of the entries. -/
structure Qsort where
  sort : (OutBuffer Word → OutBuffer Word → ℤ) → List (OutBuffer Word) → List (OutBuffer Word)
  perm : ∀ compare entries, (sort compare entries).Perm entries

/-! ## Parameters and scratch buffer -/

/-- `od_yolov2_pp_static_param_t`. -/
structure StaticParam where
  nbClasses : ℤ
  nbAnchors : ℤ
  gridWidth : ℤ
  gridHeight : ℤ
  nbInputBoxes : ℤ
  maxBoxesLimit : ℤ
  confThreshold : Word
  iouThreshold : Word
  pAnchors : Ptr
  nbDetect : ℤ
  rawScale : Word
  rawZeroPoint : BitVec 8
  pScratchBuffer : Option Ptr
deriving DecidableEq

/-- Word offsets of a raw detection. -/
def xCenterOff : ℕ := 0
def yCenterOff : ℕ := 1
def widthRelOff : ℕ := 2
def heightRelOff : ℕ := 3
def objectnessOff : ℕ := 4
def classProbOff : ℕ := 5

/-- `sizeof(od_pp_outBuffer_t)` in words. -/
def entryWords : ℕ := 6

/-- Memory and the entries of the scratch buffer touched so far. -/
structure Machine where
  mem : Mem
  touched : List ℕ

namespace Machine

def touch (m : Machine) (i : ℕ) : Machine := { m with touched := m.touched ++ [i] }

def entry (m : Machine) (s : Ptr) (i : ℕ) : OutBuffer Word where
  xCenter := m.mem.read s (entryWords * i)
  yCenter := m.mem.read s (entryWords * i + 1)
  width := m.mem.read s (entryWords * i + 2)
  height := m.mem.read s (entryWords * i + 3)
  conf := m.mem.read s (entryWords * i + 4)
  classIndex := Int32.ofBitVec (m.mem.read s (entryWords * i + 5))

def conf (m : Machine) (s : Ptr) (i : ℕ) : Word := m.mem.read s (entryWords * i + 4)

/-- Writes word `field` of entry `i`. -/
def setField (m : Machine) (s : Ptr) (i field : ℕ) (w : Word) : Machine :=
  { m.touch i with mem := m.mem.write s (entryWords * i + field) w }

def setXCenter (m : Machine) (s : Ptr) (i : ℕ) (w : Word) : Machine := m.setField s i 0 w
def setYCenter (m : Machine) (s : Ptr) (i : ℕ) (w : Word) : Machine := m.setField s i 1 w
def setWidth (m : Machine) (s : Ptr) (i : ℕ) (w : Word) : Machine := m.setField s i 2 w
def setHeight (m : Machine) (s : Ptr) (i : ℕ) (w : Word) : Machine := m.setField s i 3 w
def setConf (m : Machine) (s : Ptr) (i : ℕ) (w : Word) : Machine := m.setField s i 4 w
def setClassIndex (m : Machine) (s : Ptr) (i : ℕ) (w : Word) : Machine := m.setField s i 5 w

def setEntry (m : Machine) (s : Ptr) (i : ℕ) (e : OutBuffer Word) : Machine :=
  ((((m.setXCenter s i e.xCenter).setYCenter s i e.yCenter).setWidth s i e.width).setHeight s i
    e.height).setConf s i e.conf |>.setClassIndex s i e.classIndex.toBitVec

end Machine

/-! ## Candidate extraction -/

/-- The variables of the extraction loops. -/
structure Extraction where
  machine : Machine
  countDetect : ℕ
  elOffset : ℕ

/-- What both branches write into a candidate besides score and class. -/
def writeGeometry (ops : FloatOps) (raw out : Ptr) (p : StaticParam) (row col anch el i : ℕ)
    (m : Machine) : Machine :=
  let gridWidthInv := ops.div (ops.lit 1) (ops.lit p.gridWidth)
  let gridHeightInv := ops.div (ops.lit 1) (ops.lit p.gridHeight)
  let m := m.setXCenter out i
    (ops.mul (ops.add (ops.lit col) (ops.sigmoid (m.mem.read raw (el + xCenterOff)))) gridWidthInv)
  let m := m.setYCenter out i
    (ops.mul (ops.add (ops.lit row) (ops.sigmoid (m.mem.read raw (el + yCenterOff)))) gridHeightInv)
  let m := m.setWidth out i
    (ops.mul (ops.mul (m.mem.read p.pAnchors (2 * anch))
      (ops.expf (m.mem.read raw (el + widthRelOff)))) gridWidthInv)
  m.setHeight out i
    (ops.mul (ops.mul (m.mem.read p.pAnchors (2 * anch + 1))
      (ops.expf (m.mem.read raw (el + heightRelOff)))) gridHeightInv)

/-- One cell of the branch `1 == nb_classes`. -/
def singleClassCell (ops : FloatOps) (raw out : Ptr) (p : StaticParam) (row col anch : ℕ)
    (x : Extraction) : Extraction :=
  let stride := (p.nbClasses + classProbOff).toNat
  let computedThreshold :=
    ops.neg (ops.logf (ops.sub (ops.div (ops.lit 1) p.confThreshold) (ops.lit 1)))
  let objectness := x.machine.mem.read raw (x.elOffset + objectnessOff)
  if ops.le computedThreshold objectness then
    let m := x.machine.setConf out x.countDetect (ops.sigmoid objectness)
    let m := m.setClassIndex out x.countDetect 0
    let m := writeGeometry ops raw out p row col anch x.elOffset x.countDetect m
    ⟨m, x.countDetect + 1, x.elOffset + stride⟩
  else ⟨x.machine, x.countDetect, x.elOffset + stride⟩

/-- `vision_models_maxi_p_if32ou32` on one row: the best score and its index. -/
def maxiP (ops : FloatOps) (mem : Mem) (raw : Ptr) (el len : ℕ) : Word × ℕ :=
  forRange 1 (len - 1)
    (fun i best =>
      if ops.lt best.1 (mem.read raw (el + i)) then (mem.read raw (el + i), i) else best)
    (mem.read raw el, 0)

/-- One cell of the other branch. -/
def multiClassCell (ops : FloatOps) (raw out : Ptr) (p : StaticParam) (row col anch : ℕ)
    (x : Extraction) : Extraction :=
  let stride := (p.nbClasses + classProbOff).toNat
  let classes := x.elOffset + classProbOff
  let best := maxiP ops x.machine.mem raw classes p.nbClasses.toNat
  let prob := ops.sigmoid (x.machine.mem.read raw (x.elOffset + objectnessOff))
  let sumf := forRange 0 p.nbClasses.toNat
    (fun i sum => ops.add sum (ops.expf (x.machine.mem.read raw (classes + i)))) (ops.lit 0)
  let bestScore := ops.mul (ops.div (ops.expf best.1) sumf) prob
  if ops.le p.confThreshold bestScore then
    let m := writeGeometry ops raw out p row col anch x.elOffset x.countDetect x.machine
    let m := m.setConf out x.countDetect bestScore
    let m := m.setClassIndex out x.countDetect (BitVec.ofNat 32 best.2)
    ⟨m, x.countDetect + 1, x.elOffset + stride⟩
  else ⟨x.machine, x.countDetect, x.elOffset + stride⟩

def extract (cell : ℕ → ℕ → ℕ → Extraction → Extraction) (p : StaticParam) (m : Machine) :
    Extraction :=
  forRange 0 p.gridWidth.toNat
    (fun row => forRange 0 p.gridHeight.toNat fun col =>
      forRange 0 p.nbAnchors.toNat fun anch => cell row col anch)
    ⟨m, 0, 0⟩

/-- `yolov2_pp_getNNBoxes_centroid`. -/
def getNNBoxes (ops : FloatOps) (raw out : Ptr) (p : StaticParam) (m : Machine) :
    Machine × StaticParam :=
  let x :=
    if p.nbClasses = 1 then extract (singleClassCell ops raw out p) p m
    else extract (multiClassCell ops raw out p) p m
  (x.machine, { p with nbDetect := x.countDetect })

/-! ## Non-maximum suppression and box limit -/

/-- `yolov2_nms_comparator` with `AI_YOLOV2_PP_SORT_CLASS` set to `k`. -/
def nmsComparator (ops : FloatOps) (k : ℕ) (pa pb : OutBuffer Word) : ℤ :=
  let a := if pa.classIndex = Int32.ofNat k then pa.conf else ops.lit 0
  let b := if pb.classIndex = Int32.ofNat k then pb.conf else ops.lit 0
  let diff := ops.sub a b
  if ops.lt diff (ops.lit 0) then 1 else if ops.lt (ops.lit 0) diff then -1 else 0

def storeEntries (s : Ptr) : ℕ → List (OutBuffer Word) → Machine → Machine
  | _, [], m => m
  | i, e :: es, m => storeEntries s (i + 1) es (m.setEntry s i e)

def sortEntries (ops : FloatOps) (qsort : Qsort) (s : Ptr) (k n : ℕ) (m : Machine) : Machine :=
  storeEntries s 0 (qsort.sort (nmsComparator ops k) ((List.range n).map (m.entry s))) m

/-- The inner loop body: entry `j` is dropped when it overlaps entry `i` too much. -/
def suppressOne (ops : FloatOps) (s : Ptr) (iouThreshold : Word) (i j : ℕ) (m : Machine) :
    Machine :=
  let m := m.touch j
  if ops.isZero (m.conf s j) then m
  else
    let m := (m.touch i).touch j
    if ops.lt iouThreshold (ops.boxIou (m.entry s i) (m.entry s j)) then
      m.setConf s j (ops.lit 0)
    else m

def suppress (ops : FloatOps) (s : Ptr) (iouThreshold : Word) (n : ℕ) (m : Machine) : Machine :=
  forRange 0 n
    (fun i m =>
      let m := m.touch i
      if ops.isZero (m.conf s i) then m
      else forRange (i + 1) (n - (i + 1)) (suppressOne ops s iouThreshold i) m) m

/-- The body of the limit loop, with its counter. -/
def limitOne (ops : FloatOps) (s : Ptr) (limit : ℤ) (y : ℕ) (x : Machine × ℤ) : Machine × ℤ :=
  let m := x.1
  if x.2 < limit then
    let m := m.touch y
    if ops.isZero (m.conf s y) then (m.setConf s y (ops.lit 0), x.2) else (m, x.2 + 1)
  else (m.setConf s y (ops.lit 0), x.2)

/-- The limit loop runs up to and including entry `nb_detect`. -/
def limitBoxes (ops : FloatOps) (s : Ptr) (limit : ℤ) (n : ℕ) (m : Machine) : Machine :=
  (forRange 0 (n + 1) (limitOne ops s limit) (m, 0)).1

/-- `yolov2_pp_nmsFiltering_centroid`. -/
def nmsFiltering (ops : FloatOps) (qsort : Qsort) (s : Ptr) (p : StaticParam) (m : Machine) :
    Machine :=
  forRange 0 p.nbClasses.toNat
    (fun k m =>
      let m := sortEntries ops qsort s k p.nbDetect.toNat m
      let m := suppress ops s p.iouThreshold p.nbDetect.toNat m
      limitBoxes ops s p.maxBoxesLimit p.nbDetect.toNat m) m

/-! ## Score filtering -/

/-- `yolov2_pp_scoreFiltering_centroid`: the entries copied to `pOutBuff`, in order. -/
def scoreFiltering (ops : FloatOps) (s : Ptr) (p : StaticParam) (m : Machine) :
    Machine × List (OutBuffer Word) :=
  forRange 0 p.nbDetect.toNat
    (fun i x =>
      let m := x.1.touch i
      if ops.isZero (m.conf s i) then (m, x.2) else (m.touch i, x.2 ++ [m.entry s i])) (m, [])

/-! ## Exported routines -/

/-- `od_yolov2_pp_reset`. -/
def ppReset (p : StaticParam) : StaticParam := { p with nbDetect := 0 }

/-- The scratch buffer of `od_yolov2_pp_process`: the caller's, else the network output
if an entry fits into a raw detection. -/
def chooseScratch (raw : Ptr) (p : StaticParam) : Option Ptr :=
  match p.pScratchBuffer with
  | some s => some s
  | none => if (entryWords : ℤ) ≤ classProbOff + p.nbClasses then some raw else none

/-- What `od_yolov2_pp_process` leaves: memory, parameters and `pp_output`. -/
structure Processed where
  machine : Machine
  param : StaticParam
  detections : List (OutBuffer Word)

/-- The three passes of `od_yolov2_pp_process` in a scratch buffer. -/
def processIn (ops : FloatOps) (qsort : Qsort) (raw s : Ptr) (p : StaticParam) (mem : Mem) :
    Processed :=
  let x := getNNBoxes ops raw s p ⟨mem, []⟩
  let m := nmsFiltering ops qsort s x.2 x.1
  let y := scoreFiltering ops s x.2 m
  ⟨y.1, x.2, y.2⟩

/-- `od_yolov2_pp_process`; `none` is `AI_OD_POSTPROCESS_ERROR`. -/
def ppProcess (ops : FloatOps) (qsort : Qsort) (raw : Ptr) (p : StaticParam) (mem : Mem) :
    Option Processed :=
  match chooseScratch raw p with
  | none => none
  | some s => some (processIn ops qsort raw s p mem)

theorem ppProcess_of_scratch {ops : FloatOps} {qsort : Qsort} {raw s : Ptr} {p : StaticParam}
    (h : chooseScratch raw p = some s) (mem : Mem) :
    ppProcess ops qsort raw p mem = some (processIn ops qsort raw s p mem) := by
  simp only [ppProcess, h]

end N6Samples.Benchmark
