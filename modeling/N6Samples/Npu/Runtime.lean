import Mathlib.Data.Finset.Image
import Mathlib.Data.Finset.SDiff
import Mathlib.Data.Finset.Lattice.Basic
import Mathlib.Data.Finset.Range

/-! # The network runtime (`ll_aton_runtime.c`)

`Run_Inference` steps through the epoch blocks of a network and waits on a semaphore while a
block runs in hardware; the interrupt handler records what has completed and gives the
semaphore. A step of the thread is a stretch of code in which at most its end can meet the
handler, and an event is one such step, the completion of a unit, or one interrupt.
-/

namespace N6Samples.Npu

/-! ## Epoch blocks -/

/-- `ATON_EPOCHCTRL_NUM`. -/
def epochCtrlNum : ℕ := 1

/-- `ATON_STRENG_NUM`. -/
def strengNum : ℕ := 10

/-- The completion interrupts of the ten streaming engines. -/
def strengIntMask : BitVec 32 := 0x3FF

/-- The completion interrupts of the streaming engines and of the epoch controllers. -/
inductive Irq where
  | streng (i : ℕ)
  | epochCtrl (i : ℕ)
deriving DecidableEq

/-- `EpochBlock_ItemTypeDef`; `inserts` is the array that its `start_epoch_block` hands to
`LL_ATON_RT_Insert_LibEpochBlockArray`. Its functions do nothing else to the context pointers: most
arrays of the library have ones that jump (`LL_ATON_RT_DecCurrEpochBlock`) or return early. -/
structure EpochBlock where
  inserts : Option ℕ
  waitMask : BitVec 32
  flags : BitVec 16
deriving DecidableEq

/-- The set bits of a mask. -/
def bits (mask : BitVec 32) : Finset ℕ := (Finset.range 32).filter fun i => mask.getLsbD i = true

namespace EpochBlock

variable (eb : EpochBlock)

def isEpochStart : Bool := eb.flags.getLsbD 0
def isEpochBlob : Bool := eb.flags.getLsbD 2
def isLastEpochBlock : Bool := eb.flags.getLsbD 3
def isEpochPureHW : Bool := eb.flags.getLsbD 4
def isEpochHybrid : Bool := eb.flags.getLsbD 6
def isEpochInternal : Bool := eb.flags.getLsbD 7

/-- For a blob, `wait_mask` is the number of its epoch controller. -/
def epochControllerUnit : ℕ := eb.waitMask.toNat

/-- `__LL_ATON_RT_GetWaitMask`. -/
def getWaitMask : Finset ℕ :=
  if eb.isEpochBlob then {eb.epochControllerUnit} else bits eb.waitMask

/-- The interrupt behind a bit of the wait mask. -/
def irqOf (i : ℕ) : Irq := if eb.isEpochBlob then .epochCtrl i else .streng i

/-- The completions that end the block. -/
def irqs : Finset Irq := eb.getWaitMask.image eb.irqOf

end EpochBlock

/-- `epoch_block_items`, and the static arrays of the library. -/
structure Network where
  items : List EpochBlock
  arrays : ℕ → List EpochBlock

/-! ## State -/

/-- `NN_Execution_State_TypeDef`. A pointer to an epoch block is the array from there on. -/
structure ExecState where
  currentEpochBlock : Option (List EpochBlock)
  nextEpochBlock : Option (List EpochBlock)
  savedCurrentEpochBlock : Option (List EpochBlock)
  inferenceStarted : Bool
  triggeredEvents : Finset ℕ
  currentEpochBlockStarted : Bool

/-- Where `Run_Inference` stands. The tags of `endBlock`, `advance` and `select` say whether
the end of a block was waited for in this call of `LL_ATON_RT_RunEpochBlock`. -/
inductive Pc where
  | run
  | clear
  | endBlock (waited : Bool)
  | advance (waited : Bool)
  | select (executed : Bool)
  | wfe
  | done
  | idle
  | failed
deriving DecidableEq

/-- What is observed of an inference. -/
inductive Action where
  | start (eb : EpochBlock)
  | complete (q : Irq)
  | finish (eb : EpochBlock)
deriving DecidableEq

/-- `owner` is `__ll_current_aton_ip_owner == nn_instance`, else there is none; `running` are
the units at work and `pending` the interrupts not yet handled. -/
structure System where
  exec : ExecState
  owner : Bool
  currentWaitMask : BitVec 32
  wfeSem : ℕ
  running : Finset Irq
  pending : Finset Irq
  pc : Pc
  log : List Action
  finished : List (List Action)

/-! ## The runtime

`none` is a failed assertion.
-/

def assert (p : Prop) [Decidable p] (s : System) : Option System := if p then some s else none

def setAtonOwner (s : System) : Option System :=
  (assert (s.owner = false ∧ s.currentWaitMask = 0) s).map fun s => { s with owner := true }

def clearAtonOwner (s : System) : Option System :=
  (assert (s.owner = true ∧ s.currentWaitMask = 0) s).map fun s => { s with owner := false }

def setWaitMask (mask : BitVec 32) (s : System) : Option System :=
  (assert (s.owner = true) s).map fun s => { s with currentWaitMask := mask }

def insertLibEpochBlockArray (array : List EpochBlock) (s : System) : Option System :=
  (assert (s.owner = true ∧ s.exec.nextEpochBlock = none ∧ s.exec.savedCurrentEpochBlock = none)
    s).map fun s => { s with exec := { s.exec with nextEpochBlock := some array } }

/-- `start_epoch_block`. -/
def startEpochBlock (net : Network) (eb : EpochBlock) (s : System) : Option System :=
  let s := { s with log := s.log ++ [.start eb] }
  match eb.inserts with
  | none => some s
  | some k => insertLibEpochBlockArray (net.arrays k) s

/-- `__LL_ATON_RT_ExecStartEpochBlock`. The units of a block start with its function, the
epoch controller after it. -/
def execStartEpochBlock (net : Network) (eb : EpochBlock) (s : System) : Option System := do
  let s ← assert (s.exec.nextEpochBlock = none) s
  let s ← assert (eb.isEpochStart = true → s.exec.triggeredEvents = ∅) s
  let s ← if eb.isEpochPureHW || eb.isEpochHybrid then setAtonOwner s else some s
  let s ←
    if eb.isEpochBlob then setWaitMask strengIntMask s
    else if eb.isEpochPureHW || eb.isEpochInternal then setWaitMask eb.waitMask s
    else some s
  let s ← startEpochBlock net eb s
  let s ← assert (eb.isEpochBlob = true → eb.epochControllerUnit < epochCtrlNum) s
  some { s with running := s.running ∪ eb.irqs }

/-- `__LL_ATON_RT_ExecEndEpochBlock`. -/
def execEndEpochBlock (eb : EpochBlock) (s : System) : Option System := do
  let s ← assert (eb.isEpochBlob = true → eb.epochControllerUnit < epochCtrlNum) s
  let s := { s with log := s.log ++ [.finish eb] }
  let s ← if eb.isEpochPureHW || eb.isEpochInternal then setWaitMask 0 s else some s
  let s ←
    if eb.isEpochPureHW || ((eb.isEpochHybrid || eb.isEpochInternal) &&
        s.exec.savedCurrentEpochBlock.isNone && s.exec.nextEpochBlock.isNone) then
      clearAtonOwner s
    else some s
  assert (eb.isEpochInternal = true ∨ eb.isEpochHybrid = true ∨ s.owner = false) s

/-- `__LL_ATON_RT_DetermineNextEpochBlock`. -/
def determineNextEpochBlock (s : System) : Option System := do
  let s ← assert (s.exec.triggeredEvents = ∅) s
  match s.exec.nextEpochBlock with
  | some array =>
      let s ← assert (s.exec.savedCurrentEpochBlock = none) s
      some { s with exec := { s.exec with
        savedCurrentEpochBlock := s.exec.currentEpochBlock
        currentEpochBlock := some array
        nextEpochBlock := none
        currentEpochBlockStarted := false } }
  | none =>
      some { s with exec := { s.exec with
        currentEpochBlock := s.exec.currentEpochBlock.map List.tail
        currentEpochBlockStarted := false } }

/-- `__LL_ATON_RT_RetFromLibEpochBlockArray(true, nn_instance)`. -/
def retFromLibEpochBlockArray (last : EpochBlock) (saved : List EpochBlock) (s : System) :
    Option System := do
  let s ← assert (s.owner = true ∧ last.isLastEpochBlock = true ∧
    (saved.head?.map EpochBlock.isEpochHybrid) = some true) s
  let s ← clearAtonOwner s
  let s ← assert (s.exec.nextEpochBlock = none) s
  some { s with exec := { s.exec with
    currentEpochBlock := some saved
    savedCurrentEpochBlock := none } }

/-- `__LL_ATON_RT_Init_Network`. -/
def initNetwork (net : Network) : ExecState where
  currentEpochBlock := some net.items
  nextEpochBlock := none
  savedCurrentEpochBlock := none
  inferenceStarted := false
  triggeredEvents := ∅
  currentEpochBlockStarted := false

/-- `LL_ATON_RT_Reset_Network`. -/
def resetNetwork (net : Network) (s : System) : Option System := do
  let s ← if s.owner then clearAtonOwner s else some s
  some { s with exec := initNetwork net }

/-! ## The thread -/

/-- The block that `current_epoch_block` points to. -/
def ExecState.block (x : ExecState) : Option EpochBlock := x.currentEpochBlock.bind List.head?

def startInference (s : System) : System :=
  { s with exec := { s.exec with inferenceStarted := true } }

/-- The head of `LL_ATON_RT_RunEpochBlock`. -/
def runEpochBlock (s : System) : Option System := do
  let eb ← s.exec.block
  if s.exec.currentEpochBlockStarted = true ∧ eb.getWaitMask ≠ ∅ then
    some { startInference s with
      pc := if eb.getWaitMask ⊆ s.exec.triggeredEvents then .clear else .wfe }
  else some { startInference s with pc := .select false }

/-- The test for the last block, and the start of any other. -/
def selectEpochBlock (net : Network) (executed : Bool) (s : System) : Option System := do
  let eb ← s.exec.block
  if eb.isLastEpochBlock then
    match s.exec.savedCurrentEpochBlock with
    | some saved =>
        let s ← retFromLibEpochBlockArray eb saved s
        some { s with
          exec := { s.exec with currentEpochBlock := s.exec.currentEpochBlock.map List.tail }
          pc := .run }
    | none => some { s with pc := .done }
  else if executed then some { s with pc := .run }
  else
    let begun : System := { s with exec := { s.exec with currentEpochBlockStarted := true } }
    let s ← if s.exec.currentEpochBlockStarted then some s else execStartEpochBlock net eb begun
    some { s with pc := if eb.getWaitMask = ∅ then .endBlock false else .wfe }

/-- A step of `Run_Inference`. -/
def threadStep (net : Network) (s : System) : Option System :=
  match s.pc with
  | .run => runEpochBlock s
  | .clear => do
      let eb ← s.exec.block
      let s ← assert (s.owner = true) s
      some { s with
        exec := { s.exec with triggeredEvents := s.exec.triggeredEvents \ eb.getWaitMask }
        pc := .endBlock true }
  | .endBlock waited => do
      let eb ← s.exec.block
      let s ← execEndEpochBlock eb s
      some { s with pc := .advance waited }
  | .advance waited => do
      let s ← determineNextEpochBlock s
      some { s with pc := if waited then .select true else .run }
  | .select executed => selectEpochBlock net executed s
  | .wfe => some { s with wfeSem := s.wfeSem - 1, pc := .run }
  | .done => do
      let s ← resetNetwork net s
      some { s with pc := .idle, finished := s.finished ++ [s.log], log := [] }
  | .idle => some { s with pc := .run }
  | .failed => none

/-! ## The interrupt handler -/

/-- `__LL_ATON_RT_IrqErr` fails on any interrupt. -/
def irqErr (irqs : Finset Irq) (s : System) : Option System := assert (irqs = ∅) s

/-- `__LL_ATON_RT_IrqEpochBlock`. -/
def irqEpochBlock (eb : EpochBlock) (irqs : Finset Irq) (s : System) : System :=
  { s with exec := { s.exec with
    triggeredEvents := s.exec.triggeredEvents ∪
      (Finset.range strengNum).filter fun i =>
        .streng i ∈ irqs ∧ eb.waitMask.getLsbD i = true } }

/-- `__LL_ATON_RT_IrqEpochBlob`. -/
def irqEpochBlob (eb : EpochBlock) (irqs : Finset Irq) (s : System) : System :=
  if .epochCtrl eb.epochControllerUnit ∈ irqs then
    { s with exec := { s.exec with
      triggeredEvents := s.exec.triggeredEvents ∪ {eb.epochControllerUnit} } }
  else s

/-- `ATON_STRENG_INT_MASK(ATON_STRENG_NUM, 0, 0)`. -/
def Irq.isStreng : Irq → Bool
  | .streng i => i < strengNum
  | .epochCtrl _ => false

/-- `ATON_STD_IRQHandler`. -/
def atonStdIrqHandler (s : System) : Option System := do
  let irqs := s.pending
  let s ← assert (s.owner = true) s
  let eb ← s.exec.block
  let s ←
    if eb.isEpochBlob then do
      let s ← assert (eb.epochControllerUnit < epochCtrlNum) s
      let s ← irqErr (irqs.erase (.epochCtrl eb.epochControllerUnit)) s
      some (irqEpochBlob eb irqs s)
    else do
      let s ← irqErr (irqs.filter fun q => q.isStreng = false) s
      some (irqEpochBlock eb irqs s)
  some { s with pending := ∅, wfeSem := s.wfeSem + 1 }

/-! ## The system -/

inductive Event where
  | thread
  | complete (q : Irq)
  | irq

/-- An assertion that fails stops the thread. -/
def orFail (next : Option System) (s : System) : System := next.getD { s with pc := .failed }

/-- The thread waits in `LL_ATON_OSAL_WFE` until the semaphore is given. -/
def step (net : Network) (s : System) : Event → Option System
  | .thread =>
      if s.pc ≠ .failed ∧ (s.pc = .wfe → 0 < s.wfeSem) then some (orFail (threadStep net s) s)
      else none
  | .complete q =>
      if q ∈ s.running then
        some { s with
          running := s.running.erase q
          pending := insert q s.pending
          log := s.log ++ [.complete q] }
      else none
  | .irq =>
      if s.pending ≠ ∅ then some (orFail (atonStdIrqHandler s) s) else none

/-- After `LL_ATON_RT_RuntimeInit` and `LL_ATON_RT_Init_Network`. -/
def initial (net : Network) : System where
  exec := initNetwork net
  owner := false
  currentWaitMask := 0
  wfeSem := 0
  running := ∅
  pending := ∅
  pc := .idle
  log := []
  finished := []

end N6Samples.Npu
