import N6Samples.Benchmark.PostProcessBounds
import N6Samples.Lib.Lockstep

/-! # The network thread and its local parameters (`model.c`)

`model_thread_ep` sets some fields of the local `pp_params` and leaves the others as
the stack had them. The initial content is an argument here, so that two runs can
differ in nothing else.
-/

namespace N6Samples.Benchmark

open Lockstep

/-! ## The code -/

/-- Where the network leaves its output, and where the anchors are. -/
structure Network where
  nnOut : Ptr
  nnOutWords : ℕ
  anchors : Ptr

/-- The output tensor of one inference. -/
abbrev Tensor := ℕ → Word

/-- The block `pp init` of `model_thread_ep`, over the initial content of `pp_params`. -/
def ppInit (ops : FloatOps) (net : Network) (pp : StaticParam) : StaticParam :=
  ppReset
    { pp with
      confThreshold := ops.lit 0.6
      iouThreshold := ops.lit 0.3
      nbAnchors := 5
      nbClasses := 1
      gridHeight := 7
      gridWidth := 7
      nbInputBoxes := 7 * 7
      pAnchors := net.anchors
      maxBoxesLimit := 10 }

/-- What `Run_Inference` leaves in memory. -/
def runInference (net : Network) (tensor : Tensor) (mem : Mem) : Mem := fun block word =>
  if block = net.nnOut.block ∧ net.nnOut.offset ≤ word ∧
      word < net.nnOut.offset + net.nnOutWords then
    tensor (word - net.nnOut.offset)
  else mem block word

/-- What an iteration of the thread lives on. -/
structure ThreadState where
  ppParams : StaticParam
  mem : Mem

/-- What an iteration shows: its scratch buffer, the memory before and after the post
processing, and the detections it publishes. -/
structure Frame where
  scratch : Option Ptr
  before : Mem
  after : Mem
  published : List (OutBuffer Word)

/-- One iteration of `model_thread_ep`; an error stops the thread at its assertion. -/
def iteration (ops : FloatOps) (qsort : Qsort) (net : Network) (st : ThreadState)
    (tensor : Tensor) : Frame × Option ThreadState :=
  let mem := runInference net tensor st.mem
  let scratch := chooseScratch net.nnOut st.ppParams
  match ppProcess ops qsort net.nnOut st.ppParams mem with
  | none => (⟨scratch, mem, mem, []⟩, none)
  | some r => (⟨scratch, mem, r.machine.mem, r.detections⟩, some ⟨r.param, r.machine.mem⟩)

/-- `model_thread_ep` over the tensors of its inferences. -/
def modelThreadEp (ops : FloatOps) (qsort : Qsort) (net : Network) (pp : StaticParam) (mem : Mem)
    (tensors : List Tensor) : List Frame :=
  outputs (iteration ops qsort net) ⟨ppInit ops net pp, mem⟩ tensors

/-! ## What post-processing reads of its parameters -/

/-- The parameters without the fields that `ppInit` leaves alone. -/
def StaticParam.initialised (p : StaticParam) : StaticParam :=
  { p with rawScale := 0, rawZeroPoint := 0, pScratchBuffer := none }

variable {ops : FloatOps} {qsort : Qsort} {net : Network} {raw s : Ptr} {p p' : StaticParam}
  {mem : Mem}

theorem ppInit_initialised (pp pp' : StaticParam) :
    (ppInit ops net pp).initialised = (ppInit ops net pp').initialised := rfl

theorem processIn_initialised (ops : FloatOps) (qsort : Qsort) (raw s : Ptr) (p : StaticParam)
    (mem : Mem) :
    processIn ops qsort raw s p.initialised mem =
      { processIn ops qsort raw s p mem with
        param := (processIn ops qsort raw s p mem).param.initialised } := rfl

/-- Once the scratch buffer is chosen, the fields that `ppInit` leaves alone are not read. -/
theorem processIn_congr (ops : FloatOps) (qsort : Qsort) (raw s : Ptr) (mem : Mem)
    (hsame : p.initialised = p'.initialised) :
    (processIn ops qsort raw s p mem).machine = (processIn ops qsort raw s p' mem).machine ∧
      (processIn ops qsort raw s p mem).detections =
        (processIn ops qsort raw s p' mem).detections ∧
      (processIn ops qsort raw s p mem).param.initialised =
        (processIn ops qsort raw s p' mem).param.initialised := by
  have hleft := processIn_initialised ops qsort raw s p mem
  rw [hsame, processIn_initialised] at hleft
  exact ⟨(congrArg Processed.machine hleft).symm, (congrArg Processed.detections hleft).symm,
    (congrArg Processed.param hleft).symm⟩

/-! ## Iterations -/

theorem iteration_scratch (st : ThreadState) (tensor : Tensor) :
    (iteration ops qsort net st tensor).1.scratch = chooseScratch net.nnOut st.ppParams := by
  unfold iteration
  simp only
  cases ppProcess ops qsort net.nnOut st.ppParams (runInference net tensor st.mem) with
  | none => rfl
  | some r => rfl

theorem iteration_of_scratch {st : ThreadState}
    (h : chooseScratch net.nnOut st.ppParams = some s) (tensor : Tensor) :
    let before := runInference net tensor st.mem
    let r := processIn ops qsort net.nnOut s st.ppParams before
    iteration ops qsort net st tensor =
      (⟨some s, before, r.machine.mem, r.detections⟩, some ⟨r.param, r.machine.mem⟩) := by
  simp only [iteration, ppProcess_of_scratch h, h]

/-- A raw detection with one class is as long as an entry, so there is always a buffer. -/
theorem chooseScratch_of_one_class (hclass : p.nbClasses = 1) :
    chooseScratch raw p = some (p.pScratchBuffer.getD raw) := by
  unfold chooseScratch
  cases p.pScratchBuffer with
  | none => simp [hclass, entryWords, classProbOff]
  | some s => rfl

/-- The assertion on the result of the post processing never fails. -/
theorem modelThreadEp_length (pp : StaticParam) (tensors : List Tensor) :
    (modelThreadEp ops qsort net pp mem tensors).length = tensors.length := by
  have hstart : (ppInit ops net pp).nbClasses = 1 := rfl
  apply outputs_length (fun st : ThreadState => st.ppParams.nbClasses = 1) _ hstart
  intro st tensor hclass
  exact ⟨_, _, iteration_of_scratch (chooseScratch_of_one_class hclass) tensor, hclass⟩

/-! ## Two threads on different stacks -/

/-- The scratch pointer found on the stack selects the network output. -/
def SelectsOutput (net : Network) (p : StaticParam) : Prop :=
  p.pScratchBuffer = none ∨ p.pScratchBuffer = some net.nnOut

/-- The post processing of a frame in both runs works in the network output alone, and
both publish the same detections. -/
structure SameFrame (net : Network) (f f' : Frame) : Prop where
  scratch : f.scratch = some net.nnOut ∧ f'.scratch = some net.nnOut
  elsewhere : ∀ block, block ≠ net.nnOut.block →
    f.after block = f.before block ∧ f'.after block = f'.before block
  published : f.published = f'.published

/-- What two threads keep in common between frames. -/
structure SameState (net : Network) (st st' : ThreadState) : Prop where
  one_class : st.ppParams.nbClasses = 1
  selects : SelectsOutput net st.ppParams
  selects' : SelectsOutput net st'.ppParams
  params : st.ppParams.initialised = st'.ppParams.initialised
  mem : st.mem = st'.mem

theorem chooseScratch_eq_iff (hclass : p.nbClasses = 1) :
    chooseScratch net.nnOut p = some net.nnOut ↔ SelectsOutput net p := by
  rw [chooseScratch_of_one_class hclass]
  unfold SelectsOutput
  cases p.pScratchBuffer with
  | none => simp
  | some s => simp

theorem iteration_sameState {st st' : ThreadState} (h : SameState net st st') (tensor : Tensor) :
    ∃ f t f' t', iteration ops qsort net st tensor = (f, some t) ∧
      iteration ops qsort net st' tensor = (f', some t') ∧
      SameFrame net f f' ∧ SameState net t t' := by
  rcases h with ⟨hclass, hselects, hselects', hparams, hmem⟩
  have hclass' : st'.ppParams.nbClasses = 1 :=
    (congrArg StaticParam.nbClasses hparams).symm.trans hclass
  have hs := (chooseScratch_eq_iff hclass).mpr hselects
  have hs' := (chooseScratch_eq_iff hclass').mpr hselects'
  refine ⟨_, _, _, _, iteration_of_scratch hs tensor, iteration_of_scratch hs' tensor, ?_, ?_⟩
  · refine ⟨⟨rfl, rfl⟩, ?_, ?_⟩
    · intro block hblock
      exact ⟨processIn_sameOutside ops qsort net.nnOut _ block hblock,
        processIn_sameOutside ops qsort net.nnOut _ block hblock⟩
    · simp only [hmem]
      exact (processIn_congr ops qsort net.nnOut net.nnOut _ hparams).2.1
  · obtain ⟨hmachine, -, hparam⟩ := processIn_congr ops qsort net.nnOut net.nnOut
      (runInference net tensor st.mem) hparams
    refine ⟨hclass, hselects, hselects', ?_, ?_⟩
    · simp only [← hmem]
      exact hparam
    · simp only [← hmem, hmachine]

theorem chooseScratch_ppInit (pp : StaticParam) :
    chooseScratch net.nnOut (ppInit ops net pp) = some net.nnOut ↔ SelectsOutput net pp :=
  chooseScratch_eq_iff (p := ppInit ops net pp) rfl

theorem ppInit_sameState {pp pp' : StaticParam} (h : SelectsOutput net pp)
    (h' : SelectsOutput net pp') :
    SameState net ⟨ppInit ops net pp, mem⟩ ⟨ppInit ops net pp', mem⟩ :=
  ⟨rfl, h, h', ppInit_initialised pp pp', rfl⟩

/-- Two runs of the thread that differ in the stack they start from agree on every frame
exactly when, unless there is no frame at all, both found a scratch pointer on it that
selects the network output. -/
theorem modelThreadEp_independent_iff (ops : FloatOps) (qsort : Qsort) (net : Network)
    (pp pp' : StaticParam) (mem : Mem) (tensors : List Tensor) :
    List.Forall₂ (SameFrame net) (modelThreadEp ops qsort net pp mem tensors)
        (modelThreadEp ops qsort net pp' mem tensors) ↔
      tensors = [] ∨ SelectsOutput net pp ∧ SelectsOutput net pp' := by
  constructor
  · intro hruns
    cases tensors with
    | nil => exact Or.inl rfl
    | cons tensor tensors =>
        unfold modelThreadEp at hruns
        obtain ⟨rest, hfirst⟩ := outputs_cons (iteration ops qsort net)
          ⟨ppInit ops net pp, mem⟩ tensor tensors
        obtain ⟨rest', hfirst'⟩ := outputs_cons (iteration ops qsort net)
          ⟨ppInit ops net pp', mem⟩ tensor tensors
        rw [hfirst, hfirst', List.forall₂_cons] at hruns
        rcases hruns.1.scratch with ⟨hs, hs'⟩
        rw [iteration_scratch] at hs hs'
        exact Or.inr ⟨(chooseScratch_ppInit pp).mp hs, (chooseScratch_ppInit pp').mp hs'⟩
  · intro hcond
    cases hcond with
    | inl hnone =>
        subst hnone
        exact List.Forall₂.nil
    | inr hselect =>
        have hstart : SameState net ⟨ppInit ops net pp, mem⟩ ⟨ppInit ops net pp', mem⟩ :=
          ppInit_sameState hselect.1 hselect.2
        exact outputs_forall₂ (SameState net) (SameFrame net)
          (fun st st' tensor h => iteration_sameState h tensor) hstart tensors

/-! ## A scratch pointer left on the stack -/

/-- The order of `float32_t` words that are numbers, as an integer. -/
def floatKey (w : Word) : ℤ := if w.msb then -((w.toNat : ℤ) - 2 ^ 31) else w.toNat

def isNan (w : Word) : Bool := 0x7F800000 < w.toNat % 2 ^ 31

/-- Single precision as far as a frame without candidates needs it: the comparisons, and
the constants on the way to the objectness threshold of 0.6. -/
def quietFloat : FloatOps where
  lit q := if q = 0 then 0 else if q = 1 then 0x3F800000 else if q = 0.6 then 0x3F19999A
    else 0x3E99999A
  add _ _ := 0
  sub _ _ := 0x3F2AAAAA
  mul _ _ := 0
  div _ _ := 0x3FD55555
  neg w := w ^^^ 0x80000000
  expf _ := 0
  logf _ := 0xBECF9920
  lt a b := !isNan a && !isNan b && decide (floatKey a < floatKey b)
  le a b := !isNan a && !isNan b && decide (floatKey a ≤ floatKey b)
  eq a b := !isNan a && !isNan b && decide (floatKey a = floatKey b)
  zero_eq_zero := by decide

def keepOrder : Qsort := ⟨fun _ entries => entries, fun _ _ => List.Perm.refl _⟩

def detector : Network := ⟨⟨0, 0⟩, 1470, ⟨1, 0⟩⟩

def clearStack : StaticParam :=
  ⟨0, 0, 0, 0, 0, 0, 0, 0, ⟨2, 0⟩, 0, 0, 0, none⟩

/-- A stale pointer where `pScratchBuffer` lies. -/
def staleStack : StaticParam := { clearStack with pScratchBuffer := some ⟨7, 0⟩ }

/-- On an all-zero tensor the two stacks already select different scratch buffers. -/
theorem modelThreadEp_stale_scratch :
    ¬ List.Forall₂ (SameFrame detector)
      (modelThreadEp quietFloat keepOrder detector clearStack (fun _ _ => 0) [fun _ => 0])
      (modelThreadEp quietFloat keepOrder detector staleStack (fun _ _ => 0) [fun _ => 0]) := by
  intro hruns
  unfold modelThreadEp at hruns
  obtain ⟨rest, hfirst⟩ := outputs_cons (iteration quietFloat keepOrder detector)
    ⟨ppInit quietFloat detector clearStack, fun _ _ => 0⟩ (fun _ => 0) []
  obtain ⟨rest', hfirst'⟩ := outputs_cons (iteration quietFloat keepOrder detector)
    ⟨ppInit quietFloat detector staleStack, fun _ _ => 0⟩ (fun _ => 0) []
  rw [hfirst, hfirst', List.forall₂_cons] at hruns
  have hstale := hruns.1.scratch.2
  rw [iteration_scratch] at hstale
  revert hstale
  decide

end N6Samples.Benchmark
