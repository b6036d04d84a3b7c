import N6Samples.Lib.Buffering
import N6Samples.Benchmark.Pipeline
import N6Samples.Npu.InputBuffer

/-! # The application (`main.c`, `model.c`)

Two camera pipes: the loop of `main` draws boxes on the frames of one and hands them to the
screen, `model_thread_ep` runs the network on the frames of the other. The cameras, both
threads and the lock of the boxes interleave freely.
-/

namespace N6Samples.Benchmark

open Trace Buffering

/-! ## What the application is built with -/

abbrev Address := BitVec 32

/-- The bytes of a buffer. -/
abbrev Picture := ℕ → BitVec 8

/-- What `decorate_canvas` prints besides its fixed texts: the numbers of `Inference %d ms`,
`Fps       %d` and `cpu load  %d.%d%%`. -/
structure Overlay where
  inferenceTime : Int32
  fps : Int32
  cpuLoad : Int32
  cpuLoadTenth : Int32
deriving DecidableEq

/-- The numbers for what `model_get_latest_inference_time` and `cpu_load_get` returned. -/
def overlay (latestInferenceTime load : Int32) : Overlay where
  inferenceTime := latestInferenceTime
  fps := 1000 / (if latestInferenceTime ≠ 0 then latestInferenceTime else 1)
  cpuLoad := load / 10
  cpuLoadTenth := load % 10

/-- The code and data outside the two threads: `infer` is the network, `draw` the drawing
library, for the fixed texts as well. -/
structure Build where
  ops : FloatOps
  qsort : Qsort
  net : Network
  scale : Int32 → Word → Int32
  display : Display
  binary : Npu.Bytes
  infer : Picture → Tensor
  draw : Overlay → List Area → Picture → Picture

/-- `nn_in_len`. -/
def nnInLen : BitVec 32 := 150528

/-! ## The network thread -/

/-- Where `model_thread_ep` stands, outside its publications. -/
inductive ThreadPc where
  | initNetwork
  | dequeue
  | setInput
  | startInference
  | inference
  | enqueue
  | process
  | failed
deriving DecidableEq

/-- What `model_thread_ep` works on; `vbuf` is what it holds of its pipe. -/
structure NnThread where
  pc : ThreadPc
  cameraAux : Pipe Address Picture
  npu : Npu.Instance
  state : ThreadState
  nnOut : Tensor
  latestInferenceTime : Int32

inductive ThreadEvent where
  | initNetwork
  | dequeue
  | setInput
  | startInference
  | endInference (tick : UInt32)
  | enqueue

/-- A step of `model_thread_ep` between two publications; `failed` is an assertion. -/
def threadStep (k : Build) (t : NnThread) : ThreadEvent → Option NnThread
  | .initNetwork =>
      if t.pc = .initNetwork then
        let r := Npu.ecNetworkInit k.binary t.npu
        some { t with npu := r.2, pc := if r.1 then .dequeue else .failed }
      else none
  | .dequeue =>
      if t.pc = .dequeue then
        (take t.cameraAux).map fun p => { t with cameraAux := p, pc := .setInput }
      else none
  | .setInput =>
      if t.pc = .setInput then
        t.cameraAux.held.map fun vbuf =>
          let r := Npu.setUserInputBuffer 0 vbuf nnInLen t.npu
          { t with npu := r.2, pc := if r.1 = .noError then .startInference else .failed }
      else none
  | .startInference =>
      if t.pc = .startInference then
        let r := Npu.ecInferenceInit k.binary t.npu
        some { t with npu := r.2, pc := if r.1 then .inference else .failed }
      else none
  | .endInference tick =>
      -- The network has read its input where the blob says it is, in `tick` milliseconds.
      if t.pc = .inference then
        some { t with
          nnOut := k.infer (t.cameraAux.contents (Npu.inputAddress k.binary t.npu))
          latestInferenceTime := tick.toInt32
          pc := .enqueue }
      else none
  | .enqueue =>
      if t.pc = .enqueue then
        (give t.cameraAux).map fun p => { t with cameraAux := p, pc := .process }
      else none

/-- The post processing, with what it publishes. -/
def processStep (k : Build) (t : NnThread) (r : Result) : Option NnThread :=
  if t.pc = .process then
    match iteration k.ops k.qsort k.net t.state t.nnOut with
    | (_, none) => some { t with pc := .failed }
    | (f, some state) =>
        if r.entries = f.published then some { t with state := state, pc := .dequeue } else none
  else none

/-! ## The loop of `main` -/

inductive MainPc where
  | dequeue
  | getLatestInferenceTime
  | getBoxes
  | draw (boxes : List Dbox)
  | render (o : Overlay)
  | enqueue
deriving DecidableEq

/-- What `main` works on, with the number of its iterations, and what was on the canvas and what
was printed there when `lv_timer_handler` ran. -/
structure MainLoop where
  pc : MainPc
  camera : Pipe Address Picture
  latestInferenceTime : Int32
  iterations : ℕ
  rendered : List Picture
  overlays : List Overlay

inductive MainEvent where
  | dequeue
  | getLatestInferenceTime
  | draw (load : Int32)
  | render
  | enqueue

/-- The frame as `decorate_canvas` leaves it. -/
def Build.decorated (k : Build) (frame : Picture) (boxes : List Dbox) (o : Overlay) : Picture :=
  k.draw o (decorateCanvas boxes) frame

/-- A step of `main`, when the other thread has left `latestInferenceTime`. -/
def mainStep (k : Build) (latestInferenceTime : Int32) (m : MainLoop) :
    MainEvent → Option MainLoop
  | .dequeue =>
      if m.pc = .dequeue then
        (take m.camera).map fun p => { m with camera := p, pc := .getLatestInferenceTime }
      else none
  | .getLatestInferenceTime =>
      if m.pc = .getLatestInferenceTime then
        some { m with latestInferenceTime := latestInferenceTime, pc := .getBoxes }
      else none
  | .draw load =>
      match m.pc, m.camera.held with
      | .draw boxes, some vbuf =>
          let o := overlay m.latestInferenceTime load
          (edit (k.decorated (m.camera.contents vbuf) boxes o) m.camera).map fun p =>
            { m with camera := p, pc := .render o }
      | _, _ => none
  | .render =>
      match m.pc, m.camera.held with
      | .render o, some vbuf =>
          some { m with
            rendered := m.rendered ++ [m.camera.contents vbuf]
            overlays := m.overlays ++ [o]
            pc := .enqueue }
      | _, _ => none
  | .enqueue =>
      if m.pc = .enqueue then
        (give m.camera).map fun p =>
          { m with camera := p, pc := .dequeue, iterations := m.iterations + 1 }
      else none

/-- A step of the call of `model_get_boxes` in the current iteration. -/
def callingStep (m : MainLoop) (c : ℕ) : CallEvent → Option MainLoop
  | .begin n =>
      if m.pc = .getBoxes ∧ c = m.iterations ∧ n = canvasBoxes then some m else none
  | .ret boxes =>
      if m.pc = .getBoxes ∧ c = m.iterations then some { m with pc := .draw boxes } else none
  | .test _ | .lock | .compare | .reload | .box _ | .unlock =>
      if m.pc = .getBoxes ∧ c = m.iterations then some m else none

/-! ## The system -/

/-- Both threads, and what they share; call `i` is the one of iteration `i`. -/
structure App where
  nn : NnThread
  main : MainLoop
  boxes : System ℕ

inductive AppEvent where
  | camera (e : Produce Address Picture)
  | cameraAux (e : Produce Address Picture)
  | thread (e : ThreadEvent)
  | main (e : MainEvent)
  | boxes (e : Event ℕ)

/-- A step that publishes or reads boxes, in the thread that makes it. -/
def boxesStep (k : Build) (s : App) (e : Event ℕ) : Option App := do
  let boxes ← step (modelDetectionToBox k.scale k.display) s.boxes e
  match e with
  | .model (.post r) =>
      let nn ← processStep k s.nn r
      some { s with nn := nn, boxes := boxes }
  | .model _ => some { s with boxes := boxes }
  | .call c e =>
      let main ← callingStep s.main c e
      some { s with main := main, boxes := boxes }

def appStep (k : Build) (s : App) : AppEvent → Option App
  | .camera e =>
      (produce s.main.camera e).map fun p => { s with main := { s.main with camera := p } }
  | .cameraAux e =>
      (produce s.nn.cameraAux e).map fun p => { s with nn := { s.nn with cameraAux := p } }
  | .thread e =>
      if s.boxes.modelPc = .process then (threadStep k s.nn e).map fun t => { s with nn := t }
      else none
  | .main e =>
      (mainStep k s.nn.latestInferenceTime s.main e).map fun m => { s with main := m }
  | .boxes e => boxesStep k s e

/-- What the threads find when they start: the stack of `model_thread_ep`, memory, the buffers
that `main` has queued, and the array of each call. -/
structure Boot where
  pp : StaticParam
  mem : Mem
  npu : Npu.Instance
  buffers : List Address
  auxBuffers : List Address
  contents : Address → Picture
  boxes : ℕ → ℕ → Dbox

def Boot.start (b : Boot) (k : Build) : App where
  nn := {
    pc := .initNetwork
    cameraAux := Pipe.full b.auxBuffers b.contents
    npu := b.npu
    state := ⟨ppInit k.ops k.net b.pp, b.mem⟩
    nnOut := fun _ => 0
    latestInferenceTime := 0 }
  main := {
    pc := .dequeue
    camera := Pipe.full b.buffers b.contents
    latestInferenceTime := 0
    iterations := 0
    rendered := []
    overlays := [] }
  boxes := initial b.boxes

/-- What the parts are expected to bring along. -/
structure Fits (k : Build) (b : Boot) : Prop where
  size : k.net.nnOutWords = outputSizeBytes / 4
  anchors : k.net.anchors.block ≠ k.net.nnOut.block
  arranged : Arranged k.net.nnOut (b.pp.pScratchBuffer.getD k.net.nnOut) (ppInit k.ops k.net b.pp)
  binary : Npu.NamesInput k.binary b.npu.blob.address
  buffers : b.buffers.Nodup
  auxBuffers : b.auxBuffers.Nodup
  aligned : ∀ vbuf ∈ b.auxBuffers, vbuf % 32 = 0

/-- What the threads do with the boxes. -/
def boxesEvents : List AppEvent → List (Event ℕ) :=
  List.filterMap fun
    | .boxes e => some e
    | _ => none

end N6Samples.Benchmark
