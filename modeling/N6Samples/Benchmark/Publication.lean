import N6Samples.Benchmark.ModelThread
import N6Samples.Lib.Trace

/-! # Publication of detections (`model.c`)

The network thread publishes each result in `detections` under `boxes_lock`; any number
of `model_get_boxes` calls read from there, each testing `detections_nb` once before it
asks for the lock. The parties interleave at single loads and stores of what they
share, so an event of the system is one step of one party.
-/

namespace N6Samples.Benchmark

open Lockstep

/-- `od_pp_outBuffer_t`. -/
abbrev Detection := OutBuffer Word

/-! ## Post-process results -/

/-- The length of `pp_detections_buffer` and of `detections`. -/
def boxesLimit : ℕ := 10

/-- A post-process result: the entries of `pOutBuff` up to `nb_detect`. -/
structure Result where
  entries : List Detection
  fits : entries.length ≤ boxesLimit

/-- The limits that the thread sets. -/
def HasLimits (st : ThreadState) : Prop :=
  st.ppParams.nbClasses = 1 ∧ st.ppParams.maxBoxesLimit = 10

theorem iteration_result (ops : FloatOps) (qsort : Qsort) (net : Network) {st : ThreadState}
    (hst : HasLimits st) (tensor : Tensor) :
    ∃ f t, iteration ops qsort net st tensor = (f, some t) ∧
      (∃ r : Result, r.entries = f.published) ∧ HasLimits t := by
  rcases hst with ⟨hclass, hlimit⟩
  obtain ⟨scratch, hscratch⟩ : ∃ scratch, chooseScratch net.nnOut st.ppParams = some scratch :=
    ⟨_, chooseScratch_of_one_class hclass⟩
  have hlength : ((processIn ops qsort net.nnOut scratch st.ppParams
      (runInference net tensor st.mem)).detections.length : ℤ) ≤ 10 :=
    (processIn_length qsort net.nnOut hclass.ge (by omega)).trans_eq hlimit
  exact ⟨_, _, iteration_of_scratch hscratch tensor, ⟨⟨_, Int.ofNat_le.mp hlength⟩, rfl⟩, hclass,
    hlimit⟩

/-- Every frame of the network thread publishes a result. -/
theorem modelThreadEp_result (ops : FloatOps) (qsort : Qsort) (net : Network) (pp : StaticParam)
    (mem : Mem) (tensors : List Tensor) :
    ∀ f ∈ modelThreadEp ops qsort net pp mem tensors, ∃ r : Result, r.entries = f.published :=
  outputs_forall HasLimits (fun f : Frame => ∃ r : Result, r.entries = f.published)
    (fun _ tensor hst => iteration_result ops qsort net hst tensor) ⟨rfl, rfl⟩ tensors

/-! ## Parties -/

/-- Where `model_thread_ep` stands; `copying i` is the head of its copy loop. -/
inductive ModelPc where
  | start
  | clear
  | process
  | processed
  | locked
  | copying (i : ℕ)
deriving DecidableEq

/-- Where a `model_get_boxes` call stands; `copying i` is the head of its copy loop. -/
inductive CallPc where
  | idle
  | begun
  | tested
  | locked
  | reload
  | copying (i : ℕ)
  | returning
  | returned
deriving DecidableEq

/-- A call: its argument `boxes_nb`, its local `nb`, and the caller's array. -/
structure Call where
  pc : CallPc
  boxesNb : ℕ
  nb : ℤ
  boxes : ℕ → Dbox

inductive Party (C : Type) where
  | model
  | call (c : C)
deriving DecidableEq

/-- Both parties' variables, and who holds `boxes_lock`. -/
structure System (C : Type) where
  owner : Option (Party C)
  detectionsNb : ℤ
  detections : ℕ → Detection
  ppBuffer : ℕ → Detection
  nbDetect : ℕ
  modelPc : ModelPc
  call : C → Call

/-! ## Events -/

inductive ModelEvent where
  | mutexInit
  | clearNb
  | post (r : Result)
  | lock
  | setNb
  | copy (i : ℕ)
  | unlock

inductive CallEvent where
  | begin (n : ℕ)
  | test (v : ℤ)
  | lock
  | compare
  | reload
  | box (i : ℕ)
  | unlock
  | ret (boxes : List Dbox)

inductive Event (C : Type) where
  | model (e : ModelEvent)
  | call (c : C) (e : CallEvent)

/-! ## Steps -/

/-- The first `n` entries of an array. -/
def entries {α : Type} (array : ℕ → α) (n : ℕ) : List α := (List.range n).map array

/-- An array after its first entries were overwritten. -/
def overwrite {α : Type} (array : ℕ → α) (new : List α) : ℕ → α := fun i => new.getD i (array i)

variable {C : Type}

/-- A step of `model_thread_ep`. -/
def modelStep (s : System C) : ModelEvent → Option (System C)
  | .mutexInit =>
      if s.modelPc = .start then some { s with owner := none, modelPc := .clear } else none
  | .clearNb =>
      if s.modelPc = .clear then some { s with detectionsNb := 0, modelPc := .process } else none
  | .post r =>
      if s.modelPc = .process then
        some { s with
          ppBuffer := overwrite s.ppBuffer r.entries
          nbDetect := r.entries.length
          modelPc := .processed }
      else none
  | .lock =>
      if s.modelPc = .processed ∧ s.owner = none then
        some { s with owner := some .model, modelPc := .locked }
      else none
  | .setNb =>
      if s.modelPc = .locked then
        some { s with detectionsNb := s.nbDetect, modelPc := .copying 0 }
      else none
  | .copy i =>
      if s.modelPc = .copying i ∧ i < s.nbDetect then
        some { s with
          detections := Function.update s.detections i (s.ppBuffer i)
          modelPc := .copying (i + 1) }
      else none
  | .unlock =>
      match s.modelPc with
      | .copying i =>
          if s.nbDetect ≤ i then some { s with owner := none, modelPc := .process } else none
      | _ => none

variable [DecidableEq C]

def System.setCall (s : System C) (c : C) (k : Call) : System C :=
  { s with call := Function.update s.call c k }

/-- A step of one `model_get_boxes` call. `MIN` loads `detections_nb` to compare it, and
again when it is the smaller one. -/
def callStep (toBox : Detection → Dbox) (s : System C) (c : C) : CallEvent → Option (System C)
  | .begin n =>
      let k := s.call c
      if k.pc = .idle then some (s.setCall c { k with pc := .begun, boxesNb := n, nb := 0 })
      else none
  | .test v =>
      let k := s.call c
      if k.pc = .begun ∧ v = s.detectionsNb then
        some (s.setCall c { k with pc := if v < 0 then .returning else .tested })
      else none
  | .lock =>
      let k := s.call c
      if k.pc = .tested ∧ s.owner = none then
        some ({ s with owner := some (.call c) }.setCall c { k with pc := .locked })
      else none
  | .compare =>
      let k := s.call c
      if k.pc = .locked then
        some (s.setCall c
          (if k.boxesNb < s.detectionsNb then { k with pc := .copying 0, nb := k.boxesNb }
          else { k with pc := .reload }))
      else none
  | .reload =>
      let k := s.call c
      if k.pc = .reload then
        some (s.setCall c { k with pc := .copying 0, nb := s.detectionsNb })
      else none
  | .box i =>
      let k := s.call c
      if k.pc = .copying i ∧ i < k.nb then
        some (s.setCall c
          { k with
            pc := .copying (i + 1)
            boxes := Function.update k.boxes i (toBox (s.detections i)) })
      else none
  | .unlock =>
      let k := s.call c
      match k.pc with
      | .copying i =>
          if k.nb ≤ i then
            some ({ s with owner := none }.setCall c { k with pc := .returning })
          else none
      | _ => none
  | .ret boxes =>
      let k := s.call c
      if k.pc = .returning ∧ boxes = entries k.boxes k.nb.toNat then
        some (s.setCall c { k with pc := .returned })
      else none

def step (toBox : Detection → Dbox) (s : System C) : Event C → Option (System C)
  | .model e => modelStep s e
  | .call c e => callStep toBox s c e

/-- Static storage before any thread runs; no call has begun. -/
def initial (boxes : C → ℕ → Dbox) : System C where
  owner := none
  detectionsNb := -1
  detections := fun _ => ⟨0, 0, 0, 0, 0, 0⟩
  ppBuffer := fun _ => ⟨0, 0, 0, 0, 0, 0⟩
  nbDetect := 0
  modelPc := .start
  call := fun c => ⟨.idle, 0, 0, boxes c⟩

end N6Samples.Benchmark
