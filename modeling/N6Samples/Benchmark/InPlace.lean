import N6Samples.Benchmark.Publication
import N6Samples.Benchmark.ScratchBounds
import Mathlib.Data.Nat.Count

/-! # Post-processing over the network output

With one class a raw detection is as long as an entry, and the candidates are built in the
buffer they are read from. An entry never overtakes the cell it is made from, so the
candidates are the cells over the threshold in the network output. What leaves the buffer
is the limit loop, and only when every cell is a candidate.
-/

namespace N6Samples.Benchmark

open Loop Lockstep Rounding

/-! ## Candidates of the network output -/

/-- `computedThreshold`. -/
def objectnessThreshold (ops : FloatOps) (confThreshold : Word) : Word :=
  ops.neg (ops.logf (ops.sub (ops.div (ops.lit 1) confThreshold) (ops.lit 1)))

/-- The cell `n` of a network output becomes a candidate. -/
def IsCandidate (ops : FloatOps) (confThreshold : Word) (output : ℕ → Word) (n : ℕ) : Prop :=
  ops.le (objectnessThreshold ops confThreshold) (output (entryWords * n + objectnessOff)) = true

instance (ops : FloatOps) (confThreshold : Word) (output : ℕ → Word) :
    DecidablePred (IsCandidate ops confThreshold output) :=
  fun _ => inferInstanceAs (Decidable (_ = true))

variable {ops : FloatOps} {s : Ptr} {p : StaticParam} {mem : Mem} {m : Machine} {n : ℕ}

/-- From word `n` of the buffer at `s` on, memory is that of `mem`. -/
def SameFrom (s : Ptr) (n : ℕ) (mem : Mem) (m : Machine) : Prop :=
  ∀ w, n ≤ w → m.mem.read s w = mem.read s w

theorem SameFrom.mono {n' : ℕ} (h : SameFrom s n mem m) (hn : n ≤ n') : SameFrom s n' mem m :=
  fun w hw => h w (hn.trans hw)

/-- Accesses to the first entries leave the words after them alone. -/
theorem SameFrom.within {m' : Machine} (h : SameFrom s (entryWords * n) mem m)
    (hrun : Within s n m m') : SameFrom s (entryWords * n) mem m' := by
  induction hrun with
  | refl => exact h
  | tail _ haccess ih =>
      intro v hv
      rw [← ih v hv]
      cases haccess with
      | read i hi => rfl
      | write i field w hi hfield =>
          have hentry : entryWords * (i + 1) ≤ entryWords * n := Nat.mul_le_mul_left _ hi
          rw [Nat.mul_succ] at hentry
          have hother : s.offset + v ≠ s.offset + (entryWords * i + field) := by omega
          simp only [Machine.setField, Machine.touch, Mem.read, Mem.write, Function.update_self,
            Function.update_of_ne hother]

/-! ## Extraction over its own input -/

/-- Before cell `n`, extraction has counted the candidates up to there, and has not written
into the cells from there on. -/
structure InPlace (ops : FloatOps) (s : Ptr) (p : StaticParam) (mem : Mem) (n : ℕ)
    (x : Extraction) : Prop where
  count : x.countDetect = Nat.count (IsCandidate ops p.confThreshold (mem.read s)) n
  offset : x.elOffset = entryWords * n
  rest : SameFrom s (entryWords * n) mem x.machine

theorem inPlace_start : InPlace ops s p mem 0 ⟨⟨mem, []⟩, 0, 0⟩ :=
  ⟨(Nat.count_zero _).symm, rfl, fun _ _ => rfl⟩

theorem InPlace.count_le {x : Extraction} (h : InPlace ops s p mem n x) : x.countDetect ≤ n := by
  rw [h.count]
  exact Nat.count_le _

theorem InPlace.step {x : Extraction} (hclass : p.nbClasses = 1) (h : InPlace ops s p mem n x)
    (row col anch : ℕ) :
    InPlace ops s p mem (n + 1) (singleClassCell ops s s p row col anch x) := by
  have hnext : SameFrom s (entryWords * (n + 1)) mem x.machine :=
    h.rest.mono (Nat.mul_le_mul_left _ (Nat.le_succ n))
  have hbehind : x.countDetect < n + 1 := Nat.lt_succ_of_le h.count_le
  have hoffset : x.elOffset + (p.nbClasses + classProbOff).toNat = entryWords * (n + 1) := by
    rw [h.offset, hclass, Nat.mul_succ]
    rfl
  have hobjectness : x.machine.mem.read s (x.elOffset + objectnessOff) =
      mem.read s (entryWords * n + objectnessOff) := by
    rw [h.offset]
    exact h.rest _ (Nat.le_add_right _ _)
  unfold singleClassCell
  simp only [hobjectness]
  split
  case isTrue hcell =>
    have hcount : Nat.count (IsCandidate ops p.confThreshold (mem.read s)) (n + 1) = _ :=
      Nat.count_succ_eq_succ_count_iff.mpr hcell
    rw [← h.count] at hcount
    refine ⟨hcount.symm, hoffset, hnext.within ?_⟩
    exact (((Within.refl s (n + 1) x.machine).setConf hbehind _).setClassIndex hbehind
      _).writeGeometry hbehind row col anch _
  case isFalse hcell =>
    have hcount : Nat.count (IsCandidate ops p.confThreshold (mem.read s)) (n + 1) = _ :=
      Nat.count_succ_eq_count_iff.mpr hcell
    rw [← h.count] at hcount
    exact ⟨hcount.symm, hoffset, hnext⟩

/-- The loops up to cell `n`. -/
def extractUpTo (ops : FloatOps) (s : Ptr) (p : StaticParam) (mem : Mem) (n : ℕ) : Extraction :=
  forRange 0 n (gridCell (singleClassCell ops s s p) p) ⟨⟨mem, []⟩, 0, 0⟩

theorem extractUpTo_inPlace (hclass : p.nbClasses = 1) (n : ℕ) :
    InPlace ops s p mem n (extractUpTo ops s p mem n) := by
  have hrun : InPlace ops s p mem (0 + n) (extractUpTo ops s p mem n) :=
    forRange_invariant _ inPlace_start fun _ _ _ _ hx => hx.step hclass _ _ _
  rwa [Nat.zero_add] at hrun

theorem getNNBoxes_inPlace (hclass : p.nbClasses = 1) :
    (getNNBoxes ops s s p ⟨mem, []⟩).2.nbDetect =
      Nat.count (IsCandidate ops p.confThreshold (mem.read s)) (gridCells p) := by
  simp only [getNNBoxes, if_pos hclass, extract_eq]
  exact congrArg Nat.cast (extractUpTo_inPlace hclass (gridCells p)).count

/-! ## Reading the raw detections -/

/-- The entries with the words that a cell reads: its objectness, and for a candidate its
geometry. -/
def cellReads (ops : FloatOps) (s : Ptr) (p : StaticParam) (x : Extraction) : List ℕ :=
  let objectness := x.machine.mem.read s (x.elOffset + objectnessOff)
  let offsets :=
    if ops.le (objectnessThreshold ops p.confThreshold) objectness then
      [objectnessOff, xCenterOff, yCenterOff, widthRelOff, heightRelOff]
    else [objectnessOff]
  offsets.map fun off => (x.elOffset + off) / entryWords

/-- The entries read as raw detections by the branch `1 == nb_classes`. -/
def rawReads (ops : FloatOps) (s : Ptr) (p : StaticParam) (mem : Mem) : List ℕ :=
  (List.range (gridCells p)).flatMap fun n => cellReads ops s p (extractUpTo ops s p mem n)

/-- A cell reads its own entry only. -/
theorem InPlace.cellReads_eq {x : Extraction} (h : InPlace ops s p mem n x) :
    ∀ i ∈ cellReads ops s p x, i = n := by
  intro i hi
  rcases List.mem_map.mp hi with ⟨off, hoff, rfl⟩
  have hwords : ∀ off ∈ [objectnessOff, xCenterOff, yCenterOff, widthRelOff, heightRelOff],
      off < entryWords := by decide
  have hword : off < entryWords := by
    split at hoff
    · exact hwords off hoff
    · exact hwords off (List.mem_singleton.mp hoff ▸ List.mem_cons_self)
  rw [h.offset, Nat.mul_add_div (by decide), Nat.div_eq_of_lt hword, Nat.add_zero]

theorem rawReads_lt (hclass : p.nbClasses = 1) : ∀ i ∈ rawReads ops s p mem, i < gridCells p := by
  intro i hi
  rcases List.mem_flatMap.mp hi with ⟨n, hn, hcell⟩
  rw [(extractUpTo_inPlace hclass n).cellReads_eq i hcell]
  exact List.mem_range.mp hn

/-! ## A frame of the network thread -/

/-- `LL_ATON_DEFAULT_OUT_1_SIZE_BYTES`. -/
def outputSizeBytes : ℕ := 5880

/-- How many entries of four-byte words fit into the network output. -/
def outputEntries : ℕ := outputSizeBytes / (4 * entryWords)

example : outputEntries = 245 := by decide

/-- The entries that the post processing of a frame reads or writes where the network output
is its scratch buffer, and the `nb_detect` that it reports. -/
structure Accesses where
  scratch : List ℕ
  nbDetect : ℕ

/-- The indices below `nb_detect` are those of the writes to `pp_detections_buffer` and of
the copy loop. -/
structure Accesses.InRange (a : Accesses) : Prop where
  scratch : ∀ i ∈ a.scratch, i < outputEntries
  detections : a.nbDetect ≤ boxesLimit

/-- An iteration of `model_thread_ep` that shows its accesses. -/
def iterationAccesses (ops : FloatOps) (qsort : Qsort) (net : Network) (st : ThreadState)
    (tensor : Tensor) : Accesses × Option ThreadState :=
  let mem := runInference net tensor st.mem
  let next := (iteration ops qsort net st tensor).2
  match ppProcess ops qsort net.nnOut st.ppParams mem with
  | none => (⟨[], 0⟩, next)
  | some r =>
      (⟨rawReads ops net.nnOut st.ppParams mem ++ r.machine.touched, r.detections.length⟩, next)

def modelThreadAccesses (ops : FloatOps) (qsort : Qsort) (net : Network) (pp : StaticParam)
    (mem : Mem) (tensors : List Tensor) : List Accesses :=
  outputs (iterationAccesses ops qsort net) ⟨ppInit ops net pp, mem⟩ tensors

/-- The parameters that the thread sets, with a scratch pointer that selects the output. -/
structure Prepared (ops : FloatOps) (net : Network) (st : ThreadState) : Prop where
  limits : HasLimits st
  cells : gridCells st.ppParams = outputEntries
  threshold : st.ppParams.confThreshold = ops.lit 0.6
  selects : SelectsOutput net st.ppParams

/-- The grid of the network has as many cells as its output has entries. -/
theorem gridCells_ppInit (net : Network) (pp : StaticParam) :
    gridCells (ppInit ops net pp) = outputEntries := by
  simp only [gridCells, ppInit, ppReset]
  decide

theorem ppInit_prepared {net : Network} {pp : StaticParam} (h : SelectsOutput net pp) :
    Prepared ops net ⟨ppInit ops net pp, mem⟩ :=
  ⟨⟨rfl, rfl⟩, gridCells_ppInit net pp, rfl, h⟩

/-- How many cells of a tensor become candidates. -/
def candidates (ops : FloatOps) (tensor : Tensor) : ℕ :=
  Nat.count (IsCandidate ops (ops.lit 0.6) tensor) outputEntries

theorem candidates_le (tensor : Tensor) : candidates ops tensor ≤ outputEntries := Nat.count_le _

theorem candidates_eq_iff (tensor : Tensor) :
    candidates ops tensor = outputEntries ↔
      ∀ n < outputEntries, IsCandidate ops (ops.lit 0.6) tensor n :=
  Nat.count_iff_forall

/-- The network output holds the tensor. -/
theorem runInference_read {net : Network} {w : ℕ} (hw : w < net.nnOutWords) (tensor : Tensor)
    (mem : Mem) : (runInference net tensor mem).read net.nnOut w = tensor w := by
  have hinside : net.nnOut.offset ≤ net.nnOut.offset + w ∧
      net.nnOut.offset + w < net.nnOut.offset + net.nnOutWords := by omega
  simp only [Mem.read, runInference, true_and, if_pos hinside, Nat.add_sub_cancel_left]

theorem candidates_runInference {net : Network} (hsize : net.nnOutWords = outputSizeBytes / 4)
    (tensor : Tensor) (mem : Mem) :
    Nat.count (IsCandidate ops (ops.lit 0.6) ((runInference net tensor mem).read net.nnOut))
      outputEntries = candidates ops tensor := by
  have hagree : ∀ n < outputEntries,
      IsCandidate ops (ops.lit 0.6) ((runInference net tensor mem).read net.nnOut) n ↔
        IsCandidate ops (ops.lit 0.6) tensor n := by
    intro n hn
    have hword : entryWords * n + objectnessOff < net.nnOutWords := by
      rw [hsize]
      unfold outputEntries outputSizeBytes entryWords at hn
      unfold outputSizeBytes entryWords objectnessOff
      omega
    unfold IsCandidate
    rw [runInference_read hword]
  unfold candidates
  exact le_antisymm (Nat.count_mono_left fun n hn => (hagree n hn).mp)
    (Nat.count_mono_left fun n hn => (hagree n hn).mpr)

/-- What a frame accesses: the output buffer, and the entry after the last candidate. -/
structure FrameAccesses (ops : FloatOps) (tensor : Tensor) (a : Accesses) : Prop where
  detections : a.nbDetect ≤ boxesLimit
  inside : ∀ i ∈ a.scratch, i < outputEntries ∨ i = candidates ops tensor
  past : candidates ops tensor ∈ a.scratch

theorem iteration_accesses (qsort : Qsort) {net : Network} {st : ThreadState}
    (hsize : net.nnOutWords = outputSizeBytes / 4) (hst : Prepared ops net st) (tensor : Tensor) :
    ∃ a t, iterationAccesses ops qsort net st tensor = (a, some t) ∧
      FrameAccesses ops tensor a ∧ Prepared ops net t := by
  rcases hst with ⟨⟨hclass, hlimit⟩, hcells, hthreshold, hselects⟩
  have hscratch : chooseScratch net.nnOut st.ppParams = some net.nnOut :=
    (chooseScratch_eq_iff hclass).mpr hselects
  let before := runInference net tensor st.mem
  let r := processIn ops qsort net.nnOut net.nnOut st.ppParams before
  have hcount : r.param.nbDetect.toNat = candidates ops tensor := by
    have hboxes : r.param.nbDetect = _ := getNNBoxes_inPlace hclass
    rw [hboxes, Int.toNat_natCast, hcells, hthreshold, candidates_runInference hsize]
  have hend : r.param.nbDetect.toNat ∈ r.machine.touched :=
    processIn_touches_end qsort net.nnOut before hclass.ge
  have hbelow : ∀ i ∈ r.machine.touched, i < r.param.nbDetect.toNat + 1 :=
    (processIn_within qsort net.nnOut before).touched_lt fun i hi => absurd hi List.not_mem_nil
  have hlength : (r.detections.length : ℤ) ≤ 10 :=
    (processIn_length qsort net.nnOut hclass.ge (by omega)).trans_eq hlimit
  rw [hcount] at hend hbelow
  refine ⟨⟨rawReads ops net.nnOut st.ppParams before ++ r.machine.touched, r.detections.length⟩,
    ⟨r.param, r.machine.mem⟩, ?_, ⟨?_, ?_, ?_⟩, ⟨hclass, hlimit⟩, hcells, hthreshold, hselects⟩
  · simp only [iterationAccesses, ppProcess_of_scratch hscratch, iteration_of_scratch hscratch]
    rfl
  · exact Int.ofNat_le.mp hlength
  · intro i hi
    cases List.mem_append.mp hi with
    | inl hraw => exact Or.inl ((rawReads_lt hclass i hraw).trans_eq hcells)
    | inr htouched =>
        have hle := Nat.le_of_lt_succ (hbelow i htouched)
        cases Nat.lt_or_eq_of_le hle with
        | inl hlt => exact Or.inl (hlt.trans_le (candidates_le tensor))
        | inr heq => exact Or.inr heq
  · exact List.mem_append_right _ hend

/-! ## Single precision -/

/-- The value of a finite `float32_t`. -/
def floatValue (w : Word) : ℚ :=
  let exponent : ℕ := w.toNat / 2 ^ 23 % 2 ^ 8
  let fraction : ℕ := w.toNat % 2 ^ 23
  let magnitude : ℚ :=
    if exponent = 0 then fraction * (2 : ℚ) ^ (-149 : ℤ)
    else (2 ^ 23 + fraction) * (2 : ℚ) ^ ((exponent : ℤ) - 150)
  if w.msb then -magnitude else magnitude

/-- The nearest `float32_t`, up to infinity. -/
def nearestFloat (q : ℚ) : Word :=
  if q = 0 then 0
  else
    let exponent := max (Int.log 2 |q|) (-126)
    let significand := nearestInt (|q| / (2 : ℚ) ^ (exponent - 23))
    let bits := min ((exponent + 126) * 2 ^ 23 + significand) (255 * 2 ^ 23)
    BitVec.ofInt 32 (if q < 0 then 2 ^ 31 + bits else bits)

/-- Single precision on finite numbers; `expf` and `logf` are given where the frames of the tests
call them, at 1, -1 and -2 and at the quotient behind a threshold of 0.6. -/
def singleFloat : FloatOps where
  lit := nearestFloat
  add a b := nearestFloat (floatValue a + floatValue b)
  sub a b := nearestFloat (floatValue a - floatValue b)
  mul a b := nearestFloat (floatValue a * floatValue b)
  div a b := nearestFloat (floatValue a / floatValue b)
  neg := quietFloat.neg
  expf w :=
    if w = 0x3F800000 then 0x402DF854 else if w = 0xC0000000 then 0x3E0A9555 else 0x3EBC5AB2
  logf _ := 0xBECF9921
  lt := quietFloat.lt
  le := quietFloat.le
  eq := quietFloat.eq
  zero_eq_zero := by decide

/-- `AI_OD_YOLOV2_PP_ANCHORS`. -/
def anchorTable : List ℚ :=
  [0.076023, 0.258508, 0.163031, 0.413531, 0.234769, 0.702585, 0.427054, 0.715892, 0.748154,
    0.857092]

def anchorMem : Mem := fun block word =>
  if block = detector.anchors.block then nearestFloat (anchorTable.getD word 0) else 0

/-! ## When the buffer is left -/

theorem FrameAccesses.inRange_iff {tensor : Tensor} {a : Accesses}
    (h : FrameAccesses ops tensor a) :
    a.InRange ↔ ∃ n < outputEntries, ¬ IsCandidate ops (ops.lit 0.6) tensor n := by
  have hfull : candidates ops tensor = outputEntries ↔
      ¬ ∃ n < outputEntries, ¬ IsCandidate ops (ops.lit 0.6) tensor n := by
    rw [candidates_eq_iff]
    push Not
    rfl
  constructor
  · intro hrange
    have hroom := hrange.scratch _ h.past
    exact not_not.mp (mt hfull.mpr hroom.ne)
  · intro hcell
    have hroom : candidates ops tensor < outputEntries :=
      lt_of_le_of_ne (candidates_le tensor) fun heq => hfull.mp heq hcell
    refine ⟨?_, h.detections⟩
    intro i hi
    cases h.inside i hi with
    | inl hlt => exact hlt
    | inr heq => exact heq.trans_lt hroom

/-- In place, a frame stays inside its buffers exactly when some cell of the network output
is no candidate, whatever came before and however `qsort` orders the entries. -/
theorem modelThreadEp_inRange_iff (ops : FloatOps) (qsort : Qsort) (net : Network)
    (pp : StaticParam) (mem : Mem) (tensors : List Tensor)
    (hsize : net.nnOutWords = outputSizeBytes / 4) (hselect : SelectsOutput net pp) :
    List.Forall₂
      (fun tensor a =>
        a.InRange ↔ ∃ n < outputEntries, ¬ IsCandidate ops (ops.lit 0.6) tensor n)
      tensors (modelThreadAccesses ops qsort net pp mem tensors) := by
  apply outputs_answers (Prepared ops net) _ _ (ppInit_prepared hselect)
  intro st tensor hst
  obtain ⟨a, t, hstep, hframe, ht⟩ := iteration_accesses qsort hsize hst tensor
  exact ⟨a, t, hstep, hframe.inRange_iff, ht⟩

/-- A tensor with one candidate, in its first cell. -/
def onePerson : Tensor := fun word => if word < entryWords then 0x3F800000 else 0

theorem modelThreadEp_inRange_iff_onePerson :
    IsCandidate singleFloat (singleFloat.lit 0.6) onePerson 0 ∧
      ∃ a, modelThreadAccesses singleFloat keepOrder detector clearStack anchorMem [onePerson] =
        [a] ∧ a.InRange := by
  have hframe := modelThreadEp_inRange_iff singleFloat keepOrder detector clearStack anchorMem
    [onePerson] (by decide) (Or.inl rfl)
  have hcell : ¬ IsCandidate singleFloat (singleFloat.lit 0.6) onePerson 1 := by
    decide +kernel
  obtain ⟨a, rest, hfirst, hrest, haccesses⟩ := List.forall₂_cons_left_iff.mp hframe
  rw [List.forall₂_nil_left_iff] at hrest
  subst hrest
  exact ⟨by decide +kernel, a, haccesses, hfirst.mpr ⟨1, by decide, hcell⟩⟩

/-- With 1 in every word of the output, every cell is a candidate, and the entry after the
output buffer is touched. -/
theorem modelThreadEp_past_output :
    ∃ a, modelThreadAccesses singleFloat keepOrder detector clearStack anchorMem
        [fun _ => 0x3F800000] = [a] ∧ outputEntries ∈ a.scratch ∧ ¬ a.InRange := by
  have hstart : Prepared singleFloat detector ⟨ppInit singleFloat detector clearStack, anchorMem⟩ :=
    ppInit_prepared (Or.inl rfl)
  obtain ⟨a, t, hstep, hframe, -⟩ := iteration_accesses keepOrder (by decide) hstart
    fun _ => 0x3F800000
  have hall : candidates singleFloat (fun _ => 0x3F800000) = outputEntries := by
    rw [candidates_eq_iff]
    intro n _
    change singleFloat.le (objectnessThreshold singleFloat (singleFloat.lit 0.6)) 0x3F800000 = true
    decide +kernel
  have hpast := hframe.past
  rw [hall] at hpast
  exact ⟨a, outputs_cons_of_some hstep [], hpast, fun hrange =>
    lt_irrefl _ (hrange.scratch _ hpast)⟩

end N6Samples.Benchmark
