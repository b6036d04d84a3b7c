import N6Samples.Benchmark.Canvas
import N6Samples.Benchmark.Detection

/-! # From tensors to boxes

A frame depends on its tensor and the anchors alone, not on the frames before it. Results
are published in the order of the tensors and none is skipped, so the boxes that a call
returns belong to the tensor whose number is the count of publications before its lock.
-/

namespace N6Samples.Benchmark

open Trace Lockstep

/-! ## What a frame reads -/

section
variable {ops : FloatOps} {qsort : Qsort} {net : Network} {raw s : Ptr} {pp p : StaticParam}
  {mem mem' : Mem} {st : ThreadState} {n : ℕ}

theorem decodeSingle_congr {row col anch el : ℕ}
    (hraw : ∀ word < entryWords, mem'.read raw (el + word) = mem.read raw (el + word))
    (hanchors : ∀ word, mem'.read p.pAnchors word = mem.read p.pAnchors word) :
    decodeSingle ops raw p mem' row col anch el = decodeSingle ops raw p mem row col anch el := by
  unfold decodeSingle decodeBox
  simp only [hanchors, hraw xCenterOff (by decide), hraw yCenterOff (by decide),
    hraw widthRelOff (by decide), hraw heightRelOff (by decide), hraw objectnessOff (by decide)]

theorem candidateList_congr (hclass : p.nbClasses = 1)
    (hraw : ∀ word < entryWords * gridCells p, mem'.read raw word = mem.read raw word)
    (hanchors : ∀ word, mem'.read p.pAnchors word = mem.read p.pAnchors word) :
    candidateList ops raw p mem' = candidateList ops raw p mem := by
  have hstride : anchStride p = entryWords := by
    unfold anchStride
    rw [hclass]
    rfl
  apply List.filterMap_congr
  intro n hn
  have hcell : entryWords * (n + 1) ≤ entryWords * gridCells p :=
    Nat.mul_le_mul_left _ (List.mem_range.mp hn)
  rw [Nat.mul_succ] at hcell
  simp only [decodeCell, if_pos hclass, hstride]
  apply decodeSingle_congr _ hanchors
  intro word hword
  exact hraw _ (by omega)

/-- The detections of one tensor. -/
def frameDetections (ops : FloatOps) (qsort : Qsort) (net : Network) (pp : StaticParam) (mem : Mem)
    (tensor : Tensor) : List Detection :=
  detect ops qsort net.nnOut (ppInit ops net pp) (runInference net tensor mem)

/-- What the thread keeps between frames: its parameters but for the count, and the anchors. -/
structure Carried (ops : FloatOps) (net : Network) (pp : StaticParam) (mem : Mem)
    (st : ThreadState) : Prop where
  params : ∃ k, st.ppParams = { ppInit ops net pp with nbDetect := k }
  anchors : ∀ word, st.mem.read net.anchors word = mem.read net.anchors word

theorem runInference_anchors (hblock : net.anchors.block ≠ net.nnOut.block) (tensor : Tensor)
    (word : ℕ) : (runInference net tensor mem).read net.anchors word =
      mem.read net.anchors word := by
  have hother : ¬ (net.anchors.block = net.nnOut.block ∧
      net.nnOut.offset ≤ net.anchors.offset + word ∧
      net.anchors.offset + word < net.nnOut.offset + net.nnOutWords) := fun h => hblock h.1
  unfold Mem.read runInference
  rw [if_neg hother]

theorem Carried.detect_eq (h : Carried ops net pp mem st)
    (hsize : net.nnOutWords = outputSizeBytes / 4)
    (hblock : net.anchors.block ≠ net.nnOut.block) (tensor : Tensor) :
    detect ops qsort net.nnOut st.ppParams (runInference net tensor st.mem) =
      frameDetections ops qsort net pp mem tensor := by
  obtain ⟨k, hparams⟩ := h.params
  have hcandidates : candidateList ops net.nnOut (ppInit ops net pp)
        (runInference net tensor st.mem) =
      candidateList ops net.nnOut (ppInit ops net pp) (runInference net tensor mem) := by
    apply candidateList_congr rfl
    · intro word hword
      have hinside : word < net.nnOutWords := by
        rw [gridCells_ppInit] at hword
        rw [hsize]
        exact hword
      rw [runInference_read hinside, runInference_read hinside]
    · intro word
      change (runInference net tensor st.mem).read net.anchors word =
        (runInference net tensor mem).read net.anchors word
      rw [runInference_anchors hblock, runInference_anchors hblock, h.anchors]
  rw [hparams]
  unfold frameDetections
  unfold detect
  rw [← hcandidates]
  rfl

theorem Carried.iteration (h : Carried ops net pp mem st)
    (hsize : net.nnOutWords = outputSizeBytes / 4)
    (hblock : net.anchors.block ≠ net.nnOut.block)
    (harr : Arranged net.nnOut (pp.pScratchBuffer.getD net.nnOut) (ppInit ops net pp))
    (tensor : Tensor) :
    ∃ f t, iteration ops qsort net st tensor = (f, some t) ∧
      f.published = frameDetections ops qsort net pp mem tensor ∧ Carried ops net pp mem t := by
  obtain ⟨k, hparams⟩ := h.params
  have hclass : st.ppParams.nbClasses = 1 := by
    rw [hparams]
    rfl
  have harranged : Arranged net.nnOut (pp.pScratchBuffer.getD net.nnOut) st.ppParams := by
    rw [hparams]
    exact ⟨harr.anchors, harr.cells⟩
  have hscratch : chooseScratch net.nnOut st.ppParams =
      some (pp.pScratchBuffer.getD net.nnOut) := by
    rw [chooseScratch_of_one_class hclass, hparams]
    rfl
  let s := pp.pScratchBuffer.getD net.nnOut
  let before := runInference net tensor st.mem
  let r := processIn ops qsort net.nnOut s st.ppParams before
  have hcount : r.param = { st.ppParams with nbDetect := r.param.nbDetect } := rfl
  have hanchors : r.machine.mem net.anchors.block = before net.anchors.block :=
    processIn_sameOutside ops qsort net.nnOut st.ppParams net.anchors.block harr.anchors
  refine ⟨_, ⟨r.param, r.machine.mem⟩, iteration_of_scratch hscratch tensor, ?_, ?_, ?_⟩
  · rw [← h.detect_eq hsize hblock]
    exact processIn_detect ops qsort harranged hclass before
  · refine ⟨r.param.nbDetect, ?_⟩
    rw [hparams] at hcount
    exact hcount
  · intro word
    have hbefore : before.read net.anchors word = mem.read net.anchors word :=
      (runInference_anchors hblock tensor word).trans (h.anchors word)
    exact (congrFun hanchors _).trans hbefore

end

/-! ## Numbered publications -/

section
variable {C : Type} {toBox : Detection → Dbox} {past es : List (Event C)} {s t : System C}

/-- The results that the thread has computed. -/
def posts : List (Event C) → List (List Detection) :=
  List.filterMap fun
    | .model (.post r) => some r.entries
    | _ => none

/-- How many results it has published. -/
def publications (past : List (Event C)) : ℕ :=
  past.countP fun
    | .model .unlock => true
    | _ => false

/-- Between the computation of a result and the end of its publication. -/
def ModelPc.pending : ModelPc → Bool
  | .processed | .locked | .copying _ => true
  | _ => false

/-- The results are published in order, one at a time. -/
structure Numbered (past : List (Event C)) (s : System C) : Prop where
  count : (posts past).length = publications past + if s.modelPc.pending then 1 else 0
  processed : (history past).processed = (posts past).getLastD []
  published : lastPublished past = ((posts past).take (publications past)).getLastD []

theorem posts_concat (past : List (Event C)) (e : Event C) :
    posts (past ++ [e]) = posts past ++ posts [e] := List.filterMap_append

theorem publications_concat (past : List (Event C)) (e : Event C) :
    publications (past ++ [e]) = publications past + publications [e] := List.countP_append

/-- An event that neither computes nor publishes a result. -/
theorem Numbered.keep {e : Event C} (h : Numbered past s) (hposts : posts [e] = [])
    (hpublications : publications [e] = 0) (hhistory : (history past).next e = history past)
    (hpc : t.modelPc.pending = s.modelPc.pending) : Numbered (past ++ [e]) t := by
  have hsame : history (past ++ [e]) = history past := (history_concat past e).trans hhistory
  constructor
  · rw [posts_concat, publications_concat, hposts, hpublications, hpc, List.append_nil]
    exact h.count
  · rw [posts_concat, hposts, hsame, List.append_nil]
    exact h.processed
  · rw [posts_concat, publications_concat, hposts, hpublications, lastPublished, hsame,
      List.append_nil]
    exact h.published

theorem modelStep_numbered {e : ModelEvent} (hs : Numbered past s)
    (h : modelStep s e = some t) : Numbered (past ++ [.model e]) t := by
  cases e with
  | mutexInit =>
      obtain ⟨hpc, rfl⟩ := accepted h
      exact hs.keep rfl rfl rfl (by rw [hpc]; rfl)
  | clearNb =>
      obtain ⟨hpc, rfl⟩ := accepted h
      exact hs.keep rfl rfl rfl (by rw [hpc]; rfl)
  | lock =>
      obtain ⟨⟨hpc, -⟩, rfl⟩ := accepted h
      exact hs.keep rfl rfl rfl (by rw [hpc]; rfl)
  | setNb =>
      obtain ⟨hpc, rfl⟩ := accepted h
      exact hs.keep rfl rfl rfl (by rw [hpc]; rfl)
  | copy i =>
      obtain ⟨⟨hpc, -⟩, rfl⟩ := accepted h
      exact hs.keep rfl rfl rfl (by rw [hpc]; rfl)
  | post r =>
      obtain ⟨hpc, rfl⟩ := accepted h
      have hcount : (posts past).length = publications past := by
        have hbefore := hs.count
        rwa [hpc] at hbefore
      have hposts : posts (past ++ [.model (.post r)]) = posts past ++ [r.entries] :=
        posts_concat past _
      have hpublications : publications (past ++ [.model (.post r)]) = publications past :=
        publications_concat past _
      constructor
      · rw [hposts, hpublications, List.length_append, hcount]
        rfl
      · rw [hposts, history_concat, List.getLastD_concat]
        rfl
      · rw [hposts, hpublications, lastPublished, history_concat,
          List.take_append_of_le_length hcount.ge]
        exact hs.published
  | unlock =>
      obtain ⟨i, hpc, -, rfl⟩ := modelStep_unlock h
      have hcount : (posts past).length = publications past + 1 := by
        have hbefore := hs.count
        rwa [hpc] at hbefore
      have hposts : posts (past ++ [.model .unlock]) = posts past :=
        (posts_concat past _).trans (List.append_nil _)
      have hpublications : publications (past ++ [.model .unlock]) = publications past + 1 :=
        publications_concat past _
      constructor
      · rw [hposts, hpublications]
        exact hcount
      · rw [hposts, history_concat]
        exact hs.processed
      · rw [hposts, hpublications, lastPublished, history_concat,
          List.take_of_length_le hcount.le]
        exact hs.processed

theorem step_numbered [DecidableEq C] {e : Event C} (hs : Numbered past s)
    (h : step toBox s e = some t) : Numbered (past ++ [e]) t := by
  cases e with
  | model e => exact modelStep_numbered hs h
  | call c e =>
      have hframe := callStep_frame h
      exact hs.keep rfl rfl rfl (congrArg ModelPc.pending hframe.modelPc)

theorem exec_numbered [DecidableEq C] {boxes : C → ℕ → Dbox}
    (h : exec (step toBox) (initial boxes) es = some s) : Numbered es s :=
  exec_invariant Numbered ⟨rfl, rfl, rfl⟩ (fun _ _ _ _ hs => step_numbered hs) h

end

/-! ## The system -/

/-- The detections that stand after a number of publications: those of the last tensor so far. -/
def detectionsAfter (ops : FloatOps) (qsort : Qsort) (net : Network) (pp : StaticParam) (mem : Mem)
    (tensors : List Tensor) (publications : ℕ) : List Detection :=
  match (tensors.take publications).getLast? with
  | none => []
  | some tensor => frameDetections ops qsort net pp mem tensor

theorem detectionsAfter_eq (ops : FloatOps) (qsort : Qsort) (net : Network) (pp : StaticParam)
    (mem : Mem) (tensors : List Tensor) (k : ℕ) :
    detectionsAfter ops qsort net pp mem tensors k =
      ((tensors.map (frameDetections ops qsort net pp mem)).take k).getLastD [] := by
  rw [← List.map_take, List.getLastD_eq_getLast?, List.getLast?_map]
  unfold detectionsAfter
  cases (tensors.take k).getLast? with
  | none => rfl
  | some tensor => rfl

theorem Numbered.published_of_posts {C : Type} {past : List (Event C)} {s : System C}
    (h : Numbered past s) {results : List (List Detection)} (hposts : posts past <+: results) :
    lastPublished past = (results.take (publications past)).getLastD [] := by
  have hcount := h.count
  obtain ⟨rest, rfl⟩ := hposts
  rw [h.published, List.take_append_of_le_length (by omega)]

/-- What a call returns, where the results of the run are known. -/
theorem ret_answered {C : Type} [DecidableEq C] {toBox : Detection → Dbox} {boxes : C → ℕ → Dbox}
    {es past rest : List (Event C)} {s : System C} {c : C} {returned : List Dbox}
    {results : List (List Detection)} (hposts : posts es <+: results)
    (h : exec (step toBox) (initial boxes) es = some s)
    (hsplit : es = past ++ .call c (.ret returned) :: rest) :
    ∃ n, .call c (.begin n) ∈ past ∧
      ((returned = [] ∧ ∃ v < 0, .call c (.test v) ∈ past) ∨
        ∃ before after, past = before ++ .call c .lock :: after ∧
          returned =
            (((results.take (publications before)).getLastD []).take n).map toBox) := by
  obtain ⟨u, v, hsafe, hstep⟩ := exec_safe_before h hsplit
  obtain ⟨⟨hpc, rfl⟩, -⟩ := accepted hstep
  have hknows := hsafe.knows c
  have hbegun := (hknows.begun (by rw [hpc]; exact nofun) (u.call c).boxesNb).mpr rfl
  refine ⟨_, hbegun, ?_⟩
  cases hknows.returning hpc with
  | inl hnone => exact Or.inl hnone
  | inr hsome =>
      obtain ⟨before, after, hpast, -, -, hboxes⟩ := hsome
      refine Or.inr ⟨before, after, hpast, ?_⟩
      have hrun : es = before ++ .call c .lock ::
          (after ++ .call c (.ret (entries (u.call c).boxes (u.call c).nb.toNat)) :: rest) := by
        rw [hsplit, hpast, List.append_assoc]
        rfl
      have hbefore : posts before <+: results := by
        apply List.IsPrefix.trans _ hposts
        rw [hrun]
        exact ⟨_, List.filterMap_append.symm⟩
      rw [hrun] at h
      obtain ⟨w, -, hw, -⟩ := exec_split h
      rw [hboxes, (exec_numbered hw).published_of_posts hbefore]

/-- `(int)(size * v)` in single precision. -/
def scaleSingle (size : Int32) (v : Word) : Int32 :=
  Int32.ofInt (Rounding.truncate (floatValue (nearestFloat (size.toInt * floatValue v))))

section
variable {C : Type} [DecidableEq C] {toBox : Detection → Dbox} {boxes : C → ℕ → Dbox}
  {past es rest : List (Event C)} {s t : System C} {c d : C}

/-- The event decides what the call returns: it finds a negative `detections_nb`, or it takes
the lock. -/
def CallEvent.decides : CallEvent → Bool
  | .test v => v < 0
  | .lock => true
  | _ => false

def Event.decidesCall (c : C) : Event C → Bool
  | .model _ => false
  | .call d e => d = c && e.decides

/-- The number of results published before the call was decided. -/
def seenBy (es : List (Event C)) (c : C) : ℕ := publications (upTo (Event.decidesCall c) es)

def CallPc.decided : CallPc → Bool
  | .idle | .begun | .tested => false
  | _ => true

/-- A call is decided once, by the event that decides it. -/
theorem callStep_decided {e : CallEvent} (h : callStep toBox s c e = some t) :
    ((t.call c).pc.decided ↔ (s.call c).pc.decided ∨ e.decides) ∧
      (e.decides → ¬ (s.call c).pc.decided) := by
  cases e with
  | begin n =>
      obtain ⟨hpc, rfl⟩ := accepted h
      rw [setCall_call_self, hpc]
      simp [CallPc.decided, CallEvent.decides]
  | test v =>
      obtain ⟨⟨hpc, -⟩, rfl⟩ := accepted h
      rw [setCall_call_self, hpc]
      by_cases hneg : v < 0
      · simp [hneg, CallPc.decided, CallEvent.decides]
      · simp [hneg, CallPc.decided, CallEvent.decides]
  | lock =>
      obtain ⟨⟨hpc, -⟩, rfl⟩ := accepted h
      rw [setCall_call_self, hpc]
      simp [CallPc.decided, CallEvent.decides]
  | compare =>
      obtain ⟨hpc, rfl⟩ := accepted h
      rw [setCall_call_self, hpc]
      by_cases hless : (s.call c).boxesNb < s.detectionsNb
      · simp [hless, CallPc.decided, CallEvent.decides]
      · simp [hless, CallPc.decided, CallEvent.decides]
  | reload =>
      obtain ⟨hpc, rfl⟩ := accepted h
      rw [setCall_call_self, hpc]
      simp [CallPc.decided, CallEvent.decides]
  | box i =>
      obtain ⟨⟨hpc, -⟩, rfl⟩ := accepted h
      rw [setCall_call_self, hpc]
      simp [CallPc.decided, CallEvent.decides]
  | unlock =>
      obtain ⟨i, hpc, -, rfl⟩ := callStep_unlock h
      rw [setCall_call_self, hpc]
      simp [CallPc.decided, CallEvent.decides]
  | ret returned =>
      obtain ⟨⟨hpc, -⟩, rfl⟩ := accepted h
      rw [setCall_call_self, hpc]
      simp [CallPc.decided, CallEvent.decides]

/-- The events tell which calls are decided. -/
def Decided (past : List (Event C)) (s : System C) : Prop :=
  ∀ c, (s.call c).pc.decided ↔ ∃ x ∈ past, x.decidesCall c

theorem step_decided {e : Event C} (hs : Decided past s) (h : step toBox s e = some t) :
    Decided (past ++ [e]) t := by
  intro c
  have hsplit : (∃ x ∈ past ++ [e], x.decidesCall c) ↔
      (∃ x ∈ past, x.decidesCall c) ∨ e.decidesCall c := by
    simp [or_and_right, exists_or]
  rw [hsplit, ← hs c]
  cases e with
  | model e =>
      rw [modelStep_call h]
      exact ⟨Or.inl, fun hor => hor.resolve_right nofun⟩
  | call d e =>
      by_cases hc : d = c
      · subst hc
        rw [(callStep_decided h).1]
        simp [Event.decidesCall]
      · rw [(callStep_frame h).call c (Ne.symm hc)]
        simp [Event.decidesCall, hc]

theorem exec_decided (h : exec (step toBox) (initial boxes) es = some s) : Decided es s :=
  exec_invariant Decided (fun _ => by simp [initial, CallPc.decided]) (fun _ _ _ _ hs => step_decided hs) h

theorem seenBy_eq {before after : List (Event C)} {e : CallEvent} (he : e.decides)
    (h : exec (step toBox) (initial boxes) (before ++ .call c e :: after) = some s) :
    seenBy (before ++ .call c e :: after) c = publications before := by
  obtain ⟨u, v, hu, hstep⟩ := exec_split h
  have hnone : ∀ x ∈ before, x.decidesCall c = false := by
    intro x hx
    rw [← Bool.not_eq_true]
    intro hdecides
    exact (callStep_decided hstep).2 he ((exec_decided hu c).mpr ⟨x, hx, hdecides⟩)
  have hdecides : (Event.call c e).decidesCall c = true := by
    simp [Event.decidesCall, he]
  rw [seenBy, upTo_eq hdecides hnone]

/-- Nothing is published before the thread is set up. -/
theorem exec_starting (h : exec (step toBox) (initial boxes) es = some s) :
    s.modelPc.starting → publications es = 0 := by
  apply exec_invariant (fun past u => u.modelPc.starting → publications past = 0) _ _ h
  · intro _
    rfl
  · intro past u e v hu hstep hstarting
    rw [publications_concat]
    cases e with
    | call d e =>
        rw [(callStep_frame hstep).modelPc] at hstarting
        exact hu hstarting
    | model e =>
        cases e with
        | mutexInit =>
            obtain ⟨hpc, rfl⟩ := accepted hstep
            exact hu (by rw [hpc]; rfl)
        | clearNb | post | setNb =>
            obtain ⟨hpc, rfl⟩ := accepted hstep
            cases hstarting
        | lock | copy =>
            obtain ⟨⟨hpc, -⟩, rfl⟩ := accepted hstep
            cases hstarting
        | unlock =>
            obtain ⟨i, -, -, rfl⟩ := modelStep_unlock hstep
            cases hstarting

/-- A call returns the first boxes of the results published before it was decided. -/
theorem ret_seen {returned : List Dbox} {results : List (List Detection)}
    (hposts : posts es <+: results) (h : exec (step toBox) (initial boxes) es = some s)
    (hsplit : es = past ++ .call c (.ret returned) :: rest) :
    (∃ x ∈ past, x.decidesCall c) ∧ ∃ n, .call c (.begin n) ∈ past ∧
      returned = (((results.take (seenBy es c)).getLastD []).take n).map toBox := by
  obtain ⟨n, hbegun, hanswer⟩ := ret_answered hposts h hsplit
  rcases hanswer with ⟨rfl, v, hneg, htest⟩ | ⟨before, after, rfl, hboxes⟩
  · refine ⟨⟨_, htest, by simp [Event.decidesCall, CallEvent.decides, hneg]⟩, n, hbegun, ?_⟩
    obtain ⟨before, after, rfl⟩ := List.append_of_mem htest
    have hrun : es = before ++ .call c (.test v) :: (after ++ .call c (.ret []) :: rest) := by
      rw [hsplit, List.append_assoc]
      rfl
    rw [hrun] at h ⊢
    obtain ⟨u, w, hu, hstep⟩ := exec_split h
    obtain ⟨⟨-, hv⟩, -⟩ := accepted hstep
    have hstarting : u.modelPc.starting := by
      by_contra hstarted
      have hnb := (exec_safe hu).exclusive.started hstarted
      omega
    rw [seenBy_eq (by simpa [CallEvent.decides] using hneg) h, exec_starting hu hstarting]
    simp
  · refine ⟨⟨.call c .lock, by simp, by simp [Event.decidesCall, CallEvent.decides]⟩, n, hbegun, ?_⟩
    have hrun : es = before ++ .call c .lock :: (after ++ .call c (.ret returned) :: rest) := by
      rw [hsplit, List.append_assoc]
      rfl
    rw [hrun] at h ⊢
    rw [seenBy_eq rfl h]
    exact hboxes

end

end N6Samples.Benchmark
