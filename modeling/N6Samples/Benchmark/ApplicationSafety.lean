import N6Samples.Benchmark.Application

/-! # What the application shows

One invariant for each thread, over the frames that it has taken from its camera, and one for
the order of the calls. Together they say which frame and which result each picture on the
screen is made of.
-/

namespace N6Samples.Benchmark

open Trace Buffering

/-! ## The network thread -/

/-- The detections of a frame. -/
def Build.detections (k : Build) (b : Boot) (frame : Picture) : List Detection :=
  frameDetections k.ops k.qsort k.net b.pp b.mem (k.infer frame)

/-- Where the thread stands with the frame it works on. -/
def ThreadPhase (k : Build) (t : NnThread) (current : List Picture) : Prop :=
  match t.pc with
  | .initNetwork | .dequeue => t.cameraAux.held = none ∧ current = []
  | .setInput => ∃ vbuf, t.cameraAux.held = some vbuf ∧ current = [t.cameraAux.contents vbuf]
  | .startInference =>
      ∃ vbuf, t.cameraAux.held = some vbuf ∧ current = [t.cameraAux.contents vbuf] ∧
        t.npu.userInput = vbuf
  | .inference =>
      ∃ vbuf, t.cameraAux.held = some vbuf ∧ current = [t.cameraAux.contents vbuf] ∧
        t.npu.prevBaseAddr = vbuf
  | .enqueue =>
      ∃ vbuf, t.cameraAux.held = some vbuf ∧ ∃ frame, current = [frame] ∧ t.nnOut = k.infer frame
  | .process => t.cameraAux.held = none ∧ ∃ frame, current = [frame] ∧ t.nnOut = k.infer frame
  | .failed => False

/-- The results are those of the frames taken before the one under way. -/
structure ThreadInv (k : Build) (b : Boot) (results : List (List Detection)) (t : NnThread) :
    Prop where
  sound : Sound b.auxBuffers t.cameraAux
  address : t.npu.blob.address = b.npu.blob.address
  moved : t.pc ≠ .initNetwork → Npu.Moved k.binary b.npu.blob.address t.npu
  carried : Carried k.ops k.net b.pp b.mem t.state
  frames : ∃ done current, t.cameraAux.taken = done ++ current ∧
    results = done.map (k.detections b) ∧ ThreadPhase k t current

section
variable {k : Build} {b : Boot} {results : List (List Detection)} {t u : NnThread}

theorem start_threadInv (hfits : Fits k b) : ThreadInv k b [] (b.start k).nn :=
  ⟨full_sound hfits.auxBuffers b.contents, rfl, fun h => absurd rfl h, ⟨⟨0, rfl⟩, fun _ => rfl⟩,
    [], [], rfl, rfl, rfl, rfl⟩

/-- The camera writes elsewhere. -/
theorem ThreadPhase.produce {current : List Picture} {p : Pipe Address Picture}
    (h : ThreadPhase k t current) (hheld : p.held = t.cameraAux.held)
    (hsame : ∀ vbuf, t.cameraAux.held = some vbuf → p.contents vbuf = t.cameraAux.contents vbuf) :
    ThreadPhase k { t with cameraAux := p } current := by
  unfold ThreadPhase at h ⊢
  simp only
  rw [hheld]
  cases hpc : t.pc with
  | initNetwork | dequeue | enqueue | process => simpa only [hpc] using h
  | failed => simp only [hpc] at h
  | setInput =>
      simp only [hpc] at h
      obtain ⟨vbuf, hvbuf, hcurrent⟩ := h
      exact ⟨vbuf, hvbuf, by rw [hsame vbuf hvbuf]; exact hcurrent⟩
  | startInference | inference =>
      simp only [hpc] at h
      obtain ⟨vbuf, hvbuf, hcurrent, hinput⟩ := h
      exact ⟨vbuf, hvbuf, by rw [hsame vbuf hvbuf]; exact hcurrent, hinput⟩

theorem ThreadInv.produce (hs : ThreadInv k b results t) {e : Produce Address Picture}
    {p : Pipe Address Picture} (h : produce t.cameraAux e = some p) :
    ThreadInv k b results { t with cameraAux := p } := by
  obtain ⟨hheld, htaken, hsame⟩ := produce_held hs.sound h
  obtain ⟨done, current, hframes, hresults, hphase⟩ := hs.frames
  exact ⟨produce_sound hs.sound h, hs.address, hs.moved, hs.carried, done, current,
    htaken.trans hframes, hresults, hphase.produce hheld hsame⟩

theorem threadStep_inv (hfits : Fits k b) {e : ThreadEvent} (hs : ThreadInv k b results t)
    (h : threadStep k t e = some u) : ThreadInv k b results u := by
  obtain ⟨hsound, haddress, hmoved, hcarried, done, current, hframes, hresults, hphase⟩ := hs
  unfold ThreadPhase at hphase
  cases e with
  | initNetwork =>
      obtain ⟨hpc, rfl⟩ := accepted h
      simp only [hpc] at hphase
      have hok : (Npu.ecNetworkInit k.binary t.npu).1 = true := by
        apply Npu.ecNetworkInit_of_namesInput
        rw [haddress]
        exact hfits.binary
      have hinit := Npu.ecNetworkInit_moved hok rfl
      rw [haddress] at hinit
      refine ⟨hsound, hinit.address, fun _ => hinit, hcarried, done, current, hframes, hresults, ?_⟩
      rw [hok]
      exact hphase
  | dequeue =>
      simp only [threadStep, Option.ite_none_right_eq_some, Option.map_eq_some_iff] at h
      obtain ⟨hpc, p, htake, rfl⟩ := h
      simp only [hpc] at hphase
      obtain ⟨-, rfl⟩ := hphase
      have hready := hmoved (by rw [hpc]; exact nofun)
      obtain ⟨vbuf, rest, -, -, hp⟩ := take_spec htake
      refine ⟨take_sound hsound htake, haddress, fun _ => hready, hcarried, done,
        [p.contents vbuf], ?_, hresults, vbuf, ?_, rfl⟩
      · rw [List.append_nil] at hframes
        simp only [hp, hframes]
      · simp only [hp]
  | setInput =>
      simp only [threadStep, Option.ite_none_right_eq_some, Option.map_eq_some_iff] at h
      obtain ⟨hpc, vbuf, hheld, rfl⟩ := h
      simp only [hpc] at hphase
      obtain ⟨vbuf', hheld', hcurrent⟩ := hphase
      obtain rfl : vbuf = vbuf' := Option.some.inj (hheld.symm.trans hheld')
      have hready := hmoved (by rw [hpc]; exact nofun)
      have halign := hfits.aligned vbuf (hsound.mem_pool hheld)
      rw [Npu.setUserInputBuffer_of_aligned halign (by decide)]
      exact ⟨hsound, haddress, fun _ => ⟨hready.address, hready.words⟩, hcarried, done, current,
        hframes, hresults, vbuf, hheld, hcurrent, rfl⟩
  | startInference =>
      obtain ⟨hpc, rfl⟩ := accepted h
      simp only [hpc] at hphase
      obtain ⟨vbuf, hheld, hcurrent, hinput⟩ := hphase
      have hready := hmoved (by rw [hpc]; exact nofun)
      obtain ⟨hinit, -, hbase⟩ := Npu.ecInferenceInit_moved hready
      obtain ⟨hok, hbase⟩ := hbase hfits.binary.aligned
      refine ⟨hsound, hinit.address, fun _ => hinit, hcarried, done, current, hframes, hresults, ?_⟩
      rw [hok]
      exact ⟨vbuf, hheld, hcurrent, hbase.trans hinput⟩
  | endInference tick =>
      obtain ⟨hpc, rfl⟩ := accepted h
      simp only [hpc] at hphase
      obtain ⟨vbuf, hheld, hcurrent, hbase⟩ := hphase
      have hready := hmoved (by rw [hpc]; exact nofun)
      refine ⟨hsound, haddress, fun _ => hready, hcarried, done, current, hframes, hresults, vbuf,
        hheld, _, hcurrent, ?_⟩
      rw [hready.inputAddress_eq hfits.binary, hbase]
  | enqueue =>
      simp only [threadStep, Option.ite_none_right_eq_some, Option.map_eq_some_iff] at h
      obtain ⟨hpc, p, hgive, rfl⟩ := h
      simp only [hpc] at hphase
      obtain ⟨vbuf, hheld, hcurrent⟩ := hphase
      have hready := hmoved (by rw [hpc]; exact nofun)
      obtain ⟨vbuf', -, hp⟩ := give_spec hgive
      refine ⟨give_sound hsound hgive, haddress, fun _ => hready, hcarried, done, current, ?_,
        hresults, ?_, hcurrent⟩
      · rw [hp]
        exact hframes
      · rw [hp]

theorem processStep_inv (hfits : Fits k b) {r : Result} (hs : ThreadInv k b results t)
    (h : processStep k t r = some u) : ThreadInv k b (results ++ [r.entries]) u := by
  obtain ⟨hsound, haddress, hmoved, hcarried, done, current, hframes, hresults, hphase⟩ := hs
  unfold processStep at h
  obtain ⟨hpc, h⟩ := (Option.ite_none_right_eq_some ..).mp h
  unfold ThreadPhase at hphase
  simp only [hpc] at hphase
  obtain ⟨hheld, frame, rfl, hout⟩ := hphase
  have hready := hmoved (by rw [hpc]; exact nofun)
  obtain ⟨f, state, hiteration, hpublished, hnext⟩ : ∃ f state,
      iteration k.ops k.qsort k.net t.state t.nnOut = (f, some state) ∧
        f.published = frameDetections k.ops k.qsort k.net b.pp b.mem t.nnOut ∧
        Carried k.ops k.net b.pp b.mem state :=
    hcarried.iteration hfits.size hfits.anchors hfits.arranged t.nnOut
  rw [hiteration] at h
  obtain ⟨hentries, rfl⟩ := accepted h
  refine ⟨hsound, haddress, fun _ => hready, hnext, done ++ [frame], [], ?_, ?_, hheld, rfl⟩
  · rw [List.append_nil]
    exact hframes
  · rw [List.map_append, hresults, hentries, hpublished, hout]
    rfl

end

/-! ## The loop of `main` -/

/-- What the calls returned, with their numbers. -/
def answers : List (Event ℕ) → List (ℕ × List Dbox) :=
  List.filterMap fun
    | .call c (.ret boxes) => some (c, boxes)
    | _ => none

/-- Where the loop stands with the frame it holds, and with what its call has returned. -/
def MainPhase (k : Build) (m : MainLoop) (current : List Picture)
    (answer : List (ℕ × List Dbox)) : Prop :=
  match m.pc with
  | .dequeue => m.camera.held = none ∧ current = [] ∧ answer = []
  | .getLatestInferenceTime | .getBoxes =>
      ∃ vbuf, m.camera.held = some vbuf ∧ current = [m.camera.contents vbuf] ∧ answer = []
  | .draw boxes =>
      ∃ vbuf, m.camera.held = some vbuf ∧ current = [m.camera.contents vbuf] ∧
        answer = [(m.iterations, boxes)]
  | .render o =>
      ∃ vbuf, m.camera.held = some vbuf ∧ ∃ frame boxes, current = [frame] ∧
        answer = [(m.iterations, boxes)] ∧ m.camera.contents vbuf = k.decorated frame boxes o
  | .enqueue => (∃ vbuf, m.camera.held = some vbuf) ∧ current = [] ∧ answer = []

/-- The iterations that have rendered. -/
def MainLoop.count (m : MainLoop) : ℕ :=
  if m.pc = .enqueue then m.iterations + 1 else m.iterations

/-- Each frame taken is rendered with what the call of its iteration returned. -/
structure MainInv (k : Build) (b : Boot) (given : List (ℕ × List Dbox)) (m : MainLoop) :
    Prop where
  sound : Sound b.buffers m.camera
  numbered : given.map Prod.fst = List.range given.length
  frames : ∃ done current shown answer, m.camera.taken = done ++ current ∧
    given = shown ++ answer ∧ done.length = m.count ∧ shown.length = m.count ∧
    m.overlays.length = m.count ∧
    m.rendered = List.zipWith (fun frame p => k.decorated frame p.1 p.2) done
      ((shown.map Prod.snd).zip m.overlays) ∧
    MainPhase k m current answer

section
variable {k : Build} {b : Boot} {given : List (ℕ × List Dbox)} {m n : MainLoop} {latest : Int32}

theorem mainStep_dequeue (h : mainStep k latest m .dequeue = some n) :
    m.pc = .dequeue ∧ ∃ p, take m.camera = some p ∧
      n = { m with camera := p, pc := .getLatestInferenceTime } := by
  simp only [mainStep, Option.ite_none_right_eq_some, Option.map_eq_some_iff] at h
  obtain ⟨hpc, p, htake, rfl⟩ := h
  exact ⟨hpc, p, htake, rfl⟩

theorem mainStep_draw {load : Int32} (h : mainStep k latest m (.draw load) = some n) :
    ∃ boxes vbuf p, m.pc = .draw boxes ∧ m.camera.held = some vbuf ∧
      edit (k.decorated (m.camera.contents vbuf) boxes (overlay m.latestInferenceTime load))
        m.camera = some p ∧
      n = { m with camera := p, pc := .render (overlay m.latestInferenceTime load) } := by
  simp only [mainStep] at h
  split at h
  · rename_i boxes vbuf hpc hheld
    obtain ⟨p, hedit, rfl⟩ := Option.map_eq_some_iff.mp h
    exact ⟨boxes, vbuf, p, hpc, hheld, hedit, rfl⟩
  · cases h

theorem mainStep_render (h : mainStep k latest m .render = some n) :
    ∃ o vbuf, m.pc = .render o ∧ m.camera.held = some vbuf ∧
      n = { m with
        rendered := m.rendered ++ [m.camera.contents vbuf]
        overlays := m.overlays ++ [o]
        pc := .enqueue } := by
  simp only [mainStep] at h
  split at h
  · rename_i o vbuf hpc hheld
    exact ⟨o, vbuf, hpc, hheld, (Option.some.inj h).symm⟩
  · cases h

theorem mainStep_enqueue (h : mainStep k latest m .enqueue = some n) :
    m.pc = .enqueue ∧ ∃ p, give m.camera = some p ∧
      n = { m with camera := p, pc := .dequeue, iterations := m.iterations + 1 } := by
  simp only [mainStep, Option.ite_none_right_eq_some, Option.map_eq_some_iff] at h
  obtain ⟨hpc, p, hgive, rfl⟩ := h
  exact ⟨hpc, p, hgive, rfl⟩

theorem start_mainInv (hfits : Fits k b) : MainInv k b [] (b.start k).main :=
  ⟨full_sound hfits.buffers b.contents, rfl, [], [], [], [], rfl, rfl, rfl, rfl, rfl, rfl, rfl,
    rfl, rfl⟩

theorem MainPhase.produce {current : List Picture} {answer : List (ℕ × List Dbox)}
    {p : Pipe Address Picture} (h : MainPhase k m current answer)
    (hheld : p.held = m.camera.held)
    (hsame : ∀ vbuf, m.camera.held = some vbuf → p.contents vbuf = m.camera.contents vbuf) :
    MainPhase k { m with camera := p } current answer := by
  unfold MainPhase at h ⊢
  simp only
  rw [hheld]
  cases hpc : m.pc with
  | dequeue | enqueue => simpa only [hpc] using h
  | getLatestInferenceTime | getBoxes | draw boxes =>
      simp only [hpc] at h
      obtain ⟨vbuf, hvbuf, hcurrent, hanswer⟩ := h
      exact ⟨vbuf, hvbuf, by rw [hsame vbuf hvbuf]; exact hcurrent, hanswer⟩
  | render o =>
      simp only [hpc] at h
      obtain ⟨vbuf, hvbuf, frame, boxes, hcurrent, hanswer, hdrawn⟩ := h
      exact ⟨vbuf, hvbuf, frame, boxes, hcurrent, hanswer, by rw [hsame vbuf hvbuf]; exact hdrawn⟩

theorem MainInv.produce (hs : MainInv k b given m) {e : Produce Address Picture}
    {p : Pipe Address Picture} (h : produce m.camera e = some p) :
    MainInv k b given { m with camera := p } := by
  obtain ⟨hheld, htaken, hsame⟩ := produce_held hs.sound h
  obtain ⟨done, current, shown, answer, hframes, hgiven, hdone, hshown, hprinted, hrendered,
    hphase⟩ := hs.frames
  exact ⟨produce_sound hs.sound h, hs.numbered, done, current, shown, answer,
    htaken.trans hframes, hgiven, hdone, hshown, hprinted, hrendered, hphase.produce hheld hsame⟩

theorem mainStep_inv {e : MainEvent} (hs : MainInv k b given m)
    (h : mainStep k latest m e = some n) : MainInv k b given n := by
  obtain ⟨hsound, hnumbered, done, current, shown, answer, hframes, hgiven, hdone, hshown,
    hprinted, hrendered, hphase⟩ := hs
  unfold MainLoop.count at hdone hshown hprinted
  unfold MainPhase at hphase
  cases e with
  | dequeue =>
      obtain ⟨hpc, p, htake, rfl⟩ := mainStep_dequeue h
      simp only [hpc] at hphase hdone hshown hprinted
      obtain ⟨-, rfl, hanswer⟩ := hphase
      obtain ⟨vbuf, rest, -, -, hp⟩ := take_spec htake
      refine ⟨take_sound hsound htake, hnumbered, done, [p.contents vbuf], shown, answer, ?_,
        hgiven, hdone, hshown, hprinted, hrendered, vbuf, ?_, rfl, hanswer⟩
      · rw [List.append_nil] at hframes
        simp only [hp, hframes]
      · simp only [hp]
  | getLatestInferenceTime =>
      obtain ⟨hpc, rfl⟩ := accepted h
      simp only [hpc] at hphase hdone hshown hprinted
      exact ⟨hsound, hnumbered, done, current, shown, answer, hframes, hgiven, hdone, hshown,
        hprinted, hrendered, hphase⟩
  | draw load =>
      obtain ⟨boxes, vbuf, p, hpc, hheld, hedit, rfl⟩ := mainStep_draw h
      simp only [hpc] at hphase hdone hshown hprinted
      obtain ⟨vbuf', hheld', hcurrent, hanswer⟩ := hphase
      obtain rfl : vbuf = vbuf' := Option.some.inj (hheld.symm.trans hheld')
      obtain ⟨vbuf', hheld', hp⟩ := edit_spec hedit
      obtain rfl : vbuf = vbuf' := Option.some.inj (hheld.symm.trans hheld')
      refine ⟨edit_sound hsound hedit, hnumbered, done, current, shown, answer, ?_, hgiven, hdone,
        hshown, hprinted, hrendered, vbuf, ?_, _, boxes, hcurrent, hanswer, ?_⟩
      · rw [hp]
        exact hframes
      · rw [hp]
        exact hheld
      · simp only [hp, fill, Function.update_self]
  | render =>
      obtain ⟨o, vbuf, hpc, hheld, rfl⟩ := mainStep_render h
      simp only [hpc] at hphase hdone hshown hprinted
      obtain ⟨vbuf', hheld', frame, boxes, rfl, rfl, hdrawn⟩ := hphase
      obtain rfl : vbuf = vbuf' := Option.some.inj (hheld.symm.trans hheld')
      refine ⟨hsound, hnumbered, done ++ [frame], [], shown ++ [(m.iterations, boxes)], [], ?_, ?_,
        ?_, ?_, ?_, ?_, ⟨vbuf, hheld⟩, rfl, rfl⟩
      · rw [List.append_nil]
        exact hframes
      · rw [List.append_nil]
        exact hgiven
      · simp [MainLoop.count, hdone]
      · simp [MainLoop.count, hshown]
      · simp [MainLoop.count, hprinted]
      · have hboth : (shown.map Prod.snd).length = m.overlays.length := by
          rw [List.length_map, hshown, hprinted]
        have hall : done.length = ((shown.map Prod.snd).zip m.overlays).length := by
          rw [List.length_zip, ← hboth, Nat.min_self, List.length_map, hdone, hshown]
        rw [List.map_append, List.zip_append hboth, List.zipWith_append hall, hrendered, hdrawn]
        rfl
  | enqueue =>
      obtain ⟨hpc, p, hgive, rfl⟩ := mainStep_enqueue h
      simp only [hpc] at hphase hdone hshown hprinted
      obtain ⟨-, hcurrent, hanswer⟩ := hphase
      obtain ⟨vbuf, -, hp⟩ := give_spec hgive
      refine ⟨give_sound hsound hgive, hnumbered, done, current, shown, answer, ?_, hgiven, hdone,
        hshown, hprinted, hrendered, ?_, hcurrent, hanswer⟩
      · rw [hp]
        exact hframes
      · rw [hp]

/-- The call of the current iteration, with the length of the array of `decorate_canvas`. -/
theorem callingStep_spec {c : ℕ} {e : CallEvent} (h : callingStep m c e = some n) :
    m.pc = .getBoxes ∧ c = m.iterations ∧ n.iterations = m.iterations ∧ n.pc ≠ .dequeue ∧
      ∀ l, e = .begin l → l = canvasBoxes := by
  cases e with
  | begin l =>
      obtain ⟨⟨hpc, hc, hl⟩, rfl⟩ := accepted h
      refine ⟨hpc, hc, rfl, by rw [hpc]; exact nofun, fun l' hsame => ?_⟩
      cases hsame
      exact hl
  | ret boxes =>
      obtain ⟨⟨hpc, hc⟩, rfl⟩ := accepted h
      exact ⟨hpc, hc, rfl, nofun, fun _ hsame => CallEvent.noConfusion hsame⟩
  | test | lock | compare | reload | box | unlock =>
      obtain ⟨⟨hpc, hc⟩, rfl⟩ := accepted h
      exact ⟨hpc, hc, rfl, by rw [hpc]; exact nofun, fun _ hsame => CallEvent.noConfusion hsame⟩

/-- A call in the loop, with what it returns if it does. -/
theorem callingStep_inv {c : ℕ} {e : CallEvent} (hs : MainInv k b given m)
    (h : callingStep m c e = some n) : MainInv k b (given ++ answers [.call c e]) n := by
  have hnone : given ++ answers [] = given := List.append_nil given
  cases e with
  | begin =>
      obtain ⟨-, rfl⟩ := accepted h
      exact hnone.symm ▸ hs
  | test | lock | compare | reload | box | unlock =>
      obtain ⟨-, rfl⟩ := accepted h
      exact hnone.symm ▸ hs
  | ret boxes =>
      obtain ⟨⟨hpc, rfl⟩, rfl⟩ := accepted h
      obtain ⟨hsound, hnumbered, done, current, shown, answer, hframes, hgiven, hdone, hshown,
        hprinted, hrendered, hphase⟩ := hs
      unfold MainLoop.count at hdone hshown hprinted
      unfold MainPhase at hphase
      simp only [hpc] at hphase hdone hshown hprinted
      obtain ⟨vbuf, hheld, hcurrent, rfl⟩ := hphase
      have hlength : given.length = m.iterations := by
        rw [hgiven, List.append_nil]
        exact hshown
      have hanswers : answers [.call m.iterations (.ret boxes)] = [(m.iterations, boxes)] := rfl
      rw [hanswers]
      refine ⟨hsound, ?_, done, current, shown, [(m.iterations, boxes)], hframes, ?_, hdone,
        hshown, hprinted, hrendered, vbuf, hheld, hcurrent, rfl⟩
      · rw [List.map_append, hnumbered, List.length_append, hlength]
        exact List.range_succ.symm
      · rw [hgiven, List.append_nil]

end

/-! ## The order of the calls -/

def callNumbers : List (Event ℕ) → List ℕ :=
  List.filterMap fun
    | .call c _ => some c
    | .model _ => none

/-- The calls are made one after the other, each for the whole array. -/
structure InTurn (es : List (Event ℕ)) (m : MainLoop) : Prop where
  ordered : (callNumbers es).Pairwise (· ≤ ·)
  bounded : ∀ c ∈ callNumbers es, c ≤ m.iterations ∧ (m.pc = .dequeue → c < m.iterations)
  whole : ∀ c n, .call c (.begin n) ∈ es → n = canvasBoxes

section
variable {k : Build} {es : List (Event ℕ)} {m n : MainLoop} {i j : ℕ}

theorem mainStep_iterations {latest : Int32} {e : MainEvent} (h : mainStep k latest m e = some n) :
    n.iterations = m.iterations ∧ n.pc ≠ .dequeue ∨ n.iterations = m.iterations + 1 := by
  cases e with
  | dequeue =>
      obtain ⟨-, p, -, rfl⟩ := mainStep_dequeue h
      exact Or.inl ⟨rfl, MainPc.noConfusion⟩
  | getLatestInferenceTime =>
      obtain ⟨-, rfl⟩ := accepted h
      exact Or.inl ⟨rfl, MainPc.noConfusion⟩
  | draw load =>
      obtain ⟨boxes, vbuf, p, -, -, -, rfl⟩ := mainStep_draw h
      exact Or.inl ⟨rfl, MainPc.noConfusion⟩
  | render =>
      obtain ⟨o, vbuf, -, -, rfl⟩ := mainStep_render h
      exact Or.inl ⟨rfl, MainPc.noConfusion⟩
  | enqueue =>
      obtain ⟨-, p, -, rfl⟩ := mainStep_enqueue h
      exact Or.inr rfl

theorem InTurn.mainStep (hs : InTurn es m) {latest : Int32} {e : MainEvent}
    (h : mainStep k latest m e = some n) : InTurn es n := by
  refine ⟨hs.ordered, fun c hc => ?_, hs.whole⟩
  have hle := (hs.bounded c hc).1
  rcases mainStep_iterations h with ⟨hsame, hpc⟩ | hnext
  · rw [hsame]
    exact ⟨hle, fun hdequeue => absurd hdequeue hpc⟩
  · rw [hnext]
    exact ⟨Nat.le_succ_of_le hle, fun _ => Nat.lt_succ_of_le hle⟩

theorem InTurn.callingStep (hs : InTurn es m) {c : ℕ} {e : CallEvent}
    (h : callingStep m c e = some n) : InTurn (es ++ [.call c e]) n := by
  obtain ⟨-, rfl, hsame, hpc, hwhole⟩ := callingStep_spec h
  have hnumbers : callNumbers (es ++ [.call m.iterations e]) = callNumbers es ++ [m.iterations] :=
    List.filterMap_append
  refine ⟨?_, ?_, ?_⟩
  · rw [hnumbers, List.pairwise_append]
    refine ⟨hs.ordered, List.pairwise_singleton _ _, fun c hc d hd => ?_⟩
    rw [List.mem_singleton.mp hd]
    exact (hs.bounded c hc).1
  · intro c hc
    rw [hsame]
    refine ⟨?_, fun hdequeue => absurd hdequeue hpc⟩
    rw [hnumbers, List.mem_append, List.mem_singleton] at hc
    rcases hc with hold | rfl
    · exact (hs.bounded c hold).1
    · exact le_rfl
  · intro c l hbegin
    rw [List.mem_append, List.mem_singleton] at hbegin
    rcases hbegin with hold | hnew
    · exact hs.whole c l hold
    · cases hnew
      exact hwhole l rfl

end

/-! ## The times that are printed -/

/-- The numbers for one of the times, or for none, and some load. -/
def Printed (times : List Int32) (o : Overlay) : Prop :=
  ∃ time ∈ 0 :: times, ∃ load, o = overlay time load

/-- Whatever is passed on as the time of an inference is the time of one that has ended. -/
structure Timed (times : List Int32) (latest : Int32) (m : MainLoop) : Prop where
  latest : latest ∈ 0 :: times
  read : m.latestInferenceTime ∈ 0 :: times
  drawn : ∀ o, m.pc = .render o → Printed times o
  overlays : ∀ o ∈ m.overlays, Printed times o

section
variable {k : Build} {times : List Int32} {latest : Int32} {m n : MainLoop}

theorem Timed.append (hs : Timed times latest m) (later : List Int32) :
    Timed (times ++ later) latest m := by
  have hsub : ∀ {time : Int32}, time ∈ 0 :: times → time ∈ 0 :: (times ++ later) :=
    fun h => List.mem_append_left later h
  have hprinted : ∀ {o : Overlay}, Printed times o → Printed (times ++ later) o :=
    fun ⟨time, htime, hload⟩ => ⟨time, hsub htime, hload⟩
  exact ⟨hsub hs.latest, hsub hs.read, fun o ho => hprinted (hs.drawn o ho),
    fun o ho => hprinted (hs.overlays o ho)⟩

/-- Whose step on the boxes it is; the thread reads its own variables for a result only. -/
theorem boxesStep_cases {s t : App} {e : Event ℕ} (h : boxesStep k s e = some t) :
    ∃ boxes, step (modelDetectionToBox k.scale k.display) s.boxes e = some boxes ∧
      ((∃ c f main, e = .call c f ∧ callingStep s.main c f = some main ∧
          t = { s with main := main, boxes := boxes }) ∨
        (∃ r nn, e = .model (.post r) ∧ processStep k s.nn r = some nn ∧
          t = { s with nn := nn, boxes := boxes }) ∨
        ∃ f, e = .model f ∧ posts [e] = [] ∧ t = { s with boxes := boxes }) := by
  simp only [boxesStep, Option.bind_eq_bind, Option.bind_eq_some_iff] at h
  obtain ⟨boxes, hstep, h⟩ := h
  refine ⟨boxes, hstep, ?_⟩
  cases e with
  | call c f =>
      simp only [Option.bind_eq_some_iff] at h
      obtain ⟨main, hcalling, ht⟩ := h
      exact Or.inl ⟨c, f, main, rfl, hcalling, (Option.some.inj ht).symm⟩
  | model f =>
      cases f with
      | post r =>
          simp only [Option.bind_eq_some_iff] at h
          obtain ⟨nn, hprocess, ht⟩ := h
          exact Or.inr (Or.inl ⟨r, nn, rfl, hprocess, (Option.some.inj ht).symm⟩)
      | mutexInit | clearNb | lock | setNb | copy | unlock =>
          exact Or.inr (Or.inr ⟨_, rfl, rfl, (Option.some.inj h).symm⟩)

end

/-! ## Every run -/

/-- The invariant of the application. -/
structure AppInv (k : Build) (b : Boot) (past : List AppEvent) (s : App) : Prop where
  run : exec (step (modelDetectionToBox k.scale k.display)) (initial b.boxes) (boxesEvents past) =
    some s.boxes
  thread : ThreadInv k b (posts (boxesEvents past)) s.nn
  main : MainInv k b (answers (boxesEvents past)) s.main
  turns : InTurn (boxesEvents past) s.main

section
variable {k : Build} {b : Boot} {past es : List AppEvent} {s t : App}

theorem start_appInv (hfits : Fits k b) : AppInv k b [] (b.start k) :=
  ⟨rfl, start_threadInv hfits, start_mainInv hfits, List.Pairwise.nil, nofun, nofun⟩

/-- A step that does not touch the boxes. -/
theorem AppInv.keep {e : AppEvent} (hs : AppInv k b past s) (hnone : boxesEvents [e] = [])
    (hboxes : t.boxes = s.boxes) (hthread : ThreadInv k b (posts (boxesEvents past)) t.nn)
    (hmain : MainInv k b (answers (boxesEvents past)) t.main)
    (hturns : InTurn (boxesEvents past) t.main) : AppInv k b (past ++ [e]) t := by
  have hsame : boxesEvents (past ++ [e]) = boxesEvents past := by
    rw [boxesEvents, List.filterMap_append]
    exact (congrArg (boxesEvents past ++ ·) hnone).trans (List.append_nil _)
  constructor
  · rw [hsame, hboxes]
    exact hs.run
  · rw [hsame]
    exact hthread
  · rw [hsame]
    exact hmain
  · rw [hsame]
    exact hturns

/-- The loop of `main` does not see a step of the thread. -/
theorem AppInv.loop_model (hs : AppInv k b past s) (f : ModelEvent) :
    MainInv k b (answers (boxesEvents past ++ [.model f])) s.main ∧
      InTurn (boxesEvents past ++ [.model f]) s.main := by
  have hanswers : answers (boxesEvents past ++ [.model f]) = answers (boxesEvents past) :=
    List.filterMap_append.trans (List.append_nil _)
  have hnumbers : callNumbers (boxesEvents past ++ [.model f]) = callNumbers (boxesEvents past) :=
    List.filterMap_append.trans (List.append_nil _)
  refine ⟨?_, ?_, ?_, fun c n hbegin => hs.turns.whole c n ?_⟩
  · rw [hanswers]
    exact hs.main
  · rw [hnumbers]
    exact hs.turns.ordered
  · rw [hnumbers]
    exact hs.turns.bounded
  · simpa using hbegin

theorem boxesStep_inv (hfits : Fits k b) {e : Event ℕ} (hs : AppInv k b past s)
    (h : boxesStep k s e = some t) : AppInv k b (past ++ [.boxes e]) t := by
  have hevents : boxesEvents (past ++ [.boxes e]) = boxesEvents past ++ [e] :=
    List.filterMap_append
  obtain ⟨boxes, hstep, hcases⟩ := boxesStep_cases h
  have hrun := exec_concat.mpr ⟨_, hs.run, hstep⟩
  rw [← hevents] at hrun
  rcases hcases with ⟨c, f, main, rfl, hcalling, rfl⟩ | ⟨r, nn, rfl, hprocess, rfl⟩ |
    ⟨f, rfl, hnone, rfl⟩
  · have hanswers : answers (boxesEvents past ++ [.call c f]) =
        answers (boxesEvents past) ++ answers [.call c f] :=
      List.filterMap_append
    refine ⟨hrun, ?_, ?_, ?_⟩
    · rw [hevents, posts_concat]
      exact (List.append_nil (posts (boxesEvents past))).symm ▸ hs.thread
    · rw [hevents, hanswers]
      exact callingStep_inv hs.main hcalling
    · rw [hevents]
      exact hs.turns.callingStep hcalling
  · obtain ⟨hmain, hturns⟩ := hs.loop_model (.post r)
    refine ⟨hrun, ?_, hevents.symm ▸ hmain, hevents.symm ▸ hturns⟩
    rw [hevents, posts_concat]
    exact processStep_inv hfits hs.thread hprocess
  · obtain ⟨hmain, hturns⟩ := hs.loop_model f
    refine ⟨hrun, ?_, hevents.symm ▸ hmain, hevents.symm ▸ hturns⟩
    rw [hevents, posts_concat, hnone, List.append_nil]
    exact hs.thread

theorem appStep_inv (hfits : Fits k b) {e : AppEvent} (hs : AppInv k b past s)
    (h : appStep k s e = some t) : AppInv k b (past ++ [e]) t := by
  cases e with
  | camera e =>
      obtain ⟨p, hproduce, rfl⟩ := Option.map_eq_some_iff.mp h
      exact hs.keep rfl rfl hs.thread (hs.main.produce hproduce)
        ⟨hs.turns.ordered, hs.turns.bounded, hs.turns.whole⟩
  | cameraAux e =>
      obtain ⟨p, hproduce, rfl⟩ := Option.map_eq_some_iff.mp h
      exact hs.keep rfl rfl (hs.thread.produce hproduce) hs.main hs.turns
  | thread e =>
      simp only [appStep, Option.ite_none_right_eq_some, Option.map_eq_some_iff] at h
      obtain ⟨-, nn, hthread, rfl⟩ := h
      exact hs.keep rfl rfl (threadStep_inv hfits hs.thread hthread) hs.main hs.turns
  | main e =>
      obtain ⟨m, hmain, rfl⟩ := Option.map_eq_some_iff.mp h
      exact hs.keep rfl rfl hs.thread (mainStep_inv hs.main hmain) (hs.turns.mainStep hmain)
  | boxes e => exact boxesStep_inv hfits hs h

theorem exec_appInv (hfits : Fits k b) (h : exec (appStep k) (b.start k) es = some s) :
    AppInv k b es s :=
  exec_invariant (AppInv k b) (start_appInv hfits) (fun _ _ _ _ hs => appStep_inv hfits hs) h

end

/-! ## The input of an inference -/

/-- Each buffer of the pool is in one place, and each frame of the camera is taken once and in
the order of capture. -/
structure Delivered (pool : List Address) (camera : Pipe Address Picture) : Prop where
  placed : (camera.incoming ++ camera.outgoing ++ camera.held.toList).Perm pool
  inOrder : camera.captured = camera.taken ++ camera.outgoing.map camera.contents

/-- No assertion of the network thread fails; both cameras deliver their frames; and the input of
an inference under way is the frame taken last, in a buffer that the camera does not have and
that the blob names. -/
structure Undisturbed (k : Build) (b : Boot) (s : App) : Prop where
  running : s.nn.pc ≠ .failed
  camera : Delivered b.buffers s.main.camera
  cameraAux : Delivered b.auxBuffers s.nn.cameraAux
  input : s.nn.pc = .inference → ∃ vbuf, s.nn.cameraAux.held = some vbuf ∧
    vbuf ∉ s.nn.cameraAux.incoming ∧ vbuf ∉ s.nn.cameraAux.outgoing ∧
    s.nn.cameraAux.taken.getLast? = some (s.nn.cameraAux.contents vbuf) ∧
    ∀ i ∈ Npu.inputWords k.binary, s.nn.npu.blob.words i = Npu.blobWord k.binary i + vbuf

/-- In every interleaving. -/
theorem inference_undisturbed (k : Build) (b : Boot) (hfits : Fits k b) (es : List AppEvent)
    (s : App) (h : exec (appStep k) (b.start k) es = some s) : Undisturbed k b s := by
  have happ := exec_appInv hfits h
  have hs := happ.thread
  obtain ⟨done, current, hframes, -, hphase⟩ := hs.frames
  unfold ThreadPhase at hphase
  refine ⟨fun hpc => ?_, ⟨happ.main.sound.placed, happ.main.sound.inOrder⟩,
    ⟨hs.sound.placed, hs.sound.inOrder⟩, fun hpc => ?_⟩
  · simp only [hpc] at hphase
  · simp only [hpc] at hphase
    obtain ⟨vbuf, hheld, hcurrent, hbase⟩ := hphase
    obtain ⟨hincoming, houtgoing⟩ := hs.sound.held_notMem hheld
    have hready := hs.moved (by rw [hpc]; exact nofun)
    refine ⟨vbuf, hheld, hincoming, houtgoing, ?_, fun i hi => ?_⟩
    · rw [hframes, hcurrent, List.getLast?_concat]
    · rw [← hbase]
      exact hready.word_eq hfits.binary hi

/-- A network that sees one person in the frames that start with a one, and a picture that starts
with the number of areas drawn on it and the time printed. -/
def tinyBuild : Build where
  ops := singleFloat
  qsort := keepOrder
  net := detector
  scale := scaleSingle
  display := wvga
  binary := Npu.ofDoubleWords Npu.binaryHeader
  infer frame := if frame 0 = 1 then onePerson else fun _ => 0
  draw o areas frame := Function.update
    (Function.update frame 0 (BitVec.ofNat 8 areas.length)) 1 (o.inferenceTime.toBitVec.setWidth 8)

def tinyBoot : Boot where
  pp := clearStack
  mem := anchorMem
  npu := ⟨⟨0x34000000, fun _ => 0⟩, 0, 0⟩
  buffers := [0x90000000, 0x900C0000]
  auxBuffers := [0x34100000, 0x34124C00]
  contents := fun _ _ => 0
  boxes := fun _ _ => ⟨0, 0, 0, 0⟩

theorem tinyBoot_fits : Fits tinyBuild tinyBoot where
  size := by decide
  anchors := by decide
  arranged := ⟨by decide, by decide⟩
  binary := Npu.namesInput_network (fun _ _ => rfl) (by decide)
  buffers := by decide
  auxBuffers := by decide
  -- Deciding this as it stands would go through every address.
  aligned := List.forall_mem_cons.mpr ⟨by decide, List.forall_mem_singleton.mpr (by decide)⟩

/-- The camera writes to one buffer while the network reads the other. -/
def firstInference : List AppEvent :=
  [.cameraAux (.fill 0x34100000 fun _ => 1), .cameraAux .finish, .boxes (.model .mutexInit),
    .boxes (.model .clearNb), .thread .initNetwork, .thread .dequeue, .thread .setInput,
    .thread .startInference, .cameraAux (.fill 0x34124C00 fun _ => 7)]

theorem inference_undisturbed_firstInference :
    ∃ s, exec (appStep tinyBuild) (tinyBoot.start tinyBuild) firstInference = some s ∧
      s.nn.pc = .inference ∧ Undisturbed tinyBuild tinyBoot s := by
  have hrun : (exec (appStep tinyBuild) (tinyBoot.start tinyBuild) firstInference).map
      (fun s => s.nn.pc) = some .inference := by
    decide +kernel
  obtain ⟨s, hs, hpc⟩ := Option.map_eq_some_iff.mp hrun
  exact ⟨s, hs, hpc, inference_undisturbed tinyBuild tinyBoot tinyBoot_fits firstInference s hs⟩

/-! ## The screen -/

/-- The boxes to draw when `n` frames of the network have been published. -/
def Build.boxesAfter (k : Build) (b : Boot) (frames : List Picture) (n : ℕ) : List Dbox :=
  publishedBoxes k.scale k.display
    (detectionsAfter k.ops k.qsort k.net b.pp b.mem (frames.map k.infer) n)

section
variable {k : Build} {b : Boot} {es : List AppEvent} {s : App}

theorem MainInv.rendered_length {given : List (ℕ × List Dbox)} {m : MainLoop}
    (h : MainInv k b given m) : m.rendered.length = m.count := by
  obtain ⟨done, current, shown, answer, -, -, hdone, hshown, hprinted, hrendered, -⟩ := h.frames
  rw [hrendered, List.length_zipWith, List.length_zip, List.length_map, hdone, hshown, hprinted,
    Nat.min_self, Nat.min_self]

/-- Every result belongs to a frame that the camera captured, in order. -/
theorem ThreadInv.posts_prefix_captured {results : List (List Detection)} {t : NnThread}
    (h : ThreadInv k b results t) :
    results <+: t.cameraAux.captured.map (k.detections b) := by
  obtain ⟨done, current, hframes, rfl, -⟩ := h.frames
  rw [h.sound.inOrder, hframes, List.append_assoc, List.map_append]
  exact List.prefix_append _ _

theorem boxesAfter_eq (k : Build) (b : Boot) (frames : List Picture) (n : ℕ) :
    k.boxesAfter b frames n =
      ((((frames.map (k.detections b)).take n).getLastD []).take canvasBoxes).map
        (modelDetectionToBox k.scale k.display) := by
  unfold Build.boxesAfter publishedBoxes
  rw [detectionsAfter_eq, List.map_map]
  rfl

/-- What a call returned to the loop. -/
theorem AppInv.answer (hs : AppInv k b es s) {i : ℕ} {boxes : List Dbox}
    (h : (i, boxes) ∈ answers (boxesEvents es)) :
    (∃ x ∈ boxesEvents es, x.decidesCall i = true) ∧
      boxes = k.boxesAfter b s.nn.cameraAux.captured (seenBy (boxesEvents es) i) := by
  obtain ⟨x, hx, hanswer⟩ := List.mem_filterMap.mp h
  have hret : x = .call i (.ret boxes) := by
    cases x with
    | model e => cases hanswer
    | call c e =>
        cases e with
        | ret returned =>
            cases hanswer
            rfl
        | begin | test | lock | compare | reload | box | unlock => cases hanswer
  subst hret
  obtain ⟨past, rest, hsplit⟩ := List.append_of_mem hx
  obtain ⟨⟨y, hy, hdecides⟩, n, hbegin, hboxes⟩ :=
    ret_seen hs.thread.posts_prefix_captured hs.run hsplit
  have hpast : ∀ x ∈ past, x ∈ boxesEvents es := by
    intro x hx
    rw [hsplit]
    exact List.mem_append_left _ hx
  rw [boxesAfter_eq, hboxes, hs.turns.whole i n (hpast _ hbegin)]
  exact ⟨⟨y, hpast y hy, hdecides⟩, rfl⟩

/-- The calls of the iterations that have rendered have returned. -/
theorem AppInv.decided (hs : AppInv k b es s) {i : ℕ} (hi : i < s.main.rendered.length) :
    ∃ boxes, (i, boxes) ∈ answers (boxesEvents es) := by
  obtain ⟨done, current, shown, answer, -, hgiven, -, hshown, -, -, -⟩ := hs.main.frames
  have hlength : i < (answers (boxesEvents es)).length := by
    rw [hgiven, List.length_append, hshown, ← hs.main.rendered_length]
    exact Nat.lt_add_right _ hi
  have hmem : i ∈ (answers (boxesEvents es)).map Prod.fst := by
    rw [hs.main.numbered]
    exact List.mem_range.mpr hlength
  obtain ⟨⟨j, boxes⟩, hanswer, rfl⟩ := List.mem_map.mp hmem
  exact ⟨boxes, hanswer⟩

end

end N6Samples.Benchmark
