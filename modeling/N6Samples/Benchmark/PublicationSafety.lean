import N6Samples.Benchmark.Publication

/-! # Every call sees one published result

Three invariants of the interleaved system, each over the trace so far: who may hold
`boxes_lock`, what the two buffers hold between and during publications, and what a
call has learnt since it obtained the lock.
-/

namespace N6Samples.Benchmark

open Trace

variable {C : Type}

/-! ## Unlocking -/

theorem modelStep_unlock {s t : System C} (h : modelStep s .unlock = some t) :
    ∃ i, s.modelPc = .copying i ∧ s.nbDetect ≤ i ∧
      t = { s with owner := none, modelPc := .process } := by
  simp only [modelStep] at h
  split at h
  · rename_i i hpc
    obtain ⟨hend, rfl⟩ := accepted h
    exact ⟨i, hpc, hend, rfl⟩
  · cases h

variable {toBox : Detection → Dbox}

theorem callStep_unlock [DecidableEq C] {s t : System C} {c : C}
    (h : callStep toBox s c .unlock = some t) :
    ∃ i : ℕ, (s.call c).pc = .copying i ∧ (s.call c).nb ≤ i ∧
      t = { s with owner := none }.setCall c { s.call c with pc := .returning } := by
  simp only [callStep] at h
  split at h
  · rename_i i hpc
    obtain ⟨hend, rfl⟩ := accepted h
    exact ⟨i, hpc, hend, rfl⟩
  · cases h

@[simp] theorem setCall_call_self [DecidableEq C] (s : System C) (c : C) (k : Call) :
    (s.setCall c k).call c = k := Function.update_self ..

theorem setCall_call_of_ne [DecidableEq C] (s : System C) {c d : C} (k : Call) (h : d ≠ c) :
    (s.setCall c k).call d = s.call d := Function.update_of_ne h ..

/-! ## The lock -/

/-- Before `detections_nb` is set to 0. -/
def ModelPc.starting : ModelPc → Bool
  | .start | .clear => true
  | _ => false

/-- Between `k_mutex_lock` and `k_mutex_unlock`. -/
def ModelPc.critical : ModelPc → Bool
  | .locked | .copying _ => true
  | _ => false

def CallPc.critical : CallPc → Bool
  | .locked | .reload | .copying _ => true
  | _ => false

/-- Past the first test of `detections_nb`, until the call leaves the lock. -/
def CallPc.admitted (pc : CallPc) : Bool := pc = .tested || pc.critical

/-- Mutual exclusion, and no call asks for the lock before the thread is set up. -/
structure Exclusive (s : System C) : Prop where
  starting : s.modelPc.starting → s.owner = none ∧ s.detectionsNb = -1
  started : ¬ s.modelPc.starting → 0 ≤ s.detectionsNb
  model : s.owner = some .model ↔ s.modelPc.critical
  call : ∀ c, s.owner = some (.call c) ↔ (s.call c).pc.critical
  admitted : ∀ c, (s.call c).pc.admitted → ¬ s.modelPc.starting

/-- A step of the thread that neither takes nor leaves the lock. -/
theorem Exclusive.moveModel {s t : System C} (hs : Exclusive s) (hcall : t.call = s.call)
    (howner : t.owner = s.owner) (hcritical : t.modelPc.critical = s.modelPc.critical)
    (hstarting : t.modelPc.starting → s.modelPc.starting ∧ t.detectionsNb = s.detectionsNb)
    (hstarted : ¬ t.modelPc.starting → 0 ≤ t.detectionsNb) : Exclusive t := by
  refine ⟨?_, hstarted, ?_, ?_, ?_⟩
  · intro h
    rw [howner, (hstarting h).2]
    exact hs.starting (hstarting h).1
  · rw [howner, hcritical]
    exact hs.model
  · rw [hcall, howner]
    exact hs.call
  · intro c hc h
    rw [hcall] at hc
    exact hs.admitted c hc (hstarting h).1

theorem modelStep_exclusive {s t : System C} {e : ModelEvent} (hs : Exclusive s)
    (h : modelStep s e = some t) : Exclusive t := by
  cases e with
  | mutexInit =>
      obtain ⟨hpc, rfl⟩ := accepted h
      have hstarting : s.modelPc.starting := by rw [hpc]; rfl
      exact hs.moveModel rfl (hs.starting hstarting).1.symm (by rw [hpc]; rfl)
        (fun _ => ⟨hstarting, rfl⟩) fun h => absurd rfl h
  | clearNb =>
      obtain ⟨hpc, rfl⟩ := accepted h
      exact hs.moveModel rfl rfl (by rw [hpc]; rfl) nofun fun _ => le_rfl
  | post r =>
      obtain ⟨hpc, rfl⟩ := accepted h
      have hstarted := hs.started (by rw [hpc]; exact nofun)
      exact hs.moveModel rfl rfl (by rw [hpc]; rfl) nofun fun _ => hstarted
  | lock =>
      obtain ⟨⟨hpc, hfree⟩, rfl⟩ := accepted h
      have hstarted := hs.started (by rw [hpc]; exact nofun)
      refine ⟨nofun, fun _ => hstarted, ⟨fun _ => rfl, fun _ => rfl⟩, fun c => ⟨nofun, ?_⟩,
        fun _ _ => nofun⟩
      intro hc
      rw [← hs.call c, hfree] at hc
      cases hc
  | setNb =>
      obtain ⟨hpc, rfl⟩ := accepted h
      exact hs.moveModel rfl rfl (by rw [hpc]; rfl) nofun fun _ => Int.natCast_nonneg _
  | copy i =>
      obtain ⟨⟨hpc, hi⟩, rfl⟩ := accepted h
      have hstarted := hs.started (by rw [hpc]; exact nofun)
      exact hs.moveModel rfl rfl (by rw [hpc]; rfl) nofun fun _ => hstarted
  | unlock =>
      obtain ⟨i, hpc, hend, rfl⟩ := modelStep_unlock h
      have hstarted := hs.started (by rw [hpc]; exact nofun)
      refine ⟨nofun, fun _ => hstarted, ⟨nofun, nofun⟩, fun c => ⟨nofun, ?_⟩, fun _ _ => nofun⟩
      intro hc
      rw [← hs.call c, hs.model.mpr (by rw [hpc]; rfl)] at hc
      cases hc

/-- A call that neither takes nor leaves the lock. -/
theorem Exclusive.setCall [DecidableEq C] {s : System C} (hs : Exclusive s) {c : C} {k : Call}
    (hcritical : k.pc.critical = (s.call c).pc.critical)
    (hadmitted : k.pc.admitted → ¬ s.modelPc.starting) : Exclusive (s.setCall c k) := by
  refine ⟨hs.starting, hs.started, hs.model, ?_, ?_⟩
  · intro d
    by_cases hd : d = c
    · subst hd
      rw [setCall_call_self, hcritical]
      exact hs.call d
    · rw [setCall_call_of_ne s k hd]
      exact hs.call d
  · intro d
    by_cases hd : d = c
    · subst hd
      rw [setCall_call_self]
      exact hadmitted
    · rw [setCall_call_of_ne s k hd]
      exact hs.admitted d

/-- A call that takes the lock or leaves it. -/
theorem Exclusive.setOwner [DecidableEq C] {s : System C} (hs : Exclusive s) {c : C} {k : Call}
    {o : Option (Party C)} (hstarted : ¬ s.modelPc.starting) (hmodel : ¬ s.modelPc.critical)
    (hothers : ∀ d, d ≠ c → ¬ (s.call d).pc.critical)
    (howner : if k.pc.critical then o = some (.call c) else o = none) :
    Exclusive ({ s with owner := o }.setCall c k) := by
  have hparty : ∀ p, o = some p ↔ k.pc.critical ∧ p = .call c := by
    intro p
    cases hk : k.pc.critical with
    | true =>
        rw [if_pos hk] at howner
        simp [howner, eq_comm]
    | false =>
        rw [hk, if_neg nofun] at howner
        simp [howner]
  refine ⟨fun h => absurd h hstarted, hs.started, ?_, ?_, fun _ _ => hstarted⟩
  · show o = some .model ↔ s.modelPc.critical
    rw [hparty]
    simp [hmodel]
  · intro d
    show o = some (.call d) ↔ _
    rw [hparty]
    by_cases hd : d = c
    · subst hd
      simp
    · rw [setCall_call_of_ne _ k hd]
      simp [hd, hothers d hd]

theorem callStep_exclusive [DecidableEq C] {s t : System C} {c : C} {e : CallEvent}
    (hs : Exclusive s) (h : callStep toBox s c e = some t) : Exclusive t := by
  cases e with
  | begin n =>
      obtain ⟨hpc, rfl⟩ := accepted h
      exact hs.setCall (by rw [hpc]; rfl) (by simp [CallPc.admitted, CallPc.critical])
  | test v =>
      obtain ⟨⟨hpc, hv⟩, rfl⟩ := accepted h
      by_cases hneg : v < 0
      · rw [if_pos hneg]
        exact hs.setCall (by rw [hpc]; rfl) (by simp [CallPc.admitted, CallPc.critical])
      · rw [if_neg hneg]
        apply hs.setCall (by rw [hpc]; rfl)
        intro _ hstarting
        have hnb := (hs.starting hstarting).2
        omega
  | lock =>
      obtain ⟨⟨hpc, hfree⟩, rfl⟩ := accepted h
      apply hs.setOwner (hs.admitted c (by rw [hpc]; rfl))
      · rw [← hs.model, hfree]
        exact nofun
      · intro d _
        rw [← hs.call d, hfree]
        exact nofun
      · simp [CallPc.critical]
  | compare =>
      obtain ⟨hpc, rfl⟩ := accepted h
      have hstarted := hs.admitted c (by rw [hpc]; rfl)
      by_cases hless : (s.call c).boxesNb < s.detectionsNb
      · rw [if_pos hless]
        exact hs.setCall (by rw [hpc]; rfl) fun _ => hstarted
      · rw [if_neg hless]
        exact hs.setCall (by rw [hpc]; rfl) fun _ => hstarted
  | reload =>
      obtain ⟨hpc, rfl⟩ := accepted h
      exact hs.setCall (by rw [hpc]; rfl) fun _ => hs.admitted c (by rw [hpc]; rfl)
  | box i =>
      obtain ⟨⟨hpc, hi⟩, rfl⟩ := accepted h
      exact hs.setCall (by rw [hpc]; rfl) fun _ => hs.admitted c (by rw [hpc]; rfl)
  | unlock =>
      obtain ⟨i, hpc, hend, rfl⟩ := callStep_unlock h
      have howner : s.owner = some (.call c) := (hs.call c).mpr (by rw [hpc]; rfl)
      apply hs.setOwner (hs.admitted c (by rw [hpc]; rfl))
      · rw [← hs.model, howner]
        exact nofun
      · intro d hd
        rw [← hs.call d, howner]
        intro hsame
        cases hsame
        exact hd rfl
      · simp [CallPc.critical]
  | ret boxes =>
      obtain ⟨⟨hpc, hboxes⟩, rfl⟩ := accepted h
      exact hs.setCall (by rw [hpc]; rfl) (by simp [CallPc.admitted, CallPc.critical])

/-! ## What a call leaves alone -/

/-- A step of `c` changes its own call and the lock, nothing else. -/
structure CallFrame (c : C) (s t : System C) : Prop where
  detectionsNb : t.detectionsNb = s.detectionsNb
  detections : t.detections = s.detections
  ppBuffer : t.ppBuffer = s.ppBuffer
  nbDetect : t.nbDetect = s.nbDetect
  modelPc : t.modelPc = s.modelPc
  call : ∀ d, d ≠ c → t.call d = s.call d

theorem CallFrame.setCall [DecidableEq C] (s : System C) (c : C) (o : Option (Party C)) (k : Call) :
    CallFrame c s ({ s with owner := o }.setCall c k) :=
  ⟨rfl, rfl, rfl, rfl, rfl, fun _ hd => setCall_call_of_ne _ k hd⟩

theorem callStep_frame [DecidableEq C] {s t : System C} {c : C} {e : CallEvent}
    (h : callStep toBox s c e = some t) : CallFrame c s t := by
  cases e with
  | begin n =>
      obtain ⟨-, rfl⟩ := accepted h
      exact CallFrame.setCall s c s.owner _
  | test v =>
      obtain ⟨-, rfl⟩ := accepted h
      exact CallFrame.setCall s c s.owner _
  | lock =>
      obtain ⟨-, rfl⟩ := accepted h
      exact CallFrame.setCall s c (some (.call c)) _
  | compare =>
      obtain ⟨-, rfl⟩ := accepted h
      exact CallFrame.setCall s c s.owner _
  | reload =>
      obtain ⟨-, rfl⟩ := accepted h
      exact CallFrame.setCall s c s.owner _
  | box i =>
      obtain ⟨-, rfl⟩ := accepted h
      exact CallFrame.setCall s c s.owner _
  | unlock =>
      obtain ⟨i, -, -, rfl⟩ := callStep_unlock h
      exact CallFrame.setCall s c none _
  | ret boxes =>
      obtain ⟨-, rfl⟩ := accepted h
      exact CallFrame.setCall s c s.owner _

/-! ## The buffers -/

@[simp] theorem entries_length {α : Type} (array : ℕ → α) (n : ℕ) :
    (entries array n).length = n := by
  simp [entries]

theorem entries_congr {α : Type} {array array' : ℕ → α} {n : ℕ}
    (h : ∀ i < n, array i = array' i) : entries array n = entries array' n :=
  List.map_congr_left fun i hi => h i (List.mem_range.mp hi)

theorem entries_overwrite {α : Type} (array : ℕ → α) (new : List α) :
    entries (overwrite array new) new.length = new := by
  apply List.ext_getElem (entries_length _ _)
  intro i _ hi
  simp [entries, overwrite, hi]

/-- One more entry of an array has been brought in line with `g`. -/
theorem update_agrees {α : Type} {f g : ℕ → α} {i : ℕ} (h : ∀ j < i, f j = g j) :
    ∀ j < i + 1, Function.update f i (g i) j = g j := by
  intro j hj
  by_cases hlast : j = i
  · rw [hlast, Function.update_self]
  · rw [Function.update_of_ne hlast]
    exact h j (by omega)

/-- What has been computed last, and what has been published last. -/
structure History where
  processed : List Detection
  published : List Detection

def History.next (h : History) : Event C → History
  | .model (.post r) => { h with processed := r.entries }
  | .model .unlock => { h with published := h.processed }
  | _ => h

def history (past : List (Event C)) : History := past.foldl History.next ⟨[], []⟩

/-- The result whose copy was completed last, and nothing before the first. -/
def lastPublished (past : List (Event C)) : List Detection := (history past).published

@[simp] theorem history_concat (past : List (Event C)) (e : Event C) :
    history (past ++ [e]) = (history past).next e := by
  rw [history, List.foldl_append]
  rfl

/-- A result of the trace, or none. -/
def FromPost (past : List (Event C)) (result : List Detection) : Prop :=
  result = [] ∨ ∃ r, .model (.post r) ∈ past ∧ result = r.entries

theorem FromPost.append {past : List (Event C)} {result : List Detection}
    (h : FromPost past result) (later : List (Event C)) : FromPost (past ++ later) result := by
  cases h with
  | inl hnone => exact Or.inl hnone
  | inr hsome =>
      rcases hsome with ⟨r, hr, hresult⟩
      exact Or.inr ⟨r, List.mem_append_left _ hr, hresult⟩

theorem history_fromPost (past : List (Event C)) :
    FromPost past (history past).processed ∧ FromPost past (history past).published := by
  induction past using List.reverseRecOn with
  | nil => exact ⟨Or.inl rfl, Or.inl rfl⟩
  | append_singleton past e ih =>
      rcases ih with ⟨hprocessed, hpublished⟩
      rw [history_concat]
      cases e with
      | call c e => exact ⟨hprocessed.append _, hpublished.append _⟩
      | model e =>
          cases e with
          | post r => exact ⟨Or.inr ⟨r, by simp, rfl⟩, hpublished.append _⟩
          | unlock => exact ⟨hprocessed.append _, hprocessed.append _⟩
          | mutexInit | clearNb | lock | setNb | copy =>
              exact ⟨hprocessed.append _, hpublished.append _⟩

/-- Between publications `detections` holds the published result; during one, the part
of the new result that has been copied. -/
structure Buffered (past : List (Event C)) (s : System C) : Prop where
  nbDetect_le : s.nbDetect ≤ boxesLimit
  detectionsNb_le : s.detectionsNb ≤ boxesLimit
  processed : (history past).processed = entries s.ppBuffer s.nbDetect
  published : ¬ s.modelPc.critical → lastPublished past = entries s.detections s.detectionsNb.toNat
  copying : ∀ i, s.modelPc = .copying i →
    s.detectionsNb = s.nbDetect ∧ i ≤ s.nbDetect ∧ ∀ j < i, s.detections j = s.ppBuffer j

/-- A step that neither fills the thread's buffer nor completes a publication. -/
theorem Buffered.keep {past : List (Event C)} {e : Event C} {s t : System C}
    (hs : Buffered past s) (hhistory : (history past).next e = history past)
    (hbuffer : t.ppBuffer = s.ppBuffer) (hcount : t.nbDetect = s.nbDetect)
    (hnb : t.detectionsNb ≤ boxesLimit)
    (hpublished : ¬ t.modelPc.critical →
      lastPublished past = entries t.detections t.detectionsNb.toNat)
    (hcopying : ∀ i, t.modelPc = .copying i →
      t.detectionsNb = t.nbDetect ∧ i ≤ t.nbDetect ∧ ∀ j < i, t.detections j = t.ppBuffer j) :
    Buffered (past ++ [e]) t := by
  have hsame : history (past ++ [e]) = history past := (history_concat past e).trans hhistory
  refine ⟨?_, hnb, ?_, ?_, hcopying⟩
  · rw [hcount]
    exact hs.nbDetect_le
  · rw [hsame, hbuffer, hcount]
    exact hs.processed
  · rw [lastPublished, hsame]
    exact hpublished

theorem modelStep_buffered {past : List (Event C)} {s t : System C} {e : ModelEvent}
    (hx : Exclusive s) (hs : Buffered past s) (h : modelStep s e = some t) :
    Buffered (past ++ [.model e]) t := by
  cases e with
  | mutexInit =>
      obtain ⟨hpc, rfl⟩ := accepted h
      have hpublished := hs.published (by rw [hpc]; exact nofun)
      exact hs.keep rfl rfl rfl hs.detectionsNb_le (fun _ => hpublished) nofun
  | clearNb =>
      obtain ⟨hpc, rfl⟩ := accepted h
      have hpublished := hs.published (by rw [hpc]; exact nofun)
      -- from -1 to 0: both counts stand for no detection
      rw [(hx.starting (by rw [hpc]; rfl)).2] at hpublished
      exact hs.keep rfl rfl rfl (by simp) (fun _ => hpublished) nofun
  | post r =>
      obtain ⟨hpc, rfl⟩ := accepted h
      refine ⟨r.fits, hs.detectionsNb_le, ?_, fun _ => ?_, nofun⟩
      · rw [history_concat]
        exact (entries_overwrite _ _).symm
      · rw [lastPublished, history_concat]
        exact hs.published (by rw [hpc]; exact nofun)
  | lock =>
      obtain ⟨-, rfl⟩ := accepted h
      exact hs.keep rfl rfl rfl hs.detectionsNb_le (fun hout => absurd rfl hout) nofun
  | setNb =>
      obtain ⟨-, rfl⟩ := accepted h
      refine hs.keep rfl rfl rfl (Int.ofNat_le.mpr hs.nbDetect_le) (fun hout => absurd rfl hout) ?_
      intro i hi
      obtain rfl := ModelPc.copying.inj hi
      exact ⟨rfl, Nat.zero_le _, nofun⟩
  | copy i =>
      obtain ⟨⟨hpc, hi⟩, rfl⟩ := accepted h
      obtain ⟨hsame, -, hcopied⟩ := hs.copying i hpc
      refine hs.keep rfl rfl rfl hs.detectionsNb_le (fun hout => absurd rfl hout) ?_
      intro k hk
      obtain rfl := ModelPc.copying.inj hk
      exact ⟨hsame, hi, update_agrees hcopied⟩
  | unlock =>
      obtain ⟨i, hpc, hend, rfl⟩ := modelStep_unlock h
      obtain ⟨hsame, hle, hcopied⟩ := hs.copying i hpc
      refine ⟨hs.nbDetect_le, hs.detectionsNb_le, ?_, fun _ => ?_, nofun⟩
      · rw [history_concat]
        exact hs.processed
      · rw [lastPublished, history_concat]
        show (history past).processed = _
        rw [hs.processed, hsame, Int.toNat_natCast]
        exact entries_congr fun j hj => (hcopied j (by omega)).symm

theorem callStep_buffered [DecidableEq C] {past : List (Event C)} {s t : System C} {c : C}
    {e : CallEvent} (hs : Buffered past s) (h : callStep toBox s c e = some t) :
    Buffered (past ++ [.call c e]) t := by
  obtain ⟨hnb, hdetections, hbuffer, hcount, hpc, -⟩ := callStep_frame h
  apply hs.keep rfl hbuffer hcount
  · rw [hnb]
    exact hs.detectionsNb_le
  · rw [hpc, hnb, hdetections]
    exact hs.published
  · rw [hpc, hnb, hcount, hdetections, hbuffer]
    exact hs.copying

/-! ## The calls -/

/-- What a call for `n` boxes may return: nothing, after it read a negative
`detections_nb`, or the first `n` boxes of what was published last before it took the
lock, which is one single result. -/
def Answered (toBox : Detection → Dbox) (past : List (Event C)) (c : C) (n : ℕ)
    (boxes : List Dbox) : Prop :=
  (boxes = [] ∧ ∃ v < 0, .call c (.test v) ∈ past) ∨
    ∃ before after, past = before ++ .call c .lock :: after ∧
      FromPost before (lastPublished before) ∧
      boxes.length = min n (lastPublished before).length ∧
      boxes = ((lastPublished before).take n).map toBox

/-- What a call `k` knows while it runs, next to the shared array and its count. -/
structure Knows (toBox : Detection → Dbox) (past : List (Event C)) (c : C)
    (detections : ℕ → Detection) (detectionsNb : ℤ) (k : Call) : Prop where
  idle : k.pc = .idle → ∀ n, .call c (.begin n) ∉ past
  begun : k.pc ≠ .idle → ∀ n, .call c (.begin n) ∈ past ↔ n = k.boxesNb
  fresh : k.pc = .begun → k.nb = 0
  locked : k.pc.critical → ∃ before after, past = before ++ .call c .lock :: after ∧
    lastPublished before = entries detections detectionsNb.toNat
  reload : k.pc = .reload → detectionsNb ≤ k.boxesNb
  copying : ∀ i, k.pc = .copying i → k.nb = min (k.boxesNb : ℤ) detectionsNb ∧ i ≤ k.nb ∧
    ∀ j < i, k.boxes j = toBox (detections j)
  returning : k.pc = .returning →
    Answered toBox past c k.boxesNb (entries k.boxes k.nb.toNat)

def CallKnows (toBox : Detection → Dbox) (past : List (Event C)) (s : System C) (c : C) : Prop :=
  Knows toBox past c s.detections s.detectionsNb (s.call c)

theorem Answered.concat {past : List (Event C)} {c : C} {n : ℕ} {boxes : List Dbox}
    (h : Answered toBox past c n boxes) (e : Event C) : Answered toBox (past ++ [e]) c n boxes := by
  cases h with
  | inl hnone =>
      rcases hnone with ⟨hempty, v, hv, htest⟩
      exact Or.inl ⟨hempty, v, hv, List.mem_append_left _ htest⟩
  | inr hsome =>
      rcases hsome with ⟨before, after, hsplit, hanswer⟩
      exact Or.inr ⟨before, after ++ [e], by simp [hsplit], hanswer⟩

section
variable {past : List (Event C)} {c : C} {detections : ℕ → Detection} {nb : ℤ} {k : Call}

theorem Knows.locked_concat (hs : Knows toBox past c detections nb k) (hpc : k.pc.critical)
    (e : Event C) : ∃ before after, past ++ [e] = before ++ .call c .lock :: after ∧
      lastPublished before = entries detections nb.toNat := by
  obtain ⟨before, after, hsplit, hlast⟩ := hs.locked hpc
  exact ⟨before, after ++ [e], by simp [hsplit], hlast⟩

theorem begin_mem_concat {e : Event C} (hother : ∀ n, e ≠ .call c (.begin n)) (n : ℕ) :
    .call c (.begin n) ∈ past ++ [e] ↔ .call c (.begin n) ∈ past := by
  simp [(hother n).symm]

/-- A step of another party. -/
theorem Knows.frame {e : Event C} {detections' : ℕ → Detection} {nb' : ℤ}
    (hs : Knows toBox past c detections nb k) (hother : ∀ n, e ≠ .call c (.begin n))
    (hshared : k.pc.critical → detections' = detections ∧ nb' = nb) :
    Knows toBox (past ++ [e]) c detections' nb' k := by
  constructor
  · intro hpc n
    rw [begin_mem_concat hother]
    exact hs.idle hpc n
  · intro hpc n
    rw [begin_mem_concat hother]
    exact hs.begun hpc n
  · exact hs.fresh
  · intro hpc
    obtain ⟨rfl, rfl⟩ := hshared hpc
    exact hs.locked_concat hpc e
  · intro hpc
    obtain ⟨rfl, rfl⟩ := hshared (by rw [hpc]; rfl)
    exact hs.reload hpc
  · intro i hpc
    obtain ⟨rfl, rfl⟩ := hshared (by rw [hpc]; rfl)
    exact hs.copying i hpc
  · intro hpc
    exact (hs.returning hpc).concat e

/-- A call keeps its argument once it has begun. -/
theorem Knows.argument {e : CallEvent} (hs : Knows toBox past c detections nb k)
    (hpc : k.pc ≠ .idle) (hother : ∀ n, e ≠ .begin n) (n : ℕ) :
    .call c (.begin n) ∈ past ++ [.call c e] ↔ n = k.boxesNb := by
  rw [← hs.begun hpc n]
  apply begin_mem_concat
  intro m hsame
  cases hsame
  exact hother m rfl

/-- A step inside the lock. -/
theorem Knows.inside {e : CallEvent} {k' : Call} (hs : Knows toBox past c detections nb k)
    (hpc : k.pc.critical) (hpc' : k'.pc.critical) (hkeep : k'.boxesNb = k.boxesNb)
    (hother : ∀ n, e ≠ .begin n) (hreload : k'.pc = .reload → nb ≤ k'.boxesNb)
    (hcopying : ∀ i, k'.pc = .copying i → k'.nb = min (k'.boxesNb : ℤ) nb ∧ i ≤ k'.nb ∧
      ∀ j < i, k'.boxes j = toBox (detections j)) :
    Knows toBox (past ++ [.call c e]) c detections nb k' := by
  have hbusy : ∀ {pc pc' : CallPc}, pc.critical → ¬ pc'.critical → pc ≠ pc' := by
    rintro pc pc' hin hout rfl
    exact hout hin
  refine ⟨fun h => absurd h (hbusy hpc' nofun), fun _ => ?_, fun h => absurd h (hbusy hpc' nofun),
    fun _ => hs.locked_concat hpc _, hreload, hcopying, fun h => absurd h (hbusy hpc' nofun)⟩
  rw [hkeep]
  exact hs.argument (hbusy hpc nofun) hother

/-- The copy loop is over: the caller's array holds the boxes it asked for. -/
theorem Knows.copied {i : ℕ} (hs : Knows toBox past c detections nb k) (hpc : k.pc = .copying i)
    (hend : k.nb ≤ i) :
    entries k.boxes k.nb.toNat = ((entries detections nb.toNat).take k.boxesNb).map toBox := by
  obtain ⟨hnb, hle, hboxes⟩ := hs.copying i hpc
  have hcount : k.nb.toNat = min k.boxesNb nb.toNat := by omega
  rw [entries, entries, ← List.map_take, List.take_range, List.map_map, hcount]
  exact entries_congr fun j hj => hboxes j (by omega)

end

theorem modelStep_call {s t : System C} {e : ModelEvent} (h : modelStep s e = some t) :
    t.call = s.call := by
  cases e with
  | mutexInit | clearNb | lock | setNb =>
      obtain ⟨-, rfl⟩ := accepted h
      rfl
  | post r =>
      obtain ⟨-, rfl⟩ := accepted h
      rfl
  | copy i =>
      obtain ⟨-, rfl⟩ := accepted h
      rfl
  | unlock =>
      obtain ⟨i, -, -, rfl⟩ := modelStep_unlock h
      rfl

/-- While a call holds the lock, the thread does not publish. -/
theorem modelStep_shared {s t : System C} {c : C} {e : ModelEvent} (hx : Exclusive s)
    (hc : (s.call c).pc.critical) (h : modelStep s e = some t) :
    t.detections = s.detections ∧ t.detectionsNb = s.detectionsNb := by
  have hout : ¬ s.modelPc.critical := by
    rw [← hx.model, (hx.call c).mpr hc]
    exact nofun
  have hstarted : ¬ s.modelPc.starting := hx.admitted c (by simp [CallPc.admitted, hc])
  cases e with
  | mutexInit | clearNb =>
      obtain ⟨hpc, -⟩ := accepted h
      exact absurd (by rw [hpc]; rfl) hstarted
  | post r =>
      obtain ⟨-, rfl⟩ := accepted h
      exact ⟨rfl, rfl⟩
  | lock =>
      obtain ⟨-, rfl⟩ := accepted h
      exact ⟨rfl, rfl⟩
  | setNb =>
      obtain ⟨hpc, -⟩ := accepted h
      exact absurd (by rw [hpc]; rfl) hout
  | copy i =>
      obtain ⟨⟨hpc, -⟩, -⟩ := accepted h
      exact absurd (by rw [hpc]; rfl) hout
  | unlock =>
      obtain ⟨i, hpc, -, -⟩ := modelStep_unlock h
      exact absurd (by rw [hpc]; rfl) hout

theorem modelStep_knows {past : List (Event C)} {s t : System C} {c : C} {e : ModelEvent}
    (hx : Exclusive s) (hs : CallKnows toBox past s c) (h : modelStep s e = some t) :
    CallKnows toBox (past ++ [.model e]) t c := by
  unfold CallKnows
  rw [modelStep_call h]
  exact hs.frame nofun fun hc => modelStep_shared hx hc h

theorem otherStep_knows [DecidableEq C] {past : List (Event C)} {s t : System C} {c d : C}
    {e : CallEvent} (hs : CallKnows toBox past s c) (hne : c ≠ d)
    (h : callStep toBox s d e = some t) : CallKnows toBox (past ++ [.call d e]) t c := by
  have hframe := callStep_frame h
  unfold CallKnows
  rw [hframe.call c hne]
  apply hs.frame
  · intro n hsame
    cases hsame
    exact hne rfl
  · intro _
    exact ⟨hframe.detections, hframe.detectionsNb⟩

theorem callStep_knows [DecidableEq C] {past : List (Event C)} {s t : System C} {c : C}
    {e : CallEvent} (hx : Exclusive s) (hb : Buffered past s) (hs : CallKnows toBox past s c)
    (h : callStep toBox s c e = some t) : CallKnows toBox (past ++ [.call c e]) t c := by
  unfold CallKnows at hs ⊢
  cases e with
  | begin n =>
      obtain ⟨hpc, rfl⟩ := accepted h
      rw [setCall_call_self]
      refine ⟨nofun, fun _ m => ?_, fun _ => rfl, nofun, nofun, nofun, nofun⟩
      simp [hs.idle hpc m]
  | test v =>
      obtain ⟨⟨hpc, hv⟩, rfl⟩ := accepted h
      rw [setCall_call_self]
      have hargument := hs.argument (by rw [hpc]; exact nofun) (e := .test v) nofun
      by_cases hneg : v < 0
      · rw [if_pos hneg]
        refine ⟨nofun, fun _ => hargument, nofun, nofun, nofun, nofun, fun _ => ?_⟩
        have hnone : entries (s.call c).boxes (s.call c).nb.toNat = [] := by
          rw [hs.fresh hpc]
          rfl
        exact Or.inl ⟨hnone, v, hneg, by simp⟩
      · rw [if_neg hneg]
        exact ⟨nofun, fun _ => hargument, nofun, nofun, nofun, nofun, nofun⟩
  | lock =>
      obtain ⟨⟨hpc, hfree⟩, rfl⟩ := accepted h
      rw [setCall_call_self]
      have hargument := hs.argument (by rw [hpc]; exact nofun) (e := .lock) nofun
      refine ⟨nofun, fun _ => hargument, nofun, fun _ => ?_, nofun, nofun, nofun⟩
      refine ⟨past, [], rfl, hb.published ?_⟩
      rw [← hx.model, hfree]
      exact nofun
  | compare =>
      obtain ⟨hpc, rfl⟩ := accepted h
      rw [setCall_call_self]
      by_cases hless : (s.call c).boxesNb < s.detectionsNb
      · rw [if_pos hless]
        refine hs.inside (by rw [hpc]; rfl) rfl rfl nofun nofun ?_
        intro i hi
        obtain rfl := CallPc.copying.inj hi
        exact ⟨(min_eq_left hless.le).symm, Int.natCast_nonneg _, nofun⟩
      · rw [if_neg hless]
        exact hs.inside (by rw [hpc]; rfl) rfl rfl nofun (fun _ => not_lt.mp hless) nofun
  | reload =>
      obtain ⟨hpc, rfl⟩ := accepted h
      rw [setCall_call_self]
      have hstarted : 0 ≤ s.detectionsNb := hx.started (hx.admitted c (by rw [hpc]; rfl))
      refine hs.inside (by rw [hpc]; rfl) rfl rfl nofun nofun ?_
      intro i hi
      obtain rfl := CallPc.copying.inj hi
      exact ⟨(min_eq_right (hs.reload hpc)).symm, hstarted, nofun⟩
  | box i =>
      obtain ⟨⟨hpc, hi⟩, rfl⟩ := accepted h
      rw [setCall_call_self]
      obtain ⟨hnb, -, hboxes⟩ := hs.copying i hpc
      refine hs.inside (by rw [hpc]; rfl) rfl rfl nofun nofun ?_
      intro j hj
      obtain rfl := CallPc.copying.inj hj
      exact ⟨hnb, hi, update_agrees (g := fun j => toBox (s.detections j)) hboxes⟩
  | unlock =>
      obtain ⟨i, hpc, hend, rfl⟩ := callStep_unlock h
      rw [setCall_call_self]
      have hargument := hs.argument (by rw [hpc]; exact nofun) (e := .unlock) nofun
      obtain ⟨before, after, hsplit, hlast⟩ :=
        hs.locked_concat (by rw [hpc]; rfl) (.call c .unlock)
      refine ⟨nofun, fun _ => hargument, nofun, nofun, nofun, nofun, fun _ => ?_⟩
      have hboxes := hs.copied hpc hend
      rw [← hlast] at hboxes
      refine Or.inr ⟨before, after, hsplit, (history_fromPost before).2, ?_, hboxes⟩
      rw [hboxes]
      simp
  | ret boxes =>
      obtain ⟨⟨hpc, hboxes⟩, rfl⟩ := accepted h
      rw [setCall_call_self]
      have hargument := hs.argument (by rw [hpc]; exact nofun) (e := .ret boxes) nofun
      exact ⟨nofun, fun _ => hargument, nofun, nofun, nofun, nofun, nofun⟩

/-! ## Every trace -/

/-- The invariant of the system. -/
structure Safe (toBox : Detection → Dbox) (past : List (Event C)) (s : System C) : Prop where
  ready : s.modelPc ≠ .start → .model .mutexInit ∈ past
  exclusive : Exclusive s
  buffered : Buffered past s
  knows : ∀ c, CallKnows toBox past s c

theorem initial_safe (boxes : C → ℕ → Dbox) : Safe toBox [] (initial boxes) := by
  refine ⟨fun h => absurd rfl h, ?_, ?_, fun c => ?_⟩
  · exact ⟨fun _ => ⟨rfl, rfl⟩, fun h => absurd rfl h, ⟨nofun, nofun⟩, fun c => ⟨nofun, nofun⟩,
      nofun⟩
  · exact ⟨Nat.zero_le _, (by decide : (-1 : ℤ) ≤ boxesLimit), rfl, fun _ => rfl, nofun⟩
  · exact ⟨fun _ _ => List.not_mem_nil, fun h => absurd rfl h, nofun, nofun, nofun, nofun, nofun⟩

theorem modelStep_ready {past : List (Event C)} {s t : System C} {e : ModelEvent}
    (hs : s.modelPc ≠ .start → .model .mutexInit ∈ past) (h : modelStep s e = some t) :
    .model .mutexInit ∈ past ++ [.model e] := by
  cases e with
  | mutexInit => simp
  | clearNb | setNb =>
      obtain ⟨hpc, -⟩ := accepted h
      exact List.mem_append_left _ (hs (by rw [hpc]; exact nofun))
  | post r =>
      obtain ⟨hpc, -⟩ := accepted h
      exact List.mem_append_left _ (hs (by rw [hpc]; exact nofun))
  | lock =>
      obtain ⟨⟨hpc, -⟩, -⟩ := accepted h
      exact List.mem_append_left _ (hs (by rw [hpc]; exact nofun))
  | copy i =>
      obtain ⟨⟨hpc, -⟩, -⟩ := accepted h
      exact List.mem_append_left _ (hs (by rw [hpc]; exact nofun))
  | unlock =>
      obtain ⟨i, hpc, -, -⟩ := modelStep_unlock h
      exact List.mem_append_left _ (hs (by rw [hpc]; exact nofun))

theorem step_safe [DecidableEq C] {past : List (Event C)} {s t : System C} {e : Event C}
    (hs : Safe toBox past s) (h : step toBox s e = some t) : Safe toBox (past ++ [e]) t := by
  rcases hs with ⟨hready, hx, hb, hknows⟩
  cases e with
  | model e =>
      refine ⟨fun _ => modelStep_ready hready h, modelStep_exclusive hx h,
        modelStep_buffered hx hb h, fun c => modelStep_knows hx (hknows c) h⟩
  | call d e =>
      refine ⟨fun hpc => ?_, callStep_exclusive hx h, callStep_buffered hb h, fun c => ?_⟩
      · rw [(callStep_frame h).modelPc] at hpc
        exact List.mem_append_left _ (hready hpc)
      · by_cases hc : c = d
        · subst hc
          exact callStep_knows hx hb (hknows c) h
        · exact otherStep_knows (hknows c) hc h

theorem exec_safe [DecidableEq C] {boxes : C → ℕ → Dbox} {es : List (Event C)} {s : System C}
    (h : exec (step toBox) (initial boxes) es = some s) : Safe toBox es s :=
  exec_invariant (Safe toBox) (initial_safe boxes) (fun _ _ _ _ hs => step_safe hs) h

/-- Whatever event a run accepts, the state before it is safe. -/
theorem exec_safe_before [DecidableEq C] {boxes : C → ℕ → Dbox} {es past rest : List (Event C)}
    {e : Event C} {s : System C} (h : exec (step toBox) (initial boxes) es = some s)
    (hsplit : es = past ++ e :: rest) :
    ∃ u v, Safe toBox past u ∧ step toBox u e = some v := by
  rw [hsplit] at h
  obtain ⟨u, v, hu, hstep⟩ := exec_split h
  exact ⟨u, v, exec_safe hu, hstep⟩

/-- The event takes `boxes_lock`. -/
def Event.locks : Event C → Prop
  | .model .lock => True
  | .call _ .lock => True
  | _ => False

theorem locks_ready [DecidableEq C] {past : List (Event C)} {s t : System C} {e : Event C}
    (hs : Safe toBox past s) (h : step toBox s e = some t) (hlocks : e.locks) :
    .model .mutexInit ∈ past := by
  apply hs.ready
  intro hstart
  cases e with
  | model e =>
      cases e with
      | lock =>
          obtain ⟨⟨hpc, -⟩, -⟩ := accepted h
          rw [hstart] at hpc
          cases hpc
      | mutexInit | clearNb | post | setNb | copy | unlock => exact hlocks
  | call c e =>
      cases e with
      | lock =>
          obtain ⟨⟨hpc, -⟩, -⟩ := accepted h
          exact hs.exclusive.admitted c (by rw [hpc]; rfl) (by rw [hstart]; rfl)
      | begin | test | compare | reload | box | unlock | ret => exact hlocks

/-- A trace in which the lock is set up before it is taken, every call returns the boxes of
the result published last before it took the lock, and no index leaves its array. -/
structure Linearised (toBox : Detection → Dbox) (es : List (Event C)) : Prop where
  lock_ready : ∀ past e rest, es = past ++ e :: rest → e.locks → .model .mutexInit ∈ past
  returned : ∀ past c boxes rest, es = past ++ .call c (.ret boxes) :: rest →
    ∃ n, (∀ m, .call c (.begin m) ∈ past ↔ m = n) ∧ Answered toBox past c n boxes
  copy_in_range : ∀ past i rest, es = past ++ .model (.copy i) :: rest → i < boxesLimit
  box_in_range : ∀ past c i rest, es = past ++ .call c (.box i) :: rest →
    i < boxesLimit ∧ ∃ n, (∀ m, .call c (.begin m) ∈ past ↔ m = n) ∧ i < n

/-- Every interleaving of the network thread with any number of `model_get_boxes` calls. -/
theorem modelGetBoxes_linearised [DecidableEq C] (scale : Int32 → Word → Int32)
    (display : Display) (boxes : C → ℕ → Dbox) (es : List (Event C)) (s : System C)
    (h : exec (step (modelDetectionToBox scale display)) (initial boxes) es = some s) :
    Linearised (modelDetectionToBox scale display) es := by
  constructor
  · intro past e rest hsplit hlocks
    obtain ⟨u, v, hsafe, hstep⟩ := exec_safe_before h hsplit
    exact locks_ready hsafe hstep hlocks
  · intro past c boxes rest hsplit
    obtain ⟨u, v, hsafe, hstep⟩ := exec_safe_before h hsplit
    obtain ⟨⟨hpc, rfl⟩, -⟩ := accepted hstep
    have hknows := hsafe.knows c
    exact ⟨_, hknows.begun (by rw [hpc]; exact nofun), hknows.returning hpc⟩
  · intro past i rest hsplit
    obtain ⟨u, v, hsafe, hstep⟩ := exec_safe_before h hsplit
    obtain ⟨⟨-, hi⟩, -⟩ := accepted hstep
    exact hi.trans_le hsafe.buffered.nbDetect_le
  · intro past c i rest hsplit
    obtain ⟨u, v, hsafe, hstep⟩ := exec_safe_before h hsplit
    obtain ⟨⟨hpc, hi⟩, -⟩ := accepted hstep
    have hknows := hsafe.knows c
    have hlimit := hsafe.buffered.detectionsNb_le
    obtain ⟨hnb, -, -⟩ := hknows.copying i hpc
    exact ⟨by omega, _, hknows.begun (by rw [hpc]; exact nofun), by omega⟩

/-- `(int)(size * v)` for a half and a quarter. -/
def scaleFraction (size : Int32) (v : Word) : Int32 :=
  if v = 0x3F000000 then size / 2 else if v = 0x3E800000 then size / 4 else 0

def person : Detection := ⟨0x3F000000, 0x3F000000, 0x3E800000, 0x3F000000, 0x3F400000, 0⟩

/-- Call 0 comes before the thread is ready; call 1 waits for the publication. -/
def twoCalls : List (Event ℕ) :=
  [.model .mutexInit, .call 0 (.begin 10), .call 0 (.test (-1)), .model .clearNb,
    .call 0 (.ret []), .model (.post ⟨[person], by decide⟩), .call 1 (.begin 10),
    .call 1 (.test 0), .model .lock, .model .setNb, .model (.copy 0), .model .unlock,
    .call 1 .lock, .model (.post ⟨[person, person], by decide⟩), .call 1 .compare,
    .call 1 .reload, .call 1 (.box 0), .call 1 .unlock,
    .call 1 (.ret [modelDetectionToBox scaleFraction wvga person])]

theorem modelGetBoxes_linearised_twoCalls :
    ∃ s, exec (step (modelDetectionToBox scaleFraction wvga))
        (initial fun _ _ => ⟨0, 0, 0, 0⟩) twoCalls = some s ∧
      Linearised (modelDetectionToBox scaleFraction wvga) twoCalls := by
  have hrun : (exec (step (modelDetectionToBox scaleFraction wvga))
      (initial fun _ _ => ⟨0, 0, 0, 0⟩) twoCalls).isSome := by
    decide +kernel
  obtain ⟨s, hs⟩ := Option.isSome_iff_exists.mp hrun
  exact ⟨s, hs,
    modelGetBoxes_linearised scaleFraction wvga (fun _ _ => ⟨0, 0, 0, 0⟩) twoCalls s hs⟩

end N6Samples.Benchmark
