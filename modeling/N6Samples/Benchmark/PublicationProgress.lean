import N6Samples.Benchmark.PublicationSafety

/-! # Every call can return

A call makes a bounded number of steps, and so does whoever holds `boxes_lock` before it leaves
it. From any state of a run each call can therefore be brought to its end.
-/

namespace N6Samples.Benchmark

open Trace

variable {C : Type}

/-! ## Steps that are left -/

/-- Who makes the step. -/
def Event.party : Event C → Party C
  | .model _ => .model
  | .call c _ => .call c

/-- The steps of a call that are left, at most. -/
def Call.left (k : Call) : ℕ :=
  match k.pc with
  | .idle => boxesLimit + 7
  | .begun => boxesLimit + 6
  | .tested => boxesLimit + 5
  | .locked => boxesLimit + 4
  | .reload => boxesLimit + 3
  | .copying i => k.nb.toNat - i + 2
  | .returning => 1
  | .returned => 0

/-- The steps that the holder of `boxes_lock` makes until it leaves it, at most. -/
def System.held (s : System C) : ℕ :=
  match s.owner with
  | none => 0
  | some (.call c) => (s.call c).left
  | some .model =>
      match s.modelPc with
      | .copying i => s.nbDetect - i + 1
      | _ => s.nbDetect + 2

variable [DecidableEq C] {toBox : Detection → Dbox} {past : List (Event C)} {s t : System C} {c : C}

theorem callStep_left {e : CallEvent} (hs : Safe toBox past s)
    (h : callStep toBox s c e = some t) : (t.call c).left < (s.call c).left := by
  have hlimit := hs.buffered.detectionsNb_le
  cases e with
  | begin n | reload =>
      obtain ⟨hpc, rfl⟩ := accepted h
      rw [setCall_call_self]
      simp only [Call.left, hpc]
      omega
  | test v =>
      obtain ⟨⟨hpc, -⟩, rfl⟩ := accepted h
      rw [setCall_call_self]
      by_cases hneg : v < 0
      · simp only [Call.left, hpc, if_pos hneg]
        omega
      · simp only [Call.left, hpc, if_neg hneg]
        omega
  | lock | ret boxes =>
      obtain ⟨⟨hpc, -⟩, rfl⟩ := accepted h
      rw [setCall_call_self]
      simp only [Call.left, hpc]
      omega
  | compare =>
      obtain ⟨hpc, rfl⟩ := accepted h
      rw [setCall_call_self]
      by_cases hless : (s.call c).boxesNb < s.detectionsNb
      · simp only [Call.left, hpc, if_pos hless]
        omega
      · simp only [Call.left, hpc, if_neg hless]
        omega
  | box i =>
      obtain ⟨⟨hpc, hi⟩, rfl⟩ := accepted h
      rw [setCall_call_self]
      simp only [Call.left, hpc]
      omega
  | unlock =>
      obtain ⟨i, hpc, -, rfl⟩ := callStep_unlock h
      rw [setCall_call_self]
      simp only [Call.left, hpc]
      omega

/-- A call that does not wait for the lock can make a step. -/
theorem exists_callStep (toBox : Detection → Dbox) (hpc : (s.call c).pc ≠ .returned)
    (hfree : (s.call c).pc = .tested → s.owner = none) :
    ∃ e t, callStep toBox s c e = some t := by
  cases hat : (s.call c).pc with
  | idle => exact ⟨.begin 0, _, if_pos hat⟩
  | begun => exact ⟨.test s.detectionsNb, _, if_pos ⟨hat, rfl⟩⟩
  | tested => exact ⟨.lock, _, if_pos ⟨hat, hfree hat⟩⟩
  | locked => exact ⟨.compare, _, if_pos hat⟩
  | reload => exact ⟨.reload, _, if_pos hat⟩
  | copying i =>
      by_cases hi : i < (s.call c).nb
      · exact ⟨.box i, _, if_pos ⟨hat, hi⟩⟩
      · refine ⟨.unlock, ({ s with owner := none }).setCall c { s.call c with pc := .returning }, ?_⟩
        simp only [callStep, hat]
        exact if_pos (not_lt.mp hi)
  | returning => exact ⟨.ret (entries (s.call c).boxes (s.call c).nb.toNat), _, if_pos ⟨hat, rfl⟩⟩
  | returned => exact absurd hat hpc

/-! ## The holder of the lock -/

theorem callStep_owner {e : CallEvent} (howner : s.owner = some (.call c))
    (h : callStep toBox s c e = some t) : t.owner = none ∨ t.owner = s.owner := by
  cases e with
  | lock =>
      obtain ⟨⟨-, hfree⟩, -⟩ := accepted h
      rw [howner] at hfree
      cases hfree
  | unlock =>
      obtain ⟨i, -, -, rfl⟩ := callStep_unlock h
      exact Or.inl rfl
  | begin | test | compare | reload | box | ret =>
      obtain ⟨-, rfl⟩ := accepted h
      exact Or.inr rfl

/-- It can make a step, after which it has left the lock or comes closer to that. -/
theorem exists_holderStep {p : Party C} (hs : Safe toBox past s) (howner : s.owner = some p) :
    ∃ e t, step toBox s e = some t ∧ (∀ d, p ≠ .call d → t.call d = s.call d) ∧
      (t.owner = none ∨ t.owner = s.owner ∧ t.held < s.held) := by
  cases p with
  | model =>
      have hcritical := hs.exclusive.model.mp howner
      cases hpc : s.modelPc with
      | start | clear | process | processed =>
          rw [hpc] at hcritical
          cases hcritical
      | locked =>
          refine ⟨.model .setNb, _, if_pos hpc, fun _ _ => rfl, Or.inr ⟨rfl, ?_⟩⟩
          simp only [System.held, howner, hpc]
          omega
      | copying i =>
          by_cases hi : i < s.nbDetect
          · refine ⟨.model (.copy i), _, if_pos ⟨hpc, hi⟩, fun _ _ => rfl, Or.inr ⟨rfl, ?_⟩⟩
            simp only [System.held, howner, hpc]
            omega
          · refine ⟨.model .unlock, { s with owner := none, modelPc := .process }, ?_,
              fun _ _ => rfl, Or.inl rfl⟩
            simp only [step, modelStep, hpc]
            exact if_pos (not_lt.mp hi)
  | call c =>
      have hcritical := (hs.exclusive.call c).mp howner
      have hreturned : (s.call c).pc ≠ .returned := by
        intro hpc
        rw [hpc] at hcritical
        cases hcritical
      have htested : (s.call c).pc ≠ .tested := by
        intro hpc
        rw [hpc] at hcritical
        cases hcritical
      obtain ⟨e, t, hstep⟩ := exists_callStep toBox hreturned fun hpc => absurd hpc htested
      refine ⟨.call c e, t, hstep, fun d hd => (callStep_frame hstep).call d ?_, ?_⟩
      · rintro rfl
        exact hd rfl
      · rcases callStep_owner howner hstep with hfree | hsame
        · exact Or.inl hfree
        · refine Or.inr ⟨hsame, ?_⟩
          simp only [System.held, hsame, howner]
          exact callStep_left hs hstep

/-- The others can leave the lock to a call without the call moving. -/
theorem exists_unlocked (hs : Safe toBox past s) (c : C) :
    ∃ fs t, exec (step toBox) s fs = some t ∧ Safe toBox (past ++ fs) t ∧ t.call c = s.call c ∧
      (t.owner = none ∨ t.owner = some (.call c)) := by
  induction hn : s.held using Nat.strong_induction_on generalizing past s with
  | _ n ih =>
      by_cases hdone : s.owner = none ∨ s.owner = some (.call c)
      · exact ⟨[], s, rfl, (List.append_nil past).symm ▸ hs, rfl, hdone⟩
      · push Not at hdone
        obtain ⟨p, howner⟩ := Option.ne_none_iff_exists'.mp hdone.1
        obtain ⟨e, t, hstep, hothers, hleft⟩ := exists_holderStep hs howner
        have hsame : t.call c = s.call c := by
          apply hothers
          rintro rfl
          exact hdone.2 howner
        have ht := step_safe hs hstep
        rcases hleft with hfree | ⟨-, hless⟩
        · exact ⟨[e], t, by simp [exec, hstep], ht, hsame, Or.inl hfree⟩
        · obtain ⟨fs, u, hrun, hu, hcall, hfree⟩ := ih t.held (hn ▸ hless) ht rfl
          refine ⟨e :: fs, u, ?_, ?_, hcall.trans hsame, hfree⟩
          · rw [exec, hstep]
            exact hrun
          · rw [List.append_cons]
            exact hu

/-! ## Every call -/

theorem exists_returned (hs : Safe toBox past s) (c : C) :
    ∃ fs t, exec (step toBox) s fs = some t ∧ (t.call c).pc = .returned := by
  induction hn : (s.call c).left using Nat.strong_induction_on generalizing past s with
  | _ n ih =>
      by_cases hpc : (s.call c).pc = .returned
      · exact ⟨[], s, rfl, hpc⟩
      · obtain ⟨fs, t, hrun, ht, hsame, hfree⟩ := exists_unlocked hs c
        have htested : (t.call c).pc = .tested → t.owner = none := by
          intro htested
          refine hfree.resolve_right fun howner => ?_
          have hcritical := (ht.exclusive.call c).mp howner
          rw [htested] at hcritical
          cases hcritical
        obtain ⟨e, u, hstep⟩ := exists_callStep toBox (by rwa [hsame]) htested
        have hless : (u.call c).left < n := by
          rw [← hn, ← hsame]
          exact callStep_left ht hstep
        obtain ⟨gs, v, hrest, hreturned⟩ := ih _ hless (step_safe ht (e := .call c e) hstep) rfl
        refine ⟨fs ++ .call c e :: gs, v, ?_, hreturned⟩
        rw [exec_append, hrun, Option.bind_some, exec]
        exact (congrArg (Option.bind · fun w => exec (step toBox) w gs) hstep).trans hrest

theorem exec_left {boxes : C → ℕ → Dbox} {es : List (Event C)}
    (h : exec (step toBox) (initial boxes) es = some s) (c : C) :
    (es.filter fun e => e.party = .call c).length + (s.call c).left ≤ boxesLimit + 7 := by
  have hboth := exec_invariant
    (fun past (s : System C) => Safe toBox past s ∧
      (past.filter fun e => e.party = .call c).length + (s.call c).left ≤ boxesLimit + 7)
    ⟨initial_safe boxes, le_rfl⟩ ?_ h
  · exact hboth.2
  · rintro past s e t ⟨hs, hle⟩ hstep
    refine ⟨step_safe hs hstep, ?_⟩
    rw [List.filter_append, List.length_append]
    by_cases hparty : e.party = .call c
    · obtain ⟨f, rfl⟩ : ∃ f, e = .call c f := by
        cases e with
        | model f => cases hparty
        | call d f =>
            obtain rfl := Party.call.inj hparty
            exact ⟨f, rfl⟩
      have hless := callStep_left hs hstep
      rw [List.filter_cons_of_pos (by simpa using hparty), List.filter_nil, List.length_singleton]
      omega
    · have hsame : t.call c = s.call c := by
        cases e with
        | model f => exact congrFun (modelStep_call hstep) c
        | call d f => exact (callStep_frame hstep).call c fun hd => hparty (hd ▸ rfl)
      rw [List.filter_cons_of_neg (by simpa using hparty), hsame]
      exact hle

/-- In every interleaving a call makes a bounded number of steps, and it can always be brought to
return. -/
theorem modelGetBoxes_returns (toBox : Detection → Dbox) (boxes : C → ℕ → Dbox)
    (es : List (Event C)) (s : System C) (h : exec (step toBox) (initial boxes) es = some s)
    (c : C) :
    (es.filter fun e => e.party = .call c).length ≤ boxesLimit + 7 ∧
      ∃ fs t, exec (step toBox) s fs = some t ∧ (t.call c).pc = .returned :=
  ⟨(Nat.le_add_right _ _).trans (exec_left h c), exists_returned (exec_safe h) c⟩

end N6Samples.Benchmark
