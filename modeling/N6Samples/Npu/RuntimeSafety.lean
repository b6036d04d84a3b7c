import Mathlib.Data.Finset.Card
import N6Samples.Lib.Trace
import N6Samples.Npu.Inference

/-! # An inference runs its blocks in order

Whatever the interleaving of thread, hardware and interrupt handler, an inference starts each
block once, waits for every unit of it and ends it before the next one starts; no assertion
of the runtime fails, and the thread never waits for an event that cannot come.
-/

namespace N6Samples.Npu

open Trace

variable {net : Network} {eb : EpochBlock} {k : Kind} {rest : List EpochBlock} {qs : List Irq}
  {s t : System} {q : Irq}

/-! ## The invariant -/

/-- No unit is at work and no event is left over. -/
structure Quiet (s : System) : Prop where
  running : s.running = ∅
  pending : s.pending = ∅
  triggered : s.exec.triggeredEvents = ∅

/-- The log of an inference that has `rest` still to execute. -/
def Logged (net : Network) (log : List Action) (rest : List EpochBlock) : Prop :=
  ∃ ebs, Executes ebs log ∧ ebs ++ rest = program net net.items

/-- Between two blocks. -/
structure Between (net : Network) (rest : List EpochBlock) (s : System) : Prop where
  quiet : Quiet s
  standing : Standing net s.exec.currentEpochBlock s.exec.savedCurrentEpochBlock rest
  next : s.exec.nextEpochBlock = none
  started : s.exec.currentEpochBlockStarted = false
  owner : s.owner = s.exec.savedCurrentEpochBlock.isSome
  waitMask : s.currentWaitMask = 0
  logged : Logged net s.log rest

/-- The kinds that take the lock when they start. -/
def Kind.locks : Kind → Bool
  | .blob | .hw | .hybrid => true
  | .sw | .internal => false

/-- Block `eb` has been started, and the units of `qs` have completed. -/
structure Inside (net : Network) (eb : EpochBlock) (k : Kind) (qs : List Irq)
    (rest : List EpochBlock) (s : System) : Prop where
  standing : StandingAt net eb k s.exec.currentEpochBlock s.exec.savedCurrentEpochBlock rest
  next : s.exec.nextEpochBlock = eb.inserts.map net.arrays
  started : s.exec.currentEpochBlockStarted = true
  owner : s.owner = (s.exec.savedCurrentEpochBlock.isSome || k.locks)
  waitMask : k = .sw ∨ k = .hybrid → s.currentWaitMask = 0
  logged : ∃ log, s.log = log ++ .start eb :: qs.map .complete ∧ Logged net log (eb :: rest)

/-- The units of the block: those at work, those whose interrupt is pending, and those whose
event has been recorded. -/
structure Units (eb : EpochBlock) (qs : List Irq) (s : System) : Prop where
  nodup : qs.Nodup
  all : ∀ q, q ∈ eb.irqs ↔ q ∈ s.running ∨ q ∈ qs
  once : ∀ q ∈ s.running, q ∉ qs
  pending : ∀ q ∈ s.pending, q ∈ qs
  triggered : ∀ i, i ∈ s.exec.triggeredEvents ↔ eb.irqOf i ∈ qs ∧ eb.irqOf i ∉ s.pending

/-- The block has ended. -/
structure Ended (net : Network) (eb : EpochBlock) (k : Kind) (rest : List EpochBlock)
    (s : System) : Prop where
  quiet : Quiet s
  standing : StandingAt net eb k s.exec.currentEpochBlock s.exec.savedCurrentEpochBlock rest
  next : s.exec.nextEpochBlock = eb.inserts.map net.arrays
  owner : s.owner = (s.exec.savedCurrentEpochBlock.isSome || s.exec.nextEpochBlock.isSome)
  waitMask : s.currentWaitMask = 0
  logged : Logged net s.log rest

/-- What holds where the thread stands, with the blocks left after the one under execution. -/
inductive Phase (net : Network) (s : System) : List EpochBlock → Prop
  | between (rest : List EpochBlock) (hpc : s.pc = .run ∨ ∃ executed, s.pc = .select executed)
      (h : Between net rest s) : Phase net s rest
  | running (eb : EpochBlock) (k : Kind) (qs : List Irq) (rest : List EpochBlock)
      (hpc : s.pc = .run ∨ s.pc = .clear ∨ s.pc = .wfe) (h : Inside net eb k qs rest s)
      (hunits : Units eb qs s) (hmask : eb.getWaitMask ≠ ∅)
      (hclear : s.pc = .clear → eb.getWaitMask ⊆ s.exec.triggeredEvents)
      (hwfe : s.pc = .wfe → eb.getWaitMask ⊆ s.exec.triggeredEvents → 0 < s.wfeSem) :
      Phase net s rest
  | ending (waited : Bool) (eb : EpochBlock) (k : Kind) (qs : List Irq) (rest : List EpochBlock)
      (hpc : s.pc = .endBlock waited) (h : Inside net eb k qs rest s) (hquiet : Quiet s)
      (hqs : Completes eb qs) : Phase net s rest
  | ended (waited : Bool) (eb : EpochBlock) (k : Kind) (rest : List EpochBlock)
      (hpc : s.pc = .advance waited) (h : Ended net eb k rest s) : Phase net s rest
  | done (hpc : s.pc = .done) (hsaved : s.exec.savedCurrentEpochBlock = none)
      (h : Between net [] s) : Phase net s []
  | idle (hpc : s.pc = .idle) (hexec : s.exec = initNetwork net) (hlog : s.log = [])
      (h : Between net (program net net.items) s) : Phase net s (program net net.items)

/-- The invariant: every inference so far has executed the network, and the current one is
on its way. -/
structure Inv (net : Network) (rest : List EpochBlock) (s : System) : Prop where
  finished : ∀ log ∈ s.finished, Executes (program net net.items) log
  phase : Phase net s rest

/-! ## The variant -/

/-- How many events the blocks can take at most. -/
def weight : List EpochBlock → ℕ
  | [] => 0
  | eb :: rest => 9 + 5 * eb.irqs.card + weight rest

/-- The way of the thread to the end of its block, or to the start of the next one. -/
def Pc.work (started : Bool) : Pc → ℕ
  | .run => if started then 11 else 3
  | .select executed => if executed then 4 else 2
  | .wfe => 10
  | .clear => 9
  | .endBlock _ => 8
  | .advance _ => 7
  | .done => 1
  | .idle => 4
  | .failed => 0

/-- How many events the inference can take at most; every wake-up that is due makes the thread
look once more, and the return from an array takes two steps. -/
def work (rest : List EpochBlock) (s : System) : ℕ :=
  weight rest + 3 * s.wfeSem + (if s.exec.savedCurrentEpochBlock.isSome then 2 else 0) +
    5 * s.running.card + 4 * s.pending.card + s.pc.work s.exec.currentEpochBlockStarted

/-! ## The units of a block -/

namespace Units

theorem start (hquiet : Quiet s) (hrunning : t.running = s.running ∪ eb.irqs)
    (hpending : t.pending = s.pending) (htriggered : t.exec.triggeredEvents =
      s.exec.triggeredEvents) : Units eb [] t := by
  rw [hquiet.running, Finset.empty_union] at hrunning
  rw [hquiet.pending] at hpending
  rw [hquiet.triggered] at htriggered
  refine ⟨List.nodup_nil, ?_, ?_, ?_, ?_⟩ <;> simp [hrunning, hpending, htriggered]

theorem mem_irqs (h : Units eb qs s) (hq : q ∈ qs) : q ∈ eb.irqs := (h.all q).mpr (Or.inr hq)

theorem triggered_subset (h : Units eb qs s) : s.exec.triggeredEvents ⊆ eb.getWaitMask := by
  intro i hi
  exact eb.irqOf_mem.mp (h.mem_irqs ((h.triggered i).mp hi).1)

/-- Once every event of the wait mask is recorded, the block is over. -/
theorem completed (h : Units eb qs s) (hall : eb.getWaitMask ⊆ s.exec.triggeredEvents) :
    s.running = ∅ ∧ s.pending = ∅ ∧ Completes eb qs := by
  have hrecorded : ∀ q ∈ eb.irqs, q ∈ qs ∧ q ∉ s.pending := by
    intro q hq
    obtain ⟨i, hi, rfl⟩ := eb.mem_irqs.mp hq
    exact (h.triggered i).mp (hall hi)
  refine ⟨?_, ?_, h.nodup, ?_⟩
  · apply Finset.eq_empty_of_forall_notMem
    intro q hq
    exact h.once q hq (hrecorded q ((h.all q).mpr (Or.inl hq))).1
  · apply Finset.eq_empty_of_forall_notMem
    intro q hq
    exact (hrecorded q (h.mem_irqs (h.pending q hq))).2 hq
  · ext q
    rw [List.mem_toFinset]
    exact ⟨h.mem_irqs, fun hq => (hrecorded q hq).1⟩

/-- A missing event is still to come. -/
theorem awaited (h : Units eb qs s) (hmissing : ¬ eb.getWaitMask ⊆ s.exec.triggeredEvents) :
    s.running.Nonempty ∨ s.pending.Nonempty := by
  obtain ⟨i, hi, hnot⟩ := Finset.not_subset.mp hmissing
  rcases (h.all _).mp (eb.irqOf_mem.mpr hi) with hrunning | hcompleted
  · exact Or.inl ⟨_, hrunning⟩
  · rw [h.triggered, not_and_not_right] at hnot
    exact Or.inr ⟨_, hnot hcompleted⟩

/-- A unit completes. -/
theorem complete (h : Units eb qs s) (hq : q ∈ s.running) (hrunning : t.running = s.running.erase q)
    (hpending : t.pending = insert q s.pending)
    (htriggered : t.exec.triggeredEvents = s.exec.triggeredEvents) : Units eb (qs ++ [q]) t := by
  have hnew := h.once q hq
  constructor
  · rw [List.nodup_append_comm]
    exact List.nodup_cons.mpr ⟨hnew, h.nodup⟩
  · intro r
    by_cases hr : r = q
    · subst hr
      simp [h.all, hq]
    · simp [h.all, hrunning, hr]
  · intro r hr
    rw [hrunning, Finset.mem_erase] at hr
    simp [h.once r hr.2, hr.1]
  · intro r hr
    rw [hpending, Finset.mem_insert] at hr
    rcases hr with rfl | hr
    · simp
    · simp [h.pending r hr]
  · intro i
    rw [htriggered, hpending, h.triggered]
    by_cases hi : eb.irqOf i = q
    · simp [hi, hnew]
    · simp [hi]

/-- The interrupts that are pending are recorded. -/
theorem record (h : Units eb qs s) (hrunning : t.running = s.running) (hpending : t.pending = ∅)
    (htriggered : ∀ i, i ∈ t.exec.triggeredEvents ↔
      i ∈ s.exec.triggeredEvents ∨ eb.irqOf i ∈ s.pending) : Units eb qs t := by
  refine ⟨h.nodup, ?_, ?_, ?_, ?_⟩
  · rw [hrunning]
    exact h.all
  · rw [hrunning]
    exact h.once
  · simp [hpending]
  · intro i
    rw [htriggered, h.triggered, hpending]
    by_cases hi : eb.irqOf i ∈ s.pending
    · simp [hi, h.pending _ hi]
    · simp [hi]

end Units

/-! ## What starting and ending a block do -/

/-- The wait mask while a block runs. -/
def startMask (eb : EpochBlock) : Kind → BitVec 32
  | .blob => strengIntMask
  | .hw | .internal => eb.waitMask
  | .sw | .hybrid => 0

theorem startEpochBlock_eq (hnext : s.exec.nextEpochBlock = none)
    (hinserts : eb.inserts ≠ none → s.owner = true ∧ s.exec.savedCurrentEpochBlock = none) :
    startEpochBlock net eb s = some { s with
      exec := { s.exec with nextEpochBlock := eb.inserts.map net.arrays }
      log := s.log ++ [.start eb] } := by
  unfold startEpochBlock
  cases hi : eb.inserts with
  | none => simp [← hnext]
  | some i =>
      obtain ⟨howner, hsaved⟩ := hinserts (by rw [hi]; exact Option.some_ne_none i)
      simp [insertLibEpochBlockArray, assert, howner, hsaved, hnext]

theorem execStartEpochBlock_eq (hkind : HasKind eb k) (hnext : s.exec.nextEpochBlock = none)
    (htriggered : s.exec.triggeredEvents = ∅)
    (howner : s.owner = s.exec.savedCurrentEpochBlock.isSome) (hmask : s.currentWaitMask = 0)
    (hsaved : s.exec.savedCurrentEpochBlock.isSome = decide (k = .internal))
    (hinserts : eb.inserts ≠ none → k = .hybrid) :
    execStartEpochBlock net eb s = some { s with
      exec := { s.exec with nextEpochBlock := eb.inserts.map net.arrays }
      owner := s.exec.savedCurrentEpochBlock.isSome || k.locks
      currentWaitMask := startMask eb k
      log := s.log ++ [.start eb]
      running := s.running ∪ eb.irqs } := by
  have hunit := hkind.unit
  rw [hsaved] at howner
  unfold execStartEpochBlock
  rw [hkind.blob, hkind.pureHW, hkind.hybrid, hkind.internal, hsaved]
  cases k <;> simp_all [assert, setAtonOwner, setWaitMask, startEpochBlock_eq, Kind.locks,
    startMask]

theorem execEndEpochBlock_eq (h : Inside net eb k qs rest s) :
    execEndEpochBlock eb s = some { s with
      owner := s.exec.savedCurrentEpochBlock.isSome || s.exec.nextEpochBlock.isSome
      currentWaitMask := 0
      log := s.log ++ [.finish eb] } := by
  have hkind := h.standing.kind
  have hunit := hkind.unit
  have hmask := h.waitMask
  have howner := h.owner
  have hsaved := h.standing.saved_isSome
  have hhybrid : s.exec.nextEpochBlock ≠ none → k = .hybrid := by
    rw [h.next, Option.map_eq_none_iff.ne]
    exact h.standing.inserts_hybrid
  unfold execEndEpochBlock
  rw [hkind.blob, hkind.pureHW, hkind.hybrid, hkind.internal]
  cases hs : s.exec.savedCurrentEpochBlock <;> cases hn : s.exec.nextEpochBlock <;> cases k <;>
    simp_all [assert, clearAtonOwner, setWaitMask, Kind.locks]

/-! ## The steps of the thread -/

/-- The thread gets past its assertions, and on with its work. -/
def Advances (net : Network) (rest : List EpochBlock) (s : System) : Prop :=
  ∃ t, threadStep net s = some t ∧ t.finished = s.finished ∧
    ∃ later, Phase net t later ∧ work later t < work rest s

theorem Inside.block_eq (h : Inside net eb k qs rest s) : s.exec.block = some eb := by
  obtain ⟨l, hl⟩ := h.standing.current_eq
  simp [ExecState.block, hl]

theorem run_between (hpc : s.pc = .run) (h : Between net rest s) : Advances net rest s := by
  obtain ⟨eb, l, hl⟩ := h.standing.exists_block
  have hblock : s.exec.block = some eb := by simp [ExecState.block, hl]
  refine ⟨{ startInference s with pc := .select false }, ?_, rfl, rest, ?_, ?_⟩
  · simp [threadStep, hpc, runEpochBlock, hblock, h.started]
  · apply Phase.between rest (Or.inr ⟨false, rfl⟩)
    exact ⟨⟨h.quiet.running, h.quiet.pending, h.quiet.triggered⟩, h.standing, h.next, h.started,
      h.owner, h.waitMask, h.logged⟩
  · simp [work, Pc.work, startInference, hpc, h.started]

theorem run_running (hpc : s.pc = .run) (h : Inside net eb k qs rest s) (hunits : Units eb qs s)
    (hmask : eb.getWaitMask ≠ ∅) : Advances net rest s := by
  refine ⟨{ startInference s with
    pc := if eb.getWaitMask ⊆ s.exec.triggeredEvents then .clear else .wfe }, ?_, rfl, rest, ?_, ?_⟩
  · simp [threadStep, hpc, runEpochBlock, h.block_eq, h.started, hmask]
  · have hinside : Inside net eb k qs rest { startInference s with
        pc := if eb.getWaitMask ⊆ s.exec.triggeredEvents then .clear else .wfe } :=
      ⟨h.standing, h.next, h.started, h.owner, h.waitMask, h.logged⟩
    have hsame : Units eb qs { startInference s with
        pc := if eb.getWaitMask ⊆ s.exec.triggeredEvents then .clear else .wfe } :=
      ⟨hunits.nodup, hunits.all, hunits.once, hunits.pending, hunits.triggered⟩
    by_cases hall : eb.getWaitMask ⊆ s.exec.triggeredEvents
    · rw [if_pos hall] at hinside hsame ⊢
      exact .running eb k qs rest (Or.inr (Or.inl rfl)) hinside hsame hmask (fun _ => hall) nofun
    · rw [if_neg hall] at hinside hsame ⊢
      exact .running eb k qs rest (Or.inr (Or.inr rfl)) hinside hsame hmask nofun
        fun _ hnow => absurd hnow hall
  · by_cases hall : eb.getWaitMask ⊆ s.exec.triggeredEvents <;>
      simp [work, Pc.work, startInference, hpc, h.started, hall]

/-- A block that waits is run by the owner of the unit. -/
theorem Inside.owner_of_mask (h : Inside net eb k qs rest s) (hmask : eb.getWaitMask ≠ ∅) :
    s.owner = true := by
  have hsoftware : ¬ (k = .sw ∨ k = .hybrid) := mt h.standing.kind.getWaitMask_eq hmask
  rw [h.owner, h.standing.saved_isSome]
  cases k <;> simp_all [Kind.locks]

theorem clear_running (hpc : s.pc = .clear) (h : Inside net eb k qs rest s)
    (hunits : Units eb qs s) (hmask : eb.getWaitMask ≠ ∅)
    (hall : eb.getWaitMask ⊆ s.exec.triggeredEvents) : Advances net rest s := by
  have howner := h.owner_of_mask hmask
  obtain ⟨hrunning, hpending, hqs⟩ := hunits.completed hall
  refine ⟨{ s with
    exec := { s.exec with triggeredEvents := s.exec.triggeredEvents \ eb.getWaitMask }
    pc := .endBlock true }, ?_, rfl, rest, ?_, ?_⟩
  · simp [threadStep, hpc, h.block_eq, assert, howner]
  · apply Phase.ending true eb k qs rest rfl _ _ hqs
    · exact ⟨h.standing, h.next, h.started, h.owner, h.waitMask, h.logged⟩
    · exact ⟨hrunning, hpending, Finset.sdiff_eq_empty_iff_subset.mpr hunits.triggered_subset⟩
  · simp [work, Pc.work, hpc]

theorem Logged.finish {log : List Action} (h : Logged net log (eb :: rest))
    (hqs : Completes eb qs) :
    Logged net (log ++ .start eb :: qs.map .complete ++ [.finish eb]) rest := by
  obtain ⟨ebs, hexec, hsplit⟩ := h
  refine ⟨ebs ++ [eb], ?_, ?_⟩
  · have hnext := hexec.snoc hqs
    rwa [← List.append_assoc] at hnext
  · rw [← hsplit, List.append_assoc]
    rfl

theorem endBlock_ending {waited : Bool} (hpc : s.pc = .endBlock waited)
    (h : Inside net eb k qs rest s) (hquiet : Quiet s) (hqs : Completes eb qs) :
    Advances net rest s := by
  obtain ⟨log, hlog, hlogged⟩ := h.logged
  refine ⟨{ s with
    owner := s.exec.savedCurrentEpochBlock.isSome || s.exec.nextEpochBlock.isSome
    currentWaitMask := 0
    log := s.log ++ [.finish eb]
    pc := .advance waited }, ?_, rfl, rest, ?_, ?_⟩
  · simp [threadStep, hpc, h.block_eq, execEndEpochBlock_eq h]
  · apply Phase.ended waited eb k rest rfl
    refine ⟨⟨hquiet.running, hquiet.pending, hquiet.triggered⟩, h.standing, h.next, rfl, rfl, ?_⟩
    rw [hlog]
    exact hlogged.finish hqs
  · simp [work, Pc.work, hpc]

theorem determineNextEpochBlock_between (h : Ended net eb k rest s) :
    ∃ t, determineNextEpochBlock s = some t ∧ t.finished = s.finished ∧ t.wfeSem = s.wfeSem ∧
      Between net rest t := by
  have htriggered := h.quiet.triggered
  cases hi : eb.inserts with
  | none =>
      have hnext : s.exec.nextEpochBlock = none := by
        rw [h.next, hi]
        rfl
      refine ⟨{ s with exec := { s.exec with
        currentEpochBlock := s.exec.currentEpochBlock.map List.tail
        currentEpochBlockStarted := false } }, ?_, rfl, rfl, ?_⟩
      · simp [determineNextEpochBlock, assert, htriggered, hnext]
      · refine ⟨⟨h.quiet.running, h.quiet.pending, htriggered⟩, h.standing.advance hi, hnext, rfl,
          ?_, h.waitMask, h.logged⟩
        rw [h.owner, hnext]
        exact Bool.or_false _
  | some i =>
      have hnext : s.exec.nextEpochBlock = some (net.arrays i) := by
        rw [h.next, hi]
        rfl
      obtain ⟨hsaved, hstanding⟩ := h.standing.enter hi
      obtain ⟨l, hl⟩ := h.standing.current_eq
      refine ⟨{ s with exec := { s.exec with
        savedCurrentEpochBlock := s.exec.currentEpochBlock
        currentEpochBlock := some (net.arrays i)
        nextEpochBlock := none
        currentEpochBlockStarted := false } }, ?_, rfl, rfl, ?_⟩
      · simp [determineNextEpochBlock, assert, htriggered, hnext, hsaved]
      · refine ⟨⟨h.quiet.running, h.quiet.pending, htriggered⟩, hstanding, rfl, rfl, ?_,
          h.waitMask, h.logged⟩
        simp [h.owner, hnext, hl]

theorem advance_ended {waited : Bool} (hpc : s.pc = .advance waited)
    (h : Ended net eb k rest s) : Advances net rest s := by
  obtain ⟨t, ht, hfinished, hsem, hb⟩ := determineNextEpochBlock_between h
  refine ⟨{ t with pc := if waited then .select true else .run }, ?_, hfinished, rest, ?_, ?_⟩
  · simp [threadStep, hpc, ht]
  · apply Phase.between rest
    · cases waited with
      | true => exact Or.inr ⟨true, rfl⟩
      | false => exact Or.inl rfl
    · exact ⟨⟨hb.quiet.running, hb.quiet.pending, hb.quiet.triggered⟩, hb.standing, hb.next,
        hb.started, hb.owner, hb.waitMask, hb.logged⟩
  · have hway : (if waited = true then Pc.select true else .run).work false ≤ 4 := by
      cases waited <;> decide
    have hreturn : (if t.exec.savedCurrentEpochBlock.isSome then 2 else 0) ≤ 2 := by
      split <;> decide
    have hfrom : s.pc.work s.exec.currentEpochBlockStarted = 7 := by
      rw [hpc]
      rfl
    simp only [work, hfrom, hb.started, hsem, hb.quiet.running, hb.quiet.pending, h.quiet.running,
      h.quiet.pending, Finset.card_empty]
    omega

/-- At the end of an array the lock is given back and the network goes on. -/
theorem select_array_end {executed : Bool} {l m : List EpochBlock}
    (hpc : s.pc = .select executed) (h : Between net rest s)
    (hcurrent : s.exec.currentEpochBlock = some (eb :: l))
    (hsaved : s.exec.savedCurrentEpochBlock = some m) (hlast : eb.isLastEpochBlock = true) :
    Advances net rest s := by
  have hstanding := h.standing
  rw [hcurrent, hsaved] at hstanding
  obtain ⟨host, later, rfl, hhost, hlater⟩ := hstanding.at_array_end hlast
  have howner : s.owner = true := by
    rw [h.owner, hsaved]
    rfl
  refine ⟨{ s with
    owner := false
    exec := { s.exec with
      currentEpochBlock := some later
      savedCurrentEpochBlock := none }
    pc := .run }, ?_, rfl, rest, ?_, ?_⟩
  · simp [threadStep, hpc, selectEpochBlock, ExecState.block, hcurrent, hsaved, hlast,
      retFromLibEpochBlockArray, clearAtonOwner, assert, howner, hhost, h.waitMask, h.next]
  · apply Phase.between rest (Or.inl rfl)
    exact ⟨⟨h.quiet.running, h.quiet.pending, h.quiet.triggered⟩, hlater, h.next, h.started, rfl,
      h.waitMask, h.logged⟩
  · have hfrom : 2 ≤ s.pc.work s.exec.currentEpochBlockStarted := by
      rw [hpc, h.started]
      cases executed <;> decide
    have hto : Pc.run.work s.exec.currentEpochBlockStarted = 3 := by
      rw [h.started]
      rfl
    simp only [work, hsaved, hto, Option.isSome_some, Option.isSome_none, if_true, if_false,
      Bool.false_eq_true]
    omega

theorem select_end {executed : Bool} {l : List EpochBlock} (hpc : s.pc = .select executed)
    (h : Between net rest s) (hcurrent : s.exec.currentEpochBlock = some (eb :: l))
    (hsaved : s.exec.savedCurrentEpochBlock = none) (hlast : eb.isLastEpochBlock = true) :
    Advances net rest s := by
  have hstanding := h.standing
  rw [hcurrent, hsaved] at hstanding
  obtain rfl := hstanding.at_end hlast
  refine ⟨{ s with pc := .done }, ?_, rfl, [], ?_, ?_⟩
  · simp [threadStep, hpc, selectEpochBlock, ExecState.block, hcurrent, hsaved, hlast]
  · exact .done rfl hsaved ⟨⟨h.quiet.running, h.quiet.pending, h.quiet.triggered⟩, h.standing,
      h.next, h.started, h.owner, h.waitMask, h.logged⟩
  · cases executed <;> simp [work, Pc.work, hpc]

/-- A block starts: its units are at work, and if it has none it ends at once. -/
theorem select_start {l : List EpochBlock} (hpc : s.pc = .select false) (h : Between net rest s)
    (hcurrent : s.exec.currentEpochBlock = some (eb :: l)) (hlast : eb.isLastEpochBlock = false) :
    Advances net rest s := by
  have hstanding := h.standing
  rw [hcurrent] at hstanding
  obtain ⟨k, later, hat, rfl⟩ := hstanding.at_block hlast
  let begun : System := { s with exec := { s.exec with currentEpochBlockStarted := true } }
  let started : System := { begun with
    exec := { begun.exec with nextEpochBlock := eb.inserts.map net.arrays }
    owner := s.exec.savedCurrentEpochBlock.isSome || k.locks
    currentWaitMask := startMask eb k
    log := s.log ++ [.start eb]
    running := s.running ∪ eb.irqs }
  let t : System := { started with
    pc := if eb.getWaitMask = ∅ then .endBlock false else .wfe }
  have hexec : execStartEpochBlock net eb begun = some started :=
    execStartEpochBlock_eq hat.kind h.next h.quiet.triggered h.owner h.waitMask hat.saved_isSome
      hat.inserts_hybrid
  have hblock : s.exec.block = some eb := by simp [ExecState.block, hcurrent]
  have hstart : threadStep net s = some t := by
    have hselect : threadStep net s = selectEpochBlock net false s := by simp only [threadStep, hpc]
    have hbind : selectEpochBlock net false s = (execStartEpochBlock net eb begun).bind fun s =>
        some { s with pc := if eb.getWaitMask = ∅ then .endBlock false else .wfe } := by
      simp [selectEpochBlock, hblock, hlast, h.started, begun]
    rw [hselect, hbind, hexec]
    rfl
  have hinside : Inside net eb k [] later t := by
    refine ⟨?_, rfl, rfl, rfl, ?_, s.log, rfl, h.logged⟩
    · change StandingAt net eb k s.exec.currentEpochBlock _ later
      rw [hcurrent]
      exact hat
    · rintro (rfl | rfl) <;> rfl
  have hunits : Units eb [] t := Units.start h.quiet rfl rfl rfl
  refine ⟨t, hstart, rfl, later, ?_, ?_⟩
  · by_cases hmask : eb.getWaitMask = ∅
    · have hover := hunits.completed (by rw [hmask]; exact Finset.empty_subset _)
      exact .ending false eb k [] later (if_pos hmask) hinside
        ⟨hover.1, hover.2.1, h.quiet.triggered⟩ hover.2.2
    · have hpc' : t.pc = .wfe := if_neg hmask
      refine .running eb k [] later (Or.inr (Or.inr hpc')) hinside hunits hmask ?_ ?_
      · rw [hpc']
        exact nofun
      · intro _ hall
        have hnone : t.exec.triggeredEvents = ∅ := h.quiet.triggered
        rw [hnone, Finset.subset_empty] at hall
        exact absurd hall hmask
  · -- the weight of the block pays for its units and for the way to its end
    have hrunning : t.running = eb.irqs := by
      change s.running ∪ eb.irqs = _
      rw [h.quiet.running, Finset.empty_union]
    have hpending : t.pending = ∅ := h.quiet.pending
    have hway : t.pc.work t.exec.currentEpochBlockStarted ≤ 10 := by
      by_cases hmask : eb.getWaitMask = ∅ <;> simp [t, hmask, Pc.work]
    have hfrom : s.pc.work s.exec.currentEpochBlockStarted = 2 := by
      rw [hpc]
      rfl
    have hsame : t.exec.savedCurrentEpochBlock = s.exec.savedCurrentEpochBlock := rfl
    have hsem : t.wfeSem = s.wfeSem := rfl
    have hweight : weight (eb :: later) = 9 + 5 * eb.irqs.card + weight later := rfl
    simp only [work, hweight, hrunning, hpending, hsame, hsem, hfrom, h.quiet.running,
      h.quiet.pending, Finset.card_empty]
    omega

theorem select_between {executed : Bool} (hpc : s.pc = .select executed)
    (h : Between net rest s) : Advances net rest s := by
  obtain ⟨eb, l, hcurrent⟩ := h.standing.exists_block
  cases hlast : eb.isLastEpochBlock with
  | true =>
      cases hsaved : s.exec.savedCurrentEpochBlock with
      | none => exact select_end hpc h hcurrent hsaved hlast
      | some m => exact select_array_end hpc h hcurrent hsaved hlast
  | false =>
      cases executed with
      | false => exact select_start hpc h hcurrent hlast
      | true =>
          refine ⟨{ s with pc := .run }, ?_, rfl, rest, ?_, ?_⟩
          · simp [threadStep, hpc, selectEpochBlock, ExecState.block, hcurrent, hlast]
          · exact .between rest (Or.inl rfl) ⟨⟨h.quiet.running, h.quiet.pending,
              h.quiet.triggered⟩, h.standing, h.next, h.started, h.owner, h.waitMask, h.logged⟩
          · simp [work, Pc.work, hpc, h.started]

theorem wfe_running (hpc : s.pc = .wfe) (h : Inside net eb k qs rest s) (hunits : Units eb qs s)
    (hmask : eb.getWaitMask ≠ ∅) (hsem : 0 < s.wfeSem) : Advances net rest s := by
  refine ⟨{ s with wfeSem := s.wfeSem - 1, pc := .run }, ?_, rfl, rest, ?_, ?_⟩
  · simp [threadStep, hpc]
  · exact .running eb k qs rest (Or.inl rfl)
      ⟨h.standing, h.next, h.started, h.owner, h.waitMask, h.logged⟩
      ⟨hunits.nodup, hunits.all, hunits.once, hunits.pending, hunits.triggered⟩ hmask nofun nofun
  · simp only [work, hpc, h.started, Pc.work, if_true]
    omega

/-- The phase of every place but the end of an inference. -/
theorem Phase.advances (h : Phase net s rest) (hdone : s.pc ≠ .done)
    (hsem : s.pc = .wfe → 0 < s.wfeSem) : Advances net rest s := by
  cases h with
  | between rest hpc h =>
      rcases hpc with hpc | ⟨executed, hpc⟩
      · exact run_between hpc h
      · exact select_between hpc h
  | running eb k qs rest hpc h hunits hmask hclear =>
      rcases hpc with hpc | hpc | hpc
      · exact run_running hpc h hunits hmask
      · exact clear_running hpc h hunits hmask (hclear hpc)
      · exact wfe_running hpc h hunits hmask (hsem hpc)
  | ending waited eb k qs rest hpc h hquiet hqs => exact endBlock_ending hpc h hquiet hqs
  | ended waited eb k rest hpc h => exact advance_ended hpc h
  | done hpc => exact absurd hpc hdone
  | idle hpc hexec hlog h =>
      refine ⟨{ s with pc := .run }, ?_, rfl, program net net.items, ?_, ?_⟩
      · simp [threadStep, hpc]
      · exact .between _ (Or.inl rfl) ⟨⟨h.quiet.running, h.quiet.pending, h.quiet.triggered⟩,
          h.standing, h.next, h.started, h.owner, h.waitMask, h.logged⟩
      · simp [work, Pc.work, hpc, h.started]

theorem initial_between (hnet : net.WellFormed) (h : Quiet s) (hexec : s.exec = initNetwork net)
    (howner : s.owner = false) (hmask : s.currentWaitMask = 0) (hlog : s.log = []) :
    Between net (program net net.items) s := by
  refine ⟨h, ?_, ?_, ?_, ?_, hmask, ?_⟩
  · rw [hexec]
    exact .main hnet
  · rw [hexec]
    rfl
  · rw [hexec]
    rfl
  · rw [hexec]
    exact howner
  · rw [hlog]
    exact ⟨[], .nil, rfl⟩

theorem Logged.all {log : List Action} (h : Logged net log []) :
    Executes (program net net.items) log := by
  obtain ⟨ebs, hexec, hsplit⟩ := h
  rw [List.append_nil] at hsplit
  rwa [← hsplit]

/-- At the end of an inference the network is as after its initialisation. -/
theorem done_reset (hnet : net.WellFormed) (hpc : s.pc = .done)
    (hsaved : s.exec.savedCurrentEpochBlock = none) (h : Between net [] s) :
    ∃ t, threadStep net s = some t ∧ t.finished = s.finished ++ [s.log] ∧
      Phase net t (program net net.items) := by
  have howner : s.owner = false := by
    rw [h.owner, hsaved]
    rfl
  refine ⟨{ s with
    exec := initNetwork net
    pc := .idle
    finished := s.finished ++ [s.log]
    log := [] }, ?_, rfl, ?_⟩
  · simp [threadStep, hpc, resetNetwork, howner]
  · exact .idle rfl rfl rfl
      (initial_between hnet ⟨h.quiet.running, h.quiet.pending, rfl⟩ rfl howner h.waitMask rfl)

/-- What an accepted event does: it ends an inference or leaves less to do. -/
def Proceeds (net : Network) (rest : List EpochBlock) (s t : System) : Prop :=
  ∃ later, Inv net later t ∧ (s.finished.length < t.finished.length ∨
    s.finished.length = t.finished.length ∧ work later t < work rest s)

theorem threadStep_proceeds (hnet : net.WellFormed) (h : Inv net rest s)
    (hsem : s.pc = .wfe → 0 < s.wfeSem) : ∃ t, threadStep net s = some t ∧
      Proceeds net rest s t := by
  obtain ⟨hfinished, hphase⟩ := h
  by_cases hdone : s.pc = .done
  · cases hphase with
    | done hpc hsaved h =>
        obtain ⟨t, ht, hlogs, hnext⟩ := done_reset hnet hpc hsaved h
        refine ⟨t, ht, _, ⟨?_, hnext⟩, Or.inl ?_⟩
        · intro log hlog
          rw [hlogs, List.mem_append, List.mem_singleton] at hlog
          rcases hlog with hold | rfl
          · exact hfinished log hold
          · exact h.logged.all
        · rw [hlogs, List.length_append]
          exact Nat.lt_succ_self _
    | between rest hpc => simp [hdone] at hpc
    | running eb k qs rest hpc => simp [hdone] at hpc
    | ending waited eb k qs rest hpc => simp [hdone] at hpc
    | ended waited eb k rest hpc => simp [hdone] at hpc
    | idle hpc => simp [hdone] at hpc
  · obtain ⟨t, ht, hlogs, later, hnext, hless⟩ := hphase.advances hdone hsem
    refine ⟨t, ht, later, ⟨?_, hnext⟩, Or.inr ⟨?_, hless⟩⟩
    · rw [hlogs]
      exact hfinished
    · rw [hlogs]

/-! ## Completions and interrupts -/

/-- Only a block that waits has units at work or interrupts pending. -/
theorem Phase.units_of_busy (h : Phase net s rest) (hbusy : s.running ≠ ∅ ∨ s.pending ≠ ∅) :
    ∃ eb k qs, (s.pc = .run ∨ s.pc = .clear ∨ s.pc = .wfe) ∧ Inside net eb k qs rest s ∧
      Units eb qs s ∧ eb.getWaitMask ≠ ∅ ∧
      (s.pc = .clear → eb.getWaitMask ⊆ s.exec.triggeredEvents) := by
  have hloud : ¬ Quiet s := fun hquiet => hbusy.elim (· hquiet.running) (· hquiet.pending)
  cases h with
  | running eb k qs rest hpc h hunits hmask hclear =>
      exact ⟨eb, k, qs, hpc, h, hunits, hmask, hclear⟩
  | between rest hpc h => exact absurd h.quiet hloud
  | ending waited eb k qs rest hpc h hquiet => exact absurd hquiet hloud
  | ended waited eb k rest hpc h => exact absurd h.quiet hloud
  | done hpc hsaved h => exact absurd h.quiet hloud
  | idle hpc hexec hlog h => exact absurd h.quiet hloud

theorem complete_proceeds (h : Inv net rest s) (hq : q ∈ s.running) :
    Proceeds net rest s { s with
      running := s.running.erase q
      pending := insert q s.pending
      log := s.log ++ [.complete q] } := by
  obtain ⟨eb, k, qs, hpc, hinside, hunits, hmask, hclear⟩ :=
    h.phase.units_of_busy (Or.inl (Finset.ne_empty_of_mem hq))
  obtain ⟨log, hlog, hlogged⟩ := hinside.logged
  refine ⟨rest, ⟨h.finished, ?_⟩, Or.inr ⟨rfl, ?_⟩⟩
  · refine .running eb k (qs ++ [q]) rest hpc ?_ (hunits.complete hq rfl rfl rfl) hmask hclear ?_
    · refine ⟨hinside.standing, hinside.next, hinside.started, hinside.owner, hinside.waitMask,
        log, ?_, hlogged⟩
      simp [hlog]
    · intro _ hall
      exact absurd hq (by rw [(hunits.completed hall).1]; exact Finset.notMem_empty q)
  · have hrunning := Finset.card_erase_add_one hq
    have hpending := Finset.card_insert_le q s.pending
    simp only [work]
    omega

theorem irqOf_of_blob (h : eb.isEpochBlob = true) (i : ℕ) : eb.irqOf i = .epochCtrl i := if_pos h

theorem irqOf_of_not_blob (h : eb.isEpochBlob = false) (i : ℕ) : eb.irqOf i = .streng i :=
  if_neg (by rw [h]; exact Bool.false_ne_true)

theorem getWaitMask_of_blob (h : eb.isEpochBlob = true) :
    eb.getWaitMask = {eb.epochControllerUnit} := if_pos h

theorem getWaitMask_of_not_blob (h : eb.isEpochBlob = false) : eb.getWaitMask = bits eb.waitMask :=
  if_neg (by rw [h]; exact Bool.false_ne_true)

/-- The handler records what is pending of the block, and nothing else is. -/
theorem atonStdIrqHandler_eq (h : Inside net eb k qs rest s) (hunits : Units eb qs s)
    (hmask : eb.getWaitMask ≠ ∅) : ∃ events, (∀ i, i ∈ events ↔
        i ∈ s.exec.triggeredEvents ∨ eb.irqOf i ∈ s.pending) ∧
      atonStdIrqHandler s = some { s with
        exec := { s.exec with triggeredEvents := events }
        pending := ∅
        wfeSem := s.wfeSem + 1 } := by
  have howner := h.owner_of_mask hmask
  have hblock := h.block_eq
  have hexpected : ∀ q ∈ s.pending, ∃ i ∈ eb.getWaitMask, eb.irqOf i = q :=
    fun q hq => eb.mem_irqs.mp (hunits.mem_irqs (hunits.pending q hq))
  cases hblob : eb.isEpochBlob with
  | true =>
      have hunit : eb.epochControllerUnit < epochCtrlNum := by
        have hkind := h.standing.kind
        rw [hkind.blob, decide_eq_true_eq] at hblob
        exact hkind.unit hblob
      have hone : ∀ q ∈ s.pending, q = .epochCtrl eb.epochControllerUnit := by
        intro q hq
        obtain ⟨i, hi, rfl⟩ := hexpected q hq
        rw [getWaitMask_of_blob hblob, Finset.mem_singleton] at hi
        rw [hi, irqOf_of_blob hblob]
      have herr : s.pending.erase (.epochCtrl eb.epochControllerUnit) = ∅ := by
        apply Finset.eq_empty_of_forall_notMem
        intro q hq
        rw [Finset.mem_erase] at hq
        exact hq.1 (hone q hq.2)
      refine ⟨(irqEpochBlob eb s.pending s).exec.triggeredEvents, ?_, ?_⟩
      · intro i
        rw [irqOf_of_blob hblob]
        unfold irqEpochBlob
        by_cases hpending : Irq.epochCtrl eb.epochControllerUnit ∈ s.pending
        · rw [if_pos hpending]
          simp only [Finset.mem_union, Finset.mem_singleton]
          refine or_congr_right ⟨?_, ?_⟩
          · rintro rfl
            exact hpending
          · intro hi
            exact Irq.epochCtrl.inj (hone _ hi)
        · rw [if_neg hpending]
          refine (or_iff_left ?_).symm
          intro hi
          rw [Irq.epochCtrl.inj (hone _ hi)] at hi
          exact hpending hi
      · have hhandler : atonStdIrqHandler s = some { irqEpochBlob eb s.pending s with
            pending := ∅
            wfeSem := (irqEpochBlob eb s.pending s).wfeSem + 1 } := by
          simp [atonStdIrqHandler, assert, howner, hblock, hblob, hunit, irqErr, herr]
        rw [hhandler]
        unfold irqEpochBlob
        split <;> rfl
  | false =>
      have hstreng : ∀ q ∈ s.pending, ∃ i ∈ bits eb.waitMask, i < strengNum ∧ Irq.streng i = q := by
        intro q hq
        obtain ⟨i, hi, rfl⟩ := hexpected q hq
        rw [getWaitMask_of_not_blob hblob] at hi
        exact ⟨i, hi, h.standing.kind.lt_strengNum hblob hi, (irqOf_of_not_blob hblob i).symm⟩
      have herr : (s.pending.filter fun q => q.isStreng = false) = ∅ := by
        apply Finset.eq_empty_of_forall_notMem
        intro q hq
        rw [Finset.mem_filter] at hq
        obtain ⟨i, -, hi, rfl⟩ := hstreng q hq.1
        exact absurd hq.2 (by simp [Irq.isStreng, hi])
      refine ⟨(irqEpochBlock eb s.pending s).exec.triggeredEvents, ?_, ?_⟩
      · intro i
        rw [irqOf_of_not_blob hblob]
        simp only [irqEpochBlock, Finset.mem_union, Finset.mem_filter, Finset.mem_range]
        refine or_congr_right ⟨fun hi => hi.2.1, fun hi => ?_⟩
        obtain ⟨j, hj, hless, heq⟩ := hstreng _ hi
        obtain rfl := Irq.streng.inj heq
        exact ⟨hless, hi, (Finset.mem_filter.mp hj).2⟩
      · simp [atonStdIrqHandler, assert, howner, hblock, hblob, irqErr, herr, irqEpochBlock]

theorem irq_proceeds (h : Inv net rest s) (hpending : s.pending ≠ ∅) :
    ∃ t, atonStdIrqHandler s = some t ∧ Proceeds net rest s t := by
  obtain ⟨eb, k, qs, hpc, hinside, hunits, hmask, hclear⟩ :=
    h.phase.units_of_busy (Or.inr hpending)
  obtain ⟨events, hevents, hhandler⟩ := atonStdIrqHandler_eq hinside hunits hmask
  refine ⟨_, hhandler, rest, ⟨h.finished, ?_⟩, Or.inr ⟨rfl, ?_⟩⟩
  · refine .running eb k qs rest hpc ?_ (hunits.record rfl rfl hevents) hmask ?_ ?_
    · exact ⟨hinside.standing, hinside.next, hinside.started, hinside.owner, hinside.waitMask,
        hinside.logged⟩
    · intro hpc' i hi
      exact (hevents i).mpr (Or.inl (hclear hpc' hi))
    · intro _ _
      exact Nat.succ_pos _
  · have hsome := Finset.card_pos.mpr (Finset.nonempty_iff_ne_empty.mpr hpending)
    simp only [work, Finset.card_empty]
    omega

/-! ## Every interleaving -/

theorem step_proceeds (hnet : net.WellFormed) {e : Event} (hs : Inv net rest s)
    (h : step net s e = some t) : Proceeds net rest s t := by
  cases e with
  | thread =>
      obtain ⟨⟨-, hsem⟩, rfl⟩ := accepted h
      obtain ⟨u, hu, hnext⟩ := threadStep_proceeds hnet hs hsem
      rw [hu]
      exact hnext
  | complete q =>
      obtain ⟨hq, rfl⟩ := accepted h
      exact complete_proceeds hs hq
  | irq =>
      obtain ⟨hpending, rfl⟩ := accepted h
      obtain ⟨u, hu, hnext⟩ := irq_proceeds hs hpending
      rw [hu]
      exact hnext

theorem exec_inv (hnet : net.WellFormed) {es : List Event}
    (h : exec (step net) (initial net) es = some s) : ∃ rest, Inv net rest s := by
  refine exec_invariant (fun _ s => ∃ rest, Inv net rest s) ?_ ?_ h
  · refine ⟨program net net.items, fun _ hlog => absurd hlog List.not_mem_nil, ?_⟩
    exact .idle rfl rfl rfl (initial_between hnet ⟨rfl, rfl, rfl⟩ rfl rfl rfl rfl)
  · rintro past u e t ⟨rest, hu⟩ hstep
    obtain ⟨later, ht, -⟩ := step_proceeds hnet hu hstep
    exact ⟨later, ht⟩

theorem Phase.pc_ne_failed (h : Phase net s rest) : s.pc ≠ .failed := by
  cases h with
  | between rest hpc => rcases hpc with hpc | ⟨executed, hpc⟩ <;> simp [hpc]
  | running eb k qs rest hpc => rcases hpc with hpc | hpc | hpc <;> simp [hpc]
  | ending waited eb k qs rest hpc => simp [hpc]
  | ended waited eb k rest hpc => simp [hpc]
  | done hpc => simp [hpc]
  | idle hpc => simp [hpc]

/-- What every state of every run keeps to. -/
structure Safe (net : Network) (s : System) : Prop where
  asserts : s.pc ≠ .failed
  finished : ∀ log ∈ s.finished, Executes (program net net.items) log
  in_order : ∃ later, Executes (program net net.items) (s.log ++ later)
  complete : s.pc = .done → Executes (program net net.items) s.log
  awake : s.pc = .wfe → s.wfeSem = 0 → s.running.Nonempty ∨ s.pending.Nonempty

theorem Logged.extend {log : List Action} (h : Logged net log rest) :
    ∃ later, Executes (program net net.items) (log ++ later) := by
  obtain ⟨ebs, hexec, hsplit⟩ := h
  rw [← hsplit]
  exact hexec.extend rest

theorem Inside.extend (h : Inside net eb k qs rest s) (hunits : Units eb qs s) :
    ∃ later, Executes (program net net.items) (s.log ++ later) := by
  obtain ⟨log, hlog, hlogged⟩ := h.logged
  -- the units at work complete, the block ends, and the rest follows
  have hqs : Completes eb (qs ++ s.running.toList) := by
    refine ⟨?_, ?_⟩
    · rw [List.nodup_append]
      refine ⟨hunits.nodup, Finset.nodup_toList _, ?_⟩
      rintro q hq _ hr rfl
      exact hunits.once q (Finset.mem_toList.mp hr) hq
    · ext q
      simp [hunits.all, or_comm]
  obtain ⟨later, hlater⟩ := (hlogged.finish hqs).extend
  refine ⟨s.running.toList.map .complete ++ [.finish eb] ++ later, ?_⟩
  rw [hlog]
  simpa using hlater

theorem Inv.safe (h : Inv net rest s) : Safe net s := by
  obtain ⟨hfinished, hphase⟩ := h
  refine ⟨hphase.pc_ne_failed, hfinished, ?_, ?_, ?_⟩
  · cases hphase with
    | between rest hpc h => exact h.logged.extend
    | running eb k qs rest hpc h hunits => exact h.extend hunits
    | ending waited eb k qs rest hpc h hquiet hqs =>
        obtain ⟨log, hlog, hlogged⟩ := h.logged
        obtain ⟨later, hlater⟩ := (hlogged.finish hqs).extend
        refine ⟨.finish eb :: later, ?_⟩
        rw [hlog]
        simpa using hlater
    | ended waited eb k rest hpc h => exact h.logged.extend
    | done hpc hsaved h => exact h.logged.extend
    | idle hpc hexec hlog h => exact h.logged.extend
  · intro hdone
    cases hphase with
    | done hpc hsaved h => exact h.logged.all
    | between rest hpc => simp [hdone] at hpc
    | running eb k qs rest hpc => simp [hdone] at hpc
    | ending waited eb k qs rest hpc => simp [hdone] at hpc
    | ended waited eb k rest hpc => simp [hdone] at hpc
    | idle hpc => simp [hdone] at hpc
  · intro hpc' hsem
    cases hphase with
    | running eb k qs rest hpc h hunits hmask hclear hwfe =>
        apply hunits.awaited
        intro hall
        exact absurd (hwfe hpc' hall) (by omega)
    | between rest hpc => simp [hpc'] at hpc
    | ending waited eb k qs rest hpc => simp [hpc'] at hpc
    | ended waited eb k rest hpc => simp [hpc'] at hpc
    | done hpc => simp [hpc'] at hpc
    | idle hpc => simp [hpc'] at hpc

/-- The network of the application: a blob, a block in software, another blob. -/
def defaultNetwork : Network where
  items := [⟨none, 0, 0x17⟩, ⟨none, 0, 0x23⟩, ⟨none, 0, 0x17⟩, ⟨none, 0, 0x08⟩]
  arrays _ := []

theorem defaultNetwork_wellFormed : defaultNetwork.WellFormed := by
  have hblob : MainBlock defaultNetwork ⟨none, 0, 0x17⟩ :=
    ⟨.blob, ⟨by decide, by decide, by decide, by decide, by decide, nofun, nofun⟩, nofun,
      absurd rfl, nofun⟩
  have hsw : MainBlock defaultNetwork ⟨none, 0, 0x23⟩ :=
    ⟨.sw, ⟨by decide, by decide, by decide, by decide, nofun, fun _ => rfl, nofun⟩, nofun,
      absurd rfl, nofun⟩
  exact ⟨hblob, hsw, hblob, rfl⟩

/-- An inference of it, with the completions and interrupts of its two blobs. -/
def oneInference : List Event :=
  List.replicate 3 .thread ++ [.complete (.epochCtrl 0), .irq] ++ List.replicate 12 .thread ++
    [.complete (.epochCtrl 0), .irq] ++ List.replicate 7 .thread

/-- In every interleaving of the thread, the hardware and the interrupt handler. -/
theorem runInference_safe (net : Network) (hnet : net.WellFormed) (es : List Event) (s : System)
    (h : exec (step net) (initial net) es = some s) : Safe net s := by
  obtain ⟨rest, hs⟩ := exec_inv hnet h
  exact hs.safe

theorem runInference_safe_oneInference :
    ∃ s, exec (step defaultNetwork) (initial defaultNetwork) oneInference = some s ∧
      Safe defaultNetwork s := by
  have haccepted :
      (exec (step defaultNetwork) (initial defaultNetwork) oneInference).isSome = true := by
    decide +kernel
  obtain ⟨s, hs⟩ := Option.isSome_iff_exists.mp haccepted
  exact ⟨s, hs, runInference_safe defaultNetwork defaultNetwork_wellFormed oneInference s hs⟩

/-- Something can always happen. -/
theorem Safe.live (h : Safe net s) : ∃ e t, step net s e = some t := by
  by_cases hwaits : s.pc = .wfe ∧ s.wfeSem = 0
  · rcases h.awake hwaits.1 hwaits.2 with ⟨q, hq⟩ | hpending
    · exact ⟨.complete q, _, if_pos hq⟩
    · exact ⟨.irq, _, if_pos (Finset.nonempty_iff_ne_empty.mp hpending)⟩
  · exact ⟨.thread, _, if_pos ⟨h.asserts, fun hpc =>
      Nat.pos_of_ne_zero fun hsem => hwaits ⟨hpc, hsem⟩⟩⟩

/-- Whatever the interleaving, the inference under way comes to its end. -/
theorem runInference_completes (net : Network) (hnet : net.WellFormed) (es : List Event)
    (s : System) (h : exec (step net) (initial net) es = some s) :
    (∃ e t, step net s e = some t) ∧
    ∃ n, ∀ fs t, exec (step net) s fs = some t → n < fs.length →
      s.finished.length < t.finished.length := by
  obtain ⟨rest, hs⟩ := exec_inv hnet h
  refine ⟨hs.safe.live, work rest s, fun fs t hrun => ?_⟩
  refine (exec_variant (fun n u => ∃ later, Inv net later u ∧ work later u = n)
    (fun u => u.finished.length) ?_ ⟨rest, hs, rfl⟩ hrun).2
  rintro _ u e v ⟨later, hu, rfl⟩ hstep
  obtain ⟨after, hv, hchange⟩ := step_proceeds hnet hu hstep
  exact ⟨_, ⟨after, hv, rfl⟩, hchange⟩

theorem runInference_completes_oneInference :
    ∃ s, exec (step defaultNetwork) (initial defaultNetwork) (oneInference.take 10) = some s ∧
      (∃ e t, step defaultNetwork s e = some t) ∧
      ∃ n, ∀ fs t, exec (step defaultNetwork) s fs = some t → n < fs.length →
        s.finished.length < t.finished.length := by
  have haccepted : (exec (step defaultNetwork) (initial defaultNetwork)
      (oneInference.take 10)).isSome = true := by decide +kernel
  obtain ⟨s, hs⟩ := Option.isSome_iff_exists.mp haccepted
  exact ⟨s, hs, runInference_completes defaultNetwork defaultNetwork_wellFormed _ s hs⟩

end N6Samples.Npu
