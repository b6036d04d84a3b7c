import Mathlib.Data.List.Induction
import N6Samples.Npu.Runtime

/-! # What an inference should do

The blocks of a network one after the other, each with the arrays it inserts: a block starts,
its units complete in any order, and it ends before the next one starts. The context pointers
of the runtime stand for the blocks that are left.
-/

namespace N6Samples.Npu

/-! ## Well-formed networks -/

/-- The kinds of epoch block, by their flags. -/
inductive Kind where
  | blob
  | hw
  | sw
  | hybrid
  | internal
deriving DecidableEq

structure HasKind (eb : EpochBlock) (k : Kind) : Prop where
  blob : eb.isEpochBlob = decide (k = .blob)
  pureHW : eb.isEpochPureHW = decide (k = .blob ∨ k = .hw)
  hybrid : eb.isEpochHybrid = decide (k = .hybrid)
  internal : eb.isEpochInternal = decide (k = .internal)
  unit : k = .blob → eb.epochControllerUnit < epochCtrlNum
  waitMask : k = .sw ∨ k = .hybrid → eb.waitMask = 0
  engines : k = .hw ∨ k = .internal → ∀ i ∈ bits eb.waitMask, i < strengNum

/-- An array of blocks with the flag `last_eb` on the one after the last of them. -/
def Terminated (P : EpochBlock → Prop) : List EpochBlock → Prop
  | [] => False
  | eb :: ebs =>
      if eb.isLastEpochBlock then eb.getWaitMask = ∅ else P eb ∧ Terminated P ebs

/-- A block of a library array. -/
def LibBlock (eb : EpochBlock) : Prop := HasKind eb .internal ∧ eb.inserts = none

/-- A block of the network; only a hybrid one inserts an array. -/
structure MainBlockOf (net : Network) (eb : EpochBlock) (k : Kind) : Prop where
  kind : HasKind eb k
  not_internal : k ≠ .internal
  inserts : eb.inserts ≠ none → k = .hybrid
  array : ∀ i, eb.inserts = some i → Terminated LibBlock (net.arrays i)

def MainBlock (net : Network) (eb : EpochBlock) : Prop := ∃ k, MainBlockOf net eb k

/-- Blocks of one kind each, in arrays that end, whose wait masks name existing engines only. That
no function of a block jumps or returns from its array early is part of `EpochBlock`. -/
def Network.WellFormed (net : Network) : Prop := Terminated (MainBlock net) net.items

/-! ## What an inference should do -/

/-- The blocks before the terminating one. -/
def blocks (l : List EpochBlock) : List EpochBlock := l.takeWhile fun eb => !eb.isLastEpochBlock

def inserted (net : Network) (eb : EpochBlock) : List EpochBlock :=
  match eb.inserts with
  | none => []
  | some i => blocks (net.arrays i)

/-- The blocks of a network in the order of their execution. -/
def program (net : Network) (l : List EpochBlock) : List EpochBlock :=
  (blocks l).flatMap fun eb => eb :: inserted net eb

/-- The units of a block complete once each, in any order. -/
def Completes (eb : EpochBlock) (qs : List Irq) : Prop := qs.Nodup ∧ qs.toFinset = eb.irqs

/-- The actions of one block after the other. -/
inductive Executes : List EpochBlock → List Action → Prop
  | nil : Executes [] []
  | snoc {ebs : List EpochBlock} {log : List Action} {eb : EpochBlock} {qs : List Irq}
      (h : Executes ebs log) (hqs : Completes eb qs) :
      Executes (ebs ++ [eb]) (log ++ (.start eb :: qs.map .complete ++ [.finish eb]))

theorem completes_toList (eb : EpochBlock) : Completes eb eb.irqs.toList :=
  ⟨Finset.nodup_toList _, Finset.toList_toFinset _⟩

/-- Whatever has been executed can be continued. -/
theorem Executes.extend {ebs : List EpochBlock} {log : List Action} (h : Executes ebs log)
    (rest : List EpochBlock) : ∃ later, Executes (ebs ++ rest) (log ++ later) := by
  induction rest using List.reverseRecOn with
  | nil =>
      refine ⟨[], ?_⟩
      rwa [List.append_nil, List.append_nil]
  | append_singleton rest eb ih =>
      obtain ⟨later, hlater⟩ := ih
      refine ⟨later ++ (.start eb :: eb.irqs.toList.map .complete ++ [.finish eb]), ?_⟩
      rw [← List.append_assoc, ← List.append_assoc]
      exact hlater.snoc (completes_toList eb)

/-! ## Where the network stands -/

variable {net : Network} {eb : EpochBlock} {k : Kind} {rest : List EpochBlock}
  {current saved : Option (List EpochBlock)}

/-- The blocks that the two context pointers leave to execute. -/
inductive Standing (net : Network) :
    Option (List EpochBlock) → Option (List EpochBlock) → List EpochBlock → Prop
  | main {l : List EpochBlock} (h : Terminated (MainBlock net) l) :
      Standing net (some l) none (program net l)
  | lib {l m : List EpochBlock} {host : EpochBlock} (h : Terminated LibBlock l)
      (hhost : host.isEpochHybrid = true) (hm : Terminated (MainBlock net) m) :
      Standing net (some l) (some (host :: m)) (blocks l ++ program net m)

/-- The same, after the block that is under execution. -/
inductive StandingAt (net : Network) (eb : EpochBlock) : Kind →
    Option (List EpochBlock) → Option (List EpochBlock) → List EpochBlock → Prop
  | main {k : Kind} {l : List EpochBlock} (heb : MainBlockOf net eb k)
      (h : Terminated (MainBlock net) l) :
      StandingAt net eb k (some (eb :: l)) none (inserted net eb ++ program net l)
  | lib {l m : List EpochBlock} {host : EpochBlock} (heb : LibBlock eb)
      (h : Terminated LibBlock l) (hhost : host.isEpochHybrid = true)
      (hm : Terminated (MainBlock net) m) :
      StandingAt net eb .internal (some (eb :: l)) (some (host :: m))
        (blocks l ++ program net m)

theorem blocks_cons_of_not_last {l : List EpochBlock} (h : eb.isLastEpochBlock = false) :
    blocks (eb :: l) = eb :: blocks l := by
  simp [blocks, h]

theorem blocks_cons_of_last {l : List EpochBlock} (h : eb.isLastEpochBlock = true) :
    blocks (eb :: l) = [] := by
  simp [blocks, h]

theorem program_cons_of_not_last {l : List EpochBlock} (h : eb.isLastEpochBlock = false) :
    program net (eb :: l) = eb :: (inserted net eb ++ program net l) := by
  simp [program, blocks_cons_of_not_last h]

theorem program_cons_of_last {l : List EpochBlock} (h : eb.isLastEpochBlock = true) :
    program net (eb :: l) = [] := by
  simp [program, blocks_cons_of_last h]

theorem Terminated.cons_of_not_last {P : EpochBlock → Prop} {l : List EpochBlock}
    (h : Terminated P (eb :: l)) (hlast : eb.isLastEpochBlock = false) : P eb ∧ Terminated P l := by
  simpa [Terminated, hlast] using h

theorem Terminated.exists_head {P : EpochBlock → Prop} {l : List EpochBlock}
    (h : Terminated P l) : ∃ eb m, l = eb :: m := by
  cases l with
  | nil => exact h.elim
  | cons eb m => exact ⟨eb, m, rfl⟩

/-- There is a block at the current pointer. -/
theorem Standing.exists_block (h : Standing net current saved rest) :
    ∃ eb l, current = some (eb :: l) := by
  cases h with
  | main h =>
      obtain ⟨eb, l, rfl⟩ := h.exists_head
      exact ⟨eb, l, rfl⟩
  | lib h =>
      obtain ⟨eb, l, rfl⟩ := h.exists_head
      exact ⟨eb, l, rfl⟩

/-- A block that is not the last one is next to be executed. -/
theorem Standing.at_block {l : List EpochBlock} (h : Standing net (some (eb :: l)) saved rest)
    (hlast : eb.isLastEpochBlock = false) :
    ∃ k later, StandingAt net eb k (some (eb :: l)) saved later ∧ rest = eb :: later := by
  cases h with
  | main h =>
      obtain ⟨⟨k, heb⟩, hl⟩ := h.cons_of_not_last hlast
      exact ⟨k, _, .main heb hl, program_cons_of_not_last hlast⟩
  | lib h hhost hm =>
      obtain ⟨heb, hl⟩ := h.cons_of_not_last hlast
      refine ⟨.internal, _, .lib heb hl hhost hm, ?_⟩
      rw [blocks_cons_of_not_last hlast, List.cons_append]

/-- At the end of the network nothing is left. -/
theorem Standing.at_end {l : List EpochBlock} (h : Standing net (some (eb :: l)) none rest)
    (hlast : eb.isLastEpochBlock = true) : rest = [] := by
  cases h with
  | main h => exact program_cons_of_last hlast

/-- At the end of an array, the network goes on after the block that inserted it. -/
theorem Standing.at_array_end {l m : List EpochBlock}
    (h : Standing net (some (eb :: l)) (some m) rest) (hlast : eb.isLastEpochBlock = true) :
    ∃ host later, m = host :: later ∧ host.isEpochHybrid = true ∧
      Standing net (some later) none rest := by
  cases h with
  | lib h hhost hm =>
      refine ⟨_, _, rfl, hhost, ?_⟩
      rw [blocks_cons_of_last hlast]
      exact .main hm

namespace StandingAt

theorem kind (h : StandingAt net eb k current saved rest) : HasKind eb k := by
  cases h with
  | main heb => exact heb.kind
  | lib heb => exact heb.1

theorem current_eq (h : StandingAt net eb k current saved rest) :
    ∃ l, current = some (eb :: l) := by
  cases h with
  | main => exact ⟨_, rfl⟩
  | lib => exact ⟨_, rfl⟩

/-- Exactly the blocks of an array run inside a hybrid one. -/
theorem saved_isSome (h : StandingAt net eb k current saved rest) :
    saved.isSome = decide (k = .internal) := by
  cases h with
  | main heb =>
      rw [decide_eq_false heb.not_internal]
      rfl
  | lib => rfl

theorem inserts_hybrid (h : StandingAt net eb k current saved rest) (hinserts : eb.inserts ≠ none) :
    k = .hybrid := by
  cases h with
  | main heb => exact heb.inserts hinserts
  | lib heb => exact absurd heb.2 hinserts

/-- After a block that inserts nothing comes the one behind it. -/
theorem advance (h : StandingAt net eb k current saved rest) (hinserts : eb.inserts = none) :
    Standing net (current.map List.tail) saved rest := by
  cases h with
  | main heb hl =>
      simp only [inserted, hinserts, List.nil_append]
      exact .main hl
  | lib heb hl hhost hm => exact .lib hl hhost hm

/-- After a block that inserts an array comes the array. -/
theorem enter {i : ℕ} (h : StandingAt net eb k current saved rest)
    (hinserts : eb.inserts = some i) :
    saved = none ∧ Standing net (some (net.arrays i)) current rest := by
  have hhybrid : k = .hybrid := h.inserts_hybrid (by rw [hinserts]; exact Option.some_ne_none i)
  subst hhybrid
  cases h with
  | main heb hl =>
      have hinserted : inserted net eb = blocks (net.arrays i) := by
        simp only [inserted, hinserts]
      have hhost : eb.isEpochHybrid = true := heb.kind.hybrid
      rw [hinserted]
      exact ⟨rfl, .lib (heb.array i hinserts) hhost hl⟩

end StandingAt

/-! ## The completions of a block -/

theorem EpochBlock.irqOf_injective (eb : EpochBlock) : Function.Injective eb.irqOf := by
  intro i j h
  unfold irqOf at h
  split at h
  · exact Irq.epochCtrl.inj h
  · exact Irq.streng.inj h

theorem EpochBlock.irqOf_mem {i : ℕ} : eb.irqOf i ∈ eb.irqs ↔ i ∈ eb.getWaitMask :=
  eb.irqOf_injective.mem_finset_image

theorem EpochBlock.mem_irqs {q : Irq} : q ∈ eb.irqs ↔ ∃ i ∈ eb.getWaitMask, eb.irqOf i = q :=
  Finset.mem_image

/-- A block in software waits for nothing. -/
theorem HasKind.getWaitMask_eq (h : HasKind eb k) (hk : k = .sw ∨ k = .hybrid) :
    eb.getWaitMask = ∅ := by
  have hblob : eb.isEpochBlob = false := by
    rw [h.blob]
    rcases hk with rfl | rfl <;> rfl
  unfold EpochBlock.getWaitMask
  rw [hblob, h.waitMask hk]
  rfl

/-- Any other block waits for engines that exist. -/
theorem HasKind.lt_strengNum (h : HasKind eb k) (hblob : eb.isEpochBlob = false) {i : ℕ}
    (hi : i ∈ bits eb.waitMask) : i < strengNum := by
  have hnone : eb.waitMask = 0 → i < strengNum := by
    intro hzero
    rw [hzero] at hi
    simp [bits] at hi
  cases k with
  | blob =>
      rw [h.blob] at hblob
      cases hblob
  | hw => exact h.engines (Or.inl rfl) i hi
  | internal => exact h.engines (Or.inr rfl) i hi
  | sw => exact hnone (h.waitMask (Or.inl rfl))
  | hybrid => exact hnone (h.waitMask (Or.inr rfl))

end N6Samples.Npu
