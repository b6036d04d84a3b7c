import Mathlib.Data.List.Perm.Lattice
import Mathlib.Logic.Function.Basic

/-! # Buffers between a producer and a consumer

A pool of buffers goes round: the producer fills those that wait and passes them on in order,
the consumer takes the filled ones one at a time and gives them back. Who has a buffer may write
to it. No buffer gets lost, and what the producer passed on is taken once each and in order.
-/

namespace N6Samples.Buffering

/-- The buffers by who has them, what they hold, and what they held when they changed hands. -/
structure Pipe (B V : Type*) where
  contents : B → V
  incoming : List B
  outgoing : List B
  held : Option B
  captured : List V
  taken : List V

inductive Produce (B V : Type*) where
  | fill (b : B) (v : V)
  | finish

variable {B V : Type*}

/-! ## Steps -/

def fill [DecidableEq B] (b : B) (v : V) (s : Pipe B V) : Pipe B V :=
  { s with contents := Function.update s.contents b v }

def produce [DecidableEq B] (s : Pipe B V) : Produce B V → Option (Pipe B V)
  | .fill b v => if b ∈ s.incoming then some (fill b v s) else none
  | .finish =>
      match s.incoming with
      | [] => none
      | b :: rest =>
          some { s with
            incoming := rest
            outgoing := s.outgoing ++ [b]
            captured := s.captured ++ [s.contents b] }

def take (s : Pipe B V) : Option (Pipe B V) :=
  match s.outgoing, s.held with
  | b :: rest, none =>
      some { s with outgoing := rest, held := some b, taken := s.taken ++ [s.contents b] }
  | _, _ => none

def edit [DecidableEq B] (v : V) (s : Pipe B V) : Option (Pipe B V) :=
  s.held.map fun b => fill b v s

def give (s : Pipe B V) : Option (Pipe B V) :=
  s.held.map fun b => { s with incoming := s.incoming ++ [b], held := none }

/-- The producer has the pool. -/
def Pipe.full (pool : List B) (contents : B → V) : Pipe B V where
  contents := contents
  incoming := pool
  outgoing := []
  held := none
  captured := []
  taken := []

/-! ## What every step keeps -/

/-- Each buffer is in one place, and the filled ones hold what has not been taken yet. -/
structure Sound (pool : List B) (s : Pipe B V) : Prop where
  placed : (s.incoming ++ s.outgoing ++ s.held.toList).Perm pool
  distinct : pool.Nodup
  inOrder : s.captured = s.taken ++ s.outgoing.map s.contents

variable {pool : List B} {s t : Pipe B V} {b : B} {v : V}

theorem full_sound (hpool : pool.Nodup) (contents : B → V) :
    Sound pool (Pipe.full pool contents) := by
  refine ⟨?_, hpool, rfl⟩
  simp [Pipe.full]

namespace Sound

theorem nodup (h : Sound pool s) : (s.incoming ++ s.outgoing ++ s.held.toList).Nodup :=
  h.placed.nodup_iff.mpr h.distinct

theorem mem_pool (h : Sound pool s) (hheld : s.held = some b) : b ∈ pool := by
  apply h.placed.subset
  rw [hheld]
  simp

/-- Only the consumer has the buffer that it holds. -/
theorem held_notMem (h : Sound pool s) (hheld : s.held = some b) :
    b ∉ s.incoming ∧ b ∉ s.outgoing := by
  have hnodup := h.nodup
  rw [hheld] at hnodup
  constructor
  all_goals
    intro hmem
    refine (List.nodup_append.mp hnodup).2.2 b ?_ b (by simp) rfl
    simp [hmem]

/-- A write to a buffer that nobody waits to take. -/
theorem fill [DecidableEq B] (h : Sound pool s) (hb : b ∉ s.outgoing) :
    Sound pool (fill b v s) := by
  refine ⟨h.placed, h.distinct, ?_⟩
  have hsame : s.outgoing.map (Function.update s.contents b v) = s.outgoing.map s.contents := by
    apply List.map_congr_left
    intro c hc
    exact Function.update_of_ne (ne_of_mem_of_not_mem hc hb) v s.contents
  exact h.inOrder.trans (congrArg (s.taken ++ ·) hsame.symm)

end Sound

theorem produce_spec [DecidableEq B] {e : Produce B V} (h : produce s e = some t) :
    (∃ b v, b ∈ s.incoming ∧ t = fill b v s) ∨
      ∃ b rest, s.incoming = b :: rest ∧
        t = { s with
          incoming := rest
          outgoing := s.outgoing ++ [b]
          captured := s.captured ++ [s.contents b] } := by
  cases e with
  | fill b v =>
      rw [produce, Option.ite_none_right_eq_some] at h
      exact Or.inl ⟨b, v, h.1, (Option.some.inj h.2).symm⟩
  | finish =>
      simp only [produce] at h
      split at h
      · cases h
      · rename_i b rest hincoming
        exact Or.inr ⟨b, rest, hincoming, (Option.some.inj h).symm⟩

theorem take_spec (h : take s = some t) : ∃ b rest, s.outgoing = b :: rest ∧ s.held = none ∧
    t = { s with outgoing := rest, held := some b, taken := s.taken ++ [s.contents b] } := by
  simp only [take] at h
  split at h
  · rename_i b rest houtgoing hheld
    exact ⟨b, rest, houtgoing, hheld, (Option.some.inj h).symm⟩
  · cases h

theorem edit_spec [DecidableEq B] (h : edit v s = some t) :
    ∃ b, s.held = some b ∧ t = fill b v s := by
  obtain ⟨b, hheld, ht⟩ := Option.map_eq_some_iff.mp h
  exact ⟨b, hheld, ht.symm⟩

theorem give_spec (h : give s = some t) :
    ∃ b, s.held = some b ∧ t = { s with incoming := s.incoming ++ [b], held := none } := by
  obtain ⟨b, hheld, ht⟩ := Option.map_eq_some_iff.mp h
  exact ⟨b, hheld, ht.symm⟩

/-- The producer leaves alone what the consumer has, and what it has taken. -/
theorem produce_held [DecidableEq B] {e : Produce B V} (hs : Sound pool s)
    (h : produce s e = some t) :
    t.held = s.held ∧ t.taken = s.taken ∧
      ∀ b, s.held = some b → t.contents b = s.contents b := by
  rcases produce_spec h with ⟨c, v, hc, rfl⟩ | ⟨c, rest, -, rfl⟩
  · refine ⟨rfl, rfl, fun b hheld => ?_⟩
    exact Function.update_of_ne (ne_of_mem_of_not_mem hc (hs.held_notMem hheld).1).symm _ _
  · exact ⟨rfl, rfl, fun _ _ => rfl⟩

theorem produce_sound [DecidableEq B] {e : Produce B V} (hs : Sound pool s)
    (h : produce s e = some t) : Sound pool t := by
  rcases produce_spec h with ⟨b, v, hb, rfl⟩ | ⟨b, rest, hincoming, rfl⟩
  · apply hs.fill
    intro hmem
    have hnodup := hs.nodup.sublist (List.sublist_append_left _ _)
    exact (List.nodup_append.mp hnodup).2.2 b hb b hmem rfl
  · refine ⟨List.Perm.trans ?_ hs.placed, hs.distinct, ?_⟩
    · rw [hincoming, ← List.append_assoc]
      apply List.Perm.append_right
      exact List.perm_append_singleton b (rest ++ s.outgoing)
    · rw [hs.inOrder, List.map_append, ← List.append_assoc]
      rfl

theorem take_sound (hs : Sound pool s) (h : take s = some t) : Sound pool t := by
  obtain ⟨b, rest, houtgoing, hheld, rfl⟩ := take_spec h
  refine ⟨List.Perm.trans ?_ hs.placed, hs.distinct, ?_⟩
  · rw [houtgoing, hheld, Option.toList_none, List.append_nil, List.append_assoc]
    apply List.Perm.append_left
    exact List.perm_append_singleton b rest
  · rw [hs.inOrder, houtgoing, List.map_cons, List.append_assoc]
    rfl

theorem edit_sound [DecidableEq B] (hs : Sound pool s) (h : edit v s = some t) :
    Sound pool t := by
  obtain ⟨b, hheld, rfl⟩ := edit_spec h
  exact hs.fill (hs.held_notMem hheld).2

theorem give_sound (hs : Sound pool s) (h : give s = some t) : Sound pool t := by
  obtain ⟨b, hheld, rfl⟩ := give_spec h
  refine ⟨List.Perm.trans ?_ hs.placed, hs.distinct, hs.inOrder⟩
  rw [hheld, Option.toList_none, List.append_nil, List.append_assoc, List.append_assoc]
  apply List.Perm.append_left
  exact List.perm_append_comm

end N6Samples.Buffering
