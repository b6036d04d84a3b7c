import Mathlib.Logic.Basic
import Mathlib.Tactic.TypeStar

/-! # Programs that talk to a peer by transactions

A program is a tree of commands, each continued by every response the peer may
give. A peer is any state machine that answers commands, so a statement about
all peers is a statement about every behaviour of the outside, faults included.
`run` records the complete exchange, and the rules below reason about the value,
the final peer state and that log together.
-/

namespace N6Samples.Transaction

/-- Programs over the commands `C`, where the response to `c` has type `R c`. -/
inductive Prog (C : Type) (R : C → Type) (α : Type) : Type where
  | ret (value : α)
  | call (cmd : C) (next : R cmd → Prog C R α)

variable {C : Type} {R : C → Type} {α β γ S : Type}

namespace Prog

def bind : Prog C R α → (α → Prog C R β) → Prog C R β
  | .ret value, next => next value
  | .call cmd rest, next => .call cmd fun resp => (rest resp).bind next

instance : Monad (Prog C R) where
  pure := .ret
  bind := bind

/-- The program that issues one command and returns its response. -/
def request (cmd : C) : Prog C R (R cmd) := .call cmd .ret

@[simp] theorem ret_bind (value : α) (next : α → Prog C R β) :
    (Prog.ret value >>= next) = next value := rfl

@[simp] theorem call_bind (cmd : C) (rest : R cmd → Prog C R α) (next : α → Prog C R β) :
    (Prog.call cmd rest >>= next) = .call cmd fun resp => rest resp >>= next := rfl

@[simp] theorem request_bind (cmd : C) (next : R cmd → Prog C R β) :
    (request cmd >>= next) = .call cmd next := rfl

theorem bind_assoc (prog : Prog C R α) (first : α → Prog C R β) (second : β → Prog C R γ) :
    (prog >>= first) >>= second = prog >>= fun value => first value >>= second := by
  induction prog with
  | ret value => rfl
  | call cmd rest ih =>
      simp only [call_bind]
      congr 1
      funext resp
      exact ih resp

end Prog

/-- One completed transaction. -/
structure Event (C : Type) (R : C → Type) where
  cmd : C
  resp : R cmd

/-- A peer answers a command and moves to its next state. -/
abbrev Peer (C : Type) (R : C → Type) (S : Type) := S → (cmd : C) → R cmd × S

/-- What a finished run leaves behind. -/
structure Outcome (C : Type) (R : C → Type) (S α : Type) where
  value : α
  state : S
  log : List (Event C R)

def run (peer : Peer C R S) : Prog C R α → S → Outcome C R S α
  | .ret value, s => ⟨value, s, []⟩
  | .call cmd next, s =>
      let reply := peer s cmd
      let rest := run peer (next reply.1) reply.2
      ⟨rest.value, rest.state, ⟨cmd, reply.1⟩ :: rest.log⟩

@[simp] theorem run_ret (peer : Peer C R S) (value : α) (s : S) :
    run peer (.ret value) s = ⟨value, s, []⟩ := rfl

@[simp] theorem run_call (peer : Peer C R S) (cmd : C) (next : R cmd → Prog C R α) (s : S) :
    run peer (.call cmd next) s =
      ⟨(run peer (next (peer s cmd).1) (peer s cmd).2).value,
        (run peer (next (peer s cmd).1) (peer s cmd).2).state,
        ⟨cmd, (peer s cmd).1⟩ :: (run peer (next (peer s cmd).1) (peer s cmd).2).log⟩ := rfl

/-- A run of a sequence is the run of its parts, with their logs in order. -/
theorem run_bind (peer : Peer C R S) (prog : Prog C R α) (next : α → Prog C R β) (s : S) :
    run peer (prog >>= next) s =
      let first := run peer prog s
      let second := run peer (next first.value) first.state
      ⟨second.value, second.state, first.log ++ second.log⟩ := by
  induction prog generalizing s with
  | ret value => rfl
  | call cmd rest ih =>
      have hrest := ih (peer s cmd).1 (peer s cmd).2
      simp only [Prog.call_bind, run_call, hrest, List.cons_append]

/-! ## Triples -/

/-- From every state in `P`, the run of `prog` ends with value, state and log in `Q`. -/
def Triple (peer : Peer C R S) (P : S → Prop) (prog : Prog C R α)
    (Q : α → S → List (Event C R) → Prop) : Prop :=
  ∀ s, P s → Q (run peer prog s).value (run peer prog s).state (run peer prog s).log

namespace Triple

variable {peer : Peer C R S} {P P' : S → Prop} {prog : Prog C R α}
  {Q Q' : α → S → List (Event C R) → Prop}

theorem ret {value : α} (h : ∀ s, P s → Q value s []) : Triple peer P (.ret value) Q := h

theorem consequence (h : Triple peer P prog Q) (hpre : ∀ s, P' s → P s)
    (hpost : ∀ value s log, Q value s log → Q' value s log) : Triple peer P' prog Q' :=
  fun s hs => hpost _ _ _ (h s (hpre s hs))

/-- The sequencing rule: the second part runs under what the first established,
and its postcondition speaks about the joined log. -/
theorem bind {next : α → Prog C R β} {T : β → S → List (Event C R) → Prop}
    (first : Triple peer P prog Q)
    (second : ∀ value log, Triple peer (fun s => Q value s log) (next value)
      fun result s rest => T result s (log ++ rest)) :
    Triple peer P (prog >>= next) T := by
  intro s hs
  rw [run_bind]
  exact second _ _ _ (first s hs)

/-- One command: the peer's answer, its next state and the one-event log. -/
theorem request {cmd : C} {Q : R cmd → S → List (Event C R) → Prop}
    (h : ∀ s, P s → Q (peer s cmd).1 (peer s cmd).2 [⟨cmd, (peer s cmd).1⟩]) :
    Triple peer P (Prog.request cmd) Q := h

end Triple

/-! ## Properties of the value alone -/

/-- Every run of `prog`, against every peer, returns a value in `allowed`. -/
def Returns (allowed : α → Prop) (prog : Prog C R α) : Prop :=
  ∀ ⦃S : Type⦄ (peer : Peer C R S) (s : S), allowed (run peer prog s).value

namespace Returns

variable {allowed : α → Prop}

theorem ret {value : α} (h : allowed value) : Returns allowed (.ret value : Prog C R α) :=
  fun _ _ _ => h

theorem bind {prog : Prog C R β} {next : β → Prog C R α}
    (h : ∀ value, Returns allowed (next value)) : Returns allowed (prog >>= next) := by
  intro S peer s
  rw [run_bind]
  exact h _ peer _

end Returns

/-! ## Properties of the log alone -/

/-- Every run of `prog`, against every peer, logs only events in `allowed`. -/
def Emits (allowed : Event C R → Prop) (prog : Prog C R α) : Prop :=
  ∀ ⦃S : Type⦄ (peer : Peer C R S) (s : S), ∀ e ∈ (run peer prog s).log, allowed e

namespace Emits

variable {allowed : Event C R → Prop}

theorem ret (value : α) : Emits allowed (.ret value : Prog C R α) := by
  intro S peer s e he
  simp at he

theorem request {cmd : C} (h : ∀ resp, allowed ⟨cmd, resp⟩) :
    Emits allowed (Prog.request cmd) := by
  intro S peer s e he
  rw [Prog.request, run_call, run_ret, List.mem_singleton] at he
  subst he
  exact h _

theorem bind {prog : Prog C R α} {next : α → Prog C R β} (first : Emits allowed prog)
    (second : ∀ value, Emits allowed (next value)) : Emits allowed (prog >>= next) := by
  intro S peer s e he
  rw [run_bind] at he
  rcases List.mem_append.mp he with he | he
  · exact first peer s e he
  · exact second _ peer _ e he

end Emits

/-! ## Values that tell a bad exchange -/

/-- Every run of `prog`, against every peer, returns a value in `ok` exactly when no event of its
log is bad. -/
def Tells (bad : Event C R → Prop) (ok : α → Prop) (prog : Prog C R α) : Prop :=
  ∀ ⦃S : Type⦄ (peer : Peer C R S) (s : S),
    ok (run peer prog s).value ↔ ∀ e ∈ (run peer prog s).log, ¬ bad e

namespace Tells

variable {bad : Event C R → Prop} {ok : α → Prop} {ok' : β → Prop}

theorem ret {value : α} (h : ok value) : Tells bad ok (.ret value : Prog C R α) := by
  intro S peer s
  simp [h]

theorem request {cmd : C} {ok : R cmd → Prop} (h : ∀ resp, ok resp ↔ ¬ bad ⟨cmd, resp⟩) :
    Tells bad ok (Prog.request cmd) := by
  intro S peer s
  simp only [Prog.request, run_call, run_ret, List.forall_mem_singleton]
  exact h _

/-- What follows a bad event must not return a value in `ok`. -/
theorem bind {prog : Prog C R α} {next : α → Prog C R β} (first : Tells bad ok prog)
    (good : ∀ value, ok value → Tells bad ok' (next value))
    (failed : ∀ value, ¬ ok value → Returns (fun r => ¬ ok' r) (next value)) :
    Tells bad ok' (prog >>= next) := by
  intro S peer s
  have hfirst := first peer s
  rw [run_bind]
  simp only [List.forall_mem_append]
  by_cases hok : ok (run peer prog s).value
  · rw [good _ hok peer _]
    exact ⟨fun hrest => ⟨hfirst.mp hok, hrest⟩, fun h => h.2⟩
  · constructor
    · intro hok'
      exact absurd hok' (failed _ hok peer _)
    · intro h
      exact absurd (hfirst.mpr h.1) hok

/-- A value computed from the one that tells. -/
theorem map {prog : Prog C R α} {f : α → β} (first : Tells bad ok prog)
    (h : ∀ value, ok' (f value) ↔ ok value) :
    Tells bad ok' (prog >>= fun value => .ret (f value)) := by
  apply first.bind
  · intro value hok
    exact Tells.ret ((h value).mpr hok)
  · intro value hbad
    exact Returns.ret (mt (h value).mp hbad)

end Tells

end N6Samples.Transaction
