import Mathlib.Data.List.Basic
import N6Samples.Lib.Transaction

/-! # Sequences of calls on one peer

A session serves calls in order over a state `σ` that it keeps between them. Each
call leaves an entry with its own transactions and its result, so statements about
a session speak about the entries before the one they explain.
-/

namespace N6Samples.Transaction

variable {C : Type} {R : C → Type} {S σ Call Res : Type}

/-- One served call. -/
structure Entry (C : Type) (R : C → Type) (Call Res : Type) where
  call : Call
  log : List (Event C R)
  result : Res

/-- The entry a call leaves when it is served from `data` with the peer in `s`. -/
def entryOf (serve : Call → σ → Prog C R (Res × σ)) (peer : Peer C R S) (call : Call)
    (data : σ) (s : S) : Entry C R Call Res :=
  let o := run peer (serve call data) s
  ⟨call, o.log, o.value.1⟩

def runCalls (serve : Call → σ → Prog C R (Res × σ)) (peer : Peer C R S) :
    List Call → σ → S → List (Entry C R Call Res)
  | [], _, _ => []
  | call :: calls, data, s =>
      let o := run peer (serve call data) s
      entryOf serve peer call data s :: runCalls serve peer calls o.value.2 o.state

/-- What is kept after the last call, and where it leaves the peer. -/
def afterCalls (serve : Call → σ → Prog C R (Res × σ)) (peer : Peer C R S) :
    List Call → σ → S → σ × S
  | [], data, s => (data, s)
  | call :: calls, data, s =>
      let o := run peer (serve call data) s
      afterCalls serve peer calls o.value.2 o.state

/-- The invariant rule: what relates the state to the entries so far and survives
every call relates them before each entry of the session. -/
theorem runCalls_invariant {serve : Call → σ → Prog C R (Res × σ)} {peer : Peer C R S}
    (I : List (Entry C R Call Res) → σ → Prop)
    (hstep : ∀ past call data s, I past data →
      I (past ++ [entryOf serve peer call data s]) (run peer (serve call data) s).value.2)
    {calls : List Call} {data : σ} {s : S} {past : List (Entry C R Call Res)}
    (hinit : I past data) {before after : List (Entry C R Call Res)} {e : Entry C R Call Res}
    (hsplit : runCalls serve peer calls data s = before ++ e :: after) :
    ∃ data' s', I (past ++ before) data' ∧ e = entryOf serve peer e.call data' s' := by
  induction calls generalizing data s past before with
  | nil => simp [runCalls] at hsplit
  | cons call calls ih =>
      rw [runCalls] at hsplit
      cases before with
      | nil =>
          rcases List.cons.inj hsplit with ⟨rfl, -⟩
          exact ⟨data, s, by rwa [List.append_nil], rfl⟩
      | cons first before =>
          rcases List.cons.inj hsplit with ⟨rfl, hrest⟩
          have h := ih (hstep past call data s hinit) hrest
          rwa [List.append_assoc, List.singleton_append] at h

/-! ## The latest observation -/

/-- The last value `observe` finds in a list, or `default` when it finds none. -/
def latest {α β : Type} (observe : α → Option β) (default : β) (entries : List α) : β :=
  (entries.filterMap observe).getLast?.getD default

theorem latest_concat {α β : Type} (observe : α → Option β) (default : β) (entries : List α)
    (e : α) :
    latest observe default (entries ++ [e]) =
      (observe e).getD (latest observe default entries) := by
  cases h : observe e with
  | none => simp [latest, h]
  | some value => simp [latest, h]

end N6Samples.Transaction
