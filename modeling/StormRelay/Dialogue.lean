/-
Programs that call out: a dialogue between a program and what surrounds it.

A program asks, waits for the reply and goes on, and ends with a result.  The surroundings
choose the replies, so that a program has many runs.

* `Only P d` — every call of every run satisfies `P`, by recursion on the dialogue.
-/
import Mathlib.Logic.Basic
import Mathlib.Tactic.Common

inductive Dialogue (Call Reply Result : Type) where
  | done (result : Result)
  | ask (call : Call) (next : Reply → Dialogue Call Reply Result)

namespace Dialogue

variable {Call Reply Result : Type} {d : Dialogue Call Reply Result} {c : Call}
  {calls : List Call} {result : Result}

/-- One run, with its calls in order and its result. -/
inductive Runs : Dialogue Call Reply Result → List Call → Result → Prop
  | done {result : Result} : Runs (.done result) [] result
  | ask {call : Call} {next : Reply → Dialogue Call Reply Result} {calls : List Call}
    {result : Result} (reply : Reply) :
    Runs (next reply) calls result → Runs (.ask call next) (call :: calls) result

def MayCall (d : Dialogue Call Reply Result) (c : Call) : Prop :=
  ∃ calls result, Runs d calls result ∧ c ∈ calls

def Only (P : Call → Prop) : Dialogue Call Reply Result → Prop
  | .done _ => True
  | .ask call next => P call ∧ ∀ reply, Only P (next reply)

variable {P : Call → Prop}

@[simp] theorem only_done :
    Only P (.done result : Dialogue Call Reply Result) := trivial

theorem runs_done_iff {result' : Result} :
    Runs (.done result : Dialogue Call Reply Result) calls result' ↔
      calls = [] ∧ result' = result := by
  constructor
  · intro h
    cases h
    exact ⟨rfl, rfl⟩
  · rintro ⟨rfl, rfl⟩
    exact .done

theorem Runs.forall_of_only (h : Runs d calls result) (hd : Only P d) :
    ∀ c ∈ calls, P c := by
  induction h with
  | done => exact List.forall_mem_nil _
  | ask reply _ ih => exact List.forall_mem_cons.mpr ⟨hd.1, ih (hd.2 reply)⟩

theorem MayCall.of_only (h : MayCall d c) (hd : Only P d) : P c := by
  obtain ⟨calls, result, hruns, hc⟩ := h
  exact hruns.forall_of_only hd c hc

theorem MayCall.after {next : Reply → Dialogue Call Reply Result} {call : Call}
    (reply : Reply) (h : MayCall (next reply) c) : MayCall (.ask call next) c := by
  obtain ⟨calls, result, hruns, hc⟩ := h
  exact ⟨call :: calls, result, .ask reply hruns, List.mem_cons_of_mem _ hc⟩

section Inhabited

variable [Inhabited Reply]

theorem exists_runs (d : Dialogue Call Reply Result) : ∃ calls result, Runs d calls result := by
  induction d with
  | done result => exact ⟨[], result, .done⟩
  | ask call next ih =>
    obtain ⟨calls, result, h⟩ := ih default
    exact ⟨call :: calls, result, .ask default h⟩

theorem mayCall_first {next : Reply → Dialogue Call Reply Result} : MayCall (.ask c next) c := by
  obtain ⟨calls, result, h⟩ := exists_runs (next default)
  exact ⟨c :: calls, result, .ask default h, List.mem_cons_self⟩

end Inhabited

end Dialogue
