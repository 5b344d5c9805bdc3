/-
Recorded histories of a state machine.

A machine with states `S` writes down every move it makes: the state it leaves
and the state it enters, with no state to leave at the beginning.

* `Records.begun`, `Records.move` — a history begins and is continued.
-/
import Mathlib.Data.List.Chain

namespace History

variable {S : Type}

/-- **The moves are a walk** from `start` to `final` along `edge`. -/
structure Records (edge : S → S → Prop) (start final : S) (moves : List (Option S × S)) : Prop where
  first : moves.head? = some (none, start)
  chain : moves.IsChain fun a b => b.1 = some a.2
  edges : ∀ m ∈ moves.tail, ∃ a, m.1 = some a ∧ edge a m.2
  last : moves.getLast?.map Prod.snd = some final

variable {edge : S → S → Prop} {start final : S} {moves : List (Option S × S)}

theorem Records.begun : Records edge start start [(none, start)] where
  first := rfl
  chain := List.isChain_singleton _
  edges := nofun
  last := rfl

theorem Records.move (h : Records edge start final moves) {next : S} (hedge : edge final next) :
    Records edge start next (moves ++ [(some final, next)]) := by
  have hne : moves ≠ [] := by
    rintro rfl
    cases h.first
  refine ⟨?_, ?_, ?_, ?_⟩
  · rw [List.head?_append_of_ne_nil _ hne]
    exact h.first
  · -- The new move leaves where the last one arrived.
    refine List.isChain_append.mpr ⟨h.chain, List.isChain_singleton _, fun a ha b hb => ?_⟩
    have hlast := h.last
    rw [Option.mem_def.mp ha] at hlast
    obtain rfl : (some final, next) = b := by simpa using hb
    exact hlast.symm
  · intro m hm
    rw [List.tail_append_of_ne_nil hne, List.mem_append, List.mem_singleton] at hm
    rcases hm with hm | rfl
    · exact h.edges m hm
    · exact ⟨final, rfl, hedge⟩
  · rw [List.getLast?_append, List.getLast?_singleton]
    rfl

end History
