/-
Leased retries of one piece of work.

Workers claim an entry of a queue one attempt at a time, under a lease.  A worker
that holds a claim reports success or failure, or goes away without a report;
nothing checks on whether its lease is still good.  When a lease runs out while
the entry is in work, its outcome is in doubt.

* `Entry.Sound` — the invariant that ties the stage of an entry to who holds it,
  and `Entry.Sound.step`: **at most one worker holds an entry, it is claimed at
  most `cap` times, and a finished entry is left alone** (`Entry.Sound.finished`).
-/
import Mathlib.Data.Nat.Basic

namespace Retry

inductive Stage where
  | waiting
  | working
  | done
  | doubtful
deriving DecidableEq, Repr

/-- An entry: its stage, the attempts counted in it, the workers that hold a
claim on it, the claims there have been, and whether a lease has run out. -/
structure Entry where
  stage : Stage
  attempts : ℕ
  workers : ℕ
  claims : ℕ
  lapsed : Bool

def Entry.new : Entry :=
  ⟨.waiting, 0, 0, 0, false⟩

/-- What can happen to an entry that gets at most `cap` attempts.  A claim may be
lost on its way to the worker. -/
inductive Step (cap : ℕ) (e : Entry) : Entry → Prop
  | claim (lost : Bool) (h : e.stage = .waiting) :
      Step cap e ⟨.working, e.attempts + 1, e.workers + (!lost).toNat, e.claims + 1, e.lapsed⟩
  | lapse (h : e.stage = .working) :
      Step cap e ⟨.doubtful, e.attempts, e.workers, e.claims, true⟩
  | succeed (h : 0 < e.workers) :
      Step cap e ⟨.done, e.attempts, e.workers - 1, e.claims, e.lapsed⟩
  | fail (h : 0 < e.workers) :
      Step cap e ⟨if cap ≤ e.attempts then .doubtful else .waiting, e.attempts, e.workers - 1,
        e.claims, e.lapsed⟩
  | leave (h : 0 < e.workers) :
      Step cap e ⟨e.stage, e.attempts, e.workers - 1, e.claims, e.lapsed⟩

def Acts (cap : ℕ) (e e' : Entry) : Prop :=
  e' = e ∨ Step cap e e'

variable {cap : ℕ} {e e' : Entry}

/-- **Who holds an entry, by its stage.** -/
structure Entry.Sound (cap : ℕ) (e : Entry) : Prop where
  idle : e.stage = .waiting ∨ e.stage = .done → e.workers = 0
  single : e.workers ≤ 1
  counted : e.claims = e.attempts
  bounded : e.attempts ≤ cap
  more : e.stage = .waiting → e.attempts < cap

theorem Entry.Sound.new (hcap : 0 < cap) : Entry.new.Sound cap :=
  ⟨fun _ => rfl, Nat.zero_le 1, rfl, Nat.zero_le cap, fun _ => hcap⟩

theorem Entry.Sound.step (h : e.Sound cap) (hstep : Step cap e e') : e'.Sound cap := by
  have hlast : e.workers - 1 = 0 := Nat.sub_eq_zero_of_le h.single
  have hsingle : e.workers - 1 ≤ 1 := by omega
  cases hstep with
  | claim lost hwaiting =>
    have hnobody := h.idle (.inl hwaiting)
    refine ⟨fun hstage => absurd hstage (by simp), ?_, congrArg (· + 1) h.counted,
      h.more hwaiting, nofun⟩
    cases lost <;> simp [hnobody]
  | lapse hworking =>
    exact ⟨fun hstage => absurd hstage (by simp), h.single, h.counted, h.bounded, nofun⟩
  | succeed hheld =>
    exact ⟨fun _ => hlast, hsingle, h.counted, h.bounded, nofun⟩
  | fail hheld =>
    refine ⟨fun _ => hlast, hsingle, h.counted, h.bounded, fun hstage => ?_⟩
    by_contra hcap
    rw [if_pos (Nat.not_lt.mp hcap)] at hstage
    cases hstage
  | leave hheld =>
    exact ⟨fun _ => hlast, hsingle, h.counted, h.bounded, h.more⟩

theorem Entry.Sound.acts (h : e.Sound cap) (hacts : Acts cap e e') : e'.Sound cap := by
  rcases hacts with rfl | hstep
  · exact h
  · exact h.step hstep

/-- **A finished entry is left alone.** -/
theorem Entry.Sound.finished (h : e.Sound cap) (hdone : e.stage = .done) (hacts : Acts cap e e') :
    e' = e := by
  have hnobody := h.idle (.inr hdone)
  rcases hacts with rfl | hstep
  · rfl
  cases hstep with
  | claim lost hwaiting =>
    rw [hdone] at hwaiting
    cases hwaiting
  | lapse hworking =>
    rw [hdone] at hworking
    cases hworking
  | succeed hheld | fail hheld | leave hheld => omega

def Entry.Withheld (e : Entry) : Prop :=
  e.lapsed = true → e.stage = .doubtful ∨ e.stage = .done

theorem Entry.Withheld.not_waiting (h : e.Withheld) (hlapsed : e.lapsed = true) :
    e.stage ≠ .waiting := by
  intro hwaiting
  rcases h hlapsed with hstage | hstage <;>
  · rw [hwaiting] at hstage
    cases hstage

/-- **An entry in doubt stays withheld**, unless it is made to wait again. -/
theorem Entry.Withheld.acts (h : e.Withheld) (hs : e.Sound cap) (hacts : Acts cap e e')
    (hkept : e.stage = .doubtful → e'.stage ≠ .waiting) : e'.Withheld := by
  rcases hacts with rfl | hstep
  · exact h
  intro hlapsed
  cases hstep with
  | claim lost hwaiting => exact absurd hwaiting (h.not_waiting hlapsed)
  | lapse hworking => exact .inl rfl
  | succeed hheld => exact .inr rfl
  | fail hheld =>
    rcases h hlapsed with hdoubt | hdone
    · by_cases hcap : cap ≤ e.attempts
      · exact .inl (if_pos hcap)
      · exact absurd (if_neg hcap) (hkept hdoubt)
    · have hnobody := hs.idle (.inr hdone)
      omega
  | leave hheld => exact h hlapsed

theorem Entry.Withheld.claims (h : e.Withheld) (hacts : Acts cap e e') (hlapsed : e.lapsed = true) :
    e'.claims = e.claims := by
  rcases hacts with rfl | hstep
  · rfl
  · cases hstep with
    | claim lost hwaiting => exact absurd hwaiting (h.not_waiting hlapsed)
    | _ => rfl

end Retry
