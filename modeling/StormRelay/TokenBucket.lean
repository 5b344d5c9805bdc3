/-
Token buckets.

A bucket holds tokens that refill at a constant rate up to a bound, its burst;
a call takes one token or is refused.  Calls carry their own times, in any
order.

* `Spent.take` — **every call keeps the account**, whatever its time; so in an
  interval of length `d` at most `burst + rate * d` calls pass.
-/
import StormRelay.Transition
import Mathlib.Algebra.Order.Field.Basic
import Mathlib.Tactic.Linarith

namespace TokenBucket

variable {K : Type} [Field K] [LinearOrder K]

/-- The tokens after the last call, and its time; no time when there was none. -/
structure Bucket (K : Type) where
  tokens : K
  last : Option K

def refill (rate burst now : K) (b : Bucket K) : K :=
  match b.last with
  | none => burst
  | some last => min (b.tokens + (now - last) * rate) burst

def take (rate burst now : K) (b : Bucket K) : Bool × Bucket K :=
  if refill rate burst now b < 1 then (false, ⟨refill rate burst now b, some now⟩)
  else (true, ⟨refill rate burst now b - 1, some now⟩)

/-- The call passes, and its time lies in the interval of length `d` from
`start`. -/
def passes (rate burst start d now : K) (b : Bucket K) : Bool :=
  (take rate burst now b).1 && (decide (start ≤ now) && decide (now ≤ start + d))

/-- The account of an interval after `n` calls have passed in it. -/
structure Spent (rate burst start d : K) (n : ℕ) (b : Bucket K) : Prop where
  bound : (n : K) ≤ burst + rate * d
  paid : 0 < n → ∃ last, b.last = some last ∧ b.tokens - last * rate + n ≤ burst - start * rate

variable {rate burst start d : K} {n : ℕ} {b : Bucket K}

theorem refill_le_burst (rate burst now : K) (b : Bucket K) : refill rate burst now b ≤ burst := by
  rw [refill]
  split
  · exact le_rfl
  · exact min_le_right _ _

theorem refill_le_elapsed {last : K} (h : b.last = some last) (rate burst now : K) :
    refill rate burst now b ≤ b.tokens + (now - last) * rate := by
  simp only [refill, h]
  exact min_le_left _ _

variable [IsStrictOrderedRing K]

theorem Spent.zero (hrate : 0 ≤ rate) (hburst : 0 ≤ burst) (hd : 0 ≤ d) :
    Spent rate burst start d 0 b where
  bound := by
    have hpaid : 0 ≤ rate * d := mul_nonneg hrate hd
    rw [Nat.cast_zero]
    linarith
  paid := fun h => absurd h (lt_irrefl 0)

/-- What a call does to the account: the credit, the tokens less what the rate
has paid up to the last call, never grows. -/
theorem Spent.refill (h : Spent rate burst start d n b) (hn : 0 < n) (now : K) :
    TokenBucket.refill rate burst now b - now * rate + n ≤ burst - start * rate := by
  obtain ⟨last, hlast, hpaid⟩ := h.paid hn
  have hle := refill_le_elapsed hlast rate burst now
  rw [sub_mul] at hle
  linarith

theorem Spent.pass (hrate : 0 ≤ rate) (h : Spent rate burst start d n b) {now : K}
    (hstart : start ≤ now) (hend : now ≤ start + d)
    (htoken : 1 ≤ TokenBucket.refill rate burst now b) :
    Spent rate burst start d (n + 1) ⟨TokenBucket.refill rate burst now b - 1, some now⟩ := by
  have hfull := refill_le_burst rate burst now b
  have hfrom : start * rate ≤ now * rate := mul_le_mul_of_nonneg_right hstart hrate
  have hto : now * rate ≤ (start + d) * rate := mul_le_mul_of_nonneg_right hend hrate
  rw [add_mul] at hto
  -- The account after the call: by the old one, or by the burst at the first call.
  have hpaid : TokenBucket.refill rate burst now b - 1 - now * rate + ((n + 1 : ℕ) : K)
      ≤ burst - start * rate := by
    push_cast
    rcases Nat.eq_zero_or_pos n with rfl | hn
    · rw [Nat.cast_zero]
      linarith
    · have hbefore := h.refill hn now
      linarith
  refine ⟨?_, fun _ => ⟨now, rfl, hpaid⟩⟩
  rw [mul_comm rate d]
  linarith

/-- **Every call keeps the account.** -/
theorem Spent.take (hrate : 0 ≤ rate) (h : Spent rate burst start d n b) (now : K) :
    Spent rate burst start d (n + (passes rate burst start d now b).toNat)
      (TokenBucket.take rate burst now b).2 := by
  rw [passes, TokenBucket.take]
  split
  · -- Refused: the account stands, with less credit.
    exact ⟨h.bound, fun hn => ⟨now, rfl, h.refill hn now⟩⟩
  rename_i htoken
  by_cases hin : start ≤ now ∧ now ≤ start + d
  · simp only [hin.1, hin.2, decide_true, Bool.and_self, Bool.toNat_true]
    exact h.pass hrate hin.1 hin.2 (not_lt.mp htoken)
  have hout : (decide (start ≤ now) && decide (now ≤ start + d)) = false := by
    rw [← Bool.decide_and]
    exact decide_eq_false hin
  simp only [hout, Bool.and_false, Bool.toNat_false, Nat.add_zero]
  refine ⟨h.bound, fun hn => ⟨now, rfl, ?_⟩⟩
  have hbefore := h.refill hn now
  simp only
  linarith

/-! ### From one call to another -/

/-- The account of the calls since one at the time `since`, `n` of which have passed:
the credit of the bucket and the passed calls together never exceed the credit of a
full bucket at that time. -/
def Paid (rate burst since : K) (n : ℕ) (b : Bucket K) : Prop :=
  ∃ last, b.last = some last ∧ b.tokens - last * rate + n ≤ burst - since * rate

/-- The account is opened by a call, which finds at most a full bucket. -/
theorem paid_take (rate burst now : K) (b : Bucket K) :
    Paid rate burst now (take rate burst now b).1.toNat (take rate burst now b).2 := by
  have hfull := refill_le_burst rate burst now b
  rw [take]
  split
  · refine ⟨now, rfl, ?_⟩
    simp only [Bool.toNat_false, Nat.cast_zero]
    linarith
  · refine ⟨now, rfl, ?_⟩
    simp only [Bool.toNat_true, Nat.cast_one]
    linarith

/-- **A later call keeps the account**, whatever its time. -/
theorem Paid.take {since : K} (h : Paid rate burst since n b) (now : K) :
    Paid rate burst since (n + (TokenBucket.take rate burst now b).1.toNat)
      (TokenBucket.take rate burst now b).2 := by
  obtain ⟨last, hlast, hpaid⟩ := h
  have hle := refill_le_elapsed hlast rate burst now
  rw [sub_mul] at hle
  rw [TokenBucket.take]
  split
  · refine ⟨now, rfl, ?_⟩
    simp only [Bool.toNat_false, Nat.add_zero]
    linarith
  refine ⟨now, rfl, ?_⟩
  simp only [Bool.toNat_true]
  push_cast
  linarith

theorem take_passed {now : K} (h : (take rate burst now b).1 = true) :
    0 ≤ (take rate burst now b).2.tokens ∧ (take rate burst now b).2.last = some now := by
  rw [take] at h ⊢
  split at h
  · cases h
  rename_i htoken
  rw [if_neg htoken]
  refine ⟨?_, rfl⟩
  simp only
  linarith [not_lt.mp htoken]

/-- **The bound**: at a time without debt, the account says how many calls have passed. -/
theorem Paid.bound {since now : K} (h : Paid rate burst since n b) (hlast : b.last = some now)
    (htokens : 0 ≤ b.tokens) : (n : K) ≤ burst + rate * (now - since) := by
  obtain ⟨last, hlast', hpaid⟩ := h
  obtain rfl : now = last := Option.some.inj (hlast.symm.trans hlast')
  rw [mul_sub, mul_comm rate now, mul_comm rate since]
  linarith

end TokenBucket
