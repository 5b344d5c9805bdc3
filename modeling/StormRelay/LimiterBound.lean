/-
The bound of the rate limiter (`Limiter.Allow`).

Concurrent handlers read the clock before they take the lock, so the times of the
calls on one limiter come in any order.  A bucket may then go into debt, and its
last time moves both ways.  What never grows is its credit, the tokens less what
the rate has paid up to the last time (`TokenBucket.Paid`).  Arithmetic is exact
here: tokens are rational, and the difference of two times is not cut to the 292
years of a `time.Duration`.

* `limiter_bound` — **from one call of a key to an admitted one, at most
  `burst + rate * (now_j - now_i)` calls are admitted**, whatever the other keys do.
-/
import StormRelay.Limiter

namespace StormRelay.Ingestion

open Transition

namespace Limiter

def empty (rate burst : ℚ) : Limiter :=
  { buckets := fun _ => {}, rate := rate, burst := burst }

/-- The limiter after a call. -/
def call (c : String × Time) (l : Limiter) : Limiter :=
  (l.allow c.1 c.2).2

/-- The limiter after a sequence of calls. -/
def after (rate burst : ℚ) (calls : List (String × Time)) : Limiter :=
  run call calls (empty rate burst)

def admits (key : String) (c : String × Time) (l : Limiter) : Bool :=
  c.1 = key && (l.allow c.1 c.2).1

/-- The number of admitted calls of a key. -/
def admitted (key : String) (calls : List (String × Time)) (l : Limiter) : ℕ :=
  tally call (admits key) calls l

variable {rate burst : ℚ} {key : String}

/-! ### The account of a key -/

/-- The limiter has its rate and burst, and the account of the key stands at `n`. -/
structure Account (rate burst : ℚ) (key : String) (since : Time) (n : ℕ) (l : Limiter) : Prop where
  sameRate : l.rate = rate
  sameBurst : l.burst = burst
  paid : TokenBucket.Paid rate burst (seconds since) n (l.buckets key).tokenBucket

/-- **Every call keeps the account**: a call of the key by the token bucket, a call of
another key by leaving the bucket alone. -/
theorem paid_call {since : Time} (c : String × Time) (n : ℕ) (l : Limiter)
    (h : Account rate burst key since n l) :
    Account rate burst key since (n + (admits key c l).toNat) (call c l) := by
  obtain ⟨houtcome, hbucket, hothers, hrate, hburst⟩ := allow_refines l c.1 c.2
  refine ⟨hrate.trans h.sameRate, hburst.trans h.sameBurst, ?_⟩
  by_cases hkey : c.1 = key
  · subst hkey
    have hpaid := h.paid.take (seconds c.2)
    rw [← h.sameRate, ← h.sameBurst] at hpaid ⊢
    rw [admits, decide_eq_true rfl, Bool.true_and, houtcome]
    exact hbucket ▸ hpaid
  · have hunchanged : (call c l).buckets key = l.buckets key := hothers key (Ne.symm hkey)
    rw [admits, decide_eq_false hkey, Bool.false_and, hunchanged]
    exact h.paid

theorem account_call (key : String) {l : Limiter} (hrate : l.rate = rate)
    (hburst : l.burst = burst) (now : Time) :
    Account rate burst key now (admits key (key, now) l).toNat (call (key, now) l) := by
  obtain ⟨houtcome, hbucket, _, hrate', hburst'⟩ := allow_refines l key now
  refine ⟨hrate'.trans hrate, hburst'.trans hburst, ?_⟩
  have hpaid := TokenBucket.paid_take rate burst (seconds now) (l.buckets key).tokenBucket
  rw [← hrate, ← hburst] at hpaid ⊢
  rw [admits, decide_eq_true rfl, Bool.true_and, houtcome]
  exact hbucket ▸ hpaid

theorem rate_after (rate burst : ℚ) (calls : List (String × Time)) :
    (after rate burst calls).rate = rate ∧ (after rate burst calls).burst = burst := by
  refine run_invariant (I := fun l : Limiter => l.rate = rate ∧ l.burst = burst) ?_ calls
    ⟨rfl, rfl⟩
  rintro c l ⟨hrate, hburst⟩
  obtain ⟨_, _, _, hrate', hburst'⟩ := allow_refines l c.1 c.2
  exact ⟨hrate'.trans hrate, hburst'.trans hburst⟩

theorem account_run {since : Time} {n : ℕ} {l : Limiter} (h : Account rate burst key since n l)
    (calls : List (String × Time)) :
    Account rate burst key since (n + admitted key calls l) (run call calls l) := by
  refine tally_invariant (J := fun m l => Account rate burst key since (n + m) l)
    (fun c m l hl => ?_) calls h
  rw [← Nat.add_assoc]
  exact paid_call c (n + m) l hl

/-! ### Other keys -/

structure Agree (key : String) (l l' : Limiter) : Prop where
  bucket : l.buckets key = l'.buckets key
  rate : l.rate = l'.rate
  burst : l.burst = l'.burst

theorem Agree.allow {l l' : Limiter} (h : Agree key l l') (now : Time) :
    (l.allow key now).1 = (l'.allow key now).1
      ∧ Agree key (call (key, now) l) (call (key, now) l') := by
  have hsame : ∀ l : Limiter, (l.allow key now).2.buckets key
      = if l.refilled id key now < 1 then ⟨l.refilled id key now, some now⟩
        else ⟨l.refilled id key now - 1, some now⟩ := by
    intro l
    rw [allow_rounded]
    split
    · exact Function.update_self _ _ _
    · exact Function.update_self _ _ _
  have hfound : l.refilled id key now = l'.refilled id key now := by
    rw [Limiter.refilled, Limiter.refilled, h.bucket, h.rate, h.burst]
  obtain ⟨houtcome, _, _, hrate, hburst⟩ := allow_refines l key now
  obtain ⟨houtcome', _, _, hrate', hburst'⟩ := allow_refines l' key now
  refine ⟨?_, ?_, hrate.trans (h.rate.trans hrate'.symm), hburst.trans (h.burst.trans hburst'.symm)⟩
  · rw [houtcome, houtcome', h.bucket, h.rate, h.burst]
  · rw [call, call, hsame, hsame, hfound]

theorem agree_filter {l l' : Limiter} (h : Agree key l l') (calls : List (String × Time)) :
    Agree key (run call calls l)
      (run call (calls.filter fun c => c.1 = key) l') := by
  induction calls generalizing l l' with
  | nil => exact h
  | cons c calls ih =>
    obtain ⟨name, now⟩ := c
    by_cases hkey : name = key
    · subst hkey
      rw [List.filter_cons_of_pos (by simp), run_cons, run_cons]
      exact ih (h.allow now).2
    rw [List.filter_cons_of_neg (by simpa using hkey), run_cons]
    obtain ⟨_, _, hothers, hrate, hburst⟩ := allow_refines l name now
    exact ih ⟨(hothers key (Ne.symm hkey)).trans h.bucket, hrate.trans h.rate,
      hburst.trans h.burst⟩

/-! ### The bound -/

/-- **The bound of the limiter.**  Of the calls on a new limiter, in any order of
their times and keys, take a segment that begins with a call of the key at `t` and ends
with an admitted call of the key at `t'`: at most `burst + rate * (t' - t)` calls of the
key in it are admitted.  The calls of other keys change no outcome. -/
theorem limiter_bound (rate burst : ℚ) (key : String) (before rest : List (String × Time)) :
    (∀ t t' : Time, (rest ++ [(key, t')]).head? = some (key, t) →
        ((after rate burst (before ++ rest)).allow key t').1 = true →
        (admitted key (rest ++ [(key, t')]) (after rate burst before) : ℚ)
          ≤ burst + rate * seconds (t' - t))
      ∧ ∀ now : Time, ((after rate burst before).allow key now).1
        = ((after rate burst (before.filter fun c => c.1 = key)).allow key now).1 := by
  refine ⟨fun t t' hfirst hadmitted => ?_, fun now => ?_⟩
  · obtain ⟨hrate, hburst⟩ := rate_after rate burst before
    -- the account of the segment, opened by its first call
    obtain ⟨calls, hcalls⟩ : ∃ calls, rest ++ [(key, t')] = (key, t) :: calls :=
      List.head?_eq_some_iff.mp hfirst
    have haccount := account_run (account_call key hrate hburst t) calls
    have hsegment : admitted key (rest ++ [(key, t')]) (after rate burst before)
        = (admits key (key, t) (after rate burst before)).toNat
          + admitted key calls (call (key, t) (after rate burst before)) := by
      rw [hcalls]
      rfl
    have hend : run call calls (call (key, t) (after rate burst before))
        = call (key, t') (after rate burst (before ++ rest)) := by
      rw [← run_cons, ← hcalls, run_append, after, after,
        run_append]
      rfl
    rw [← hsegment, hend] at haccount
    -- the last call is admitted, so it leaves no debt
    obtain ⟨houtcome, hbucket, _, _, _⟩ := allow_refines (after rate burst (before ++ rest)) key t'
    obtain ⟨hrate', hburst'⟩ := rate_after rate burst (before ++ rest)
    rw [hrate', hburst'] at houtcome hbucket
    obtain ⟨htokens, hlast⟩ := TokenBucket.take_passed (houtcome.symm.trans hadmitted)
    have hfinal : ((call (key, t') (after rate burst (before ++ rest))).buckets key).tokenBucket
        = (TokenBucket.take rate burst (seconds t')
          ((after rate burst (before ++ rest)).buckets key).tokenBucket).2 := hbucket
    rw [seconds_sub]
    exact haccount.paid.bound (hfinal ▸ hlast) (hfinal ▸ htokens)
  · exact ((agree_filter ⟨rfl, rfl, rfl⟩ before).allow now).1

/-- One token a second, and a clock that steps back in between: the second call is
refused, the third admitted. -/
theorem limiter_bound_second :
    (admitted "a" ([("a", 1000000000), ("b", 0), ("a", 0)] ++ [("a", 2000000000)])
        (after 1 1 []) : ℚ) ≤ 1 + 1 * seconds (2000000000 - 1000000000) := by
  refine (limiter_bound 1 1 "a" [] [("a", 1000000000), ("b", 0), ("a", 0)]).1 1000000000 2000000000
    rfl ?_
  decide +kernel

end Limiter

end StormRelay.Ingestion
