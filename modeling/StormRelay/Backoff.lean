/-
The backoff of a runbook step (`retryBackoff` in
`internal/storage/execution_scheduler.go`).

The backoff doubles from the initial one, is cut off at the maximum, and only
then multiplied by a jitter between three and five quarters; the product is cut
to whole seconds.  So the jitter takes a backoff of one second below one second,
and one near the maximum above it.

* `retryBackoff_within_iff` — **which accepted policies keep the backoff between one
  second and their maximum**.
-/
import Mathlib.Algebra.Order.Ring.Int
import StormRelay.Provenance

namespace StormRelay

/-- The capped exponential backoff, in seconds. -/
def backoffBase (retry : RetryParsed) (attempt : ℕ) : ℤ :=
  min (retry.initialBackoffSeconds * 2 ^ (attempt - 1)) retry.maxBackoffSeconds

variable {retry : RetryParsed} {attempt hash : ℕ}

theorem retryBackoff_eq : retryBackoff retry attempt hash
    = backoffBase retry attempt * (765 + 2 * (hash : ℤ)) / 1020 := rfl

theorem backoffBase_range {policy : RetryPolicy} (h : parsedRetry policy = .ok retry)
    (attempt : ℕ) :
    1 ≤ backoffBase retry attempt ∧ backoffBase retry attempt ≤ retry.maxBackoffSeconds := by
  obtain ⟨-, hinitial, hle⟩ := parsedRetry_range h
  have hpow : (1 : ℤ) ≤ 2 ^ (attempt - 1) := one_le_pow₀ (by decide)
  have hgrown : 1 ≤ retry.initialBackoffSeconds * 2 ^ (attempt - 1) :=
    one_le_mul_of_one_le_of_one_le hinitial hpow
  rw [backoffBase]
  omega

/-! ### The two ends -/

/-- The backoff is at least a second unless a base of one second meets a jitter below
one. -/
theorem one_le_retryBackoff_iff (hbase : 1 ≤ backoffBase retry attempt) :
    1 ≤ retryBackoff retry attempt hash ↔ 2 ≤ backoffBase retry attempt ∨ 128 ≤ hash := by
  rw [retryBackoff_eq, Int.le_ediv_iff_mul_le (by decide)]
  generalize backoffBase retry attempt = base at hbase ⊢
  constructor
  · intro hle
    by_contra hnot
    push Not at hnot
    obtain rfl : base = 1 := by omega
    omega
  rintro (hbase | hhash)
  · have hprod : 2 * 765 ≤ base * (765 + 2 * (hash : ℤ)) :=
      mul_le_mul hbase (by omega) (by decide) (by omega)
    omega
  · have hprod : 1 * 1021 ≤ base * (765 + 2 * (hash : ℤ)) :=
      mul_le_mul hbase (by omega) (by decide) (by omega)
    omega

theorem retryBackoff_le_iff : retryBackoff retry attempt hash ≤ retry.maxBackoffSeconds
    ↔ backoffBase retry attempt * (765 + 2 * (hash : ℤ))
      < 1020 * (retry.maxBackoffSeconds + 1) := by
  rw [retryBackoff_eq, ← Int.lt_add_one_iff, Int.ediv_lt_iff_lt_mul (by decide),
    mul_comm (retry.maxBackoffSeconds + 1)]

/-! ### All hash bytes -/

/-- **When the backoff respects its policy.**  For an accepted policy and any attempt,
the backoff lies between one second and the maximum for one hash byte as stated, and
for every hash byte exactly when the base is at least two seconds and five quarters of
it, cut to seconds, do not exceed the maximum. -/
theorem retryBackoff_within_iff {policy : RetryPolicy} (h : parsedRetry policy = .ok retry)
    (attempt : ℕ) :
    (∀ hash ≤ 255, (1 ≤ retryBackoff retry attempt hash
        ∧ retryBackoff retry attempt hash ≤ retry.maxBackoffSeconds)
      ↔ (2 ≤ backoffBase retry attempt ∨ 128 ≤ hash)
        ∧ backoffBase retry attempt * (765 + 2 * (hash : ℤ)) < 1020 * (retry.maxBackoffSeconds + 1))
      ∧ ((∀ hash ≤ 255, 1 ≤ retryBackoff retry attempt hash
          ∧ retryBackoff retry attempt hash ≤ retry.maxBackoffSeconds)
        ↔ 2 ≤ backoffBase retry attempt
          ∧ 5 * backoffBase retry attempt < 4 * (retry.maxBackoffSeconds + 1)) := by
  have hbase := (backoffBase_range h attempt).1
  have hone : ∀ hash ≤ 255, (1 ≤ retryBackoff retry attempt hash
        ∧ retryBackoff retry attempt hash ≤ retry.maxBackoffSeconds)
      ↔ (2 ≤ backoffBase retry attempt ∨ 128 ≤ hash) ∧ backoffBase retry attempt
        * (765 + 2 * (hash : ℤ)) < 1020 * (retry.maxBackoffSeconds + 1) :=
    fun hash _ => and_congr (one_le_retryBackoff_iff hbase) retryBackoff_le_iff
  refine ⟨hone, ?_, ?_⟩
  · intro hall
    -- the ends are decided by the smallest and by the largest byte
    obtain ⟨hlow, -⟩ := (hone 0 (by decide)).mp (hall 0 (by decide))
    obtain ⟨-, hhigh⟩ := (hone 255 (by decide)).mp (hall 255 (by decide))
    push_cast at hhigh
    omega
  rintro ⟨hlow, hhigh⟩ hash hhash
  refine (hone hash hhash).mpr ⟨.inl hlow, ?_⟩
  have hjitter : backoffBase retry attempt * (765 + 2 * (hash : ℤ))
      ≤ backoffBase retry attempt * 1275 :=
    mul_le_mul_of_nonneg_left (by omega) (by omega)
  omega

/-- The policy of two seconds growing to a minute, at its second attempt. -/
theorem retryBackoff_within_minute :
    parsedRetry { initialBackoff := "2s", maxBackoff := "1m" } = .ok ⟨3, 2, 60⟩
      ∧ ∀ hash ≤ 255,
        1 ≤ retryBackoff ⟨3, 2, 60⟩ 2 hash ∧ retryBackoff ⟨3, 2, 60⟩ 2 hash ≤ 60 := by
  have hparsed : parsedRetry { initialBackoff := "2s", maxBackoff := "1m" } = .ok ⟨3, 2, 60⟩ := by
    decide +kernel
  exact ⟨hparsed, (retryBackoff_within_iff hparsed 2).2.mpr (by decide)⟩

/-- **The default policy retries at once, and a cap is exceeded**: with no policy at
all the first backoff can be zero seconds, and with an initial and maximal backoff of
thirty seconds it can be thirty-seven. -/
theorem retryBackoff_outside :
    (parsedRetry {} = .ok ⟨3, 1, 30⟩ ∧ retryBackoff ⟨3, 1, 30⟩ 1 0 = 0)
      ∧ parsedRetry { initialBackoff := "30s", maxBackoff := "30s" } = .ok ⟨3, 30, 30⟩
      ∧ retryBackoff ⟨3, 30, 30⟩ 1 255 = 37 := by
  decide +kernel

end StormRelay
