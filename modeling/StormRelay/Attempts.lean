/-
How often a step is attempted.

A claim counts an attempt; whether another one follows is decided later, when a
worker reports a failure or its lease runs out, and from two stored copies of
the limit.  Only an operator's retry goes beyond it.

* `attempts_bounded` — **in every run, the attempts of every step stay within
  its limit and the retries it was granted, and a step that is to be claimed
  has an attempt left**.
-/
import StormRelay.Provenance

namespace StormRelay

open Tx Table Transition

variable {env : Env} {s : Sys} {op : Op} {r r' : ExecutionStep}

def StepStatus.queued (status : StepStatus) : Prop :=
  status = .pending ∨ status = .retrying

/-- A successful `RetryExecutionStep` of the step. -/
def grantsRetry (env : Env) (stepID : String) : Op → Sys → Bool
  | .retry tenantID executionID id actor requestID traceID force, s =>
    id = stepID && succeeds env.exclusive
      (retryExecutionStep s.now tenantID executionID id actor requestID traceID force) s.db
  | _, _ => false

/-- The attempts stay within the limit and the retries granted; a step that is
to be claimed has one left. -/
structure WithinBudget (granted : ℕ) (r : ExecutionStep) : Prop where
  attempts : (r.attemptCount : ℤ) ≤ r.retryPolicy.maxAttempts + granted
  queued : r.status.queued → (r.attemptCount : ℤ) < r.retryPolicy.maxAttempts + granted

/-! ### The limit of a stored step -/

/-- Both copies of the limit are the same, and it allows an attempt. -/
structure Limited (r : ExecutionStep) : Prop where
  copies : r.immutableInput.retry = r.retryPolicy
  positive : 1 ≤ r.retryPolicy.maxAttempts

theorem limited_of_reachable (hs : Sys.Reachable env s) : ∀ r ∈ s.db.steps, Limited r := by
  refine definition_invariant (fun r r' hdef h => ?_) (fun stored r _ hprepared => ?_) hs
  · have hinput : r'.immutableInput = r.immutableInput :=
      column_of_definition (fun r => r.immutableInput) (fun _ => rfl) hdef
    have hpolicy : r'.retryPolicy = r.retryPolicy :=
      column_of_definition (fun r => r.retryPolicy) (fun _ => rfl) hdef
    exact ⟨by rw [hinput, hpolicy, h.copies], by rw [hpolicy]; exact h.positive⟩
  · cases hprepared with
    | forward _ _ _ hretry | rollback _ _ _ _ hretry => exact ⟨rfl, (parsedRetry_range hretry).1.1⟩

/-! ### One operation -/

/-- **What an operation does to the attempts of a step.**  A claim takes a queued
step and counts an attempt; every other operation leaves the count, and queues
the step only below one of the two copies of its limit, or as a retry. -/
theorem StepChange.budget (h : StepChange s op r r') :
    (r.status.queued ∧ r'.attemptCount = r.attemptCount + 1 ∧ ¬ r'.status.queued)
      ∨ r'.attemptCount = r.attemptCount
        ∧ (r'.status.queued → (r.attemptCount : ℤ) < r.retryPolicy.maxAttempts
          ∨ (r.attemptCount : ℤ) < r.immutableInput.retry.maxAttempts
          ∨ ∃ tenantID executionID actor requestID traceID force,
            op = .retry tenantID executionID r.id actor requestID traceID force) := by
  cases h with
  | claim he hr =>
    refine .inl ⟨claimable_status hr, rfl, ?_⟩
    simp only [claimRow]
    rcases r.isRollback with _ | _ <;> rintro (h | h) <;> cases h
  | recover hr =>
    refine .inr ⟨rfl, fun hq => .inr (.inl ?_)⟩
    by_cases hrec : recoverable r = true
    · simp only [recoverable, Bool.and_eq_true, decide_eq_true_eq] at hrec
      exact hrec.2
    · simp only [recoverRow, if_neg hrec] at hq
      rcases hq with h | h <;> cases h
  | retryLater _ _ hlt => exact .inr ⟨rfl, fun _ => .inl hlt⟩
  | retry hr _ =>
    subst hr
    exact .inr ⟨rfl, fun _ => .inr (.inr ⟨_, _, _, _, _, _, rfl⟩)⟩
  | @complete n status output =>
    refine .inr ⟨rfl, fun hq => ?_⟩
    have hfin := completionStatus_finished status
    rcases hq with h | h <;> rw [show completionStatus status = _ from h] at hfin <;> cases hfin
  | @decide _ _ _ _ _ _ decision =>
    refine .inr ⟨rfl, fun hq => ?_⟩
    simp only [decidedRow] at hq
    split at hq <;> rcases hq with h | h <;> cases h
  | _ => exact .inr ⟨rfl, fun hq => by rcases hq with h | h <;> cases h⟩

theorem retry_refused_steps {tenantID executionID stepID actor requestID traceID : String}
    {force : Bool} (h : grantsRetry env stepID
      (.retry tenantID executionID stepID actor requestID traceID force) s = false) :
    (Sys.perform env (.retry tenantID executionID stepID actor requestID traceID force) s).db
      = s.db := by
  simp only [grantsRetry, decide_true, Bool.true_and] at h
  exact after_of_not_succeeds h

/-- **One operation keeps the budget of the step `stepID`**, with one retry more
when it grants one. -/
theorem within_perform (hi : s.Inv) (hlim : ∀ r ∈ s.db.steps, Limited r)
    (hlim' : ∀ r ∈ (Sys.perform env op s).db.steps, Limited r) {stepID : String} {granted : ℕ}
    (h : ∀ r ∈ s.db.steps, r.id = stepID → WithinBudget granted r) :
    ∀ r' ∈ (Sys.perform env op s).db.steps, r'.id = stepID →
      WithinBudget (granted + (grantsRetry env stepID op s).toNat) r' := by
  have hmono : ∀ r, WithinBudget granted r →
      WithinBudget (granted + (grantsRetry env stepID op s).toNat) r := by
    rintro r ⟨hle, hlt⟩
    exact ⟨by omega, fun hq => by have := hlt hq; omega⟩
  intro r' hr' hid
  rcases (effect_perform env hi op).rows.prev hr' with ⟨r, hr, rfl | hchange⟩ | hnew
  · exact hmono r' (h r' hr hid)
  · obtain ⟨hle, hlt⟩ := h r hr (hchange.id.symm.trans hid)
    have hpolicy : r'.retryPolicy = r.retryPolicy :=
      column_of_definition (fun r => r.retryPolicy) (fun _ => rfl) hchange.definition
    have hcopies : r.immutableInput.retry.maxAttempts = r.retryPolicy.maxAttempts := by
      rw [(hlim r hr).copies]
    rcases hchange.budget with ⟨hq, hcount, hnot⟩ | ⟨hcount, hqueue⟩
    · have := hlt hq
      exact ⟨by rw [hcount, hpolicy]; push_cast; omega, fun hq' => absurd hq' hnot⟩
    refine ⟨by rw [hcount, hpolicy]; omega, fun hq => ?_⟩
    rw [hcount, hpolicy]
    rcases hqueue hq with hbelow | hbelow | ⟨_, _, _, _, _, _, rfl⟩
    · omega
    · omega
    -- A retry: were it refused, the row would be as it was.
    obtain rfl : r.id = stepID := hchange.id.symm.trans hid
    cases hgrant : grantsRetry env r.id (.retry _ _ r.id _ _ _ _) s with
    | true =>
      rw [Bool.toNat_true]
      push_cast
      omega
    | false =>
      rw [retry_refused_steps hgrant] at hr'
      obtain rfl := hi.consistent.eq_of_id hr' hr hid
      have := hlt hq
      rw [Bool.toNat_false]
      push_cast
      omega
  · have hpos := (hlim' r' hr').positive
    have hzero := hnew.attempts
    exact ⟨by rw [hzero]; push_cast; omega, fun _ => by rw [hzero]; push_cast; omega⟩

/-! ### Whole runs -/

/-- **Attempts are bounded.**  In every run of the store from its initial states
(claims, failing completions of current and stale workers, recoveries and
operator retries in any order), every step has been attempted at most
`maxAttempts` times plus once for each successful `RetryExecutionStep` of it, and
while it is pending or retrying strictly less often. -/
theorem attempts_bounded (env : Env) (hs : s.Init) (ops : List Op) :
    ∀ r ∈ (run (Sys.perform env) ops s).db.steps,
      WithinBudget (tally (Sys.perform env) (grantsRetry env r.id) ops s) r := by
  intro r hr
  have hempty : ∀ q ∈ s.db.steps, q.id = r.id → WithinBudget 0 q := by
    intro q hq
    rw [hs.2.1] at hq
    cases hq
  have hrun := tally_invariant (p := grantsRetry env r.id)
    (J := fun granted s => Sys.Reachable env s
      ∧ ∀ q ∈ s.db.steps, q.id = r.id → WithinBudget granted q)
    (fun op granted s h => ⟨h.1.next op, within_perform (inv_of_reachable h.1)
      (limited_of_reachable h.1) (limited_of_reachable (h.1.next op)) h.2⟩) ops
    ⟨⟨s, [], hs, rfl⟩, hempty⟩
  exact hrun.2 r hr rfl

def exhaustedRun : List Op :=
  [starting ["s1"], claiming, .complete 0 .failed none (some "boom"),
    .tick 60000000000, claiming, .complete 1 .failed none (some "boom"),
    .retry "t" "e" "s1" "op" "" "" false, claiming]

/-- In `exhaustedRun` the third attempt, one more than the limit, is the retry. -/
theorem attempts_bounded_exhausted :
    (run (Sys.perform idempotentEnv) exhaustedRun oneRunbook).db.steps.map
        (fun r => (r.id, r.attemptCount, r.retryPolicy.maxAttempts)) = [("s1", 3, 2)]
      ∧ ∀ r ∈ (run (Sys.perform idempotentEnv) exhaustedRun oneRunbook).db.steps,
        WithinBudget (tally (Sys.perform idempotentEnv) (grantsRetry idempotentEnv r.id)
          exhaustedRun oneRunbook) r :=
  ⟨by decide +kernel, attempts_bounded idempotentEnv ⟨rfl, rfl, rfl, rfl⟩ exhaustedRun⟩

end StormRelay
