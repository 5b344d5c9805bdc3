/-
Fencing of stale claims.

A claim is *current* while its step is in flight at the claim's own attempt.
`CompleteExecutionStep` does not compare attempts: it looks at the status of
the row, filters the step update on the worker's name and updates the execution
without a filter.

* `stale_completion_harmless_iff` — **exactly which stale completions change
  nothing**: those that find the step not in flight, those that cannot be
  stored, and those that find it leased to another worker with an attempt left
  or without an error to report.
-/
import StormRelay.Invariant

namespace StormRelay

open Tx Table

variable {env : Env} {s : Sys}

/-- The step is in flight at the claim's own attempt. -/
def Current (s : Sys) (c : ClaimedStep) : Prop :=
  ∃ r ∈ s.db.steps, r.id = c.step.id ∧ r.status.inFlight = true
    ∧ r.attemptCount = c.step.attemptCount

instance (s : Sys) (c : ClaimedStep) : Decidable (Current s c) :=
  inferInstanceAs (Decidable (∃ r ∈ s.db.steps, _ ∧ _ ∧ _))

/-- The conditions under which a stale `CompleteExecutionStep`, called by
`workerID` for the claim `c`, writes a step or an execution: a later attempt of
the step is in flight, the parameters can be stored, and the later attempt is
leased to the same worker name or the call reports an error with no attempt
left. -/
def Disturbs (s : Sys) (workerID : String) (c : ClaimedStep) (output : Option Json)
    (executionErr : Option String) : Prop :=
  ∃ r ∈ s.db.steps, r.id = c.step.id ∧ r.status.inFlight = true
    ∧ c.step.attemptCount < r.attemptCount ∧ completionBindable output executionErr = true
    ∧ (r.leaseOwner = some workerID
      ∨ (executionErr ≠ none ∧ r.retryPolicy.maxAttempts ≤ r.attemptCount))

theorem finalizedDB_of_inFlight {db : DB} (now : Time) {r : ExecutionStep} (hr : r ∈ db.steps)
    (hin : r.status.inFlight = true) : finalizedDB now r.executionID db = db := by
  rw [finalizedDB]
  rcases hrem : remainingSteps r.executionID db with _ | ⟨status, remaining⟩
  · rfl
  refine if_pos (.inl ?_)
  rw [remainingSteps] at hrem
  rcases he : db.execution? r.executionID with _ | e
  · rw [he] at hrem
    cases hrem
  rw [he] at hrem
  simp only at hrem
  split at hrem
  · cases hrem
  obtain ⟨-, rfl⟩ := Prod.mk.inj (Option.some.inj hrem)
  have hid : e.id = r.executionID := by simpa [DB.execution?] using List.find?_some he
  refine Nat.pos_iff_ne_zero.mp (List.countP_pos_iff.mpr ⟨r, ?_, ?_⟩)
  · exact List.mem_filter.mpr ⟨hr, by simp [hid]⟩
  · cases hs : r.status <;> rw [hs] at hin <;> first | rfl | cases hin

/-- **When a stale completion changes nothing.**  In every reachable state, for
every claim that is no longer current and every completion its holder may send:
no row of `execution_steps` and no row of `executions` changes if and only if
the call does not disturb the step. -/
theorem stale_completion_harmless_iff (hs : Sys.Reachable env s) {workerID : String}
    {c : ClaimedStep} (hw : (workerID, c) ∈ s.issued) (hstale : ¬ Current s c)
    (status : StepStatus) (output : Option Json) (executionErr : Option String) :
    ((after env.exclusive (completeExecutionStep env.platform s.now c workerID status output
          executionErr) s.db).steps = s.db.steps
      ∧ (after env.exclusive (completeExecutionStep env.platform s.now c workerID status output
          executionErr) s.db).executions = s.db.executions)
      ↔ ¬ Disturbs s workerID c output executionErr := by
  have hi := inv_of_reachable hs
  have hc := hi.consistent
  obtain ⟨n, hn⟩ := List.getElem?_of_mem hw
  obtain ⟨r, hr, hid, hexec, hrem, tenantID, hfound⟩ := claim_row hi hn
  have hrow : ∀ r' ∈ s.db.steps, r'.id = c.step.id → r' = r := fun r' hr' hid' =>
    hc.eq_of_id hr' hr (hid'.trans hid.symm)
  -- A row in flight that is not at the claim's attempt is at a later one.
  have hlater : r.status.inFlight = true → c.step.attemptCount < r.attemptCount := by
    intro hin
    obtain ⟨r', hr', hdef, hle, -⟩ := (hi.claims _ hw).row
    obtain rfl := hrow r' hr' (column_of_definition ExecutionStep.id (fun _ => rfl) hdef)
    exact lt_of_le_of_ne hle fun hatt => hstale ⟨r', hr', hid, hin, hatt.symm⟩
  -- What is left to decide is the worker's name and, for an error, whether an
  -- attempt is left.
  have hleased : (∀ r' ∈ s.db.steps, leasedTo c.step.id workerID r' = false)
      ↔ r.leaseOwner ≠ some workerID := by
    constructor
    · intro h ho
      have := h r hr
      simp [leasedTo, hid, ho] at this
    intro ho r' hr'
    by_cases hid' : r'.id = c.step.id
    · obtain rfl := hrow r' hr' hid'
      simp [leasedTo, ho]
    · simp [leasedTo, hid']
  have hsteps : ∀ f : ExecutionStep → ExecutionStep, (∀ y, (f y).version = y.version + 1) →
      (update (leasedTo c.step.id workerID) f s.db.steps = s.db.steps
        ↔ r.leaseOwner ≠ some workerID) := by
    intro f hf
    refine (update_eq_self_iff fun y he => ?_).trans hleased
    exact Nat.succ_ne_self y.version ((hf y).symm.trans (congrArg ExecutionStep.version he))
  have hdist : Disturbs s workerID c output executionErr
      ↔ (r.status.inFlight = true ∧ completionBindable output executionErr = true)
        ∧ (r.leaseOwner = some workerID
          ∨ (executionErr ≠ none ∧ r.retryPolicy.maxAttempts ≤ r.attemptCount)) := by
    constructor
    · rintro ⟨r', hr', hid', hin, -, hbind, h⟩
      obtain rfl := hrow r' hr' hid'
      exact ⟨⟨hin, hbind⟩, h⟩
    · rintro ⟨⟨hin, hbind⟩, h⟩
      exact ⟨r, hr, hid, hin, hlater hin, hbind, h⟩
  rw [hdist, not_and, not_or]
  have hout := complete_outcome env.exclusive env.platform s.now workerID status output
    executionErr hfound hrem
  generalize after env.exclusive _ s.db = db' at hout ⊢
  cases hout with
  | refused hno => exact ⟨fun _ h => absurd h hno, fun _ => ⟨rfl, rfl⟩⟩
  | success hin hbind =>
    rw [DB.audited_steps, finalizedDB_steps, DB.updateSteps_steps,
      hsteps (completeRow s.now (completionStatus status) output) fun _ => rfl]
    refine ⟨fun h _ => ⟨h.1, by simp⟩, fun h => ?_⟩
    have howner := (h ⟨hin, hbind⟩).1
    refine ⟨howner, ?_⟩
    rw [DB.audited_executions, ← hexec, finalizedDB_of_inFlight (r := r) _ _ hin]
    · rfl
    · rw [DB.updateSteps_steps, update_eq_self (hleased.mpr howner)]
      exact hr
  | @retry err message backoff hin hbind hlt =>
    rw [DB.audited_steps, DB.updateSteps_steps,
      hsteps (retryLaterRow s.now message backoff) fun _ => rfl]
    refine ⟨fun h _ => ⟨h.1, fun hge => absurd hlt (not_lt.mpr hge.2)⟩, fun h => ?_⟩
    exact ⟨(h ⟨hin, hbind⟩).1, rfl⟩
  | fail hin hbind hmax =>
    obtain ⟨e, he, heid⟩ := hc.owner r hr
    refine iff_of_false ?_ fun h => (h ⟨hin, hbind⟩).2 ⟨(fun h => by cases h), hmax⟩
    rintro ⟨-, hexecs⟩
    rw [DB.audited_executions, DB.updateExecutions_executions, DB.updateSteps_executions,
      update_eq_self_iff fun y h => ?_] at hexecs
    · simpa [heid, hexec] using hexecs e he
    · exact Nat.succ_ne_self y.version (congrArg Execution.version h)

/-- A claim handed to worker `A` expires and is recovered, and worker `B` gets
the last attempt. -/
def reclaimedRun : List Op :=
  [starting ["s"], claiming, .tick 30000000000, .recover [] [] "A",
    .claim [] "B" 1 (30 * second) false]

/-- The state after `reclaimedRun`. -/
def reclaimed : Sys :=
  Transition.run (Sys.perform idempotentEnv) reclaimedRun oneRunbook

/-- In `reclaimed`, a late success of worker `A` changes nothing. -/
theorem stale_success_harmless_reclaimed :
    ∃ c, ("A", c) ∈ reclaimed.issued ∧ ¬ Current reclaimed c
      ∧ (after true (completeExecutionStep idempotentEnv.platform reclaimed.now c "A" .completed
          none none) reclaimed.db).steps = reclaimed.db.steps
      ∧ (after true (completeExecutionStep idempotentEnv.platform reclaimed.now c "A" .completed
          none none) reclaimed.db).executions = reclaimed.db.executions := by
  have hfirst : (reclaimed.issued[0]?.map fun w => (w.1, decide (Current reclaimed w.2)))
      = some ("A", false) := by decide +kernel
  have hlease : ∀ r ∈ reclaimed.db.steps, r.leaseOwner = some "B" := by decide +kernel
  obtain ⟨⟨w, c⟩, hget, hpair⟩ := Option.map_eq_some_iff.mp hfirst
  obtain ⟨rfl, hstale⟩ := Prod.mk.inj hpair
  replace hstale : ¬ Current reclaimed c := of_decide_eq_false hstale
  have hmem := List.mem_of_getElem? hget
  have hreach : Sys.Reachable idempotentEnv reclaimed :=
    ⟨oneRunbook, reclaimedRun, ⟨rfl, rfl, rfl, rfl⟩, rfl⟩
  refine ⟨c, hmem, hstale, ?_⟩
  refine (stale_completion_harmless_iff hreach hmem hstale .completed none none).mpr ?_
  rintro ⟨r, hr, -, -, -, -, howner | ⟨herr, -⟩⟩
  · rw [hlease r hr] at howner
    revert howner
    decide
  · exact herr rfl

/-- **A stale failing worker fails the execution.**  Worker `A`'s claim is no
longer current, worker `B` runs the step, and `A`'s late error sets the
execution to failed. -/
theorem stale_failure_fails_execution :
    Sys.Reachable idempotentEnv reclaimed
      ∧ (reclaimed.issued[0]?.map fun w => (w.1, decide (Current reclaimed w.2)))
        = some ("A", false)
      ∧ (reclaimed.db.steps.map fun r => (r.status, r.leaseOwner)) = [(.running, some "B")]
      ∧ (reclaimed.db.executions.map fun e => e.status) = [.running]
      ∧ ((Sys.perform idempotentEnv (.complete 0 .failed none (some "boom"))
          reclaimed).db.executions.map fun e => e.status) = [.failed] := by
  refine ⟨⟨oneRunbook, reclaimedRun, ⟨rfl, rfl, rfl, rfl⟩, rfl⟩, ?_⟩
  decide +kernel

end StormRelay
