/-
Leases and step timeouts.

`Engine.Run` claims steps with a lease of thirty seconds and never renews it,
while a step may be given a timeout of up to an hour.  The clock is the one of
the store; a worker that begins at once has until the timeout to finish.

* `lease_covers_action_iff` — **a worker keeps its step for the whole timeout if
  and only if the timeout is shorter than the lease**.
-/
import StormRelay.Cancel

namespace StormRelay

open Tx Table Transition

variable {env : Env} {s : Sys}

/-- The lease `Engine.Run` asks for. -/
def engineLease : ℤ := 30 * second

/-! ### Time -/

/-- The time an operation lets pass. -/
def Op.elapsed : Op → ℕ
  | .tick elapsed => elapsed
  | _ => 0

/-- The time a run takes. -/
def elapsed (ops : List Op) : ℕ :=
  (ops.map Op.elapsed).sum

theorem perform_now (env : Env) (op : Op) (s : Sys) :
    (s.perform env op).now = s.now + op.elapsed := by
  have hcall : ∀ {α : Type} (n : ℕ) (body : String → ClaimedStep → Tx DB α),
      (s.commitFor env n body).now = s.now := by
    intro α n body
    rw [Sys.commitFor]
    split <;> rfl
  cases op with
  | tick d => rfl
  | claim locked workerID limit lease lost =>
    rw [Sys.perform]
    split <;> exact (Int.add_zero _).symm
  | scheduleWait n until_ | openApproval n approvalID prompt expiresAt
  | complete n status output executionErr
  | markAmbiguous n executionErr => exact (hcall _ _).trans (Int.add_zero _).symm
  | _ => exact (Int.add_zero _).symm

/-! ### What can happen to a claimed row -/

def Op.task : Op → Option ℕ
  | .scheduleWait n _ | .openApproval n _ _ _ | .complete n _ _ _ | .markAmbiguous n _ => some n
  | _ => none

/-- A call the worker makes for the step. -/
def CallsFor (workerID stepID : String) (op : Op) (s : Sys) : Prop :=
  ∃ n c, op.task = some n ∧ s.issued[n]? = some (workerID, c) ∧ c.step.id = stepID

/-- `RecoverExpiredStepLeases` marks a step that is in flight. -/
def MarkedBy (env : Env) (stepID : String) (op : Op) (s : Sys) : Prop :=
  (∃ locked order actor, op = .recover locked order actor)
    ∧ (∃ r ∈ s.db.steps, r.id = stepID ∧ r.status.inFlight = true)
    ∧ ∃ r ∈ (s.perform env op).db.steps, r.id = stepID
      ∧ (r.status = .ambiguous ∨ r.status = .retrying)

variable {r : ExecutionStep} {deadline : Time}

/-- **Only its holder changes a claimed row before the lease expires.** -/
theorem row_kept (hi : s.Inv) {op : Op} (hr : r ∈ s.db.steps) {workerID : String}
    (howner : r.leaseOwner = some workerID) (hlease : r.leaseExpiresAt = some deadline)
    (hnow : s.now < deadline) (hcalls : ¬ CallsFor workerID r.id op s) :
    r ∈ (s.perform env op).db.steps := by
  have hc := hi.consistent
  have hflight : r.status.inFlight = true := by
    rw [← (hc.lease r hr).1, howner]
    rfl
  have hleased : ∀ {n : ℕ} {owner : String} {c : ClaimedStep}, op.task = some n →
      s.issued[n]? = some (owner, c) → leasedTo c.step.id owner r = true → False := by
    intro n owner c htask hn hl
    simp only [leasedTo, Bool.and_eq_true, decide_eq_true_eq] at hl
    have hsame : owner = workerID := Option.some.inj (hl.2.symm.trans howner)
    exact hcalls ⟨n, c, htask, hsame ▸ hn, hl.1.symm⟩
  have hpending : ∀ {a : Approval}, a ∈ s.db.approvals → a.status = .pending →
      r.id = a.executionStepID → False := by
    intro a ha hp hid
    rcases (hc.of_pending hr ha hp hid).2 with h | h <;> rw [h] at hflight <;> cases hflight
  obtain ⟨r', hr', rfl | hch⟩ := (effect_perform env hi op).rows.next hr
  · exact hr'
  exfalso
  cases hch with
  | claim he hcl => rcases claimable_status hcl with h | h <;> rw [h] at hflight <;> cases hflight
  | recover hexp =>
    simp only [leaseExpired, hlease, Option.any_some, Bool.and_eq_true, decide_eq_true_eq] at hexp
    exact absurd hexp.1.1.2 (not_le.mpr hnow)
  | timer hdue =>
    rw [waiting_of_waitDue hdue] at hflight
    cases hflight
  | expire ha hp hid => exact hpending ha hp hid
  | wait hn hl hs | openApproval hn hl | complete hn hl | retryLater hn hl hlt | fail hn hl
  | ambiguous hn hl => exact hleased rfl hn hl
  | cancel hid hcan =>
    simp only [cancelable, Bool.or_eq_true, decide_eq_true_eq] at hcan
    rcases hcan with ((h | h) | h) | h <;> rw [h] at hflight <;> cases hflight
  | decide ha hid hp hstep hd => exact hpending ha hp hstep
  | retry hid hok =>
    simp only [retryAllowed, Bool.or_eq_true, Bool.and_eq_true, decide_eq_true_eq] at hok
    rcases hok with h | ⟨h, -⟩ <;> rw [h] at hflight <;> cases hflight

theorem not_claimed_of_inFlight (hi : s.Inv) (hr : r ∈ s.db.steps)
    (hflight : r.status.inFlight = true) (op : Op) : ∀ c ∈ claimedBy op s, c.step.id ≠ r.id := by
  intro c hc hid
  cases op with
  | claim locked workerID limit lease lost =>
    obtain ⟨r₀, hr₀, e, hin, -, rfl⟩ := mem_claims hc
    obtain ⟨e', -, hcl⟩ := claimable_of_candidate hi.consistent hr₀ hin
    obtain rfl := hi.consistent.eq_of_id hr₀ hr hid
    rcases claimable_status hcl with h | h <;> rw [h] at hflight <;> cases hflight
  | _ => cases hc

theorem not_marked_of_kept (hi : s.Inv) {op : Op} (hflight : r.status.inFlight = true)
    (hkept : r ∈ (s.perform env op).db.steps) :
    ¬ MarkedBy env r.id op s := by
  rintro ⟨-, -, r', hr', hid, hst⟩
  obtain rfl := (inv_perform env hi op).consistent.eq_of_id hr' hkept hid
  rcases hst with h | h <;> rw [h] at hflight <;> cases hflight

theorem before_deadline {now deadline : ℤ} {a b : ℕ} (h : now + ((a + b : ℕ) : ℤ) < deadline) :
    now < deadline ∧ now + a + b < deadline := by
  omega

theorem kept_along {workerID : String} (howner : r.leaseOwner = some workerID)
    (hlease : r.leaseExpiresAt = some deadline) :
    ∀ (ops : List Op) {s : Sys}, s.Inv → r ∈ s.db.steps → s.now + elapsed ops < deadline →
      Along (Sys.perform env) (fun op s => ¬ CallsFor workerID r.id op s) ops s →
      Along (Sys.perform env) (fun op s => ¬ MarkedBy env r.id op s
        ∧ ∀ c ∈ claimedBy op s, c.step.id ≠ r.id) ops s
  | [], _, _, _, _, _ => trivial
  | op :: ops, s, hi, hr, htime, hcalls => by
    have hflight : r.status.inFlight = true := by
      rw [← (hi.consistent.lease r hr).1, howner]
      rfl
    have hsum : elapsed (op :: ops) = op.elapsed + elapsed ops := rfl
    rw [hsum] at htime
    obtain ⟨hnow, hrest⟩ := before_deadline htime
    have hkept : r ∈ (s.perform env op).db.steps :=
      row_kept hi hr howner hlease hnow hcalls.1
    refine ⟨⟨not_marked_of_kept hi hflight hkept, not_claimed_of_inFlight hi hr hflight op⟩, ?_⟩
    refine kept_along howner hlease ops (inv_perform env hi op) hkept ?_ hcalls.2
    rw [perform_now]
    exact hrest

theorem marked_at_deadline (hi : s.Inv) (hr : r ∈ s.db.steps) (hflight : r.status.inFlight = true)
    (hlease : r.leaseExpiresAt = some deadline) (hnow : deadline ≤ s.now) (actor : String) :
    MarkedBy env r.id (.recover [] [] actor) s := by
  refine ⟨⟨[], [], actor, rfl⟩, ⟨r, hr, rfl, hflight⟩, recoverRow s.now r r, ?_, rfl, ?_⟩
  · have hexpired : leaseExpired s.db s.now [] r = true := by
      obtain ⟨e, he, hid⟩ := hi.consistent.owner r hr
      have hfound : s.db.execution? r.executionID = some e := hid ▸ hi.consistent.execution?_eq he
      simp [leaseExpired, hflight, hlease, hnow, hfound]
    show _ ∈ (after env.exclusive (recoverExpiredStepLeases s.now [] [] actor) s.db).steps
    rw [recover_after, recover_steps hi.consistent]
    have hmem := mem_update_of_mem (p := leaseExpired s.db s.now [])
      (f := fun r => recoverRow s.now r r) hr
    rwa [patch_pos hexpired] at hmem
  simp only [recoverRow]
  split
  · exact .inr rfl
  · exact .inl rfl

/-- **Leases and timeouts, exactly.**  In every reachable state, let an engine
claim the step of `c`, and let it begin at once.  Whatever happens within the
step's timeout and before the worker makes a call for the step, the step is
neither marked by recovery nor claimed again, if and only if the timeout is
shorter than thirty seconds. -/
theorem lease_covers_action_iff (hs : Sys.Reachable env s) {locked : List String}
    {workerID : String} {limit : ℤ} {c : ClaimedStep}
    (hc : c ∈ s.claims locked workerID limit engineLease) :
    (∀ ops, (elapsed ops : ℤ) ≤ c.step.immutableInput.timeoutSeconds * second →
      Along (Sys.perform env) (fun op s => ¬ CallsFor workerID c.step.id op s) ops
        (s.perform env (.claim locked workerID limit engineLease false)) →
      Along (Sys.perform env) (fun op s => ¬ MarkedBy env c.step.id op s
        ∧ ∀ c' ∈ claimedBy op s, c'.step.id ≠ c.step.id) ops
        (s.perform env (.claim locked workerID limit engineLease false)))
    ↔ c.step.immutableInput.timeoutSeconds < 30 := by
  set s₁ := s.perform env (.claim locked workerID limit engineLease false) with hs₁
  have hi₁ : s₁.Inv := inv_perform env (inv_of_reachable hs) _
  have hnow : s₁.now = s.now := (perform_now env _ s).trans (Int.add_zero _)
  -- The claimed row, with its lease.
  obtain ⟨hrow, howner, hlease⟩ : c.step ∈ s₁.db.steps ∧ c.step.leaseOwner = some workerID
      ∧ c.step.leaseExpiresAt = some (s.now + 30 * second) := by
    obtain ⟨r, hr, e, hin, -, rfl⟩ := mem_claims hc
    refine ⟨?_, rfl, rfl⟩
    show claimRow s.now workerID (claimLease engineLease) r
      ∈ (s.perform env (.claim locked workerID limit engineLease false)).db.steps
    rw [perform_claim_db]
    have hmem := mem_update_of_mem
      (p := fun es : ExecutionStep => es.id ∈ candidates s.db s.now locked (claimLimit limit))
      (f := claimRow s.now workerID (claimLease engineLease)) hr
    rwa [patch_pos (by simpa using hin)] at hmem
  constructor
  · intro hkeeps
    by_contra hlong
    -- Thirty seconds later the timeout has not passed, and recovery finds the lease expired.
    have hflight : c.step.status.inFlight = true := by
      rw [← (hi₁.consistent.lease _ hrow).1, howner]
      rfl
    have hbound : (elapsed [.tick 30000000000, .recover [] [] workerID] : ℤ)
        ≤ c.step.immutableInput.timeoutSeconds * second := by
      show (30000000000 : ℤ) ≤ c.step.immutableInput.timeoutSeconds * 1000000000
      omega
    have hquiet : Along (Sys.perform env)
        (fun op s => ¬ CallsFor workerID c.step.id op s)
        [.tick 30000000000, .recover [] [] workerID] s₁ := by
      refine ⟨?_, ?_, trivial⟩ <;> rintro ⟨_, _, htask, -⟩ <;> cases htask
    obtain ⟨-, ⟨hunmarked, -⟩, -⟩ := hkeeps _ hbound hquiet
    refine hunmarked (marked_at_deadline (inv_perform env hi₁ _) hrow hflight hlease ?_ workerID)
    show s.now + 30 * second ≤ s₁.now + 30000000000
    rw [hnow]
    exact le_rfl
  intro hshort ops htime hcalls
  refine kept_along howner hlease ops hi₁ hrow ?_ hcalls
  rw [hnow]
  replace htime : (elapsed ops : ℤ) ≤ c.step.immutableInput.timeoutSeconds * 1000000000 := htime
  have hlt : (elapsed ops : ℤ) < 30000000000 := by omega
  exact Int.add_lt_add_left hlt s.now

def timedEnv (timeout : String) : Env :=
  { platform := plainPlatform (runbookWith [{ idempotentStep with timeout := timeout }])
    exclusive := true }

def startedRun : List Op :=
  [starting ["s"]]

def startedState (timeout : String) : Sys :=
  run (Sys.perform (timedEnv timeout)) startedRun oneRunbook

/-- A step with a timeout of ten seconds is not recovered ten seconds after its
claim. -/
theorem lease_covers_ten_seconds :
    ∃ c ∈ (startedState "10s").claims [] "A" 1 engineLease,
      ¬ MarkedBy (timedEnv "10s") c.step.id (.recover [] [] "B")
        (run (Sys.perform (timedEnv "10s"))
          [.claim [] "A" 1 engineLease false, .tick 10000000000] (startedState "10s")) := by
  have hclaims : (((startedState "10s").claims [] "A" 1 engineLease).map fun c =>
      c.step.immutableInput.timeoutSeconds) = [10] := by
    decide +kernel
  obtain ⟨c, hc, htimeout⟩ := Table.exists_row hclaims List.mem_cons_self
  have hreach : Sys.Reachable (timedEnv "10s") (startedState "10s") :=
    ⟨oneRunbook, startedRun, ⟨rfl, rfl, rfl, rfl⟩, rfl⟩
  have hshort : c.step.immutableInput.timeoutSeconds < 30 := by omega
  have hkeeps := (lease_covers_action_iff hreach hc).mpr hshort
    [.tick 10000000000, .recover [] [] "B"] (by rw [htimeout]; decide)
    (by refine ⟨?_, ?_, trivial⟩ <;> rintro ⟨_, _, htask, -⟩ <;> cases htask)
  exact ⟨c, hc, hkeeps.2.1.1⟩

/-- **A live worker loses its step.**  The step may take a minute; thirty seconds
after worker `A` claimed it, recovery schedules it again and worker `B` claims
it a second time. -/
theorem live_worker_loses_step :
    Sys.Reachable (timedEnv "1m") (startedState "1m")
      ∧ (((startedState "1m").claims [] "A" 1 engineLease).map fun c =>
          (c.step.id, c.step.immutableInput.timeoutSeconds)) = [("s", 60)]
      ∧ elapsed [.claim [] "A" 1 engineLease false, .tick 30000000000, .recover [] [] "B",
          .claim [] "B" 1 engineLease false] = 30000000000
      ∧ ((run (Sys.perform (timedEnv "1m"))
          [.claim [] "A" 1 engineLease false, .tick 30000000000, .recover [] [] "B"]
          (startedState "1m")).db.steps.map fun r => (r.status, r.leaseOwner))
        = [(.retrying, none)]
      ∧ ((run (Sys.perform (timedEnv "1m"))
          [.claim [] "A" 1 engineLease false, .tick 30000000000, .recover [] [] "B",
            .claim [] "B" 1 engineLease false]
          (startedState "1m")).db.steps.map fun r => (r.status, r.leaseOwner, r.attemptCount))
        = [(.running, some "B", 2)] := by
  refine ⟨⟨oneRunbook, startedRun, ⟨rfl, rfl, rfl, rfl⟩, rfl⟩, ?_⟩
  decide +kernel

end StormRelay
