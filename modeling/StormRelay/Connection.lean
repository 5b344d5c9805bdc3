/-
No statement on a busy connection?

A transaction owns one connection, which refuses a statement while a result set
is open on it.  Every method of the store that runs a transaction is followed
through its loops, for every content of the tables:

* `store_busy_iff` — **a call meets its own open result set exactly when it is a
  `ProcessEvent` of a canonical event whose tenant has an enabled policy, or an
  `AdvanceRunbookTimers` that finds an expired approval**.
-/
import StormRelay.Admin
import StormRelay.Outbox
import StormRelay.ControlOutcome

namespace StormRelay

open Tx

/-! ### The runbook store -/

inductive RunbookCall where
  | startExecution (pf : Platform) (now : Time) (executionID : String) (ids : List String)
      (input : StartExecutionInput)
  | claim (now : Time) (locked : List String) (workerID : String) (limit lease : ℤ)
  | recover (now : Time) (locked order : List String) (actor : String)
  | advance (now : Time) (locked : List String) (actor : String)
  | scheduleWait (step : ClaimedStep) (until_ : Time) (actor : String)
  | openApproval (now : Time) (approvalID : String) (step : ClaimedStep) (workerID prompt : String)
      (expiresAt : Option Time)
  | complete (pf : Platform) (now : Time) (step : ClaimedStep) (workerID : String)
      (status : StepStatus) (output : Option Json) (executionErr : Option String)
  | markAmbiguous (now : Time) (step : ClaimedStep) (workerID : String)
      (executionErr : Option String)
  | changeState (now : Time) (tenantID executionID : String) (action : ControlAction)
      (actor requestID traceID : String)
  | decide (now : Time) (tenantID approvalID : String) (decision : Decision)
      (actor reason requestID traceID : String)
  | retry (now : Time) (tenantID executionID stepID actor requestID traceID : String) (force : Bool)
  | rollback (now : Time) (ids : List String)
    (tenantID executionID actor requestID traceID : String)

/-- The call fails because a statement met an open result set. -/
def RunbookCall.FailsBusy (db : DB) : RunbookCall → Prop
  | .startExecution pf now executionID ids input =>
    Tx.FailsBusy true (StormRelay.startExecution pf now executionID ids input) db
  | .claim now locked workerID limit lease =>
    Tx.FailsBusy true (claimExecutionSteps now locked workerID limit lease) db
  | .recover now locked order actor =>
    Tx.FailsBusy true (recoverExpiredStepLeases now locked order actor) db
  | .advance now locked actor => Tx.FailsBusy true (advanceRunbookTimers now locked actor) db
  | .scheduleWait step until_ actor =>
    Tx.FailsBusy true (StormRelay.scheduleWait step until_ actor) db
  | .openApproval now approvalID step workerID prompt expiresAt =>
    Tx.FailsBusy true (StormRelay.openApproval now approvalID step workerID prompt expiresAt) db
  | .complete pf now step workerID status output executionErr =>
    Tx.FailsBusy true (completeExecutionStep pf now step workerID status output executionErr) db
  | .markAmbiguous now step workerID executionErr =>
    Tx.FailsBusy true (markExecutionStepAmbiguous now step workerID executionErr) db
  | .changeState now tenantID executionID action actor requestID traceID =>
    Tx.FailsBusy true
      (changeExecutionState now tenantID executionID action actor requestID traceID) db
  | .decide now tenantID approvalID decision actor reason requestID traceID =>
    Tx.FailsBusy true
      (decideApproval now tenantID approvalID decision actor reason requestID traceID) db
  | .retry now tenantID executionID stepID actor requestID traceID force =>
    Tx.FailsBusy true
      (retryExecutionStep now tenantID executionID stepID actor requestID traceID force) db
  | .rollback now ids tenantID executionID actor requestID traceID =>
    Tx.FailsBusy true
      (startExecutionRollback now ids tenantID executionID actor requestID traceID) db

section Runbook

@[grind ←] theorem quiet_appendAudit (entry : AuditEntry) : Quiet (appendAudit entry) := by
  grind [appendAudit]

@[grind ←] theorem quiet_bindText {σ : Type} (value : Option String) :
    Quiet (bindText value : Tx σ String) := by
  cases value <;> grind [bindText]

@[grind ←] theorem quiet_bindJSON (value : Option Json) : Quiet (bindJSON value) := by
  grind [bindJSON]

@[grind ←] theorem quiet_liftError {α : Type} (r : Except String α) : Quiet (liftError r) := by
  cases r <;> grind [liftError]

@[grind ←] theorem quiet_finalize (now : Time) (executionID : String) :
    Quiet (finalizeExecutionIfDone now executionID) := by
  grind [finalizeExecutionIfDone]

@[grind ←] theorem quiet_updateLeased (stepID workerID : String)
    (f : ExecutionStep → ExecutionStep) : Quiet (updateLeased stepID workerID f) := by
  grind [updateLeased]

@[grind ←] theorem quiet_insertForwardSteps (pf : Platform) (now : Time) (doc : Document)
    (executionID : String) (position : ℕ) (steps : List Step) (ids : List String) :
    Quiet (insertForwardSteps pf now doc executionID position steps ids) := by
  induction steps generalizing position ids with
  | nil => exact quiet_pure ()
  | cons step steps ih => cases ids <;> grind [insertForwardSteps]

@[grind ←] theorem quiet_insertRollbackSteps (now : Time) (executionID : String) (position : ℕ)
    (sources : List (ExecutionStep × Action)) (ids : List String) :
    Quiet (insertRollbackSteps now executionID position sources ids) := by
  induction sources generalizing position ids with
  | nil => exact quiet_pure ()
  | cons source sources ih => cases ids <;> grind [insertRollbackSteps]

theorem quiet_recover (now : Time) (locked order : List String) (actor : String) :
    Quiet (recoverExpiredStepLeases now locked order actor) :=
  quiet_query_scanAll _ fun items => by grind

theorem quiet_complete (pf : Platform) (now : Time) (step : ClaimedStep) (workerID : String)
    (status : StepStatus) (output : Option Json) (executionErr : Option String) :
    Quiet (completeExecutionStep pf now step workerID status output executionErr) := by
  cases executionErr <;> grind [completeExecutionStep]

theorem quiet_changeState (now : Time) (tenantID executionID : String) (action : ControlAction)
    (actor requestID traceID : String) :
    Quiet (changeExecutionState now tenantID executionID action actor requestID traceID) := by
  cases action <;> grind [changeExecutionState]

/-- The rows of the completed steps are read to their end before the rollback
steps are inserted. -/
theorem quiet_rollback (now : Time) (ids : List String)
    (tenantID executionID actor requestID traceID : String) :
    Quiet (startExecutionRollback now ids tenantID executionID actor requestID traceID) := by
  refine quiet_bind (quiet_queryRow _) fun e => quiet_ite (quiet_fail _) ?_
  refine quiet_bind (quiet_queryRow _) fun existing => quiet_ite (quiet_fail _) ?_
  exact quiet_query_scanAll _ fun sources => by grind

/-- **Expired approvals block the timers.**  `AdvanceRunbookTimers` meets its
own result set exactly when it gets as far as the approvals and one of them has
expired. -/
theorem advance_busy_iff (now : Time) (locked : List String) (actor : String) (db : DB) :
    Tx.FailsBusy true (advanceRunbookTimers now locked actor) db
      ↔ WaitsOwned now db ∧ ∃ a ∈ db.approvals, approvalExpired db now locked a = true := by
  have hexpired : expiredApprovals now locked (wokenDB now db) = []
      ↔ ¬ ∃ a ∈ db.approvals, approvalExpired db now locked a = true := by
    rw [expiredApprovals_wokenDB]
    simp [expiredApprovals]
  constructor
  · intro hbusy
    by_cases howner : WaitsOwned now db
    · refine ⟨howner, not_not.mp fun hnone => ?_⟩
      rw [Tx.FailsBusy, commit_ok (advance_run howner (.inr (hexpired.mpr hnone)))] at hbusy
      cases hbusy
    · rw [Tx.FailsBusy, commit_error (advance_orphan howner)] at hbusy
      cases hbusy
  · rintro ⟨howner, hsome⟩
    exact failsBusy_of_error (advance_busy howner fun hnone => hexpired.mp hnone hsome)

end Runbook

/-- The runbook calls that send a statement on an open result set: timers that
find an expired approval. -/
def RunbookCall.Interleaves (db : DB) : RunbookCall → Prop
  | .advance now locked _ =>
    WaitsOwned now db ∧ ∃ a ∈ db.approvals, approvalExpired db now locked a = true
  | _ => False

theorem RunbookCall.busy_iff (call : RunbookCall) (db : DB) :
    call.FailsBusy db ↔ call.Interleaves db := by
  -- All but one method are quiet, whatever the tables hold.
  have hquiet : ∀ {α : Type} {m : Tx DB α}, Quiet m → (Tx.FailsBusy true m db ↔ False) :=
    fun h => iff_false_intro (h.not_failsBusy true db)
  cases call with
  | startExecution => exact hquiet (by grind [StormRelay.startExecution])
  | claim => exact hquiet (quiet_query_rows _)
  | recover now locked order actor => exact hquiet (quiet_recover now locked order actor)
  | advance now locked actor => exact advance_busy_iff now locked actor db
  | scheduleWait => exact hquiet (by grind [StormRelay.scheduleWait])
  | openApproval => exact hquiet (by grind [StormRelay.openApproval])
  | complete => exact hquiet (quiet_complete _ _ _ _ _ _ _)
  | markAmbiguous => exact hquiet (by grind [markExecutionStepAmbiguous])
  | changeState => exact hquiet (quiet_changeState _ _ _ _ _ _ _)
  | decide => exact hquiet (by grind [decideApproval])
  | retry => exact hquiet (by grind [retryExecutionStep])
  | rollback => exact hquiet (quiet_rollback _ _ _ _ _ _ _)

/-! ### The event store -/

inductive EventCall where
  | processEvent (pf : EventPlatform) (now : Time) (gen : Generated) (e : Events.Event)
      (options : ProcessOptions)
  | claimDeliveries (pf : EventPlatform) (now : Time) (locked : List String) (limit : ℤ)
  | completeDelivery (now : Time) (deliveryID providerRef : String) (deliveryErr : Option String)
  | transitionIncident (now : Time) (transitionID : String) (input : TransitionInput)
  | acknowledgeByToken (pf : EventPlatform) (now : Time)
      (transitionID rawToken requestID traceID : String)
  | recordAudit (entry : AuditEntry)

/-- The call fails because a statement met an open result set. -/
def EventCall.FailsBusy (db : EventDB) : EventCall → Prop
  | .processEvent pf now gen e options =>
    Tx.FailsBusy true (StormRelay.processEvent pf now gen e options) db
  | .claimDeliveries pf now locked limit =>
    Tx.FailsBusy true (StormRelay.claimDeliveries pf now locked limit) db
  | .completeDelivery now deliveryID providerRef deliveryErr =>
    Tx.FailsBusy true (StormRelay.completeDelivery now deliveryID providerRef deliveryErr) db
  | .transitionIncident now transitionID input =>
    Tx.FailsBusy true (StormRelay.transitionIncident now transitionID input) db
  | .acknowledgeByToken pf now transitionID rawToken requestID traceID =>
    Tx.FailsBusy true
      (StormRelay.acknowledgeByToken pf now transitionID rawToken requestID traceID) db
  | .recordAudit entry => Tx.FailsBusy true (StormRelay.recordAudit entry) db

/-- The event calls that send a statement on an open result set: a canonical
event whose tenant has an enabled policy. -/
def EventCall.Interleaves (db : EventDB) : EventCall → Prop
  | .processEvent pf _ gen e options =>
    ∃ tenantID sourceID, Admitted pf gen e options.effective tenantID sourceID db
      ∧ FirstPolicyParses pf tenantID db
  | _ => False

@[grind ←] theorem quiet_liftEventError {α : Type} (r : Except String α) :
    Quiet (liftEventError r) := by
  cases r <;> grind [liftEventError]

/-- The claimed rows are read to their end; each is then updated on an idle
connection. -/
theorem quiet_claimDeliveries (pf : EventPlatform) (now : Time) (locked : List String) (limit : ℤ) :
    Quiet (claimDeliveries pf now locked limit) := by
  have hpass : ∀ out item, Quiet (claimDelivery pf now out item) := by
    intro out item
    refine quiet_bind (quiet_exec _) fun _ => ?_
    cases pf.decrypt item.1.ackTokenCiphertext item.1.incidentID with
    | none => exact quiet_fail _
    | some token => cases prepareDeliveryPayload item.1.payload token <;> grind
  exact quiet_bind (quiet_exec _) fun _ => quiet_query_scanAll _ fun items =>
    quiet_fold hpass [] items

theorem quiet_acknowledgeByToken (pf : EventPlatform) (now : Time)
    (transitionID rawToken requestID traceID : String) :
    Quiet (acknowledgeByToken pf now transitionID rawToken requestID traceID) := by
  refine quiet_bind (quiet_queryRow _) fun token => quiet_bind (quiet_queryRow _) fun current => ?_
  refine quiet_ite (quiet_pure current) (quiet_bind (quiet_liftEventError _) ?_)
  grind

theorem EventCall.busy_iff (call : EventCall) (db : EventDB) :
    call.FailsBusy db ↔ call.Interleaves db := by
  have hquiet : ∀ {α : Type} {m : Tx EventDB α}, Quiet m → (Tx.FailsBusy true m db ↔ False) :=
    fun h => iff_false_intro (h.not_failsBusy true db)
  cases call with
  | processEvent pf now gen e options => exact processEvent_busy_iff pf now gen e options db
  | claimDeliveries pf now locked limit => exact hquiet (quiet_claimDeliveries pf now locked limit)
  | completeDelivery _ _ _ deliveryErr =>
    cases deliveryErr <;> exact hquiet (by grind [StormRelay.completeDelivery])
  | transitionIncident => exact hquiet (by grind [StormRelay.transitionIncident])
  | acknowledgeByToken => exact hquiet (quiet_acknowledgeByToken _ _ _ _ _ _)
  | recordAudit entry => exact hquiet (quiet_auditEvent entry)

/-! ### The whole store -/

/-- A call of any method of the store that runs a transaction, with the content
of the tables it finds; `σ` and `ρ` are the administrative tables and roles. -/
inductive StoreCall (σ ρ : Type) where
  | runbook (call : RunbookCall) (db : DB)
  | event (call : EventCall) (db : EventDB)
  | admin (call : Admin.Call σ ρ) (db : σ)

variable {σ ρ : Type}

def StoreCall.FailsBusy : StoreCall σ ρ → Prop
  | .runbook call db => call.FailsBusy db
  | .event call db => call.FailsBusy db
  | .admin call db => Tx.FailsBusy true call.body db

def StoreCall.Interleaves : StoreCall σ ρ → Prop
  | .runbook call db => call.Interleaves db
  | .event call db => call.Interleaves db
  | .admin _ _ => False

/-- **Which transactions meet their own open result set.**  For every call of
every store method and every content of the tables: the call fails with a busy
connection if and only if it is a `ProcessEvent` of a canonical event whose
tenant has an enabled policy, or an `AdvanceRunbookTimers` that finds an expired
pending approval. -/
theorem store_busy_iff (call : StoreCall σ ρ) : call.FailsBusy ↔ call.Interleaves := by
  cases call with
  | runbook call db | event call db => exact call.busy_iff db
  | admin call db => exact iff_false_intro (call.quiet_body.not_failsBusy true db)

/-! ### Both exceptions occur -/

/-- A document that matches every event of severity `critical`. -/
def pagePolicy : Policy.Document :=
  { apiVersion := "stormrelay.io/v1", kind := "Policy", id := "page", version := 1
    match_ := .mk [] [] none "severity" "critical" []
    actions := { notificationChannels := ["local-mock"] } }

def pagePlatform : EventPlatform :=
  { policy := { decodeYAML := fun _ => .ok pagePolicy, toLower := id, quote := id }
    uuid := some, sha256 := id, encrypt := fun _ _ => [], decrypt := fun _ _ => none }

def pageDB : EventDB :=
  { tenants := ["t"], sources := ["s"], rawEvents := [], normalizedEvents := [], duplicates := []
    incidents := [], transitions := [], incidentEvents := []
    policies := [{ id := "p", tenantID := "t", policyKey := "page", enabled := true
                   activeVersion := 1 }]
    policyVersions := [{ policyID := "p", version := 1, documentYAML := "page" }]
    channels := [], deliveries := [], ackTokens := [], audit := [] }

def pageEvent : Events.Event :=
  { id := "1", source := "urn:s", type := "alert", time := 0, dataContentType := "application/json"
    schemaVersion := "1.0", tenantID := "t", sourceID := "s", labels := some [("service", "web")]
    severity := .critical, rawPayload := [], fingerprint := "f", receivedAt := 0, requestID := "r" }

def pageIDs : Generated :=
  { rawID := "raw", normalizedID := "event", duplicateID := "dup", incidentID := "incident"
    transitionID := "transition", tokenID := "token", rawToken := "secret"
    deliveryIDs := ["delivery"], traceParent := "" }

def overdueDB : DB :=
  { audit := [], runbooks := [], runbookVersions := [], incidents := []
    executions :=
      [{ id := "x", tenantID := "t", incidentID := none, runbookVersionID := "v"
         status := .waitingApproval, dryRun := false, requestedBy := "ops", inputSnapshot := .null
         startedAt := some 0, finishedAt := none, pausedAt := none, cancelRequestedAt := none
         lastError := none, createdAt := 0, updatedAt := 0, version := 2 }]
    steps :=
      [{ id := "step", executionID := "x", position := 0, stepKey := "gate", name := none
         stepType := .approval
         immutableInput := { step := { id := "gate", type := .approval }, timeoutSeconds := 30
                             retry := { maxAttempts := 1, initialBackoffSeconds := 1
                                        maxBackoffSeconds := 1 } }
         status := .waitingApproval, timeoutSeconds := 30
         retryPolicy := { maxAttempts := 1, initialBackoffSeconds := 1, maxBackoffSeconds := 1 }
         attemptCount := 1, output := none, sanitizedError := none, correlationID := "x:gate"
         idempotencyKey := "k", startedAt := some 0, finishedAt := none, nextAttemptAt := 0
         waitUntil := none, leaseOwner := none, leaseExpiresAt := none, rollbackDefinition := none
         isRollback := false, rollbackOf := none, version := 2 }]
    approvals :=
      [{ id := "approval", tenantID := "t", executionStepID := "step", status := .pending
         requestedAt := 0, expiresAt := some 10, decidedAt := none, decidedBy := none
         reason := none, prompt := some "go?" }] }

/-- One enabled policy is enough to fail a canonical event, one expired approval
to fail the timers. -/
theorem busy_on_policy_and_approval :
    (StoreCall.event (.processEvent pagePlatform 0 pageIDs pageEvent
        { dedupeWindow := 0, correlationWindow := 0 }) pageDB : StoreCall Unit Unit).FailsBusy
      ∧ (StoreCall.runbook (.advance 20 [] "timer") overdueDB : StoreCall Unit Unit).FailsBusy := by
  constructor
  · show Tx.FailsBusy true (processEvent _ _ _ _ _) _
    decide +kernel
  · show Tx.FailsBusy true (advanceRunbookTimers _ _ _) _
    decide +kernel

end StormRelay
