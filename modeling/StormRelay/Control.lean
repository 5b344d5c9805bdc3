/-
Approvals and operator control
(`internal/storage/approvals.go`, `execution_control.go`, `executions.go`).

`OpenApproval` and `DecideApproval`; pause, resume and cancel
(`ChangeExecutionState`); `RetryExecutionStep`; `StartExecutionRollback`;
`StartExecution`; and the condition inputs a running step is judged by.
Identifiers that the code generates are arguments.
-/
import StormRelay.Scheduler

namespace StormRelay

open Tx

/-! ### Approvals -/

def waitingApprovalRow (approvalID prompt : String) (es : ExecutionStep) : ExecutionStep :=
  { es with
    status := .waitingApproval
    output := some (.obj [("approval_id", .str approvalID), ("status", .str "pending"),
      ("prompt", .str prompt)])
    leaseOwner := none, leaseExpiresAt := none, version := es.version + 1 }

def waitingApprovalExecution (now : Time) (e : Execution) : Execution :=
  { e with status := .waitingApproval, updatedAt := now, version := e.version + 1 }

/-- The row `OpenApproval` inserts when the step has none yet. -/
def newApproval (now : Time) (approvalID : String) (step : ClaimedStep) (prompt : String)
    (expiresAt : Option Time) : Approval :=
  { id := approvalID, tenantID := step.tenantID, executionStepID := step.step.id
    status := .pending, requestedAt := now, expiresAt := expiresAt, decidedAt := none
    decidedBy := none, reason := none, prompt := some prompt }

/-- The step waits, without a lease, for a new approval or for the one it has. -/
def openApproval (now : Time) (approvalID : String) (step : ClaimedStep) (workerID prompt : String)
    (expiresAt : Option Time) : Tx DB Approval := do
  let prompt ← bindText (some prompt)
  let out ← statement (DB.insertApproval (newApproval now approvalID step prompt expiresAt))
  let affected ← exec (DB.updateSteps (leasedTo step.step.id workerID)
    (waitingApprovalRow out.id prompt))
  if affected ≠ 1 then fail "approval step lease lost"
  else
    let _ ← exec (DB.updateExecutions (fun e => e.id = step.step.executionID)
      (waitingApprovalExecution now))
    appendAudit
      { tenantID := step.tenantID, actorType := "service", actorID := workerID
        action := "approval.requested", resourceType := "approval", resourceID := out.id }
    pure out

/-- The `decision` argument of `DecideApproval`. -/
inductive Decision where
  | approved
  | rejected
  | other (text : String)
deriving DecidableEq, Repr

def Decision.text : Decision → String
  | .approved => "approved"
  | .rejected => "rejected"
  | .other text => text

def Decision.status : Decision → ApprovalStatus
  | .approved => .approved
  | _ => .rejected

def decideApprovalRow (now : Time) (decision : Decision) (actor reason : String) (a : Approval) :
    Approval :=
  { a with
    status := decision.status, decidedAt := some now
    decidedBy := some (defaultText actor "unknown")
    reason := if reason = "" then none else some reason }

def decidedRow (now : Time) (decision : Decision) (approvalID actor reason : String)
    (es : ExecutionStep) : ExecutionStep :=
  { es with
    status := if decision = .rejected then .failed else .completed
    output := some (.obj [("approval_id", .str approvalID), ("status", .str decision.text),
      ("decided_by", .str actor), ("reason", .str reason)])
    finishedAt := some now, version := es.version + 1 }

def approvedExecution (now : Time) (e : Execution) : Execution :=
  { e with status := .running, updatedAt := now, version := e.version + 1 }

def rejectedExecution (now : Time) (e : Execution) : Execution :=
  { e with
    status := .failed, finishedAt := some now, lastError := some "approval rejected"
    updatedAt := now, version := e.version + 1 }

def approvalWithStep (tenantID approvalID : String) (db : DB) :
    Option (Approval × ExecutionStep) := do
  let a ← db.approvals.find? fun a => a.tenantID = tenantID && a.id = approvalID
  let es ← db.step? a.executionStepID
  pure (a, es)

/-- Decides a pending approval and its step; the expiry is not looked at. -/
def decideApproval (now : Time) (tenantID approvalID : String) (decision : Decision)
    (actor reason requestID traceID : String) : Tx DB Unit := do
  if decision ≠ .approved ∧ decision ≠ .rejected then fail "decision must be approved or rejected"
  else
    let (a, es) ← queryRow (approvalWithStep tenantID approvalID)
    if a.status ≠ .pending then fail ("approval is already " ++ a.status.text)
    else
      let reason ← bindText (some reason)
      let _ ← exec (DB.updateApprovals (fun x => x.id = approvalID)
        (decideApprovalRow now decision actor reason))
      let _ ← exec (DB.updateSteps (fun x => x.id = es.id)
        (decidedRow now decision approvalID actor reason))
      if decision = .approved then
        let _ ← exec (DB.updateExecutions (fun e => e.id = es.executionID) (approvedExecution now))
        finalizeExecutionIfDone now es.executionID
      else
        let _ ← exec (DB.updateExecutions (fun e => e.id = es.executionID) (rejectedExecution now))
      appendAudit
        { tenantID := tenantID, actorType := "user", actorID := defaultText actor "unknown"
          action := "approval." ++ decision.text, resourceType := "approval"
          resourceID := approvalID, requestID := requestID, traceID := traceID }

/-! ### `ChangeExecutionState` -/

/-- The `action` argument of `ChangeExecutionState`. -/
inductive ControlAction where
  | pause
  | resume
  | cancel
  | other (text : String)
deriving DecidableEq, Repr

def ControlAction.text : ControlAction → String
  | .pause => "pause"
  | .resume => "resume"
  | .cancel => "cancel"
  | .other text => text

def ownedExecution (tenantID executionID : String) (db : DB) : Option Execution :=
  db.executions.find? fun e => e.tenantID = tenantID && e.id = executionID

def pausedExecution (now : Time) (e : Execution) : Execution :=
  { e with status := .paused, pausedAt := some now, updatedAt := now, version := e.version + 1 }

def resumedExecution (now : Time) (e : Execution) : Execution :=
  { e with
    status := .running, pausedAt := none, lastError := none, updatedAt := now
    version := e.version + 1 }

def canceledExecution (now : Time) (e : Execution) : Execution :=
  { e with
    status := .canceled, cancelRequestedAt := some now, finishedAt := some now, updatedAt := now
    version := e.version + 1 }

def cancelable (es : ExecutionStep) : Bool :=
  es.status = .pending || es.status = .retrying || es.status = .waiting
    || es.status = .waitingApproval

def canceledRow (now : Time) (es : ExecutionStep) : ExecutionStep :=
  { es with
    status := .canceled, finishedAt := some now, leaseOwner := none, leaseExpiresAt := none
    version := es.version + 1 }

/-- Pauses, resumes or cancels.  A cancel leaves the steps in flight to their
workers. -/
def changeExecutionState (now : Time) (tenantID executionID : String) (action : ControlAction)
    (actor requestID traceID : String) : Tx DB Unit := do
  let e ← queryRow (ownedExecution tenantID executionID)
  match action with
  | .pause =>
    if e.status ≠ .running then fail "only running execution can be paused"
    else
      let _ ← exec (DB.updateExecutions (fun x => x.id = executionID) (pausedExecution now))
  | .resume =>
    if e.status ≠ .paused then fail "only paused execution can be resumed"
    else
      let _ ← exec (DB.updateExecutions (fun x => x.id = executionID) (resumedExecution now))
  | .cancel =>
    if e.status = .completed ∨ e.status = .canceled ∨ e.status = .rolledBack then
      fail "execution is already terminal"
    else
      let _ ← exec (DB.updateExecutions (fun x => x.id = executionID) (canceledExecution now))
      let _ ← exec (DB.updateSteps (fun es => es.executionID = executionID && cancelable es)
        (canceledRow now))
  | .other text => fail ("unsupported execution action " ++ GoStd.quote text)
  appendAudit
    { tenantID := tenantID, actorType := "api-key", actorID := defaultText actor "unknown"
      action := "execution." ++ action.text, resourceType := "execution", resourceID := executionID
      requestID := requestID, traceID := traceID }

/-! ### `RetryExecutionStep` -/

def retryRow (now : Time) (es : ExecutionStep) : ExecutionStep :=
  { es with
    status := .retrying, nextAttemptAt := now, finishedAt := none, leaseOwner := none
    leaseExpiresAt := none, sanitizedError := none, version := es.version + 1 }

def retriedExecution (now : Time) (e : Execution) : Execution :=
  { e with
    status := .running, finishedAt := none, lastError := none, updatedAt := now
    version := e.version + 1 }

/-- A step of an execution of the tenant. -/
def ownedStep (tenantID executionID stepID : String) (db : DB) : Option ExecutionStep := do
  let _ ← ownedExecution tenantID executionID db
  db.steps.find? fun es => es.executionID = executionID && es.id = stepID

/-- An operator's retry, however many attempts there have been. -/
def retryExecutionStep (now : Time) (tenantID executionID stepID actor requestID traceID : String)
    (force : Bool) : Tx DB Unit := do
  let es ← queryRow (ownedStep tenantID executionID stepID)
  if es.status ≠ .failed ∧ es.status ≠ .ambiguous then
    fail "only failed or ambiguous steps can be retried"
  else if es.status = .ambiguous ∧ idempotent es = false ∧ force = false then
    fail "force=true is required to retry an ambiguous non-idempotent step"
  else
    let _ ← exec (DB.updateSteps (fun x => x.id = stepID) (retryRow now))
    let _ ← exec (DB.updateExecutions (fun e => e.id = executionID) (retriedExecution now))
    appendAudit
      { tenantID := tenantID, actorType := "api-key", actorID := defaultText actor "unknown"
        action := "execution_step.retry_requested", resourceType := "execution_step"
        resourceID := stepID, requestID := requestID, traceID := traceID }

/-! ### `StartExecutionRollback` -/

/-- The completed forward steps that define a rollback, last position first. -/
def rollbackSources (executionID : String) (db : DB) : List (ExecutionStep × Action) :=
  let eligible := db.steps.filterMap fun es =>
    if es.executionID = executionID && !es.isRollback && es.status = .completed then
      es.rollbackDefinition.map fun action => (es, action)
    else none
  eligible.insertionSort fun a b => b.1.position ≤ a.1.position

def rollbackStep (source : ExecutionStep) (action : Action) : Step :=
  { id := "rollback-" ++ source.stepKey, name := "Rollback " ++ source.stepKey, type := action.type
    timeout := action.timeout, retry := action.retry, inputs := action.inputs }

def rollbackRow (now : Time) (executionID rollbackID : String) (position : ℕ)
    (source : ExecutionStep) (step : Step) (timeout : ℤ) (retry : RetryParsed) : ExecutionStep :=
  { id := rollbackID, executionID := executionID, position := position, stepKey := step.id
    name := some step.name, stepType := step.type
    immutableInput := { step := step, timeoutSeconds := timeout, retry := retry }
    status := .pending, timeoutSeconds := timeout, retryPolicy := retry, attemptCount := 0
    output := none, sanitizedError := none, correlationID := executionID ++ ":" ++ step.id
    idempotencyKey := "runbook:" ++ executionID ++ ":" ++ step.id
    startedAt := none, finishedAt := none, nextAttemptAt := now, waitUntil := none
    leaseOwner := none, leaseExpiresAt := none, rollbackDefinition := none, isRollback := true
    rollbackOf := some source.id, version := 1 }

def liftError {α : Type} (r : Except String α) : Tx DB α :=
  match r with
  | .ok a => pure a
  | .error message => fail message

/-- The loop over the sources; `ids` are the generated identifiers. -/
def insertRollbackSteps (now : Time) (executionID : String) :
    ℕ → List (ExecutionStep × Action) → List String → Tx DB Unit
  | _, [], _ => pure ()
  | _, _ :: _, [] => fail "generate id"
  | position, (source, action) :: sources, rollbackID :: ids => do
    let step := rollbackStep source action
    let timeout ← liftError (timeoutSeconds step)
    let retry ← liftError (parsedRetry step.retry)
    insert (DB.insertStep (rollbackRow now executionID rollbackID position source step
      timeout retry))
    insertRollbackSteps now executionID (position + 1) sources ids

def rollingBackExecution (now : Time) (e : Execution) : Execution :=
  { e with
    status := .rollingBack, finishedAt := none, lastError := none, updatedAt := now
    version := e.version + 1 }

/-- Adds one step for each completed step that defines a rollback, once. -/
def startExecutionRollback (now : Time) (ids : List String)
    (tenantID executionID actor requestID traceID : String) : Tx DB Unit := do
  let e ← queryRow (ownedExecution tenantID executionID)
  if e.status ≠ .completed ∧ e.status ≠ .failed ∧ e.status ≠ .ambiguous then
    fail "rollback requires completed, failed, or ambiguous execution"
  else
    let existingRollback ← queryRow fun db =>
      some (db.steps.countP fun es => es.executionID = executionID && es.isRollback)
    if existingRollback > 0 then fail "rollback is already initialized"
    else
      let rows ← query fun db => (rollbackSources executionID db, db)
      let sources ← scanAll rows
      close
      if sources = [] then fail "execution has no completed steps with rollback definitions"
      else
        insertRollbackSteps now executionID 0 sources ids
        let _ ← exec (DB.updateExecutions (fun x => x.id = executionID) (rollingBackExecution now))
        appendAudit
          { tenantID := tenantID, actorType := "api-key", actorID := defaultText actor "unknown"
            action := "execution.rollback_started", resourceType := "execution"
            resourceID := executionID, requestID := requestID, traceID := traceID }

/-! ### `StartExecution` -/

/-- The arguments of `StartExecution`; `traceParent` is that of its context. -/
structure StartExecutionInput where
  tenantID : String
  runbookKey : String
  incidentID : String := ""
  requestedBy : String := ""
  dryRun : Bool := false
  parameters : Json := .null
  requestID : String := ""
  traceID : String := ""
  traceParent : String := ""

def Step.stored (step : Step) : Step :=
  { step with
    http := none, wait := none, approval := none, plugin := none
    rollback := step.rollback.map fun action => { action with http := none, plugin := none } }

def forwardRow (now : Time) (doc : Document) (executionID stepID : String) (position : ℕ)
    (step : Step) (timeout : ℤ) (retry : RetryParsed) : ExecutionStep :=
  { id := stepID, executionID := executionID, position := position, stepKey := step.id
    name := if step.name = "" then none else some step.name
    stepType := step.type
    immutableInput :=
      { runbookID := doc.metadata.id, runbookVersion := doc.metadata.version, step := step.stored
        timeoutSeconds := timeout, retry := retry }
    status := .pending, timeoutSeconds := timeout, retryPolicy := retry, attemptCount := 0
    output := none, sanitizedError := none, correlationID := executionID ++ ":" ++ step.id
    idempotencyKey := "runbook:" ++ executionID ++ ":step:" ++ step.id
    startedAt := none, finishedAt := none, nextAttemptAt := now, waitUntil := none
    leaseOwner := none, leaseExpiresAt := none
    rollbackDefinition := step.stored.rollback
    isRollback := false, rollbackOf := none, version := 1 }

/-- The loop over the document's steps; `ids` are the generated identifiers. -/
def insertForwardSteps (pf : Platform) (now : Time) (doc : Document) (executionID : String) :
    ℕ → List Step → List String → Tx DB Unit
  | _, [], _ => pure ()
  | _, _ :: _, [] => fail "generate id"
  | position, step :: steps, stepID :: ids => do
    let timeout ← liftError (timeoutSeconds step)
    let retry ← liftError (parsedRetry step.retry)
    let row := forwardRow now doc executionID stepID position step timeout retry
    if pf.snapshotStorable row.immutableInput = false then fail "snapshot cannot be stored"
    else
      insert (DB.insertStep row)
      insertForwardSteps pf now doc executionID (position + 1) steps ids

/-- The enabled runbook of the key, in its active version. -/
def activeRunbook (tenantID runbookKey : String) (db : DB) : Option (Runbook × RunbookVersion) := do
  let r ← db.runbooks.find? fun r => r.tenantID = tenantID && r.runbookKey = runbookKey && r.enabled
  let rv ← db.runbookVersions.find? fun rv => rv.runbookID = r.id && rv.version = r.activeVersion
  pure (r, rv)

def newExecution (now : Time) (executionID : String) (rv : RunbookVersion) (incident : Json)
    (input : StartExecutionInput) : Execution :=
  { id := executionID, tenantID := input.tenantID
    incidentID := if input.incidentID = "" then none else some input.incidentID
    runbookVersionID := rv.id, status := .running, dryRun := input.dryRun
    requestedBy := defaultText input.requestedBy "unknown"
    inputSnapshot := .obj [("incident", incident), ("parameters", input.parameters),
      ("runbook_key", .str input.runbookKey), ("runbook_version", .num (toString rv.version)),
      ("traceparent", .str input.traceParent)]
    startedAt := some now, finishedAt := none, pausedAt := none, cancelRequestedAt := none
    lastError := none, createdAt := now, updatedAt := now, version := 1 }

/-- A member that `omitempty` leaves out when it is empty. -/
def omitEmpty (name value : String) : List (String × Json) :=
  if value = "" then [] else [(name, .str value)]

def IncidentRecord.json (i : IncidentRecord) : Json :=
  .obj ([("id", .str i.id), ("tenant_id", .str i.tenantID), ("title", .str i.title),
    ("state", .str i.state), ("severity", .str i.severity)]
      ++ omitEmpty "service" i.service ++ omitEmpty "environment" i.environment ++ i.rest)

/-- The incident of the request, `null` when it names none. -/
def incidentJSON (input : StartExecutionInput) (db : DB) : Option Json :=
  if input.incidentID = "" then some .null
  else (db.incidents.find? fun i => i.tenantID = input.tenantID && i.id = input.incidentID).map
    fun i => i.json

/-- Starts the active version, whose document is parsed again, on new steps. -/
def startExecution (pf : Platform) (now : Time) (executionID : String) (ids : List String)
    (input : StartExecutionInput) : Tx DB Unit := do
  let (_, rv) ← queryRow (activeRunbook input.tenantID input.runbookKey)
  let doc ← liftError (label "stored runbook is invalid" (parse pf rv.documentYAML))
  let incident ← queryRow (incidentJSON input)
  let execution := newExecution now executionID rv incident input
  let _ ← bindJSON (some execution.inputSnapshot)
  insert (DB.insertExecution execution)
  insertForwardSteps pf now doc executionID 0 doc.spec.steps ids
  appendAudit
    { tenantID := input.tenantID, actorType := "api-key"
      actorID := defaultText input.requestedBy "unknown", action := "execution.started"
      resourceType := "execution", resourceID := executionID, requestID := input.requestID
      traceID := input.traceID }

/-! ### Condition inputs -/

/-- `fmt.Sprint` of a decoded scalar. -/
def scalarString : Json → Option String
  | .str s => some s
  | .bool b => some (if b then "true" else "false")
  | .num text => some text
  | .null => some "<nil>"
  | _ => none

def Json.members : Json → List (String × Json)
  | .obj members => members
  | _ => []

/-- The entries of one step; its status is written first. -/
def stepInputs (es : ExecutionStep) : List (String × String) :=
  let outputs := ((es.output.getD .null).members).filterMap fun (name, value) =>
    (scalarString value).map fun text => ("steps." ++ es.stepKey ++ ".output." ++ name, text)
  outputs.reverse ++ [("steps." ++ es.stepKey ++ ".status", es.status.text)]

/-- The entries of the incident embedded in the execution's input; the members
it reads are strings. -/
def incidentInputs (input : Json) : List (String × String) :=
  let incident := ((input.members.lookup "incident").getD .null).members
  ["id", "state", "severity", "service", "environment", "title"].filterMap fun key =>
    (incident.lookup key).bind fun value =>
      (scalarString value).map fun text => ("incident." ++ key, text)

/-- `ExecutionConditionInputs`: a Go map as the list of its writes, latest
first. -/
def executionConditionInputs (executionID : String) (db : DB) : Option (List (String × String)) :=
  (db.execution? executionID).map fun e =>
    let own := (db.steps.filter fun es => es.executionID = executionID).insertionSort
      fun a b => a.position ≤ b.position
    (own.reverse.flatMap stepInputs) ++ incidentInputs e.inputSnapshot
      ++ [("execution.dry_run", if e.dryRun then "true" else "false")]

end StormRelay
