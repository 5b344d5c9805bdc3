/-
Claiming, recovering and completing steps
(`internal/storage/execution_scheduler.go`).

Every store method is a transaction body over the runbook tables.  The time
`now` is the transaction's `now()`; `locked` is the set of rows that
`FOR UPDATE … SKIP LOCKED` finds locked by other transactions and passes over,
`order` the order of an answer that the query leaves open.
-/
import StormRelay.Schema

namespace StormRelay

open Tx Table

/-! ### `ClaimExecutionSteps` -/

/-- The `NOT EXISTS` clause: some earlier step of the same phase has not
finished. -/
def earlierUnfinished (db : DB) (es : ExecutionStep) : Bool :=
  db.steps.any fun previous =>
    previous.executionID = es.executionID && previous.isRollback = es.isRollback
      && previous.position < es.position && !previous.status.finished

/-- The `WHERE` clause of the candidate query. -/
def claimable (db : DB) (now : Time) (e : Execution) (es : ExecutionStep) : Bool :=
  (e.status = .running || e.status = .rollingBack)
    && e.cancelRequestedAt.isNone
    && (es.status = .pending || es.status = .retrying)
    && es.nextAttemptAt ≤ now
    && ((e.status = .running && !es.isRollback) || (e.status = .rollingBack && es.isRollback))
    && !earlierUnfinished db es

/-- The candidate query: `ORDER BY e.created_at,es.position`, locked rows
skipped, at most `limit` rows. -/
def candidates (db : DB) (now : Time) (locked : List String) (limit : ℕ) : List String :=
  let joined := db.steps.filterMap fun es =>
    match db.execution? es.executionID with
    | some e =>
      if claimable db now e es && es.id ∉ locked then some (e.createdAt, es.position, es.id)
      else none
    | none => none
  let ordered := joined.insertionSort fun a b => a.1 < b.1 ∨ (a.1 = b.1 ∧ a.2.1 ≤ b.2.1)
  (ordered.take limit).map fun c => c.2.2

/-- A claim counts its attempt before it is made. -/
def claimRow (now : Time) (workerID : String) (lease : ℤ) (es : ExecutionStep) : ExecutionStep :=
  { es with
    status := if es.isRollback then .rollingBack else .running
    leaseOwner := some workerID
    leaseExpiresAt := some (now + lease)
    attemptCount := es.attemptCount + 1
    startedAt := some (es.startedAt.getD now)
    version := es.version + 1 }

/-- What `RETURNING` gives back for a claimed row. -/
def claimedStep (e : Execution) (es : ExecutionStep) : ClaimedStep :=
  { step := es, tenantID := e.tenantID, incidentID := e.incidentID, dryRun := e.dryRun
    executionInput := e.inputSnapshot }

/-- The claiming `UPDATE … RETURNING`. -/
def claimUpdate (now : Time) (locked : List String) (workerID : String) (limit : ℕ) (lease : ℤ)
    (db : DB) : List ClaimedStep × DB :=
  let ids := candidates db now locked limit
  let claimed := db.steps.filterMap fun es =>
    if es.id ∈ ids then
      (db.execution? es.executionID).map fun e => claimedStep e (claimRow now workerID lease es)
    else none
  (claimed, (db.updateSteps (fun es => es.id ∈ ids) (claimRow now workerID lease)).2)

def claimLimit (limit : ℤ) : ℕ :=
  if limit ≤ 0 ∨ limit > 100 then 10 else limit.toNat

def claimLease (lease : ℤ) : ℤ :=
  if lease < 5 * second then 30 * second else lease

/-- One `UPDATE` picks the steps and leases them to the worker. -/
def claimExecutionSteps (now : Time) (locked : List String) (workerID : String) (limit : ℤ)
    (lease : ℤ) : Tx DB (List ClaimedStep) := do
  let rows ← query (claimUpdate now locked workerID (claimLimit limit) (claimLease lease))
  scanAll rows

/-! ### `RecoverExpiredStepLeases` -/

/-- The receiver can tell a repeated request of the step from a new one. -/
def idempotent (es : ExecutionStep) : Bool :=
  es.stepType = .plugin
    || (es.stepType = .http && es.immutableInput.step.inputs.idempotencyHeader ≠ "")

/-- The `WHERE` clause of the recovery query, with its join. -/
def leaseExpired (db : DB) (now : Time) (locked : List String) (es : ExecutionStep) : Bool :=
  es.status.inFlight && es.leaseExpiresAt.any (fun t => t ≤ now)
    && (db.execution? es.executionID).isSome && es.id ∉ locked

theorem inFlight_of_leaseExpired {db : DB} {now : Time} {locked : List String}
    {es : ExecutionStep} (h : leaseExpired db now locked es = true) :
    es.status.inFlight = true := by
  simp only [leaseExpired, Bool.and_eq_true] at h
  exact h.1.1.1

/-- The step is tried again; any other expired step becomes ambiguous. -/
def recoverable (es : ExecutionStep) : Bool :=
  idempotent es && (es.attemptCount : ℤ) < es.immutableInput.retry.maxAttempts

def recoverMessage (es : ExecutionStep) : String :=
  if recoverable es then
    "worker lease expired; safely scheduled retry using idempotency protection"
  else "worker lease expired; remote outcome is unknown"

/-- The row recovery writes for the expired step `x`. -/
def recoverRow (now : Time) (x es : ExecutionStep) : ExecutionStep :=
  { es with
    status := if recoverable x then .retrying else .ambiguous
    leaseOwner := none
    leaseExpiresAt := none
    nextAttemptAt := now
    sanitizedError := some (recoverMessage x)
    version := es.version + 1 }

/-- The execution row recovery writes for the expired step `x`. -/
def recoverExecution (now : Time) (x : ExecutionStep) (e : Execution) : Execution :=
  { e with
    status := if recoverable x then .running else .ambiguous
    lastError := some (recoverMessage x)
    updatedAt := now
    version := e.version + 1 }

def tenantOf (db : DB) (executionID : String) : String :=
  ((db.execution? executionID).map fun e => e.tenantID).getD ""

/-- The answer to the recovery query, which has no `ORDER BY`: `order` lists the
ids of the rows as the database returns them. -/
def expiredRows (now : Time) (locked order : List String) (db : DB) : List ExecutionStep :=
  arrange ExecutionStep.id order (db.steps.filter (leaseExpired db now locked))

/-- The rows are collected first and then handled one after the other, so the
execution ends with what the last of its rows wrote. -/
def recoverExpiredStepLeases (now : Time) (locked order : List String) (actor : String) :
    Tx DB ℕ := do
  let rows ← query fun db =>
    ((expiredRows now locked order db).map fun es => (es, tenantOf db es.executionID), db)
  let items ← scanAll rows
  close
  each items fun (x, tenantID) => do
    let _ ← exec (DB.updateSteps (fun es => es.id = x.id) (recoverRow now x))
    let _ ← exec (DB.updateExecutions (fun e => e.id = x.executionID) (recoverExecution now x))
    appendAudit
      { tenantID := tenantID, actorType := "service"
        actorID := defaultText actor "runbook-recovery"
        action := "execution_step.lease_expired", resourceType := "execution_step"
        resourceID := x.id }
  pure items.length

/-! ### `finalizeExecutionIfDone` -/

/-- The execution's status and the number of its steps that are not settled;
no row when the execution has no steps. -/
def remainingSteps (executionID : String) (db : DB) : Option (ExecutionStatus × ℕ) :=
  match db.execution? executionID with
  | none => none
  | some e =>
    let own := db.steps.filter fun es => es.executionID = e.id
    if own.isEmpty then none
    else some (e.status, own.countP fun es => !es.status.settled)

def finalizeRow (now : Time) (final : ExecutionStatus) (e : Execution) : Execution :=
  { e with status := final, finishedAt := some now, updatedAt := now, version := e.version + 1 }

/-- Ends a running or rolling back execution whose steps have all settled. -/
def finalizeExecutionIfDone (now : Time) (executionID : String) : Tx DB Unit := do
  let (status, remaining) ← queryRow (remainingSteps executionID)
  if remaining ≠ 0 ∨ (status ≠ .running ∧ status ≠ .rollingBack) then pure ()
  else
    let final := if status = .rollingBack then .rolledBack else .completed
    let _ ← exec (DB.updateExecutions (fun e => e.id = executionID) (finalizeRow now final))

/-! ### `ScheduleWait` and `AdvanceRunbookTimers` -/

/-- `WHERE id=$1 AND lease_owner=$n`. -/
def leasedTo (stepID workerID : String) (es : ExecutionStep) : Bool :=
  es.id = stepID && es.leaseOwner = some workerID

theorem leasedTo_id {stepID workerID : String} {es : ExecutionStep}
    (h : leasedTo stepID workerID es = true) : es.id = stepID := by
  simp only [leasedTo, Bool.and_eq_true, decide_eq_true_eq] at h
  exact h.1

def waitRow (until_ : Time) (es : ExecutionStep) : ExecutionStep :=
  { es with
    status := .waiting, waitUntil := some until_, nextAttemptAt := until_
    leaseOwner := none, leaseExpiresAt := none, version := es.version + 1 }

/-- The step sleeps until `until_` without a lease. -/
def scheduleWait (step : ClaimedStep) (until_ : Time) (actor : String) : Tx DB Unit := do
  let affected ← exec (DB.updateSteps
    (fun es => leasedTo step.step.id actor es && es.status = .running) (waitRow until_))
  if affected ≠ 1 then fail "wait step lease lost" else pure ()

def waitDue (now : Time) (es : ExecutionStep) : Bool :=
  es.status = .waiting && es.waitUntil.any (fun t => t ≤ now)

theorem waiting_of_waitDue {now : Time} {es : ExecutionStep} (h : waitDue now es = true) :
    es.status = .waiting := by
  simp only [waitDue, Bool.and_eq_true, decide_eq_true_eq] at h
  exact h.1

def timerRow (now : Time) (es : ExecutionStep) : ExecutionStep :=
  { es with
    status := .completed, finishedAt := some now
    output := some (.obj [("wait", .str "completed")]), waitUntil := none
    version := es.version + 1 }

def approvalExpired (db : DB) (now : Time) (locked : List String) (a : Approval) : Bool :=
  a.status = .pending && a.expiresAt.any (fun t => t ≤ now) && (db.step? a.executionStepID).isSome
    && a.id ∉ locked

def expireApproval (now : Time) (a : Approval) : Approval :=
  { a with status := .expired, decidedAt := some now, reason := some "approval timeout" }

def expireRow (now : Time) (es : ExecutionStep) : ExecutionStep :=
  { es with
    status := .failed, finishedAt := some now, sanitizedError := some "approval expired"
    version := es.version + 1 }

def expireExecution (now : Time) (e : Execution) : Execution :=
  { e with
    status := .failed, finishedAt := some now, lastError := some "approval expired"
    updatedAt := now, version := e.version + 1 }

def executionOf (db : DB) (stepID : String) : String :=
  ((db.step? stepID).map fun es => es.executionID).getD ""

/-- Completes the waits that are due, then fails the steps whose approval has
expired. -/
def advanceRunbookTimers (now : Time) (locked : List String) (actor : String) : Tx DB ℕ := do
  let rows ← query fun db =>
    ((db.steps.filter (waitDue now)).map fun es => es.executionID,
      (db.updateSteps (waitDue now) (timerRow now)).2)
  let items ← scanAll rows
  close
  each items (finalizeExecutionIfDone now)
  let expired ← query fun db =>
    ((db.approvals.filter (approvalExpired db now locked)).map fun a =>
      (a, executionOf db a.executionStepID), db)
  -- The result set is still open while the loop body sends its statements.
  eachRow expired fun (a, executionID) => do
    let _ ← exec (DB.updateApprovals (fun x => x.id = a.id) (expireApproval now))
    let _ ← exec (DB.updateSteps (fun es => es.id = a.executionStepID) (expireRow now))
    let _ ← exec (DB.updateExecutions (fun e => e.id = executionID) (expireExecution now))
    appendAudit
      { tenantID := a.tenantID, actorType := "service", actorID := defaultText actor "runbook-timer"
        action := "approval.expired", resourceType := "approval", resourceID := a.id }
  close
  pure items.length

/-! ### `CompleteExecutionStep` and `MarkExecutionStepAmbiguous` -/

/-- `retryBackoff`, in whole seconds.  `hash` is the first byte of the seed's
SHA-256; the jitter `0.75 + (hash/255)·0.5` is `(765 + 2·hash)/1020`. -/
def retryBackoff (retry : RetryParsed) (attempt : ℕ) (hash : ℕ) : ℤ :=
  let base := min (retry.initialBackoffSeconds * 2 ^ (attempt - 1)) retry.maxBackoffSeconds
  base * (765 + 2 * (hash : ℤ)) / 1020

/-- The first byte of the hash of seed and attempt. -/
def jitterByte (pf : Platform) (seed : String) (attempt : ℕ) : ℕ :=
  ((pf.sha256 (seed ++ ":" ++ toString attempt)).headD 0).toNat

def completeRow (now : Time) (status : StepStatus) (output : Option Json) (es : ExecutionStep) :
    ExecutionStep :=
  { es with
    status := status, output := output, finishedAt := some now, sanitizedError := none
    leaseOwner := none, leaseExpiresAt := none, version := es.version + 1 }

def retryLaterRow (now : Time) (message : String) (backoff : ℤ) (es : ExecutionStep) :
    ExecutionStep :=
  { es with
    status := .retrying, sanitizedError := some message
    nextAttemptAt := now + backoff * second
    leaseOwner := none, leaseExpiresAt := none, version := es.version + 1 }

def failRow (now : Time) (message : String) (es : ExecutionStep) : ExecutionStep :=
  { es with
    status := .failed, sanitizedError := some message, finishedAt := some now
    leaseOwner := none, leaseExpiresAt := none, version := es.version + 1 }

def failExecution (now : Time) (message : String) (e : Execution) : Execution :=
  { e with
    status := .failed, finishedAt := some now, lastError := some message, updatedAt := now
    version := e.version + 1 }

/-- A step that reports no error has completed, been skipped or been rolled back. -/
def completionStatus (status : StepStatus) : StepStatus :=
  if status ≠ .completed ∧ status ≠ .skipped ∧ status ≠ .rolledBack then .completed else status

/-- `UPDATE execution_steps … WHERE id=$1 AND lease_owner=$n`: the number of
rows it touches is not looked at. -/
def updateLeased (stepID workerID : String) (f : ExecutionStep → ExecutionStep) : Tx DB Unit := do
  let _ ← exec (DB.updateSteps (leasedTo stepID workerID) f)

/-- The row of a step together with its execution's tenant. -/
def stepWithTenant (stepID : String) (db : DB) : Option (ExecutionStep × String) := do
  let es ← db.step? stepID
  let e ← db.execution? es.executionID
  pure (es, e.tenantID)

/-- Records the result of an attempt on a step in flight.  A worker that has lost
the lease writes no step and is not told. -/
def completeExecutionStep (pf : Platform) (now : Time) (step : ClaimedStep) (workerID : String)
    (status : StepStatus) (output : Option Json) (executionErr : Option String) : Tx DB Unit := do
  let (row, tenantID) ← queryRow (stepWithTenant step.step.id)
  if row.status.inFlight = false then fail "step is not running"
  else
    match executionErr with
    | none =>
      let output ← bindJSON output
      updateLeased step.step.id workerID (completeRow now (completionStatus status) output)
      finalizeExecutionIfDone now step.step.executionID
    | some err =>
      let message ← bindText (truncate err 1000)
      if (row.attemptCount : ℤ) < row.retryPolicy.maxAttempts then
        updateLeased step.step.id workerID
          (retryLaterRow now message (retryBackoff row.retryPolicy row.attemptCount
            (jitterByte pf step.step.id row.attemptCount)))
      else
        updateLeased step.step.id workerID (failRow now message)
        let _ ← exec (DB.updateExecutions (fun e => e.id = step.step.executionID)
          (failExecution now message))
    appendAudit
      { tenantID := tenantID, actorType := "service", actorID := workerID
        action :=
          if executionErr.isNone then "execution_step.completed" else "execution_step.failed"
        resourceType := "execution_step", resourceID := step.step.id }

def ambiguousRow (now : Time) (message : String) (es : ExecutionStep) : ExecutionStep :=
  { es with
    status := .ambiguous, sanitizedError := some message, finishedAt := some now
    leaseOwner := none, leaseExpiresAt := none, version := es.version + 1 }

def ambiguousExecution (now : Time) (message : String) (e : Execution) : Execution :=
  { e with
    status := .ambiguous, lastError := some message, updatedAt := now, version := e.version + 1 }

/-- The text `MarkExecutionStepAmbiguous` records. -/
def ambiguousMessage (executionErr : Option String) : Option String :=
  match executionErr with
  | none => some "remote outcome is ambiguous"
  | some err => truncate err 1000

/-- Nobody knows what the attempt has done: the step waits for an operator. -/
def markExecutionStepAmbiguous (now : Time) (step : ClaimedStep) (workerID : String)
    (executionErr : Option String) : Tx DB Unit := do
  let message ← bindText (ambiguousMessage executionErr)
  let affected ← exec (DB.updateSteps
    (fun es => leasedTo step.step.id workerID es && es.status.inFlight)
    (ambiguousRow now message))
  if affected ≠ 1 then fail "step lease lost"
  else
    let _ ← exec (DB.updateExecutions (fun e => e.id = step.step.executionID)
      (ambiguousExecution now message))
    appendAudit
      { tenantID := step.tenantID, actorType := "service", actorID := workerID
        action := "execution_step.ambiguous", resourceType := "execution_step"
        resourceID := step.step.id }

end StormRelay
