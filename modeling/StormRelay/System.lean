/-
The runbook store as a transition system.

A state is the database, the clock, and every claim a worker has received so
far; an operation is one atomic store transaction (or the passing of time).
Workers act through the claims they hold, at any later time and any number of
times; operators call the control methods; the definition tables may change
arbitrarily.  A failed transaction leaves the database unchanged, and the
answer to a claim may be lost.

* `StepChange`, `NewRow` — everything an operation can do to a step row;
* `ApprovalChange`, `NewApproval` — everything it can do to an approval.
-/
import StormRelay.ControlOutcome
import StormRelay.Transition

namespace StormRelay

open Tx Table

/-- What the store runs on; `exclusive` says whether a connection refuses
statements while a result set is open. -/
structure Env where
  platform : Platform
  exclusive : Bool

/-- The state of the store: `issued` lists the claims handed out, each with
the worker it was handed to. -/
structure Sys where
  db : DB
  now : Time
  issued : List (String × ClaimedStep)

/-- The operations.  Those of a worker name the claim they act for by its
position in `issued`. -/
inductive Op where
  | tick (elapsed : ℕ)
  | catalog (runbooks : List Runbook) (versions : List RunbookVersion)
      (incidents : List IncidentRecord)
  | startExecution (executionID : String) (ids : List String) (input : StartExecutionInput)
  | claim (locked : List String) (workerID : String) (limit lease : ℤ) (lost : Bool)
  | recover (locked order : List String) (actor : String)
  | advance (locked : List String) (actor : String)
  | scheduleWait (n : ℕ) (until_ : Time)
  | openApproval (n : ℕ) (approvalID prompt : String) (expiresAt : Option Time)
  | complete (n : ℕ) (status : StepStatus) (output : Option Json) (executionErr : Option String)
  | markAmbiguous (n : ℕ) (executionErr : Option String)
  | changeState (tenantID executionID : String) (action : ControlAction)
      (actor requestID traceID : String)
  | decide (tenantID approvalID : String) (decision : Decision)
      (actor reason requestID traceID : String)
  | retry (tenantID executionID stepID actor requestID traceID : String) (force : Bool)
  | rollback (ids : List String) (tenantID executionID actor requestID traceID : String)

namespace Sys

variable (env : Env)

def commit {α : Type} (m : Tx DB α) (s : Sys) : Sys :=
  { s with db := after env.exclusive m s.db }

def commitFor {α : Type} (n : ℕ) (body : String → ClaimedStep → Tx DB α) (s : Sys) : Sys :=
  match s.issued[n]? with
  | some (workerID, c) => s.commit env (body workerID c)
  | none => s

theorem commitFor_some {α : Type} {n : ℕ} {s : Sys} {workerID : String} {c : ClaimedStep}
    (hn : s.issued[n]? = some (workerID, c)) (body : String → ClaimedStep → Tx DB α) :
    s.commitFor env n body = s.commit env (body workerID c) := by
  rw [commitFor, hn]

theorem commitFor_none {α : Type} {n : ℕ} {s : Sys} (hn : s.issued[n]? = none)
    (body : String → ClaimedStep → Tx DB α) : s.commitFor env n body = s := by
  rw [commitFor, hn]

/-- The claims a `ClaimExecutionSteps` call would hand out. -/
def claims (locked : List String) (workerID : String) (limit lease : ℤ) (s : Sys) :
    List ClaimedStep :=
  (claimUpdate s.now locked workerID (claimLimit limit) (claimLease lease) s.db).1

/-- The effect of an operation. -/
def perform : Op → Sys → Sys
  | .tick elapsed, s => { s with now := s.now + elapsed }
  | .catalog runbooks versions incidents, s =>
    { s with db := { s.db with
        runbooks := runbooks, runbookVersions := versions, incidents := incidents } }
  | .startExecution executionID ids input, s =>
    s.commit env (startExecution env.platform s.now executionID ids input)
  | .claim locked workerID limit lease lost, s =>
    let s' := s.commit env (claimExecutionSteps s.now locked workerID limit lease)
    if lost then s'
    else { s' with
      issued := s.issued ++ (s.claims locked workerID limit lease).map fun c => (workerID, c) }
  | .recover locked order actor, s =>
    s.commit env (recoverExpiredStepLeases s.now locked order actor)
  | .advance locked actor, s => s.commit env (advanceRunbookTimers s.now locked actor)
  | .scheduleWait n until_, s => s.commitFor env n fun workerID c => scheduleWait c until_ workerID
  | .openApproval n approvalID prompt expiresAt, s =>
    s.commitFor env n fun workerID c =>
      openApproval s.now approvalID c workerID prompt expiresAt
  | .complete n status output executionErr, s =>
    s.commitFor env n fun workerID c =>
      completeExecutionStep env.platform s.now c workerID status output executionErr
  | .markAmbiguous n executionErr, s =>
    s.commitFor env n fun workerID c => markExecutionStepAmbiguous s.now c workerID executionErr
  | .changeState tenantID executionID action actor requestID traceID, s =>
    s.commit env (changeExecutionState s.now tenantID executionID action actor requestID traceID)
  | .decide tenantID approvalID decision actor reason requestID traceID, s =>
    s.commit env
      (decideApproval s.now tenantID approvalID decision actor reason requestID traceID)
  | .retry tenantID executionID stepID actor requestID traceID force, s =>
    s.commit env
      (retryExecutionStep s.now tenantID executionID stepID actor requestID traceID force)
  | .rollback ids tenantID executionID actor requestID traceID, s =>
    s.commit env
      (startExecutionRollback s.now ids tenantID executionID actor requestID traceID)

/-- A store before its first execution; the definition tables are arbitrary. -/
def Init (s : Sys) : Prop :=
  s.db.executions = [] ∧ s.db.steps = [] ∧ s.db.approvals = [] ∧ s.issued = []

/-- The states of the store that some sequence of operations leads to. -/
def Reachable (s : Sys) : Prop :=
  Transition.Reachable (perform env) Init s

end Sys

/-! ### The life cycle of a step -/

/-- **Everything an operation can do to a stored step.**  `StepChange s op r r'`:
in state `s`, operation `op` may turn the row `r` into `r'`. -/
inductive StepChange (s : Sys) : Op → ExecutionStep → ExecutionStep → Prop
  | claim {locked : List String} {workerID : String} {limit lease : ℤ} {lost : Bool}
      {r : ExecutionStep} {e : Execution} (he : s.db.execution? r.executionID = some e)
      (hr : claimable s.db s.now e r = true) :
      StepChange s (.claim locked workerID limit lease lost) r
        (claimRow s.now workerID (claimLease lease) r)
  | recover {locked order : List String} {actor : String} {r : ExecutionStep}
      (hr : leaseExpired s.db s.now locked r = true) :
      StepChange s (.recover locked order actor) r (recoverRow s.now r r)
  | timer {locked : List String} {actor : String} {r : ExecutionStep}
      (hr : waitDue s.now r = true) :
      StepChange s (.advance locked actor) r (timerRow s.now r)
  | expire {locked : List String} {actor : String} {r : ExecutionStep} {a : Approval}
      (ha : a ∈ s.db.approvals) (hp : a.status = .pending) (hr : r.id = a.executionStepID) :
      StepChange s (.advance locked actor) r (expireRow s.now r)
  | wait {n : ℕ} {until_ : Time} {workerID : String} {c : ClaimedStep} {r : ExecutionStep}
      (hn : s.issued[n]? = some (workerID, c)) (hr : leasedTo c.step.id workerID r = true)
      (hs : r.status = .running) :
      StepChange s (.scheduleWait n until_) r (waitRow until_ r)
  | openApproval {n : ℕ} {approvalID prompt : String} {expiresAt : Option Time}
      {workerID : String} {c : ClaimedStep} {r : ExecutionStep} {a : Approval}
      (hn : s.issued[n]? = some (workerID, c)) (hr : leasedTo c.step.id workerID r = true) :
      StepChange s (.openApproval n approvalID prompt expiresAt) r
        (waitingApprovalRow a.id prompt r)
  | complete {n : ℕ} {status : StepStatus} {output : Option Json} {workerID : String}
      {c : ClaimedStep} {r : ExecutionStep} (hn : s.issued[n]? = some (workerID, c))
      (hr : leasedTo c.step.id workerID r = true) :
      StepChange s (.complete n status output none) r
        (completeRow s.now (completionStatus status) output r)
  | retryLater {n : ℕ} {status : StepStatus} {output : Option Json} {err message : String}
      {backoff : ℤ} {workerID : String} {c : ClaimedStep} {r : ExecutionStep}
      (hn : s.issued[n]? = some (workerID, c)) (hr : leasedTo c.step.id workerID r = true)
      (hlt : (r.attemptCount : ℤ) < r.retryPolicy.maxAttempts) :
      StepChange s (.complete n status output (some err)) r
        (retryLaterRow s.now message backoff r)
  | fail {n : ℕ} {status : StepStatus} {output : Option Json} {err message : String}
      {workerID : String} {c : ClaimedStep} {r : ExecutionStep}
      (hn : s.issued[n]? = some (workerID, c)) (hr : leasedTo c.step.id workerID r = true) :
      StepChange s (.complete n status output (some err)) r (failRow s.now message r)
  | ambiguous {n : ℕ} {executionErr : Option String} {message : String} {workerID : String}
      {c : ClaimedStep} {r : ExecutionStep} (hn : s.issued[n]? = some (workerID, c))
      (hr : leasedTo c.step.id workerID r = true) :
      StepChange s (.markAmbiguous n executionErr) r (ambiguousRow s.now message r)
  | cancel {tenantID executionID actor requestID traceID : String} {r : ExecutionStep}
      (hr : r.executionID = executionID) (hc : cancelable r = true) :
      StepChange s (.changeState tenantID executionID .cancel actor requestID traceID) r
        (canceledRow s.now r)
  | decide {tenantID approvalID actor reason requestID traceID : String} {decision : Decision}
      {r : ExecutionStep} {a : Approval} (ha : a ∈ s.db.approvals) (hid : a.id = approvalID)
      (hp : a.status = .pending) (hr : r.id = a.executionStepID)
      (hd : decision = .approved ∨ decision = .rejected) :
      StepChange s (.decide tenantID approvalID decision actor reason requestID traceID) r
        (decidedRow s.now decision approvalID actor reason r)
  | retry {tenantID executionID stepID actor requestID traceID : String} {force : Bool}
      {r : ExecutionStep} (hr : r.id = stepID) (hok : retryAllowed force r = true) :
      StepChange s (.retry tenantID executionID stepID actor requestID traceID force) r
        (retryRow s.now r)

/-- **Every step an operation can add**: the steps of a new execution, and the
rollback steps of an execution that had none. -/
inductive NewRow (s : Sys) : Op → ExecutionStep → Prop
  | forward {executionID stepID : String} {ids : List String} {input : StartExecutionInput}
      {doc : Document} {position : ℕ} {step : Step} {timeout : ℤ} {retry : RetryParsed}
      (hnew : ∀ e ∈ s.db.executions, e.id ≠ executionID) (hstep : step ∈ doc.spec.steps)
      (htimeout : timeoutSeconds step = .ok timeout) :
      NewRow s (.startExecution executionID ids input)
        (forwardRow s.now doc executionID stepID position step timeout retry)
  | rollback {ids : List String} {tenantID executionID actor requestID traceID rollbackID : String}
      {position : ℕ} {source : ExecutionStep} {action : Action} {timeout : ℤ}
      {retry : RetryParsed}
      (hnew : ∀ es ∈ s.db.steps, es.executionID = executionID → es.isRollback = false)
      (hexec : ∃ e ∈ s.db.executions, e.id = executionID)
      (hsource : (source, action) ∈ rollbackSources executionID s.db)
      (htimeout : timeoutSeconds (rollbackStep source action) = .ok timeout) :
      NewRow s (.rollback ids tenantID executionID actor requestID traceID)
        (rollbackRow s.now executionID rollbackID position source (rollbackStep source action)
          timeout retry)

/-- **Everything an operation can do to a stored approval**: only a pending one
changes. -/
inductive ApprovalChange (s : Sys) : Op → Approval → Approval → Prop
  | expire {locked : List String} {actor : String} {a : Approval} (hp : a.status = .pending) :
      ApprovalChange s (.advance locked actor) a (expireApproval s.now a)
  | decide {tenantID actor reason requestID traceID : String} {decision : Decision} {a : Approval}
      (hp : a.status = .pending) :
      ApprovalChange s (.decide tenantID a.id decision actor reason requestID traceID) a
        (decideApprovalRow s.now decision actor reason a)

/-- Every approval an operation can add: one a worker requests for a claim it
holds. -/
inductive NewApproval (s : Sys) : Op → Approval → Prop
  | requested {n : ℕ} {approvalID prompt : String} {expiresAt : Option Time} {workerID : String}
      {c : ClaimedStep} (hn : s.issued[n]? = some (workerID, c)) :
      NewApproval s (.openApproval n approvalID prompt expiresAt)
        (newApproval s.now approvalID c prompt expiresAt)

theorem ApprovalChange.keys {s : Sys} {op : Op} {a a' : Approval} (h : ApprovalChange s op a a') :
    a'.id = a.id ∧ a'.executionStepID = a.executionStepID := by
  cases h <;> exact ⟨rfl, rfl⟩

theorem ApprovalChange.pending {s : Sys} {op : Op} {a a' : Approval}
    (h : ApprovalChange s op a a') : a.status = .pending := by
  cases h <;> assumption

def ExecutionStep.definition (r : ExecutionStep) : ExecutionStep :=
  { r with
    status := .pending, attemptCount := 0, output := none, sanitizedError := none
    startedAt := none, finishedAt := none, nextAttemptAt := 0, waitUntil := none
    leaseOwner := none, leaseExpiresAt := none, version := 0 }

/-- Rows with the same definition agree on every column the definition keeps. -/
theorem column_of_definition {β : Type} (column : ExecutionStep → β)
    (hcol : ∀ r, column r.definition = column r) {r r' : ExecutionStep}
    (h : r.definition = r'.definition) : column r = column r' := by
  rw [← hcol r, h, hcol r']

namespace StepChange

variable {s : Sys} {op : Op} {r r' : ExecutionStep}

theorem definition (h : StepChange s op r r') : r'.definition = r.definition := by
  cases h <;> rfl

theorem id (h : StepChange s op r r') : r'.id = r.id := by
  cases h <;> rfl

end StepChange

/-! ### A store with one runbook -/

/-- A platform on which every stored document decodes to `doc`. -/
def plainPlatform (doc : Document) : Platform :=
  { decodeYAML := fun _ => .ok doc
    urlParse := fun _ =>
      some { scheme := "https", hostname := "ops.example", hasUser := false, fragment := "" }
    toLower := fun text => text, toUpper := fun text => text, jsonMarshal := fun _ => some []
    snapshotStorable := fun _ => true, sha256 := fun _ => [] }

def oneRunbook : Sys :=
  { db :=
      { executions := [], steps := [], approvals := [], audit := []
        runbooks := [{ id := "rb", tenantID := "t", runbookKey := "restart", enabled := true
                       activeVersion := 1 }]
        runbookVersions := [{ id := "rv", runbookID := "rb", version := 1, documentYAML := "" }]
        incidents := [] }
    now := 0, issued := [] }

/-- The runbook of `oneRunbook` is started, with these ids for its steps. -/
abbrev starting (ids : List String) : Op :=
  .startExecution "e" ids { tenantID := "t", runbookKey := "restart" }

/-- Worker `A` asks for one step, for thirty seconds. -/
abbrev claiming : Op :=
  .claim [] "A" 1 (30 * second) false

def runbookWith (steps : List Step) : Document :=
  { apiVersion := apiVersion, kind := "Runbook", metadata := { id := "restart", version := 1 }
    spec := { steps := steps } }

def idempotentStep : Step :=
  { id := "restart", type := .http, retry := { maxAttempts := 2 }
    inputs := { url := "https://ops.example/restart", idempotencyHeader := "Idempotency-Key" } }

/-- A system whose only runbook is `idempotentStep`, on connections that refuse
statements while a result set is open. -/
def idempotentEnv : Env :=
  { platform := plainPlatform (runbookWith [idempotentStep]), exclusive := true }

end StormRelay
