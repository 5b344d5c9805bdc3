/-
The runbook tables (`internal/storage/migrations/003`, `005` and
`internal/storage/runbook_models.go`).

Rows of `executions`, `execution_steps`, `approvals` and the audit log, the
definition tables that `StartExecution` reads, and the statements that insert
into the keyed tables with their unique constraints.  Times are nanoseconds of
one clock; a nullable column is an `Option`.
-/
import StormRelay.Table
import StormRelay.Tx
import StormRelay.Document

namespace StormRelay

/-- A point in time, in nanoseconds. -/
abbrev Time := ℤ

/-- A stored JSON value.  A number carries the text `fmt.Sprint` gives for it
after decoding. -/
inductive Json where
  | null
  | bool (b : Bool)
  | num (text : String)
  | str (s : String)
  | arr (items : List Json)
  | obj (members : List (String × Json))

/-- PostgreSQL stores no U+0000 in text. -/
def textStorable (s : String) : Bool :=
  s.toList.all fun c => c ≠ Char.ofNat 0

mutual

/-- PostgreSQL stores no U+0000 in the strings of a `jsonb` value. -/
def Json.storable : Json → Bool
  | .null | .bool _ | .num _ => true
  | .str s => textStorable s
  | .arr items => Json.storableItems items
  | .obj members => Json.storableMembers members

def Json.storableItems : List Json → Bool
  | [] => true
  | item :: items => item.storable && Json.storableItems items

def Json.storableMembers : List (String × Json) → Bool
  | [] => true
  | (name, value) :: members =>
    textStorable name && value.storable && Json.storableMembers members

end

/-- `executions_status_check`. -/
inductive ExecutionStatus where
  | running
  | waitingApproval
  | paused
  | canceling
  | canceled
  | completed
  | failed
  | ambiguous
  | rollingBack
  | rolledBack
deriving DecidableEq, Repr

/-- `execution_steps_status_check`. -/
inductive StepStatus where
  | pending
  | running
  | waiting
  | waitingApproval
  | retrying
  | completed
  | skipped
  | failed
  | ambiguous
  | canceled
  | rollingBack
  | rolledBack
deriving DecidableEq, Repr

namespace StepStatus

/-- A worker holds the step. -/
def inFlight : StepStatus → Bool
  | .running | .rollingBack => true
  | _ => false

/-- The statuses that let the next step of the phase run. -/
def finished : StepStatus → Bool
  | .completed | .skipped | .rolledBack => true
  | _ => false

/-- The statuses `finalizeExecutionIfDone` does not count as remaining. -/
def settled : StepStatus → Bool
  | .completed | .skipped | .rolledBack | .canceled => true
  | _ => false

def text : StepStatus → String
  | .pending => "pending"
  | .running => "running"
  | .waiting => "waiting"
  | .waitingApproval => "waiting_approval"
  | .retrying => "retrying"
  | .completed => "completed"
  | .skipped => "skipped"
  | .failed => "failed"
  | .ambiguous => "ambiguous"
  | .canceled => "canceled"
  | .rollingBack => "rolling_back"
  | .rolledBack => "rolled_back"

theorem finished_iff {s : StepStatus} :
    s.finished = true ↔ s = .completed ∨ s = .skipped ∨ s = .rolledBack := by
  cases s <;> simp [finished]

end StepStatus

inductive ApprovalStatus where
  | pending
  | approved
  | rejected
  | expired
deriving DecidableEq, Repr

def ApprovalStatus.text : ApprovalStatus → String
  | .pending => "pending"
  | .approved => "approved"
  | .rejected => "rejected"
  | .expired => "expired"

structure Execution where
  id : String
  tenantID : String
  incidentID : Option String
  runbookVersionID : String
  status : ExecutionStatus
  dryRun : Bool
  requestedBy : String
  inputSnapshot : Json
  startedAt : Option Time
  finishedAt : Option Time
  pausedAt : Option Time
  cancelRequestedAt : Option Time
  lastError : Option String
  createdAt : Time
  updatedAt : Time
  version : ℕ

structure ExecutionStep where
  id : String
  executionID : String
  position : ℕ
  stepKey : String
  name : Option String
  stepType : StepType
  immutableInput : Snapshot
  status : StepStatus
  timeoutSeconds : ℤ
  retryPolicy : RetryParsed
  attemptCount : ℕ
  output : Option Json
  sanitizedError : Option String
  correlationID : String
  idempotencyKey : String
  startedAt : Option Time
  finishedAt : Option Time
  nextAttemptAt : Time
  waitUntil : Option Time
  leaseOwner : Option String
  leaseExpiresAt : Option Time
  rollbackDefinition : Option Action
  isRollback : Bool
  rollbackOf : Option String
  version : ℕ

structure Approval where
  id : String
  tenantID : String
  executionStepID : String
  status : ApprovalStatus
  requestedAt : Time
  expiresAt : Option Time
  decidedAt : Option Time
  decidedBy : Option String
  reason : Option String
  prompt : Option String

/-- What `ClaimExecutionSteps` hands to a worker. -/
structure ClaimedStep where
  step : ExecutionStep
  tenantID : String
  incidentID : Option String
  dryRun : Bool
  executionInput : Json

structure Runbook where
  id : String
  tenantID : String
  runbookKey : String
  enabled : Bool
  activeVersion : ℤ

structure RunbookVersion where
  id : String
  runbookID : String
  version : ℤ
  documentYAML : String

/-- An incident as `StartExecution` embeds it; `rest` holds the members of its
JSON encoding that no condition can name. -/
structure IncidentRecord where
  id : String
  tenantID : String
  title : String
  state : String
  severity : String
  service : String
  environment : String
  rest : List (String × Json)

structure AuditEntry where
  tenantID : String
  actorType : String
  actorID : String
  action : String
  resourceType : String
  resourceID : String
  requestID : String := ""
  traceID : String := ""

structure DB where
  executions : List Execution
  steps : List ExecutionStep
  approvals : List Approval
  audit : List AuditEntry
  runbooks : List Runbook
  runbookVersions : List RunbookVersion
  incidents : List IncidentRecord

/-- `defaultText`. -/
def defaultText (value fallback : String) : String :=
  if value = "" then fallback else value

/-- The longest text that fills the first `n` bytes exactly; `none` when the
cut falls inside a character. -/
def takeBytes : List Char → ℕ → Option (List Char)
  | [], _ => some []
  | c :: s, n =>
    if n = 0 then some []
    else if c.utf8Size ≤ n then (takeBytes s (n - c.utf8Size)).map (c :: ·)
    else none

/-- `truncate(value, limit)`, a cut at a byte; `none` when what is left is not
valid UTF-8. -/
def truncate (value : String) (limit : ℕ) : Option String :=
  if limit > 0 ∧ value.utf8ByteSize > limit then (takeBytes value.toList limit).map String.ofList
  else some value

namespace DB

def execution? (db : DB) (id : String) : Option Execution :=
  db.executions.find? fun e => e.id = id

def step? (db : DB) (id : String) : Option ExecutionStep :=
  db.steps.find? fun es => es.id = id

def updateExecutions (p : Execution → Bool) (f : Execution → Execution) (db : DB) : ℕ × DB :=
  (Table.affected p db.executions, { db with executions := Table.update p f db.executions })

def updateSteps (p : ExecutionStep → Bool) (f : ExecutionStep → ExecutionStep) (db : DB) :
    ℕ × DB :=
  (Table.affected p db.steps, { db with steps := Table.update p f db.steps })

def updateApprovals (p : Approval → Bool) (f : Approval → Approval) (db : DB) : ℕ × DB :=
  (Table.affected p db.approvals, { db with approvals := Table.update p f db.approvals })

def appendAudit (entry : AuditEntry) (db : DB) : ℕ × DB :=
  (1, { db with audit := db.audit ++ [entry] })

def uniqueViolation : String := "duplicate key value violates unique constraint"

/-- `INSERT INTO executions`. -/
def insertExecution (e : Execution) (db : DB) : Except String DB :=
  if db.executions.any fun x => x.id = e.id then .error uniqueViolation
  else .ok { db with executions := db.executions ++ [e] }

/-- Two step rows that cannot be stored together: the primary key, the two
`UNIQUE` constraints and the partial index on forward positions. -/
def stepsConflict (x es : ExecutionStep) : Bool :=
  x.id = es.id || (x.executionID = es.executionID && x.stepKey = es.stepKey)
    || x.idempotencyKey = es.idempotencyKey
    || (x.executionID = es.executionID && x.position = es.position && !x.isRollback
      && !es.isRollback)

/-- `INSERT INTO execution_steps`. -/
def insertStep (es : ExecutionStep) (db : DB) : Except String DB :=
  if db.steps.any fun x => stepsConflict x es then .error uniqueViolation
  else .ok { db with steps := db.steps ++ [es] }

/-- `INSERT INTO approvals … ON CONFLICT (execution_step_id) DO UPDATE SET
execution_step_id=EXCLUDED.execution_step_id RETURNING …`: an existing row of
the step is returned as it is. -/
def insertApproval (a : Approval) (db : DB) : Except String (Approval × DB) :=
  match db.approvals.find? fun x => x.executionStepID = a.executionStepID with
  | some old => .ok (old, db)
  | none =>
    if db.approvals.any fun x => x.id = a.id then .error uniqueViolation
    else if db.steps.any (fun es => es.id = a.executionStepID) then
      .ok (a, { db with approvals := db.approvals ++ [a] })
    else .error "insert or update violates foreign key constraint"

end DB

/-- Binding a text parameter, which PostgreSQL rejects when it is not valid
UTF-8 or contains U+0000. -/
def bindText {σ : Type} (value : Option String) : Tx σ String :=
  match value with
  | some text =>
    if textStorable text then pure text
    else Tx.fail "invalid byte sequence for encoding UTF8: 0x00"
  | none => Tx.fail "invalid byte sequence for encoding UTF8"

/-- Binding a `jsonb` parameter. -/
def bindJSON (value : Option Json) : Tx DB (Option Json) :=
  if value.all Json.storable then pure value
  else Tx.fail "unsupported Unicode escape sequence"

/-- `appendAudit` inside a transaction. -/
def appendAudit (entry : AuditEntry) : Tx DB Unit := do
  let _ ← Tx.exec (DB.appendAudit entry)

end StormRelay
