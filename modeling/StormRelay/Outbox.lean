/-
The notification outbox and the incident life cycle
(`internal/storage/notifications.go`, `incidents.go`, `audit.go`).

`ClaimDeliveries` and `CompleteDelivery` drain the deliveries that
`ProcessEvent` enqueues; `TransitionIncident` and `AcknowledgeByToken` move an
incident along the transition table.
-/
import StormRelay.Process

namespace StormRelay

open Tx

/-! ### Deliveries -/

/-- What `ClaimDeliveries` hands to the notifier. -/
structure Storage.Delivery where
  id : String
  tenantID : String
  incidentID : String
  channelID : String
  kind : String
  dedupeKey : String
  payload : Json
  config : Option Json
  attempt : ℕ
  traceParent : String

def leaseLapsed (now : Time) (d : DeliveryAttempt) : Bool :=
  d.status = .delivering && d.leaseExpiresAt.any fun t => t ≤ now

/-- Nobody knows whether the delivery arrived; only a mock one is tried again. -/
def lapsedRow (d : DeliveryAttempt) : DeliveryAttempt :=
  { d with
    status := if d.channelKind = "mock" then .failed else .ambiguous
    sanitizedError := some "delivery lease expired; outcome unknown", leaseExpiresAt := none }

def deliverable (now : Time) (d : DeliveryAttempt) : Bool :=
  (d.status = .pending || d.status = .failed) && d.nextAttemptAt ≤ now

/-- The deliveries that are due, with the configuration of their channels:
`ORDER BY next_attempt_at`, locked rows skipped, at most `limit` rows. -/
def dueDeliveries (now : Time) (locked : List String) (limit : ℕ) (db : EventDB) :
    List (DeliveryAttempt × Option Json) :=
  (((db.deliveries.filter fun d => deliverable now d && d.id ∉ locked)
    |>.insertionSort fun a b => a.nextAttemptAt ≤ b.nextAttemptAt).take limit).map fun d =>
      (d, (db.channels.find? fun c => c.id = d.channelID).map fun c => c.config)

def deliveringRow (now : Time) (d : DeliveryAttempt) : DeliveryAttempt :=
  { d with
    status := .delivering, attempt := d.attempt + 1, leaseExpiresAt := some (now + 30 * second) }

def stringMember (members : List (String × Json)) (name : String) : String :=
  match members.lookup name with
  | some (.str s) => s
  | _ => ""

def trimRightSlashes (s : String) : String :=
  String.ofList (s.toList.reverse.dropWhile (· = '/')).reverse

/-- `prepareDeliveryPayload`: the payload that is sent, and the trace the
delivery continues. -/
def prepareDeliveryPayload (payload : Json) (token : String) : Except String (Json × String) :=
  match payload with
  | .obj members =>
    let kept := members.filter fun m => m.1 ≠ "ack_base_url" && m.1 ≠ "traceparent"
    let ackURL := trimRightSlashes (stringMember members "ack_base_url") ++ "/api/v1/ack/" ++ token
    .ok (.obj (("ack_url", .str ackURL) :: kept.filter fun m => m.1 ≠ "ack_url"),
      stringMember members "traceparent")
  | _ => .error "cannot unmarshal delivery payload"

/-- One turn of the loop over the claimed rows; an error undoes the whole claim. -/
def claimDelivery (pf : EventPlatform) (now : Time) (out : List Storage.Delivery)
    (item : DeliveryAttempt × Option Json) : Tx EventDB (List Storage.Delivery) := do
  let (d, config) := item
  let _ ← exec (EventDB.updateDeliveries (fun x => x.id = d.id) (deliveringRow now))
  match pf.decrypt d.ackTokenCiphertext d.incidentID with
  | none => fail "decrypt acknowledgement token"
  | some token =>
    match prepareDeliveryPayload d.payload token with
    | .error message => fail message
    | .ok (payload, traceParent) =>
      pure (out ++ [
        { id := d.id, tenantID := d.tenantID, incidentID := d.incidentID, channelID := d.channelID
          kind := d.channelKind, dedupeKey := d.dedupeKey, payload := payload, config := config
          attempt := d.attempt, traceParent := traceParent }])

def deliveryLimit (limit : ℤ) : ℕ :=
  if limit ≤ 0 ∨ limit > 100 then 20 else limit.toNat

/-- Gives up the leases that have lapsed, then leases what is due. -/
def claimDeliveries (pf : EventPlatform) (now : Time) (locked : List String) (limit : ℤ) :
    Tx EventDB (List Storage.Delivery) := do
  let _ ← exec (EventDB.updateDeliveries (leaseLapsed now) lapsedRow)
  let rows ← query fun db => (dueDeliveries now locked (deliveryLimit limit) db, db)
  let items ← scanAll rows
  fold (claimDelivery pf now) [] items

def deliveredRow (now : Time) (providerRef : String) (d : DeliveryAttempt) : DeliveryAttempt :=
  { d with
    status := .delivered, providerReference := if providerRef = "" then none else some providerRef
    deliveredAt := some now, leaseExpiresAt := none, sanitizedError := none }

/-- The fifth failure is the last. -/
def undeliveredRow (now : Time) (message : String) (d : DeliveryAttempt) : DeliveryAttempt :=
  { d with
    status := if d.attempt ≥ 5 then .ambiguous else .failed
    sanitizedError := some message, leaseExpiresAt := none
    nextAttemptAt := now + min 300 (2 ^ d.attempt) * second }

/-- Records the outcome of a delivery, whatever the status of its row. -/
def completeDelivery (now : Time) (deliveryID providerRef : String) (deliveryErr : Option String) :
    Tx EventDB Unit := do
  let d ← queryRow fun db => db.deliveries.find? fun d => d.id = deliveryID
  match deliveryErr with
  | none =>
    let providerRef ← bindText (some providerRef)
    let _ ← exec (EventDB.updateDeliveries (fun x => x.id = deliveryID)
      (deliveredRow now providerRef))
  | some err =>
    let message ← bindText (truncate err 500)
    let _ ← exec (EventDB.updateDeliveries (fun x => x.id = deliveryID)
      (undeliveredRow now message))
  auditEvent
    { tenantID := d.tenantID, actorType := "service", actorID := "stormrelay-worker"
      action :=
        if deliveryErr.isNone then "notification.delivered" else "notification.failed"
      resourceType := "delivery", resourceID := deliveryID }

/-! ### Incident transitions -/

structure TransitionInput where
  tenantID : String
  incidentID : String
  to_ : IncidentState
  expectedVersion : ℤ := 0
  actorType : String := ""
  actorID : String := ""
  reason : String := ""
  requestID : String := ""
  traceID : String := ""

def transitionedRow (now : Time) (to_ : IncidentState) (i : Incident) : Incident :=
  { i with
    state := to_
    acknowledgedAt := if to_ = .acknowledged then some now else i.acknowledgedAt
    resolvedAt :=
      if to_ = .reopened then none
      else if to_ = .resolved then some now
      else i.resolvedAt
    updatedAt := now, version := i.version + 1 }

def liftEventError {α : Type} (r : Except String α) : Tx EventDB α :=
  match r with
  | .ok a => pure a
  | .error message => fail message

/-- Moves an incident along the transition table, from the expected version if
there is one. -/
def transitionIncident (now : Time) (transitionID : String) (input : TransitionInput) :
    Tx EventDB Incident := do
  let current ← queryRow fun db =>
    db.incidents.find? fun i => i.tenantID = input.tenantID && i.id = input.incidentID
  if input.expectedVersion > 0 ∧ input.expectedVersion ≠ current.version then
    fail ("version conflict: current=" ++ toString current.version)
  else
    liftEventError (current.state.validateTransition input.to_)
    let after ← statement (EventDB.updateIncidentReturning (fun i => i.id = current.id)
      (transitionedRow now input.to_))
    insert (EventDB.insertTransition
      { id := transitionID, tenantID := input.tenantID, incidentID := input.incidentID
        from_ := some current.state, to_ := input.to_
        actorType := defaultText input.actorType "user"
        actorID := defaultText input.actorID "unknown", reason := input.reason
        requestID := input.requestID, traceID := input.traceID })
    auditEvent
      { tenantID := input.tenantID, actorType := defaultText input.actorType "user"
        actorID := defaultText input.actorID "unknown", action := "incident.transition"
        resourceType := "incident", resourceID := input.incidentID, requestID := input.requestID
        traceID := input.traceID }
    pure after

/-- A used token, or an incident acknowledged otherwise, changes nothing. -/
def acknowledgeByToken (pf : EventPlatform) (now : Time)
    (transitionID rawToken requestID traceID : String) :
    Tx EventDB Incident := do
  let token ← queryRow fun db =>
    db.ackTokens.find? fun t => t.tokenHash = pf.sha256 (Policy.utf8 rawToken) && t.expiresAt > now
  let current ← queryRow fun db => db.incidents.find? fun i => i.id = token.incidentID
  if token.usedAt.isSome ∨ current.state = .acknowledged ∨ current.state = .investigating then
    pure current
  else
    liftEventError (current.state.validateTransition .acknowledged)
    let _ ← exec (EventDB.updateAckTokens (fun t => t.id = token.id)
      fun t => { t with usedAt := some now })
    let after ← statement (EventDB.updateIncidentReturning (fun i => i.id = token.incidentID)
      (transitionedRow now .acknowledged))
    insert (EventDB.insertTransition
      { id := transitionID, tenantID := token.tenantID, incidentID := token.incidentID
        from_ := some current.state, to_ := .acknowledged, actorType := "ack-token"
        actorID := token.id, reason := "notification acknowledgement link"
        requestID := requestID, traceID := traceID })
    auditEvent
      { tenantID := token.tenantID, actorType := "ack-token", actorID := token.id
        action := "incident.acknowledged", resourceType := "incident"
        resourceID := token.incidentID, requestID := requestID, traceID := traceID }
    pure after

def recordAudit (entry : AuditEntry) : Tx EventDB Unit :=
  auditEvent entry

end StormRelay
