/-
The event, incident and notification tables
(`internal/storage/migrations/001`, `002`, `004` and `internal/storage/models.go`).

The rows `ProcessEvent` and its neighbours read and write, the constraints the
tables put on them, and the statements that insert.  A nullable text column
that the code reads only through `COALESCE(…,'')` is the empty text when it is
null.  The audit log is kept without its hashes and metadata.
-/
import StormRelay.Policy

namespace StormRelay

/-! ### Incident states -/

/-- `incidents.State`. -/
inductive IncidentState where
  | detected
  | acknowledged
  | investigating
  | mitigated
  | resolved
  | closed
  | reopened
deriving DecidableEq, Repr

namespace IncidentState

def text : IncidentState → String
  | detected => "detected"
  | acknowledged => "acknowledged"
  | investigating => "investigating"
  | mitigated => "mitigated"
  | resolved => "resolved"
  | closed => "closed"
  | reopened => "reopened"

/-- The `transitions` table. -/
def transitions : IncidentState → List IncidentState
  | detected => [acknowledged, investigating, mitigated, resolved]
  | acknowledged => [investigating, mitigated, resolved]
  | investigating => [mitigated, resolved]
  | mitigated => [investigating, resolved]
  | resolved => [closed, reopened]
  | closed => [reopened]
  | reopened => [acknowledged, investigating, mitigated, resolved]

def validateTransition (from_ to_ : IncidentState) : Except String Unit :=
  if from_ = to_ then .error ("incident is already " ++ to_.text)
  else if to_ ∉ from_.transitions then
    .error ("invalid incident transition " ++ from_.text ++ " -> " ++ to_.text)
  else .ok ()

def isOpen (state : IncidentState) : Bool :=
  state ≠ resolved ∧ state ≠ closed

end IncidentState

/-! ### Rows -/

/-- A row of `raw_events`. -/
structure RawEvent where
  id : String
  tenantID : String
  sourceID : String
  contentType : String
  payload : List UInt8
  payloadSHA256 : List UInt8
  receivedAt : Time
  requestID : String

/-- A row of `normalized_events`; `labels` is `none` when the bound value is
`NULL`, which the table does not accept. -/
structure NormalizedEvent where
  id : String
  tenantID : String
  sourceID : String
  rawEventID : String
  ceID : String
  sourceEventID : String
  idempotencyKey : String
  dedupeKey : String
  dedupeBucket : Time
  fingerprint : String
  ceSource : String
  ceType : String
  subject : String
  eventTime : Time
  dataContentType : String
  schemaVersion : String
  traceParent : String
  labels : Option (List (String × String))
  severity : Severity
  duplicateCount : ℕ

/-- A row of `event_duplicates`. -/
structure EventDuplicate where
  id : String
  tenantID : String
  canonicalEventID : String
  rawEventID : String
  duplicateNumber : ℕ
  reason : String
  receivedAt : Time

/-- A row of `incidents`. -/
structure Incident where
  id : String
  tenantID : String
  correlationKey : String
  title : String
  state : IncidentState
  severity : Severity
  service : String
  environment : String
  firstEventAt : Time
  lastEventAt : Time
  acknowledgedAt : Option Time
  resolvedAt : Option Time
  createdAt : Time
  updatedAt : Time
  version : ℕ

/-- A row of `incident_transitions`. -/
structure IncidentTransition where
  id : String
  tenantID : String
  incidentID : String
  from_ : Option IncidentState
  to_ : IncidentState
  actorType : String
  actorID : String
  reason : String
  requestID : String
  traceID : String

/-- A row of `policies`. -/
structure PolicyRow where
  id : String
  tenantID : String
  policyKey : String
  enabled : Bool
  activeVersion : ℤ

/-- A row of `policy_versions`. -/
structure PolicyVersion where
  policyID : String
  version : ℤ
  documentYAML : String

/-- A row of `notification_channels`. -/
structure Channel where
  id : String
  tenantID : String
  channelKey : String
  kind : String
  config : Json
  enabled : Bool

inductive DeliveryStatus where
  | pending
  | delivering
  | delivered
  | failed
  | ambiguous
deriving DecidableEq, Repr

/-- A row of `delivery_attempts`. -/
structure DeliveryAttempt where
  id : String
  tenantID : String
  incidentID : String
  channelID : String
  channelKind : String
  dedupeKey : String
  status : DeliveryStatus
  attempt : ℕ
  payload : Json
  ackTokenCiphertext : List UInt8
  providerReference : Option String
  sanitizedError : Option String
  nextAttemptAt : Time
  leaseExpiresAt : Option Time
  deliveredAt : Option Time

/-- A row of `incident_ack_tokens`. -/
structure AckToken where
  id : String
  tenantID : String
  incidentID : String
  tokenHash : List UInt8
  expiresAt : Time
  usedAt : Option Time

/-- The tables; `tenants` and `sources` hold the primary keys that foreign keys
refer to. -/
structure EventDB where
  tenants : List String
  sources : List String
  rawEvents : List RawEvent
  normalizedEvents : List NormalizedEvent
  duplicates : List EventDuplicate
  incidents : List Incident
  transitions : List IncidentTransition
  incidentEvents : List (String × String)
  policies : List PolicyRow
  policyVersions : List PolicyVersion
  channels : List Channel
  deliveries : List DeliveryAttempt
  ackTokens : List AckToken
  audit : List AuditEntry

/-! ### Constraints -/

/-- The four values of the `CHECK` on a severity column. -/
def Severity.known : Severity → Bool
  | .other text => text ∈ ["info", "warning", "error", "critical"]
  | _ => true

/-- The text parameters of the `raw_events` insert can be bound. -/
def RawEvent.storable (r : RawEvent) : Bool :=
  textStorable r.contentType && textStorable r.requestID

/-- The text and `jsonb` parameters of the `normalized_events` insert can be
bound. -/
def NormalizedEvent.storable (n : NormalizedEvent) : Bool :=
  [n.ceID, n.sourceEventID, n.idempotencyKey, n.dedupeKey, n.fingerprint, n.ceSource, n.ceType,
    n.subject, n.dataContentType, n.schemaVersion, n.traceParent].all textStorable
    && (n.labels.getD []).all fun (name, value) => textStorable name && textStorable value

/-- `UNIQUE (tenant_id,source_id,dedupe_key,dedupe_bucket)`. -/
def sameBucket (n m : NormalizedEvent) : Bool :=
  n.tenantID = m.tenantID && n.sourceID = m.sourceID && n.dedupeKey = m.dedupeKey
    && n.dedupeBucket = m.dedupeBucket

namespace EventDB

/-- What `raw_events` requires of a new row: bindable text, a new primary key,
a stored tenant and a stored source. -/
def acceptsRaw (db : EventDB) (r : RawEvent) : Bool :=
  r.storable && !(db.rawEvents.any fun x => x.id = r.id) && r.tenantID ∈ db.tenants
    && r.sourceID ∈ db.sources

/-- What `normalized_events` requires of every row before it looks for a
conflict: bindable text, `labels` not null, a known severity. -/
def acceptsNormalized (n : NormalizedEvent) : Bool :=
  n.storable && n.labels.isSome && n.severity.known

def insertRawEvent (r : RawEvent) (db : EventDB) : Except String EventDB :=
  if db.acceptsRaw r then .ok { db with rawEvents := db.rawEvents ++ [r] }
  else .error "insert raw event: constraint violation"

/-- `INSERT INTO normalized_events … ON CONFLICT
(tenant_id,source_id,dedupe_key,dedupe_bucket) DO NOTHING RETURNING id`. -/
def insertNormalizedEvent (n : NormalizedEvent) (db : EventDB) :
    Except String (Option String × EventDB) :=
  if acceptsNormalized n = false then .error "insert normalized event: constraint violation"
  else if db.normalizedEvents.any (sameBucket n) then .ok (none, db)
  else if db.normalizedEvents.any fun x => x.id = n.id then
    .error "insert normalized event: constraint violation"
  else .ok (some n.id, { db with normalizedEvents := db.normalizedEvents ++ [n] })

def insertDuplicate (d : EventDuplicate) (db : EventDB) : Except String EventDB :=
  if db.duplicates.any fun x =>
      x.id = d.id || (x.canonicalEventID = d.canonicalEventID && x.rawEventID = d.rawEventID)
  then .error DB.uniqueViolation
  else .ok { db with duplicates := db.duplicates ++ [d] }

def insertIncident (i : Incident) (db : EventDB) : Except String EventDB :=
  if db.incidents.any fun x => x.id = i.id then .error DB.uniqueViolation
  else .ok { db with incidents := db.incidents ++ [i] }

def insertTransition (t : IncidentTransition) (db : EventDB) : Except String EventDB :=
  if db.transitions.any fun x => x.id = t.id then .error DB.uniqueViolation
  else if textStorable t.reason = false then .error "invalid byte sequence for encoding UTF8: 0x00"
  else .ok { db with transitions := db.transitions ++ [t] }

/-- `INSERT INTO incident_events … ON CONFLICT DO NOTHING`. -/
def attachEvent (incidentID eventID : String) (db : EventDB) : ℕ × EventDB :=
  if (incidentID, eventID) ∈ db.incidentEvents then (0, db)
  else (1, { db with incidentEvents := db.incidentEvents ++ [(incidentID, eventID)] })

/-- `INSERT INTO delivery_attempts … ON CONFLICT (tenant_id,dedupe_key) DO
NOTHING`; reports the number of rows inserted. -/
def insertDelivery (d : DeliveryAttempt) (db : EventDB) : Except String (ℕ × EventDB) :=
  if d.payload.storable = false then .error "unsupported Unicode escape sequence"
  else if db.deliveries.any fun x => x.tenantID = d.tenantID && x.dedupeKey = d.dedupeKey then
    .ok (0, db)
  else if db.deliveries.any fun x => x.id = d.id then .error DB.uniqueViolation
  else .ok (1, { db with deliveries := db.deliveries ++ [d] })

def insertAckToken (t : AckToken) (db : EventDB) : Except String EventDB :=
  if db.ackTokens.any fun x => x.id = t.id || x.tokenHash = t.tokenHash then
    .error DB.uniqueViolation
  else .ok { db with ackTokens := db.ackTokens ++ [t] }

def insertAudit (entry : AuditEntry) (db : EventDB) : Except String EventDB :=
  if entry.tenantID ∈ db.tenants then .ok { db with audit := db.audit ++ [entry] }
  else .error "insert or update violates foreign key constraint"

def updateIncidents (p : Incident → Bool) (f : Incident → Incident) (db : EventDB) :
    ℕ × EventDB :=
  (Table.affected p db.incidents, { db with incidents := Table.update p f db.incidents })

def updateDeliveries (p : DeliveryAttempt → Bool) (f : DeliveryAttempt → DeliveryAttempt)
    (db : EventDB) : ℕ × EventDB :=
  (Table.affected p db.deliveries, { db with deliveries := Table.update p f db.deliveries })

def updateAckTokens (p : AckToken → Bool) (f : AckToken → AckToken) (db : EventDB) : ℕ × EventDB :=
  (Table.affected p db.ackTokens, { db with ackTokens := Table.update p f db.ackTokens })

/-- `UPDATE incidents … RETURNING` through `QueryRow`: the row after the
update, an error when there is none. -/
def updateIncidentReturning (p : Incident → Bool) (f : Incident → Incident) (db : EventDB) :
    Except String (Incident × EventDB) :=
  match db.incidents.find? p with
  | some i => .ok (f i, (db.updateIncidents p f).2)
  | none => .error "no rows in result set"

/-! What the insertions do, by the condition that decides them. -/

variable {db : EventDB}

theorem insertRawEvent_accepted {r : RawEvent} (h : db.acceptsRaw r = true) :
    db.insertRawEvent r = .ok { db with rawEvents := db.rawEvents ++ [r] } :=
  if_pos h

variable {db' : EventDB}

theorem insertRawEvent_inv {r : RawEvent} (h : db.insertRawEvent r = .ok db') :
    db.acceptsRaw r = true ∧ db' = { db with rawEvents := db.rawEvents ++ [r] } := by
  rw [insertRawEvent] at h
  split at h
  · rename_i hok
    exact ⟨hok, (Except.ok.inj h).symm⟩
  · cases h

/-- A normalised event is inserted exactly when the table accepts it, its
bucket holds none yet and its identifier is new. -/
theorem insertNormalizedEvent_some {n : NormalizedEvent} {eventID : String} :
    insertNormalizedEvent n db = .ok (some eventID, db')
      ↔ acceptsNormalized n = true ∧ (∀ m ∈ db.normalizedEvents, sameBucket n m = false)
        ∧ (∀ m ∈ db.normalizedEvents, m.id ≠ n.id) ∧ eventID = n.id
        ∧ db' = { db with normalizedEvents := db.normalizedEvents ++ [n] } := by
  rw [insertNormalizedEvent]
  split
  · rename_i hno
    simp [hno]
  rename_i hyes
  rw [Bool.not_eq_false] at hyes
  split
  · rename_i hseen
    simp only [List.any_eq_true] at hseen
    simp only [Except.ok.injEq, Prod.mk.injEq, reduceCtorEq, false_and, false_iff, not_and]
    obtain ⟨m, hm, hsame⟩ := hseen
    intro _ hunseen
    rw [hunseen m hm] at hsame
    cases hsame
  rename_i hunseen
  split
  · rename_i htaken
    simp only [List.any_eq_true, decide_eq_true_eq] at htaken
    obtain ⟨m, hm, hid⟩ := htaken
    simp only [reduceCtorEq, false_iff, not_and]
    exact fun _ _ hfresh => absurd hid (hfresh m hm)
  rename_i hfresh
  have hunseen' : ∀ m ∈ db.normalizedEvents, sameBucket n m = false := by
    simpa using hunseen
  have hfresh' : ∀ m ∈ db.normalizedEvents, m.id ≠ n.id := by simpa using hfresh
  simp only [Except.ok.injEq, Prod.mk.injEq, Option.some.injEq, hyes, true_and]
  exact ⟨fun h => ⟨hunseen', hfresh', h.1.symm, h.2.symm⟩,
    fun h => ⟨h.2.2.1.symm, h.2.2.2.symm⟩⟩

/-- A repetition is recognised exactly when its bucket holds an event. -/
theorem insertNormalizedEvent_none {n : NormalizedEvent}
    (h : insertNormalizedEvent n db = .ok (none, db')) :
    (∃ m ∈ db.normalizedEvents, sameBucket n m = true) ∧ db' = db := by
  rw [insertNormalizedEvent] at h
  split at h
  · cases h
  split at h
  · rename_i hseen
    exact ⟨List.any_eq_true.mp hseen, (Prod.mk.inj (Except.ok.inj h)).2.symm⟩
  · split at h
    · cases h
    · cases (Prod.mk.inj (Except.ok.inj h)).1

theorem insertDuplicate_inv {d : EventDuplicate} (h : insertDuplicate d db = .ok db') :
    db' = { db with duplicates := db.duplicates ++ [d] } := by
  rw [insertDuplicate] at h
  split at h
  · cases h
  · exact (Except.ok.inj h).symm

variable {i : Incident}

theorem insertIncident_inv (h : insertIncident i db = .ok db') :
    (∀ j ∈ db.incidents, j.id ≠ i.id) ∧ db' = { db with incidents := db.incidents ++ [i] } := by
  rw [insertIncident] at h
  split at h
  · cases h
  · rename_i hfresh
    exact ⟨by simpa using hfresh, (Except.ok.inj h).symm⟩

theorem insertIncident_fresh (h : ∀ j ∈ db.incidents, j.id ≠ i.id) :
    insertIncident i db = .ok { db with incidents := db.incidents ++ [i] } :=
  if_neg (by simpa using h)

theorem insertIncident_taken (h : ¬ ∀ j ∈ db.incidents, j.id ≠ i.id) :
    insertIncident i db = .error DB.uniqueViolation :=
  if_pos (by simpa using h)

variable {t : IncidentTransition}

theorem insertTransition_taken (h : ¬ ∀ u ∈ db.transitions, u.id ≠ t.id) :
    insertTransition t db = .error DB.uniqueViolation :=
  if_pos (by simpa using h)

theorem insertTransition_fresh (h : ∀ u ∈ db.transitions, u.id ≠ t.id)
    (htext : textStorable t.reason = true) :
    insertTransition t db = .ok { db with transitions := db.transitions ++ [t] } := by
  rw [insertTransition, if_neg (by simpa using h), if_neg (by simp [htext])]

theorem insertTransition_inv (h : insertTransition t db = .ok db') :
    (∀ u ∈ db.transitions, u.id ≠ t.id)
      ∧ db' = { db with transitions := db.transitions ++ [t] } := by
  rw [insertTransition] at h
  split at h
  · cases h
  rename_i hfresh
  split at h
  · cases h
  · exact ⟨by simpa using hfresh, (Except.ok.inj h).symm⟩

theorem updateIncidentReturning_some {p : Incident → Bool} {f : Incident → Incident}
    (h : db.incidents.find? p = some i) :
    updateIncidentReturning p f db = .ok (f i, (db.updateIncidents p f).2) := by
  rw [updateIncidentReturning, h]

theorem updateIncidentReturning_inv {p : Incident → Bool} {f : Incident → Incident} {i' : Incident}
    (h : updateIncidentReturning p f db = .ok (i', db')) :
    ∃ i ∈ db.incidents, p i = true ∧ i' = f i ∧ db' = (db.updateIncidents p f).2 := by
  rw [updateIncidentReturning] at h
  split at h
  · rename_i i hi
    obtain ⟨rfl, rfl⟩ := Prod.mk.inj (Except.ok.inj h)
    exact ⟨i, List.mem_of_find?_eq_some hi, List.find?_some hi, rfl, rfl⟩
  · cases h

end EventDB

/-- What the event store takes from outside the repository: the policy
package's platform, PostgreSQL's reading of a `uuid` (its stored form), and the
cryptographic functions. -/
structure EventPlatform where
  policy : Policy.Platform
  uuid : String → Option String
  sha256 : List UInt8 → List UInt8
  encrypt : String → String → List UInt8
  decrypt : List UInt8 → String → Option String

/-- Binding a `uuid` parameter. -/
def bindUUID {σ : Type} (uuid : String → Option String) (text : String) : Tx σ String :=
  match uuid text with
  | some id => pure id
  | none => Tx.fail "invalid input syntax for type uuid"

/-- `appendAudit` on the event tables. -/
def auditEvent (entry : AuditEntry) : Tx EventDB Unit :=
  Tx.insert (EventDB.insertAudit entry)

end StormRelay
