/-
Normalisation of webhook bodies (`internal/events/normalize.go`).

A body is read as a structured CloudEvent or as a generic JSON object; both give
an event that carries the body itself as its raw payload.  The readings of
`encoding/json`, case mapping and SHA-256 come from outside the repository
(`Platform`).

* `normalize_ok` — **what every event says of its request**: whose it is, and
  that its raw payload is the body, byte for byte.
-/
import StormRelay.Policy

namespace StormRelay.Events

open GoStd

/-- `events.CloudEvent`, as `json.Unmarshal` fills it in; `labels` is `none` for
a nil map. -/
structure CloudEvent where
  specVersion : String
  id : String
  source : String
  type : String
  subject : String := ""
  time : Option Time := none
  dataContentType : String := ""
  data : List UInt8 := []
  severity : String := ""
  labels : Option (List (String × String)) := none

/-- What normalisation takes from outside the repository: case mapping,
`json.Valid`, `json.Unmarshal` into a map and into a `CloudEvent`, and
SHA-256. -/
structure Platform where
  toLower : String → String
  valid : List UInt8 → Bool
  decodeObject : List UInt8 → Except String (List (String × Json))
  decodeCloudEvent : List UInt8 → Except String CloudEvent
  sha256 : List UInt8 → List UInt8

/-- `NormalizeInput`; `receivedAt` is `none` for the zero time. -/
structure NormalizeInput where
  tenantID : String
  sourceID : String
  sourceName : String := ""
  contentType : String := ""
  body : List UInt8
  sourceEventID : String := ""
  idempotencyKey : String := ""
  traceParent : String := ""
  requestID : String := ""
  receivedAt : Option Time := none

def schemaVersion : String := "1.0"

/-! ### Reading the fields -/

def stringValue (data : List (String × Json)) : List String → String
  | [] => ""
  | key :: keys =>
    match data.lookup key with
    | some (.str v) => trimSpace v
    | _ => stringValue data keys

def parseSeverity (pf : Platform) (value : String) : Severity :=
  let value := pf.toLower (trimSpace value)
  if value ∈ ["critical", "fatal", "emergency"] then .critical
  else if value ∈ ["error", "high"] then .error
  else if value ∈ ["warning", "warn", "medium"] then .warning
  else .info

/-- `labels[name] = value`. -/
def setLabel (labels : List (String × String)) (name value : String) : List (String × String) :=
  labels.filter (fun l => l.1 ≠ name) ++ [(name, value)]

/-- A member of `labels` that is kept: a short text under a short name. -/
def keptLabel : String × Json → Option (String × String)
  | (name, .str value) =>
    if name.utf8ByteSize ≤ 64 ∧ value.utf8ByteSize ≤ 256 then some (name, value) else none
  | _ => none

def extractLabels (data : List (String × Json)) : List (String × String) :=
  let own :=
    match data.lookup "labels" with
    | some (.obj members) => members.filterMap keptLabel
    | _ => []
  ["service", "environment", "resource", "alertname"].foldl (fun labels key =>
    let value := stringValue data [key]
    if value ≠ "" then setLabel labels key value else labels) own

def defaultString (v fallback : String) : String :=
  if trimSpace v = "" then fallback else v

/-- The labels as `Fingerprint` hashes them, in the order of their names. -/
def labelBytes (labels : List (String × String)) : List UInt8 :=
  (labels.insertionSort fun a b => a.1 ≤ b.1).flatMap fun l =>
    Policy.utf8 l.1 ++ [0x3D] ++ Policy.utf8 l.2 ++ [0]

def fingerprint (pf : Platform) (source eventType subject : String)
    (labels : List (String × String)) (raw : List UInt8) : String :=
  let tail := if labels = [] ∧ subject = "" then raw else []
  hexEncode (pf.sha256 (Policy.utf8 source ++ [0] ++ Policy.utf8 eventType ++ [0]
    ++ Policy.utf8 subject ++ [0] ++ labelBytes labels ++ tail))

/-! ### `Normalize` -/

def normalizeStructuredCloudEvent (pf : Platform) (input : NormalizeInput) (receivedAt : Time) :
    Except String Event :=
  match pf.decodeCloudEvent input.body with
  | .error err => .error ("invalid CloudEvent: decode: " ++ err)
  | .ok ce =>
    if ce.specVersion ≠ "1.0" ∨ ce.id = "" ∨ ce.source = "" ∨ ce.type = "" then
      .error "invalid CloudEvent: specversion, id, source and type are required"
    else
      let labels := ce.labels.getD []
      .ok
        { id := ce.id, source := ce.source, type := ce.type, subject := ce.subject
          time := ce.time.getD receivedAt
          dataContentType := defaultString ce.dataContentType "application/json"
          schemaVersion := schemaVersion, tenantID := input.tenantID, sourceID := input.sourceID
          traceParent := input.traceParent, labels := some labels
          severity := parseSeverity pf ce.severity, rawPayload := input.body
          sourceEventID := ce.id, idempotencyKey := input.idempotencyKey
          fingerprint := fingerprint pf ce.source ce.type ce.subject labels ce.data
          receivedAt := receivedAt, requestID := input.requestID }

/-- The event's own identifier, or a new one; `newID` is the answer of
`id.New`. -/
def genericEventID (newID : Except String String) (input : NormalizeInput) : Except String String :=
  let eventID := trimSpace input.sourceEventID
  if eventID = "" then newID else .ok eventID

def normalizeGeneric (pf : Platform) (newID : Except String String) (input : NormalizeInput)
    (receivedAt : Time) : Except String Event :=
  if pf.valid input.body = false then .error "payload must be valid JSON"
  else do
    let data ← pf.decodeObject input.body
    let eventID ← genericEventID newID input
    let named := stringValue data ["type", "event_type", "alert_type"]
    let typeName := if named = "" then "com.stormrelay.generic" else named
    let subject := stringValue data ["subject", "alertname", "title"]
    let labels := extractLabels data
    .ok
      { id := eventID, source := "urn:stormrelay:source:" ++ input.sourceID, type := typeName
        subject := subject, time := receivedAt
        dataContentType := defaultString input.contentType "application/json"
        schemaVersion := schemaVersion, tenantID := input.tenantID, sourceID := input.sourceID
        traceParent := input.traceParent, labels := some labels
        severity := parseSeverity pf (stringValue data ["severity", "level", "status"])
        rawPayload := input.body, sourceEventID := input.sourceEventID
        idempotencyKey := input.idempotencyKey
        fingerprint := fingerprint pf input.sourceName typeName subject labels input.body
        receivedAt := receivedAt, requestID := input.requestID }

/-- `Normalize` at the time `now`. -/
def normalize (pf : Platform) (now : Time) (newID : Except String String) (input : NormalizeInput) :
    Except String Event :=
  let receivedAt := input.receivedAt.getD now
  if input.tenantID = "" ∨ input.sourceID = "" ∨ input.body = [] then
    .error "tenant, source and body are required"
  else if contains (pf.toLower input.contentType) "application/cloudevents+json" then
    normalizeStructuredCloudEvent pf input receivedAt
  else normalizeGeneric pf newID input receivedAt

/-! ### What an event says of its request -/

/-- The event is one of the request: it belongs to its tenant and source, keeps
the identifiers the sender gave, has labels and a known severity, and carries
the body. -/
structure Describes (now : Time) (input : NormalizeInput) (e : Event) : Prop where
  tenantID : e.tenantID = input.tenantID
  sourceID : e.sourceID = input.sourceID
  rawPayload : e.rawPayload = input.body
  idempotencyKey : e.idempotencyKey = input.idempotencyKey
  receivedAt : e.receivedAt = input.receivedAt.getD now
  requestID : e.requestID = input.requestID
  schemaVersion : e.schemaVersion = Events.schemaVersion
  labels : e.labels.isSome = true
  severity : ∀ text, e.severity ≠ .other text

section Describes

variable {pf : Platform} {now : Time} {newID : Except String String} {input : NormalizeInput}
  {e : Event}

theorem parseSeverity_known (pf : Platform) (value text : String) :
    parseSeverity pf value ≠ .other text := by
  intro h
  simp only [parseSeverity] at h
  split_ifs at h

theorem normalizeStructuredCloudEvent_ok
    (h : normalizeStructuredCloudEvent pf input (input.receivedAt.getD now) = .ok e) :
    Describes now input e := by
  rw [normalizeStructuredCloudEvent] at h
  split at h
  · cases h
  split at h
  · cases h
  · rw [← Except.ok.inj h]
    exact ⟨rfl, rfl, rfl, rfl, rfl, rfl, rfl, rfl, parseSeverity_known pf _⟩

theorem normalizeGeneric_ok
    (h : normalizeGeneric pf newID input (input.receivedAt.getD now) = .ok e) :
    Describes now input e := by
  rw [normalizeGeneric] at h
  split at h
  · cases h
  rcases hdata : pf.decodeObject input.body with err | data
  · rw [hdata] at h
    cases h
  rcases hid : genericEventID newID input with err | eventID
  · rw [hdata, hid] at h
    cases h
  · rw [hdata, hid] at h
    rw [← Except.ok.inj h]
    exact ⟨rfl, rfl, rfl, rfl, rfl, rfl, rfl, rfl, parseSeverity_known pf _⟩

/-- **Every event `Normalize` accepts describes its request.** -/
theorem normalize_ok (h : normalize pf now newID input = .ok e) : Describes now input e := by
  rw [normalize] at h
  split at h
  · cases h
  · split at h
    · exact normalizeStructuredCloudEvent_ok h
    · exact normalizeGeneric_ok h

end Describes

end StormRelay.Events
