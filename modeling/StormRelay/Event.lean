/-
Normalised events (`internal/events/model.go`, `normalize.go`).

The event record that travels from the webhook to the store, and the two keys
the store derives from it: `dedupeKey`, by which repetitions are recognised,
and `correlationKey`, by which events are gathered into incidents.
-/
import StormRelay.Schema

namespace StormRelay

/-- `events.Severity`; `other` is any text outside the four constants. -/
inductive Severity where
  | info
  | warning
  | error
  | critical
  | other (text : String)
deriving DecidableEq, Repr

def Severity.text : Severity → String
  | .info => "info"
  | .warning => "warning"
  | .error => "error"
  | .critical => "critical"
  | .other text => text

/-- `events.Event`.  `labels` is `none` for a nil map; `rawPayload` holds the
bytes of the embedded JSON text. -/
structure Events.Event where
  id : String
  source : String
  type : String
  subject : String := ""
  time : Time
  dataContentType : String
  schemaVersion : String
  tenantID : String
  sourceID : String
  traceParent : String := ""
  labels : Option (List (String × String))
  severity : Severity
  rawPayload : List UInt8
  sourceEventID : String := ""
  idempotencyKey : String := ""
  fingerprint : String
  receivedAt : Time
  requestID : String

/-- `e.Labels[name]`, empty when the label is missing. -/
def Events.Event.label (e : Events.Event) (name : String) : String :=
  ((e.labels.getD []).lookup name).getD ""

def dedupeKey (e : Events.Event) : String :=
  if e.idempotencyKey ≠ "" then "idem:" ++ e.idempotencyKey
  else if e.sourceEventID ≠ "" then "source:" ++ e.sourceEventID
  else "fingerprint:" ++ e.fingerprint

def correlationKey (e : Events.Event) : String :=
  let labels := [e.label "service", e.label "environment", e.label "resource", e.label "alertname"]
  let parts := e.tenantID :: labels
  String.intercalate "|" (if String.join labels = "" then parts ++ [e.fingerprint] else parts)

end StormRelay
