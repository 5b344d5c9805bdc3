/-
Processing an event (`internal/storage/process.go` and `enqueueNotifications`
of `notifications.go`).

`ProcessEvent` stores an event, recognises a repetition, gathers the event into
an incident, evaluates the tenant's policies and enqueues notifications, in one
transaction.  `now` is the transaction's `now()`; what the call generates is an
argument.
-/
import StormRelay.EventStore

namespace StormRelay

open Tx GoStd

/-! ### Helpers of `process.go` -/

/-- `timeBucket`: the start of the window that holds `t`, in whole seconds. -/
def timeBucket (t : Time) (window : ℤ) : Time :=
  let seconds := max (wholeSeconds window) 1
  (t.fdiv second).tdiv seconds * seconds * second

/-- The `rank` of `maxSeverity`; a missing key of a Go map reads as zero. -/
def Severity.rank (s : Severity) : ℕ :=
  (["info", "warning", "error", "critical"].idxOf? s.text).getD 0

def maxSeverity (a b : Severity) : Severity :=
  if b.rank > a.rank then b else a

/-- `uniqueStrings`: the non-empty texts, each at its first occurrence. -/
def uniqueStrings (values : List String) : List String :=
  values.foldl (fun out v => if v ≠ "" ∧ v ∉ out then out ++ [v] else out) []

/-- The second of the four fields of a `traceparent`. -/
def traceIDFromParent (value : String) : String :=
  match value.toList.splitOn '-' with
  | [_, traceID, _, _] => String.ofList traceID
  | _ => ""

structure ProcessOptions where
  dedupeWindow : ℤ
  correlationWindow : ℤ
  actorID : String := ""
  publicBaseURL : String := ""

namespace ProcessOptions

/-- The defaults of `ProcessEvent`. -/
def effective (opt : ProcessOptions) : ProcessOptions :=
  { opt with
    dedupeWindow := if opt.dedupeWindow ≤ 0 then 15 * minute else opt.dedupeWindow
    correlationWindow := if opt.correlationWindow ≤ 0 then 30 * minute else opt.correlationWindow
    actorID := defaultText opt.actorID "worker" }

end ProcessOptions

/-- The identifiers and the secret that one `ProcessEvent` call generates, and
the `traceparent` of its tracing span. -/
structure Generated where
  rawID : String
  normalizedID : String
  duplicateID : String
  incidentID : String
  transitionID : String
  tokenID : String
  rawToken : String
  deliveryIDs : List String
  traceParent : String

structure ProcessResult where
  eventID : String
  incident : Option Incident := none
  duplicate : Bool := false
  duplicateNumber : ℕ := 0
  notificationIDs : List String := []

/-! ### Storing the event -/

def rawEvent (pf : EventPlatform) (gen : Generated) (tenantID sourceID : String)
    (e : Events.Event) :
    RawEvent :=
  { id := gen.rawID, tenantID := tenantID, sourceID := sourceID, contentType := e.dataContentType
    payload := e.rawPayload, payloadSHA256 := pf.sha256 e.rawPayload, receivedAt := e.receivedAt
    requestID := e.requestID }

def normalizedEvent (gen : Generated) (tenantID sourceID : String) (bucket : Time)
    (e : Events.Event) :
    NormalizedEvent :=
  { id := gen.normalizedID, tenantID := tenantID, sourceID := sourceID, rawEventID := gen.rawID
    ceID := e.id, sourceEventID := e.sourceEventID, idempotencyKey := e.idempotencyKey
    dedupeKey := dedupeKey e, dedupeBucket := bucket, fingerprint := e.fingerprint
    ceSource := e.source, ceType := e.type, subject := e.subject, eventTime := e.time
    dataContentType := e.dataContentType, schemaVersion := e.schemaVersion
    traceParent := e.traceParent, labels := e.labels, severity := e.severity, duplicateCount := 0 }

def addDuplicate (n : NormalizedEvent) : NormalizedEvent :=
  { n with duplicateCount := n.duplicateCount + 1 }

/-- `UPDATE normalized_events SET duplicate_count=duplicate_count+1 …
RETURNING id,duplicate_count`. -/
def countDuplicate (n : NormalizedEvent) (db : EventDB) :
    Except String ((String × ℕ) × EventDB) :=
  match db.normalizedEvents.find? (sameBucket n) with
  | some canonical =>
    .ok ((canonical.id, canonical.duplicateCount + 1),
      { db with
        normalizedEvents := Table.update (sameBucket n) addDuplicate db.normalizedEvents })
  | none => .error "locate duplicate canonical event: no rows in result set"

/-- A repeated event is counted on the canonical one; its raw row is kept. -/
def recordDuplicate (gen : Generated) (n : NormalizedEvent) (e : Events.Event) (actor : String) :
    Tx EventDB ProcessResult := do
  let (canonical, count) ← statement (countDuplicate n)
  insert (EventDB.insertDuplicate
    { id := gen.duplicateID, tenantID := n.tenantID, canonicalEventID := canonical
      rawEventID := gen.rawID, duplicateNumber := count, reason := "dedupe_key_within_window"
      receivedAt := e.receivedAt })
  auditEvent
    { tenantID := n.tenantID, actorType := "service", actorID := actor, action := "event.duplicate"
      resourceType := "event", resourceID := canonical, requestID := e.requestID
      traceID := traceIDFromParent e.traceParent }
  pure { eventID := canonical, duplicate := true, duplicateNumber := count }

/-! ### Correlation -/

/-- The open incident of the key with the latest event no older than `since`. -/
def openIncident (tenantID key : String) (since : Time) (db : EventDB) : Option Incident :=
  ((db.incidents.filter fun i =>
    i.tenantID = tenantID && i.correlationKey = key && i.state.isOpen && since ≤ i.lastEventAt)
      |>.insertionSort fun a b => b.lastEventAt ≤ a.lastEventAt).head?

def newIncident (now : Time) (gen : Generated) (tenantID key : String)
    (e : Events.Event) : Incident :=
  { id := gen.incidentID, tenantID := tenantID, correlationKey := key
    title := defaultText (trimSpace e.subject) e.type
    state := .detected, severity := e.severity, service := e.label "service"
    environment := e.label "environment", firstEventAt := e.receivedAt, lastEventAt := e.receivedAt
    acknowledgedAt := none, resolvedAt := none, createdAt := now, updatedAt := now, version := 1 }

def touchIncident (now : Time) (e : Events.Event) (severity : Severity) (i : Incident) : Incident :=
  { i with
    lastEventAt := max i.lastEventAt e.receivedAt, severity := severity, updatedAt := now
    version := i.version + 1 }

/-- The event opens an incident or joins the one found. -/
def correlate (now : Time) (gen : Generated) (tenantID eventID : String) (window : ℤ)
    (e : Events.Event) :
    Tx EventDB (Incident × Bool) := do
  -- `pg_advisory_xact_lock` on the key: serialises the callers, changes nothing.
  let _ ← exec fun db => (1, db)
  let found ← queryMaybe (openIncident tenantID (correlationKey e) (e.receivedAt - window))
  match found with
  | none =>
    let incident := newIncident now gen tenantID (correlationKey e) e
    insert (EventDB.insertIncident incident)
    insert (EventDB.insertTransition
      { id := gen.transitionID, tenantID := tenantID, incidentID := incident.id, from_ := none
        to_ := .detected, actorType := "service", actorID := "correlation-engine"
        reason := "first correlated event", requestID := e.requestID
        traceID := traceIDFromParent e.traceParent })
    let _ ← exec (EventDB.attachEvent incident.id eventID)
    pure (incident, true)
  | some i =>
    let incident ← statement (EventDB.updateIncidentReturning
      (fun x => x.id = i.id && x.version = i.version)
      (touchIncident now e (maxSeverity i.severity e.severity)))
    let _ ← exec (EventDB.attachEvent incident.id eventID)
    pure (incident, false)

/-! ### Policies -/

/-- The tenant's enabled policies with the text of their active versions, in
the order of their keys. -/
def enabledPolicies (tenantID : String) (db : EventDB) : List (String × String) :=
  ((db.policies.filter fun p => p.tenantID = tenantID && p.enabled)
    |>.insertionSort fun a b => a.policyKey ≤ b.policyKey).filterMap fun p =>
      (db.policyVersions.find? fun v => v.policyID = p.id && v.version = p.activeVersion).map
        fun v => (p.policyKey, v.documentYAML)

structure Routing where
  channels : List String := []
  suppressed : Bool := false
  matchedAny : Bool := false

def Routing.add (r : Routing) (d : Policy.Decision) : Routing :=
  if d.matched then
    { channels := r.channels ++ d.actions.notificationChannels
      suppressed := r.suppressed || d.actions.suppress
      matchedAny := true }
  else r

def evaluatePolicy (pf : EventPlatform) (tenantID incidentID actor : String) (e : Events.Event)
    (r : Routing) (policy : String × String) : Tx EventDB Routing := do
  match Policy.parse pf.policy policy.2 with
  | .error message => fail ("stored policy " ++ policy.1 ++ " is invalid: " ++ message)
  | .ok doc =>
    let decision := Policy.evaluate pf.policy doc e
    auditEvent
      { tenantID := tenantID, actorType := "service", actorID := actor
        action := "policy.evaluated", resourceType := "incident", resourceID := incidentID
        requestID := e.requestID, traceID := traceIDFromParent e.traceParent }
    pure (r.add decision)

/-- The policies are evaluated one by one while their result set is open. -/
def evaluatePolicies (pf : EventPlatform) (tenantID incidentID actor : String) (e : Events.Event) :
    Tx EventDB (List String × Bool) := do
  let rows ← query fun db => (enabledPolicies tenantID db, db)
  let r ← foldRows rows {} (evaluatePolicy pf tenantID incidentID actor e)
  if r.matchedAny = false then
    auditEvent
      { tenantID := tenantID, actorType := "service", actorID := actor
        action := "policy.default", resourceType := "incident", resourceID := incidentID
        requestID := e.requestID }
  pure (uniqueStrings r.channels, r.suppressed)

/-! ### Notifications -/

/-- A channel hears of each state and severity of an incident once. -/
def deliveryDedupeKey (incident : Incident) (channelID : String) : String :=
  "incident:" ++ incident.id ++ ":channel:" ++ channelID ++ ":state:" ++ incident.state.text
    ++ ":severity:" ++ incident.severity.text

def deliveryPayload (incident : Incident) (baseURL traceParent : String) : Json :=
  .obj [("ack_base_url", .str baseURL), ("environment", .str incident.environment),
    ("incident_id", .str incident.id), ("service", .str incident.service),
    ("severity", .str incident.severity.text), ("state", .str incident.state.text),
    ("title", .str incident.title), ("traceparent", .str traceParent)]

/-- The enabled channel of the tenant with the given key. -/
def enabledChannel (tenantID key : String) (db : EventDB) : Option Channel :=
  db.channels.find? fun c => c.tenantID = tenantID && c.channelKey = key && c.enabled

def newDelivery (now : Time) (deliveryID : String) (incident : Incident) (channel : Channel)
    (payload : Json) (ciphertext : List UInt8) : DeliveryAttempt :=
  { id := deliveryID, tenantID := incident.tenantID, incidentID := incident.id
    channelID := channel.id, channelKind := channel.kind
    dedupeKey := deliveryDedupeKey incident channel.id, status := .pending, attempt := 0
    payload := payload, ackTokenCiphertext := ciphertext, providerReference := none
    sanitizedError := none, nextAttemptAt := now, leaseExpiresAt := none, deliveredAt := none }

/-- The loop over the channel keys; it reports the deliveries that are new. -/
def enqueueChannels (now : Time) (incident : Incident) (payload : Json)
    (ciphertext : List UInt8) : List String → List String → Tx EventDB (List String)
  | [], _ => pure []
  | _ :: _, [] => fail "generate id"
  | key :: keys, deliveryID :: deliveryIDs => do
    let found ← queryMaybe (enabledChannel incident.tenantID key)
    match found with
    | none =>
      fail ("notification channel " ++ quote key ++ " does not exist or is disabled")
    | some channel =>
      let inserted ← statement (EventDB.insertDelivery
        (newDelivery now deliveryID incident channel payload ciphertext))
      let ids ← enqueueChannels now incident payload ciphertext keys deliveryIDs
      pure (if inserted > 0 then deliveryID :: ids else ids)

/-- All deliveries of a call share one token, stored if any of them is new. -/
def enqueueNotifications (pf : EventPlatform) (now : Time) (gen : Generated) (incident : Incident)
    (channelKeys : List String) (baseURL : String) : Tx EventDB (List String) := do
  let ids ← enqueueChannels now incident (deliveryPayload incident baseURL gen.traceParent)
    (pf.encrypt gen.rawToken incident.id) channelKeys gen.deliveryIDs
  if ids ≠ [] then
    insert (EventDB.insertAckToken
      { id := gen.tokenID, tenantID := incident.tenantID, incidentID := incident.id
        tokenHash := pf.sha256 (Policy.utf8 gen.rawToken), expiresAt := now + 24 * hour
        usedAt := none })
  pure ids

/-! ### `ProcessEvent` -/

/-- `ProcessEvent` behind the policies: without a channel it notifies `local-mock`. -/
def concludeEvent (pf : EventPlatform) (now : Time) (gen : Generated) (opt : ProcessOptions)
    (tenantID eventID : String) (e : Events.Event) (incident : Incident) (created : Bool)
    (channels : List String) (suppressed : Bool) : Tx EventDB ProcessResult := do
  let channels := if channels = [] then ["local-mock"] else channels
  let notificationIDs ←
    if suppressed then pure []
    else enqueueNotifications pf now gen incident channels opt.publicBaseURL
  auditEvent
    { tenantID := tenantID, actorType := "service", actorID := opt.actorID
      action := "event.accepted", resourceType := "event", resourceID := eventID
      requestID := e.requestID, traceID := traceIDFromParent e.traceParent }
  auditEvent
    { tenantID := tenantID, actorType := "service", actorID := opt.actorID
      action := if created then "incident.created" else "incident.updated"
      resourceType := "incident", resourceID := incident.id, requestID := e.requestID
      traceID := traceIDFromParent e.traceParent }
  pure { eventID := eventID, incident := some incident, notificationIDs := notificationIDs }

/-- `ProcessEvent` of a canonical event. -/
def routeEvent (pf : EventPlatform) (now : Time) (gen : Generated) (opt : ProcessOptions)
    (tenantID eventID : String) (e : Events.Event) : Tx EventDB ProcessResult := do
  let (incident, created) ← correlate now gen tenantID eventID opt.correlationWindow e
  let (channels, suppressed) ← evaluatePolicies pf tenantID incident.id opt.actorID e
  concludeEvent pf now gen opt tenantID eventID e incident created channels suppressed

/-- Stores the event, and correlates and routes it unless it is a duplicate. -/
def processEvent (pf : EventPlatform) (now : Time) (gen : Generated) (e : Events.Event)
    (options : ProcessOptions) : Tx EventDB ProcessResult := do
  let opt := options.effective
  let tenantID ← bindUUID pf.uuid e.tenantID
  let sourceID ← bindUUID pf.uuid e.sourceID
  insert (EventDB.insertRawEvent (rawEvent pf gen tenantID sourceID e))
  let n := normalizedEvent gen tenantID sourceID (timeBucket e.receivedAt opt.dedupeWindow) e
  let stored ← statement (EventDB.insertNormalizedEvent n)
  match stored with
  | none => recordDuplicate gen n e opt.actorID
  | some eventID => routeEvent pf now gen opt tenantID eventID e

/-! ### When the policies are read on a busy connection -/

section Connection

variable {pf : EventPlatform} {now : Time} {gen : Generated} {e : Events.Event} {db : EventDB}
  {tenantID : String} {x : Bool}

@[grind ←] theorem quiet_auditEvent (entry : AuditEntry) : Quiet (auditEvent entry) :=
  quiet_insert _

@[grind ←] theorem quiet_bindUUID {σ : Type} (uuid : String → Option String) (text : String) :
    Quiet (bindUUID uuid text : Tx σ String) := by
  grind [bindUUID]

theorem bindUUID_inv {σ : Type} {uuid : String → Option String} {text id : String} {c c' : Conn σ}
    (h : bindUUID uuid text c = .ok (id, c')) : uuid text = some id ∧ c' = c := by
  rw [bindUUID] at h
  rcases hid : uuid text with _ | id'
  · rw [hid] at h
    cases h
  · rw [hid] at h
    obtain ⟨rfl, rfl⟩ := ok_inj h
    exact ⟨rfl, rfl⟩

@[grind ←] theorem quiet_recordDuplicate (gen : Generated) (n : NormalizedEvent) (e : Events.Event)
    (actor : String) : Quiet (recordDuplicate gen n e actor) := by
  grind [recordDuplicate]

@[grind ←] theorem quiet_enqueueChannels (now : Time) (incident : Incident) (payload : Json)
    (ciphertext : List UInt8) (keys ids : List String) :
    Quiet (enqueueChannels now incident payload ciphertext keys ids) := by
  induction keys generalizing ids with
  | nil => exact quiet_pure []
  | cons key keys ih =>
    cases ids with
    | nil => exact quiet_fail _
    | cons deliveryID ids =>
      refine quiet_bind (quiet_queryMaybe _) fun found => ?_
      cases found <;> grind

@[grind ←] theorem quiet_enqueueNotifications (pf : EventPlatform) (now : Time) (gen : Generated)
    (incident : Incident) (keys : List String) (baseURL : String) :
    Quiet (enqueueNotifications pf now gen incident keys baseURL) := by
  grind [enqueueNotifications]

@[grind ←] theorem quiet_concludeEvent (pf : EventPlatform) (now : Time) (gen : Generated)
    (opt : ProcessOptions) (tenantID eventID : String) (e : Events.Event) (incident : Incident)
    (created : Bool) (channels : List String) (suppressed : Bool) :
    Quiet (concludeEvent pf now gen opt tenantID eventID e incident created channels
      suppressed) := by
  cases suppressed <;> grind [concludeEvent]

/-- The first policy that can be evaluated is audited while the rows are open. -/
theorem evaluatePolicies_busy {incidentID actor : String} {policy : String × String}
    {rest : List (String × String)} {doc : Policy.Document}
    (hp : enabledPolicies tenantID db = policy :: rest)
    (hdoc : Policy.parse pf.policy policy.2 = .ok doc) :
    evaluatePolicies pf tenantID incidentID actor e ⟨true, false, db⟩ = .error .connBusy := by
  simp only [evaluatePolicies, run_query, hp, foldRows, run_bind]
  refine bind_error ?_
  rw [fold]
  refine bind_error ?_
  simp only [evaluatePolicy, hdoc]
  rfl

theorem evaluatePolicies_quietAt {incidentID actor : String}
    (h : ∀ policy rest doc, enabledPolicies tenantID db = policy :: rest →
      Policy.parse pf.policy policy.2 ≠ .ok doc) :
    QuietAt (evaluatePolicies pf tenantID incidentID actor e) ⟨x, false, db⟩ := by
  rcases hp : enabledPolicies tenantID db with _ | ⟨policy, rest⟩
  · -- The default is recorded when the rows are closed.
    have hdefault : evaluatePolicies pf tenantID incidentID actor e ⟨x, false, db⟩
        = (auditEvent
          { tenantID := tenantID, actorType := "service", actorID := actor
            action := "policy.default", resourceType := "incident", resourceID := incidentID
            requestID := e.requestID } >>= fun _ => pure ([], false)) ⟨x, false, db⟩ := by
      simp only [evaluatePolicies, run_query, hp]
      rfl
    exact quietAt_of_eq hdefault
      (quiet_bind (quiet_auditEvent _) (fun _ => quiet_pure _) _ rfl)
  rcases hdoc : Policy.parse pf.policy policy.2 with message | doc
  · refine quietAt_error (e := .failed
      ("stored policy " ++ policy.1 ++ " is invalid: " ++ message)) ?_ nofun
    simp only [evaluatePolicies, run_query, hp, foldRows, run_bind]
    refine bind_error ?_
    rw [fold]
    refine bind_error ?_
    simp only [evaluatePolicy, hdoc]
    rfl
  · exact absurd hdoc (h policy rest doc hp)

def CanCorrelate (gen : Generated) (tenantID : String) (window : ℤ) (e : Events.Event)
    (db : EventDB) :
    Prop :=
  openIncident tenantID (correlationKey e) (e.receivedAt - window) db = none →
    (∀ i ∈ db.incidents, i.id ≠ gen.incidentID) ∧ ∀ t ∈ db.transitions, t.id ≠ gen.transitionID

theorem mem_of_openIncident {key : String} {since : Time} {i : Incident}
    (h : openIncident tenantID key since db = some i) : i ∈ db.incidents := by
  have hsorted := List.mem_of_mem_head? (Option.mem_def.mpr h)
  rw [List.mem_insertionSort] at hsorted
  exact List.mem_of_mem_filter hsorted

theorem first_reason_storable : textStorable "first correlated event" = true := by
  decide

variable {eventID : String}

theorem correlate_ok {window : ℤ} (h : CanCorrelate gen tenantID window e db) :
    ∃ r db', correlate now gen tenantID eventID window e ⟨x, false, db⟩ = .ok (r, ⟨x, false, db'⟩)
      ∧ enabledPolicies tenantID db' = enabledPolicies tenantID db := by
  simp only [correlate, run_exec, run_queryMaybe]
  rcases hfound : openIncident tenantID (correlationKey e) (e.receivedAt - window) db with _ | i
  · obtain ⟨hincident, htransition⟩ := h hfound
    simp only
    rw [run_insert_ok (EventDB.insertIncident_fresh hincident),
      run_insert_ok (EventDB.insertTransition_fresh htransition first_reason_storable), run_exec]
    refine ⟨_, _, rfl, ?_⟩
    rw [EventDB.attachEvent]
    split <;> rfl
  obtain ⟨j, hj⟩ : ∃ j, db.incidents.find? (fun x => x.id = i.id && x.version = i.version)
      = some j := by
    rw [← Option.isSome_iff_exists, List.find?_isSome]
    exact ⟨i, mem_of_openIncident hfound, by simp⟩
  simp only
  rw [run_statement_ok (EventDB.updateIncidentReturning_some hj), run_exec]
  refine ⟨_, _, rfl, ?_⟩
  rw [EventDB.attachEvent]
  split <;> rfl

theorem correlate_error {window : ℤ} (h : ¬ CanCorrelate gen tenantID window e db) :
    correlate now gen tenantID eventID window e ⟨x, false, db⟩
      = .error (.failed DB.uniqueViolation) := by
  simp only [CanCorrelate, Classical.not_imp] at h
  obtain ⟨hfound, htaken⟩ := h
  simp only [correlate, run_exec, run_queryMaybe, hfound]
  by_cases hincident : ∀ i ∈ db.incidents, i.id ≠ gen.incidentID
  · rw [run_insert_ok (EventDB.insertIncident_fresh hincident)]
    refine run_insert_error (EventDB.insertTransition_taken ?_)
    exact fun hfresh => htaken ⟨hincident, hfresh⟩
  · exact run_insert_error (EventDB.insertIncident_taken hincident)

/-- The event is canonical and passes every statement before the policies are
read: its rows satisfy the constraints of their tables, its bucket holds no
event yet, and the identifiers generated for it are new. -/
structure Admitted (pf : EventPlatform) (gen : Generated) (e : Events.Event) (opt : ProcessOptions)
    (tenantID sourceID : String) (db : EventDB) : Prop where
  tenant : pf.uuid e.tenantID = some tenantID
  source : pf.uuid e.sourceID = some sourceID
  raw : db.acceptsRaw (rawEvent pf gen tenantID sourceID e) = true
  normalized : EventDB.acceptsNormalized
    (normalizedEvent gen tenantID sourceID (timeBucket e.receivedAt opt.dedupeWindow) e) = true
  unseen : ∀ m ∈ db.normalizedEvents, sameBucket
    (normalizedEvent gen tenantID sourceID (timeBucket e.receivedAt opt.dedupeWindow) e) m = false
  fresh : ∀ m ∈ db.normalizedEvents, m.id ≠ gen.normalizedID
  correlates : CanCorrelate gen tenantID opt.correlationWindow e db

def FirstPolicyParses (pf : EventPlatform) (tenantID : String) (db : EventDB) : Prop :=
  ∃ policy rest doc, enabledPolicies tenantID db = policy :: rest
    ∧ Policy.parse pf.policy policy.2 = .ok doc

theorem routeEvent_busy {opt : ProcessOptions}
    (hcor : CanCorrelate gen tenantID opt.correlationWindow e db)
    (hfirst : FirstPolicyParses pf tenantID db) :
    routeEvent pf now gen opt tenantID eventID e ⟨true, false, db⟩ = .error .connBusy := by
  obtain ⟨policy, rest, doc, hp, hdoc⟩ := hfirst
  obtain ⟨r, db', hrun, hpolicies⟩ := correlate_ok hcor
  rw [routeEvent, bind_ok hrun]
  exact bind_error (evaluatePolicies_busy (hpolicies.trans hp) hdoc)

theorem routeEvent_quietAt {opt : ProcessOptions}
    (h : ¬ (CanCorrelate gen tenantID opt.correlationWindow e db
      ∧ FirstPolicyParses pf tenantID db)) :
    QuietAt (routeEvent pf now gen opt tenantID eventID e) ⟨x, false, db⟩ := by
  by_cases hcor : CanCorrelate gen tenantID opt.correlationWindow e db
  · obtain ⟨r, db', hrun, hpolicies⟩ := correlate_ok hcor
    rw [QuietAt, routeEvent, bind_ok hrun]
    refine quietAt_bind ?_ fun _ c' _ hidle => quiet_concludeEvent _ _ _ _ _ _ _ _ _ _ _ c' hidle
    refine evaluatePolicies_quietAt fun policy rest doc hp hdoc => h ⟨hcor, ?_⟩
    exact ⟨policy, rest, doc, hpolicies.symm.trans hp, hdoc⟩
  · refine quietAt_error (e := .failed DB.uniqueViolation) ?_ (fun h => by cases h)
    rw [routeEvent]
    exact bind_error (correlate_error hcor)

/-- **A canonical event meets its own open result set exactly when its tenant
has an enabled policy.**  (A stored policy that no longer parses ends the
transaction before it is audited.) -/
theorem processEvent_busy_iff (pf : EventPlatform) (now : Time) (gen : Generated) (e : Events.Event)
    (options : ProcessOptions) (db : EventDB) :
    FailsBusy true (processEvent pf now gen e options) db
      ↔ ∃ tenantID sourceID, Admitted pf gen e options.effective tenantID sourceID db
        ∧ FirstPolicyParses pf tenantID db := by
  constructor
  · intro hbusy
    by_contra hno
    refine QuietAt.not_failsBusy (quietAt_bind (quiet_bindUUID _ _ _ rfl) ?_) hbusy
    intro tenantID c hc₁ _
    obtain ⟨htenant, rfl⟩ := bindUUID_inv hc₁
    refine quietAt_bind (quiet_bindUUID _ _ _ rfl) fun sourceID c hc₂ _ => ?_
    obtain ⟨hsource, rfl⟩ := bindUUID_inv hc₂
    refine quietAt_bind (quiet_insert _ _ rfl) fun _ c hc₃ _ => ?_
    obtain ⟨db₁, hdb₁, rfl⟩ := insert_inv hc₃
    obtain ⟨hraw, rfl⟩ := EventDB.insertRawEvent_inv hdb₁
    refine quietAt_bind (quiet_statement _ _ rfl) fun stored c hc₄ _ => ?_
    obtain ⟨db₂, hdb₂, rfl⟩ := statement_inv hc₄
    cases stored with
    | none => exact quiet_recordDuplicate _ _ _ _ _ rfl
    | some eventID =>
      obtain ⟨hnormalized, hunseen, hfresh, rfl, rfl⟩ := EventDB.insertNormalizedEvent_some.mp hdb₂
      refine routeEvent_quietAt fun h => hno ⟨tenantID, sourceID, ?_, h.2⟩
      exact ⟨htenant, hsource, hraw, hnormalized, hunseen, hfresh, h.1⟩
  rintro ⟨tenantID, sourceID, h, hfirst⟩
  refine failsBusy_of_error ?_
  simp only [processEvent, bindUUID, h.tenant, h.source, run_pure]
  have hstored := (@EventDB.insertNormalizedEvent_some
    { db with rawEvents := db.rawEvents ++ [rawEvent pf gen tenantID sourceID e] } _ _ _).mpr
    ⟨h.normalized, h.unseen, h.fresh, rfl, rfl⟩
  rw [run_insert_ok (EventDB.insertRawEvent_accepted h.raw), run_statement_ok hstored]
  exact routeEvent_busy h.correlates hfirst

end Connection

end StormRelay
