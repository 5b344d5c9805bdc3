/-
Routing of events to notification channels (`ApplyPolicy` of
`internal/storage/policies.go`, `CreateNotificationChannel` of `manual.go`, and
what `ProcessEvent` makes of both).

A policy names channels by key.  `ApplyPolicy` does not look whether they exist,
and an event without a matching policy goes to the channel `local-mock`, which
the migrations create for one tenant; `enqueueNotifications` fails on a key
without an enabled channel.

* `routing_sound` — **in every run whose policies name enabled channels of their
  tenants, every key that is passed on has an enabled channel**, if every tenant
  starts with its `local-mock`.
-/
import StormRelay.Conservation

namespace StormRelay

open Tx Table Transition GoStd

/-! ### `ApplyPolicy` and `CreateNotificationChannel` -/

structure ApplyPolicyInput where
  tenantID : String
  documentYAML : String
  actorID : String := ""
  requestID : String := ""
  traceID : String := ""

namespace EventDB

def foreignKeyViolation : String := "insert or update violates foreign key constraint"

def invalidByteSequence : String := "invalid byte sequence for encoding UTF8: 0x00"

def policyRow (tenantID key : String) (db : EventDB) : Option PolicyRow :=
  db.policies.find? fun p => p.tenantID = tenantID && p.policyKey = key

/-- `INSERT INTO policies`. -/
def insertPolicy (p : PolicyRow) (db : EventDB) : Except String EventDB :=
  if db.policies.any fun x =>
      x.id = p.id || (x.tenantID = p.tenantID && x.policyKey = p.policyKey)
  then .error DB.uniqueViolation
  else if p.tenantID ∉ db.tenants then .error foreignKeyViolation
  else .ok { db with policies := db.policies ++ [p] }

/-- `INSERT INTO policy_versions`. -/
def insertPolicyVersion (v : PolicyVersion) (db : EventDB) : Except String EventDB :=
  if textStorable v.documentYAML = false then .error invalidByteSequence
  else if db.policyVersions.any fun x => x.policyID = v.policyID && x.version = v.version then
    .error DB.uniqueViolation
  else if db.policies.all fun p => p.id ≠ v.policyID then .error foreignKeyViolation
  else .ok { db with policyVersions := db.policyVersions ++ [v] }

/-- `UPDATE policies SET active_version=$2,updated_at=now(),version=version+1
WHERE id=$1`. -/
def activatePolicy (policyID : String) (version : ℤ) (db : EventDB) : EventDB :=
  { db with
    policies := update (fun p => p.id = policyID) (fun p => { p with activeVersion := version })
      db.policies }

/-- `INSERT INTO notification_channels`; a new channel is enabled. -/
def insertChannel (c : Channel) (db : EventDB) : Except String EventDB :=
  if (textStorable c.channelKey && c.config.storable) = false then .error invalidByteSequence
  else if c.kind ∉ ["mock", "telegram", "webhook", "email"] then
    .error "new row violates check constraint"
  else if db.channels.any fun x =>
      x.id = c.id || (x.tenantID = c.tenantID && x.channelKey = c.channelKey)
  then .error DB.uniqueViolation
  else if c.tenantID ∉ db.tenants then .error foreignKeyViolation
  else .ok { db with channels := db.channels ++ [c] }

/-- `INSERT INTO event_sources`, of which the primary key is kept. -/
def insertSource (sourceID : String) (db : EventDB) : Except String EventDB :=
  if sourceID ∈ db.sources then .error DB.uniqueViolation
  else .ok { db with sources := db.sources ++ [sourceID] }

end EventDB

/-- A statement that only writes. -/
def written {σ : Type} (f : σ → Except String σ) : Admin.Stmt σ Unit :=
  fun db => (f db).map fun db' => ((), db')

/-- A statement on the row that the call has looked up. -/
def onRow {σ ρ : Type} (row : σ → Option ρ) (f : ρ → σ → Except String σ) : Admin.Stmt σ Unit :=
  written fun db =>
    match row db with
    | some r => f r db
    | none => .error "no rows in result set"

/-- A statement on the tenant's policy with the given key, whose identifier
`ApplyPolicy` holds. -/
def onPolicy (tenantID key : String) (f : PolicyRow → EventDB → Except String EventDB) :
    Admin.Stmt EventDB Unit :=
  onRow (EventDB.policyRow tenantID key) f

/-- `ApplyPolicy`; `policyID` is the identifier it generates for a new policy. -/
def applyPolicy (pf : EventPlatform) (policyID : String) (input : ApplyPolicyInput) :
    Tx EventDB Unit :=
  match Policy.parse pf.policy input.documentYAML with
  | .error message => fail message
  | .ok doc => do
    let tenantID ← bindUUID pf.uuid input.tenantID
    Admin.applyPolicy doc.version
      -- `pg_advisory_xact_lock` on the text of the key.
      (fun db => if textStorable (input.tenantID ++ "|policy|" ++ doc.id) then .ok ((), db)
        else .error EventDB.invalidByteSequence)
      (fun db => .ok ((db.policyRow tenantID doc.id).map PolicyRow.activeVersion, db))
      (written (EventDB.insertPolicy
        { id := policyID, tenantID := tenantID, policyKey := doc.id, enabled := true
          activeVersion := 1 }))
      (onPolicy tenantID doc.id fun p => EventDB.insertPolicyVersion
        { policyID := p.id, version := doc.version, documentYAML := input.documentYAML })
      (onPolicy tenantID doc.id fun p db => .ok (db.activatePolicy p.id doc.version))
      (onPolicy tenantID doc.id fun p => EventDB.insertAudit
        { tenantID := tenantID, actorType := "api-key"
          actorID := defaultText input.actorID "unknown", action := "policy.applied"
          resourceType := "policy", resourceID := p.id, requestID := input.requestID
          traceID := input.traceID })

/-- A call after its lookup: the key and the version of its document, and the
active version it found. -/
structure Opened where
  tenantID : String
  key : String
  version : ℤ
  found : Option ℤ

/-- `ApplyPolicy` up to its lookup. -/
def openPolicy (pf : EventPlatform) (input : ApplyPolicyInput) : Tx EventDB Opened :=
  match Policy.parse pf.policy input.documentYAML with
  | .error message => fail message
  | .ok doc => do
    let tenantID ← bindUUID pf.uuid input.tenantID
    let found ← Admin.lookUp
      (fun db => if textStorable (input.tenantID ++ "|policy|" ++ doc.id) then .ok ((), db)
        else .error EventDB.invalidByteSequence)
      (fun db => .ok ((db.policyRow tenantID doc.id).map PolicyRow.activeVersion, db))
    pure { tenantID := tenantID, key := doc.id, version := doc.version, found := found }

/-- `ApplyPolicy` from its lookup on. -/
def closePolicy (policyID : String) (input : ApplyPolicyInput) (o : Opened) : Tx EventDB Unit :=
  Admin.enter "policy" o.version
    (written (EventDB.insertPolicy
      { id := policyID, tenantID := o.tenantID, policyKey := o.key, enabled := true
        activeVersion := 1 }))
    (onPolicy o.tenantID o.key fun p => EventDB.insertPolicyVersion
      { policyID := p.id, version := o.version, documentYAML := input.documentYAML })
    (statement (onPolicy o.tenantID o.key fun p db => .ok (db.activatePolicy p.id o.version)))
    (onPolicy o.tenantID o.key fun p => EventDB.insertAudit
      { tenantID := o.tenantID, actorType := "api-key"
        actorID := defaultText input.actorID "unknown", action := "policy.applied"
        resourceType := "policy", resourceID := p.id, requestID := input.requestID
        traceID := input.traceID })
    o.found

/-- **`ApplyPolicy` is its two phases.** -/
theorem applyPolicy_eq_phases (pf : EventPlatform) (policyID : String) (input : ApplyPolicyInput) :
    applyPolicy pf policyID input = openPolicy pf input >>= closePolicy policyID input := by
  rw [applyPolicy, openPolicy]
  cases Policy.parse pf.policy input.documentYAML with
  | error message => rfl
  | ok doc =>
    dsimp only
    rw [bind_bind]
    refine congrArg (bindUUID pf.uuid input.tenantID >>= ·) (funext fun tenantID => ?_)
    rw [bind_bind, Admin.applyPolicy_eq]
    rfl

structure ChannelInput where
  tenantID : String
  key : String
  kind : String
  config : Json

/-- `createNotificationChannel`; an empty configuration is the empty object. -/
def createNotificationChannel (pf : EventPlatform) (channelID : String) (input : ChannelInput)
    (audit : Option AuditEntry) : Tx EventDB Unit := do
  let tenantID ← bindUUID pf.uuid input.tenantID
  Admin.createNotificationChannel
    (written (EventDB.insertChannel
      { id := channelID, tenantID := tenantID, channelKey := input.key, kind := input.kind
        config := input.config, enabled := true }))
    (audit.map fun entry => written (EventDB.insertAudit
      { entry with
        action := "notification_channel.created", resourceType := "notification_channel"
        resourceID := channelID }))

/-- `CreateNotificationChannelWithAudit`. -/
def createNotificationChannelWithAudit (pf : EventPlatform) (channelID : String)
    (input : ChannelInput) (audit : AuditEntry) : Tx EventDB Unit :=
  if audit.tenantID ≠ input.tenantID ∨ input.tenantID = "" ∨ trimSpace audit.actorType = ""
      ∨ trimSpace audit.actorID = "" then
    fail "notification audit tenant and actor must match the authenticated request"
  else createNotificationChannel pf channelID input (some audit)

/-! ### `ProcessEvent` up to its notifications -/

/-- A canonical event that has been correlated and matched with the policies. -/
structure Matched where
  tenantID : String
  eventID : String
  incident : Incident
  created : Bool
  channels : List String
  suppressed : Bool

/-- The keys passed to `enqueueNotifications`. -/
def Matched.keys (m : Matched) : List String :=
  if m.channels = [] then ["local-mock"] else m.channels

/-- `ProcessEvent` up to its notifications: a duplicate is done, a canonical event
has been matched. -/
def route (pf : EventPlatform) (now : Time) (gen : Generated) (e : Events.Event)
    (options : ProcessOptions) : Tx EventDB (ProcessResult ⊕ Matched) := do
  let opt := options.effective
  let tenantID ← bindUUID pf.uuid e.tenantID
  let sourceID ← bindUUID pf.uuid e.sourceID
  insert (EventDB.insertRawEvent (rawEvent pf gen tenantID sourceID e))
  let n := normalizedEvent gen tenantID sourceID (timeBucket e.receivedAt opt.dedupeWindow) e
  let stored ← statement (EventDB.insertNormalizedEvent n)
  match stored with
  | none => do
    let res ← recordDuplicate gen n e opt.actorID
    pure (.inl res)
  | some eventID => do
    let (incident, created) ← correlate now gen tenantID eventID opt.correlationWindow e
    let (channels, suppressed) ← evaluatePolicies pf tenantID incident.id opt.actorID e
    pure (.inr ⟨tenantID, eventID, incident, created, channels, suppressed⟩)

/-- **`ProcessEvent` is `route` and then the notifications of a matched event.** -/
theorem processEvent_eq (pf : EventPlatform) (now : Time) (gen : Generated) (e : Events.Event)
    (options : ProcessOptions) :
    processEvent pf now gen e options
      = route pf now gen e options >>= fun r =>
        match r with
        | .inl res => pure res
        | .inr m => concludeEvent pf now gen options.effective m.tenantID m.eventID e m.incident
            m.created m.channels m.suppressed := by
  rw [processEvent, route, bind_bind]
  refine congrArg (bindUUID pf.uuid e.tenantID >>= ·) (funext fun tenantID => ?_)
  rw [bind_bind]
  refine congrArg (bindUUID pf.uuid e.sourceID >>= ·) (funext fun sourceID => ?_)
  rw [bind_bind]
  refine congrArg (insert _ >>= ·) (funext fun _ => ?_)
  rw [bind_bind]
  refine congrArg (statement _ >>= ·) (funext fun stored => ?_)
  cases stored with
  | none =>
    simp only [bind_bind]
    exact (bind_pure_self _).symm
  | some eventID =>
    simp only [routeEvent, bind_bind]
    rfl

/-! ### Where the keys come from -/

theorem mem_uniqueStrings {values : List String} {key : String} (h : key ∈ uniqueStrings values) :
    key ∈ values ∧ key ≠ "" := by
  have hfold : ∀ (values out : List String),
      key ∈ values.foldl (fun out v => if v ≠ "" ∧ v ∉ out then out ++ [v] else out) out →
      key ∈ out ∨ key ∈ values ∧ key ≠ "" := by
    intro values
    induction values with
    | nil => exact fun out h => .inl h
    | cons v values ih =>
      intro out h
      rcases ih _ h with hout | ⟨hmem, hne⟩
      · dsimp only at hout
        split at hout
        · rename_i hnew
          rcases List.mem_append.mp hout with hold | hv
          · exact .inl hold
          · obtain rfl := List.mem_singleton.mp hv
            exact .inr ⟨List.mem_cons_self, hnew.1⟩
        · exact .inl hout
      · exact .inr ⟨List.mem_cons_of_mem v hmem, hne⟩
  exact (hfold values [] h).resolve_left List.not_mem_nil

def NamedByPolicy (pf : EventPlatform) (tenantID key : String) (db : EventDB) : Prop :=
  ∃ policy ∈ enabledPolicies tenantID db, ∃ doc, Policy.parse pf.policy policy.2 = .ok doc
    ∧ key ∈ doc.actions.notificationChannels

section Route

variable {pf : EventPlatform} {now : Time} {gen : Generated} {e : Events.Event} {db : EventDB}
  {options : ProcessOptions} {x : Bool} {c : Conn EventDB} {m : Matched}

theorem mem_add_channels {r : Routing} {doc : Policy.Document} {key : String}
    (h : key ∈ (r.add (Policy.evaluate pf.policy doc e)).channels) :
    key ∈ r.channels ∨ key ∈ doc.actions.notificationChannels := by
  rw [Routing.add] at h
  split at h
  · rename_i hmatched
    rcases List.mem_append.mp h with hold | hnew
    · exact .inl hold
    · simp only [Policy.evaluate] at hmatched hnew
      rw [if_pos hmatched] at hnew
      exact .inr hnew
  · exact .inl h

/-- The loop over the policies gathers keys that a policy in force names. -/
theorem evaluatePolicies_keys {tenantID incidentID actor : String} {channels : List String}
    {suppressed : Bool}
    (h : evaluatePolicies pf tenantID incidentID actor e ⟨x, false, db⟩
      = .ok ((channels, suppressed), c)) :
    ∀ key ∈ channels, key ≠ "" ∧ NamedByPolicy pf tenantID key db := by
  simp only [evaluatePolicies, run_query] at h
  obtain ⟨r, c₁, hloop, h⟩ := run_ok h
  -- The routing so far only has keys that a policy names.
  have hnamed : ∀ key ∈ r.channels, NamedByPolicy pf tenantID key db := by
    refine foldRows_inv (P := fun r => ∀ key ∈ r.channels, NamedByPolicy pf tenantID key db) ?_
      (fun _ h => absurd h List.not_mem_nil) hloop
    intro policy hpolicy r r' c c' hr hpass key hkey
    rcases hdoc : Policy.parse pf.policy policy.2 with message | doc
    · simp only [evaluatePolicy, hdoc] at hpass
      cases hpass
    simp only [evaluatePolicy, hdoc] at hpass
    obtain ⟨u, c₂, -, hpass⟩ := run_ok hpass
    obtain ⟨rfl, -⟩ := ok_inj hpass
    rcases mem_add_channels hkey with hold | hnew
    · exact hr key hold
    · exact ⟨policy, hpolicy, doc, hdoc, hnew⟩
  have hchannels : uniqueStrings r.channels = channels := by
    split at h
    · obtain ⟨u, c₂, -, h⟩ := run_ok h
      exact (Prod.mk.inj (ok_inj h).1).1
    · exact (Prod.mk.inj (ok_inj h).1).1
  intro key hkey
  obtain ⟨hmem, hne⟩ := mem_uniqueStrings (hchannels.symm ▸ hkey)
  exact ⟨hne, hnamed key hmem⟩

def EventDB.routing (db : EventDB) :
    List String × List PolicyRow × List PolicyVersion × List Channel :=
  (db.tenants, db.policies, db.policyVersions, db.channels)

theorem routing_ignoresEvents : IgnoresEvents EventDB.routing :=
  fun _ _ _ _ _ _ _ => rfl

theorem routing_ignoresDeliveries : IgnoresDeliveries EventDB.routing :=
  fun _ _ => rfl

theorem routing_ignoresTokens : IgnoresTokens EventDB.routing :=
  fun _ _ => rfl

theorem routing_ignoresAudit : IgnoresAudit EventDB.routing :=
  fun _ _ => rfl

/-- **What is known of a matched event**: the incident belongs to the tenant of
the event, the tables that decide the routing are those the call found, and its
keys are named by a policy in force or are `local-mock`. -/
theorem route_inv (hids : Keyed Incident.id db.incidents)
    (h : route pf now gen e options ⟨x, false, db⟩ = .ok (.inr m, c)) :
    pf.uuid e.tenantID = some m.tenantID ∧ m.tenantID ∈ db.tenants
      ∧ m.incident.tenantID = m.tenantID ∧ c.db.routing = db.routing
      ∧ ∀ key ∈ m.keys, key = "local-mock" ∨ key ≠ "" ∧ NamedByPolicy pf m.tenantID key db := by
  rw [route] at h
  obtain ⟨tenantID, c₁, h₁, h⟩ := run_ok h
  obtain ⟨htenant, rfl⟩ := bindUUID_inv h₁
  obtain ⟨sourceID, c₂, h₂, h⟩ := run_ok h
  obtain ⟨hsource, rfl⟩ := bindUUID_inv h₂
  obtain ⟨u, c₃, h₃, h⟩ := run_ok h
  obtain ⟨db₁, hraw, rfl⟩ := insert_inv h₃
  obtain ⟨haccepted, rfl⟩ := EventDB.insertRawEvent_inv hraw
  obtain ⟨stored, c₄, h₄, h⟩ := run_ok h
  obtain ⟨db₂, hstored, rfl⟩ := statement_inv h₄
  cases stored with
  | none =>
    obtain ⟨res, c₅, -, h⟩ := run_ok h
    cases h
  | some eventID =>
    obtain ⟨-, -, -, -, rfl⟩ := EventDB.insertNormalizedEvent_some.mp hstored
    obtain ⟨⟨incident, created⟩, c₅, hcorrelate, h⟩ := run_ok h
    obtain ⟨⟨channels, suppressed⟩, c₆, hpolicies, h⟩ := run_ok h
    obtain ⟨hm, rfl⟩ := ok_inj h
    obtain rfl := Sum.inr.inj hm
    have hrouting : c₆.db.routing = c₅.db.routing :=
      keeps_evaluatePolicies routing_ignoresAudit _ _ _ _ _ _ _ _ hpolicies
    have htenants : tenantID ∈ db.tenants := by
      simp only [EventDB.acceptsRaw, Bool.and_eq_true, decide_eq_true_eq] at haccepted
      exact haccepted.1.2
    have hkeys : ∀ {db' : EventDB}, c₅ = ⟨x, false, db'⟩ → db'.routing = db.routing →
        ∀ key ∈ (Matched.mk tenantID eventID incident created channels suppressed).keys,
          key = "local-mock" ∨ key ≠ "" ∧ NamedByPolicy pf tenantID key db := by
      rintro db' rfl hsame key hkey
      rw [Matched.keys] at hkey
      split at hkey
      · exact .inl (List.mem_singleton.mp hkey)
      have hnamed := evaluatePolicies_keys hpolicies key hkey
      have henabled : enabledPolicies tenantID db' = enabledPolicies tenantID db := by
        obtain ⟨-, hrest⟩ := Prod.mk.inj hsame
        obtain ⟨hp, hrest⟩ := Prod.mk.inj hrest
        rw [enabledPolicies, enabledPolicies, hp, (Prod.mk.inj hrest).1]
      rw [NamedByPolicy, henabled] at hnamed
      exact .inr hnamed
    rcases correlate_inv hcorrelate with ⟨-, -, rfl, rfl⟩ | ⟨i, j, hfound, hj, hid, rfl, rfl⟩
    · exact ⟨htenant, htenants, rfl, hrouting, hkeys rfl rfl⟩
    -- The incident that is joined is the one that was found, of this tenant.
    have hjoined : foundIncident tenantID options e _ = some i := hfound
    obtain ⟨hi, htenantID, -⟩ := foundIncident_some hjoined
    obtain rfl := Keyed.eq_of_key hids hj hi hid
    exact ⟨htenant, htenants, htenantID, hrouting, hkeys rfl rfl⟩

end Route

/-! ### The loop over the keys -/

/-- The error of `enqueueNotifications` for a key without an enabled channel. -/
def missingChannel (key : String) : String :=
  "notification channel " ++ quote key ++ " does not exist or is disabled"

theorem missingChannel_head (key : String) : (missingChannel key).toList.head? = some 'n' := by
  have hfirst : "notification channel ".toList.head? = some 'n' := by decide
  have hhead : ∀ rest : String, ("notification channel " ++ rest).toList.head? = some 'n' := by
    intro rest
    rw [String.toList_append, List.head?_append, hfirst, Option.some_or]
  have hmessage := hhead (quote key ++ " does not exist or is disabled")
  rw [← String.append_assoc] at hmessage
  exact hmessage

theorem missingChannel_ne {key message : String} (h : message.toList.head? ≠ some 'n') :
    message ≠ missingChannel key :=
  fun heq => h ((congrArg (fun s => s.toList.head?) heq).trans (missingChannel_head key))

theorem insertDelivery_error {d : DeliveryAttempt} {db : EventDB} {message : String}
    (h : db.insertDelivery d = .error message) (key : String) : message ≠ missingChannel key := by
  have hmessage : message = "unsupported Unicode escape sequence"
      ∨ message = DB.uniqueViolation := by
    rw [EventDB.insertDelivery] at h
    split at h
    · exact .inl (Except.error.inj h).symm
    split at h
    · cases h
    · split at h
      · exact .inr (Except.error.inj h).symm
      · cases h
  rcases hmessage with rfl | rfl <;> exact missingChannel_ne (by decide)

theorem enabledChannel_congr {db db' : EventDB} (h : db'.routing = db.routing)
    (tenantID key : String) : enabledChannel tenantID key db' = enabledChannel tenantID key db := by
  have hchannels : db'.channels = db.channels :=
    congrArg (fun r => r.2.2.2) h
  rw [enabledChannel, enabledChannel, hchannels]

theorem enqueueChannels_found {now : Time} {incident : Incident} {payload : Json}
    {ciphertext : List UInt8} {keys : List String} {c : Conn EventDB}
    (hkeys : ∀ k ∈ keys, (enabledChannel incident.tenantID k c.db).isSome = true)
    (ids : List String) (key : String) :
    enqueueChannels now incident payload ciphertext keys ids c
      ≠ .error (.failed (missingChannel key)) := by
  induction keys generalizing ids c with
  | nil => nofun
  | cons k keys ih =>
    intro h
    rcases ids with _ | ⟨deliveryID, ids⟩
    · exact missingChannel_ne (by decide) (TxError.failed.inj (Except.error.inj h))
    rw [enqueueChannels] at h
    rcases run_failed h with h | ⟨found, c₁, hfound, h⟩
    · cases statement_failed h
    obtain ⟨rfl, rfl⟩ := queryMaybe_inv hfound
    obtain ⟨channel, hchannel⟩ := Option.isSome_iff_exists.mp (hkeys k List.mem_cons_self)
    simp only [hchannel] at h
    rcases run_failed h with h | ⟨n, c₂, hinsert, h⟩
    · exact insertDelivery_error (statement_failed h) key rfl
    rcases run_failed h with h | ⟨ids', c₃, -, h⟩
    · have hkept := keeps_insertDelivery routing_ignoresDeliveries _ _ _ _ hinsert
      refine ih (fun k' hk' => ?_) ids h
      rw [enabledChannel_congr hkept]
      exact hkeys k' (List.mem_cons_of_mem k hk')
    · cases h

/-! ### Runs of the store -/

/-- A call that reaches the tables of the event store. -/
inductive RoutingOp where
  | call (call : EventCall)
  | applyPolicy (policyID : String) (input : ApplyPolicyInput)
  | createNotificationChannel (channelID : String) (input : ChannelInput)
      (audit : Option AuditEntry)
  | createNotificationChannelWithAudit (channelID : String) (input : ChannelInput)
      (audit : AuditEntry)
  | createSource (sourceID : String) (audit : Option AuditEntry)

/-- The tables after a call. -/
def EventDB.serve (x : Bool) (pf : EventPlatform) : RoutingOp → EventDB → EventDB
  | .call call, db => db.perform x (.call call)
  | .applyPolicy policyID input, db => after x (StormRelay.applyPolicy pf policyID input) db
  | .createNotificationChannel channelID input audit, db =>
    after x (StormRelay.createNotificationChannel pf channelID input audit) db
  | .createNotificationChannelWithAudit channelID input audit, db =>
    after x (StormRelay.createNotificationChannelWithAudit pf channelID input audit) db
  | .createSource sourceID audit, db =>
    after x (Admin.createSource (written (EventDB.insertSource sourceID))
      (audit.map fun entry => written (EventDB.insertAudit entry))) db

def NamesOwnChannels (doc : Policy.Document) (tenantID : String) (db : EventDB) : Prop :=
  ∀ key ∈ doc.actions.notificationChannels, key ≠ "" →
    (enabledChannel tenantID key db).isSome = true

/-- A policy that the call applies names enabled channels of its tenant only. -/
def RoutingOp.AppliesOwn (pf : EventPlatform) : RoutingOp → EventDB → Prop
  | .applyPolicy _ input, db => ∀ doc tenantID,
    Policy.parse pf.policy input.documentYAML = .ok doc → pf.uuid input.tenantID = some tenantID →
      NamesOwnChannels doc tenantID db
  | _, _ => True

/-- What routing relies on: unique identifiers, a default channel for every
tenant, and stored documents that parse and name enabled channels of the tenant
whose policy they are a version of. -/
structure EventDB.Routed (pf : EventPlatform) (db : EventDB) : Prop where
  conserved : db.ledger.Conserved
  mock : ∀ t ∈ db.tenants, (enabledChannel t "local-mock" db).isSome = true
  policies : Keyed PolicyRow.id db.policies
  versions : ∀ v ∈ db.policyVersions, ∃ p ∈ db.policies, p.id = v.policyID
    ∧ ∃ doc, Policy.parse pf.policy v.documentYAML = .ok doc
      ∧ NamesOwnChannels doc p.tenantID db

/-- Every key that `ProcessEvent` passes on in this state has an enabled channel
of the event's tenant, and `enqueueNotifications` finds it; and every policy in
force can be evaluated. -/
structure EventDB.RoutesSafely (pf : EventPlatform) (db : EventDB) : Prop where
  keys : ∀ x now gen e options m c, route pf now gen e options ⟨x, false, db⟩ = .ok (.inr m, c) →
    m.suppressed = false → pf.uuid e.tenantID = some m.incident.tenantID
      ∧ ∀ key ∈ m.keys, ∃ channel ∈ db.channels, channel.tenantID = m.incident.tenantID
        ∧ channel.channelKey = key ∧ channel.enabled = true
  found : ∀ x now gen e options m c, route pf now gen e options ⟨x, false, db⟩ = .ok (.inr m, c) →
    m.suppressed = false → ∀ payload ciphertext ids key,
      enqueueChannels now m.incident payload ciphertext m.keys ids c
        ≠ .error (.failed (missingChannel key))
  parses : ∀ tenantID, ∀ policy ∈ enabledPolicies tenantID db,
    ∃ doc, Policy.parse pf.policy policy.2 = .ok doc

section Runs

variable {pf : EventPlatform} {x : Bool} {db db' : EventDB} {u : Unit}

theorem written_inv {σ : Type} {f : σ → Except String σ} {db db' : σ}
    (h : written f db = .ok (u, db')) : f db = .ok db' := by
  rw [written] at h
  rcases hf : f db with message | db₁
  · rw [hf] at h
    cases h
  · rw [hf] at h
    rw [(ok_inj h).2]

variable {policyID tenantID : String}

theorem onRow_inv {σ ρ : Type} {row : σ → Option ρ} {f : ρ → σ → Except String σ} {db db' : σ}
    (h : onRow row f db = .ok (u, db')) : ∃ r, row db = some r ∧ f r db = .ok db' := by
  have hf := written_inv h
  split at hf
  · rename_i r hr
    exact ⟨r, hr, hf⟩
  · cases hf

variable {p : PolicyRow}

theorem policyRow_some {key : String} (h : db.policyRow tenantID key = some p) :
    p ∈ db.policies ∧ p.tenantID = tenantID ∧ p.policyKey = key := by
  refine ⟨List.mem_of_find?_eq_some h, ?_⟩
  simpa only [Bool.and_eq_true, decide_eq_true_eq] using List.find?_some h

theorem insertAudit_routing {entry : AuditEntry} (h : db.insertAudit entry = .ok db') :
    db'.routing = db.routing ∧ db'.evidence = db.evidence := by
  rw [EventDB.insertAudit] at h
  split at h
  · rw [← Except.ok.inj h]
    exact ⟨rfl, rfl⟩
  · cases h

/-- The policies after the row of a policy has been looked up or created. -/
inductive Created (policyID : String) (o : Opened) (db : EventDB) : List PolicyRow → Prop
  | old {active : ℤ} (hfound : o.found = some active) (hnext : o.version = active + 1) :
      Created policyID o db db.policies
  | new (hfound : o.found = none) (hfirst : o.version = 1)
      (hfresh : ∀ q ∈ db.policies, q.id ≠ policyID)
      (hunique : ∀ q ∈ db.policies, ¬ (q.tenantID = o.tenantID ∧ q.policyKey = o.key)) :
      Created policyID o db (db.policies ++ [{ id := policyID, tenantID := o.tenantID
                                               policyKey := o.key, enabled := true
                                               activeVersion := 1 }])

theorem insertPolicy_inv (h : db.insertPolicy p = .ok db') :
    (∀ q ∈ db.policies, q.id ≠ p.id)
      ∧ (∀ q ∈ db.policies, ¬ (q.tenantID = p.tenantID ∧ q.policyKey = p.policyKey))
      ∧ db' = { db with policies := db.policies ++ [p] } := by
  rw [EventDB.insertPolicy] at h
  split_ifs at h with hfresh
  simp only [Bool.not_eq_true, List.any_eq_false, Bool.or_eq_true, Bool.and_eq_true,
    decide_eq_true_eq, not_or] at hfresh
  exact ⟨fun q hq => (hfresh q hq).1, fun q hq => (hfresh q hq).2, (Except.ok.inj h).symm⟩

theorem insertPolicyVersion_inv {v : PolicyVersion} (h : db.insertPolicyVersion v = .ok db') :
    (∀ w ∈ db.policyVersions, ¬ (w.policyID = v.policyID ∧ w.version = v.version))
      ∧ db' = { db with policyVersions := db.policyVersions ++ [v] } := by
  rw [EventDB.insertPolicyVersion] at h
  split_ifs at h with _ hunique
  refine ⟨fun w hw hconflict => hunique (List.any_eq_true.mpr ⟨w, hw, ?_⟩), (Except.ok.inj h).symm⟩
  simpa using hconflict

variable {c : Conn EventDB}

variable {input : ApplyPolicyInput} {o : Opened}

theorem openPolicy_inv (h : openPolicy pf input ⟨x, false, db⟩ = .ok (o, c)) :
    (∃ doc, Policy.parse pf.policy input.documentYAML = .ok doc ∧ doc.id = o.key
        ∧ doc.version = o.version)
      ∧ pf.uuid input.tenantID = some o.tenantID
      ∧ o.found = (db.policyRow o.tenantID o.key).map PolicyRow.activeVersion
      ∧ c = ⟨x, false, db⟩ := by
  rcases hdoc : Policy.parse pf.policy input.documentYAML with message | doc
  · simp only [openPolicy, hdoc] at h
    cases h
  simp only [openPolicy, hdoc] at h
  obtain ⟨tenantID, c₁, h₁, h⟩ := run_ok h
  obtain ⟨htenant, rfl⟩ := bindUUID_inv h₁
  obtain ⟨found, c₂, h₂, h⟩ := run_ok h
  obtain ⟨rfl, rfl⟩ := ok_inj h
  obtain ⟨db₃, hlock, db₄, hfound, rfl⟩ := Admin.lookUp_inv h₂
  obtain rfl : db = db₃ := by
    split at hlock
    · exact (ok_inj hlock).2
    · cases hlock
  obtain ⟨hrow, rfl⟩ := ok_inj hfound
  exact ⟨⟨doc, rfl, rfl, rfl⟩, htenant, hrow.symm, rfl⟩

/-- **What `ApplyPolicy` writes**, whatever has happened since its lookup: one more
version of a policy of the tenant, which it may have created, and that version is the
active one. -/
theorem closePolicy_inv (h : closePolicy policyID input o ⟨x, false, db⟩ = .ok (u, c)) :
    ∃ policies p, Created policyID o db policies
      ∧ p ∈ policies ∧ p.tenantID = o.tenantID ∧ p.policyKey = o.key
      ∧ (∀ w ∈ db.policyVersions, ¬ (w.policyID = p.id ∧ w.version = o.version))
      ∧ c.db.evidence = db.evidence
      ∧ c.db.routing = (db.tenants,
        update (fun q => q.id = p.id) (fun q => { q with activeVersion := o.version }) policies,
        db.policyVersions
          ++ [{ policyID := p.id, version := o.version, documentYAML := input.documentYAML }],
        db.channels) := by
  obtain ⟨db₁, db₂, hfound, hadd, h⟩ := Admin.enter_inv h
  -- A first version creates the row, a later one has found it.
  obtain ⟨policies, hcreated, rfl⟩ : ∃ policies, Created policyID o db policies
      ∧ db₁ = { db with policies := policies } := by
    cases hcase : o.found with
    | none =>
      rw [hcase] at hfound
      obtain ⟨hfresh, hunique, rfl⟩ := insertPolicy_inv (written_inv hfound.2)
      exact ⟨_, .new hcase hfound.1 hfresh hunique, rfl⟩
    | some active =>
      rw [hcase] at hfound
      exact ⟨_, .old hcase hfound.1, hfound.2⟩
  obtain ⟨p, hp, hinsert⟩ := onRow_inv hadd
  obtain ⟨hnew, rfl⟩ := insertPolicyVersion_inv hinsert
  obtain ⟨_, c₃, h₃, h⟩ := run_ok h
  obtain ⟨db₃, hactivate, rfl⟩ := statement_inv h₃
  obtain ⟨q, hq, hactive⟩ := onRow_inv hactivate
  obtain rfl : q = p := Option.some.inj (hq.symm.trans hp)
  obtain rfl := Except.ok.inj hactive
  obtain ⟨db₄, haudit, rfl⟩ := statement_inv h
  obtain ⟨_, -, hentry⟩ := onRow_inv haudit
  obtain ⟨hrouting, hevidence⟩ := insertAudit_routing hentry
  obtain ⟨hmem, htenant, hkey⟩ := policyRow_some hp
  exact ⟨policies, q, hcreated, hmem, htenant, hkey, hnew, hevidence, hrouting⟩

theorem insertChannel_inv {channel : Channel} (h : db.insertChannel channel = .ok db') :
    db' = { db with channels := db.channels ++ [channel] } := by
  rw [EventDB.insertChannel] at h
  split_ifs at h
  exact (Except.ok.inj h).symm

theorem createAudited_inv {create : EventDB → Except String EventDB} {audit : Option AuditEntry}
    (h : Admin.createAudited (written create)
      (audit.map fun entry => written (EventDB.insertAudit entry)) ⟨x, false, db⟩ = .ok (u, c)) :
    ∃ db', create db = .ok db' ∧ c.db.routing = db'.routing ∧ c.db.evidence = db'.evidence := by
  obtain ⟨u₁, c₁, h₁, h⟩ := run_ok h
  obtain ⟨db₁, hcreate, rfl⟩ := statement_inv h₁
  refine ⟨db₁, written_inv hcreate, ?_⟩
  cases audit with
  | none =>
    obtain ⟨-, rfl⟩ := ok_inj h
    exact ⟨rfl, rfl⟩
  | some entry =>
    obtain ⟨db₂, haudit, rfl⟩ := statement_inv h
    exact insertAudit_routing (written_inv haudit)

theorem createNotificationChannel_inv {channelID : String} {input : ChannelInput}
    {audit : Option AuditEntry}
    (h : createNotificationChannel pf channelID input audit ⟨x, false, db⟩ = .ok (u, c)) :
    c.db.evidence = db.evidence ∧ ∃ channel, c.db.routing
      = (db.tenants, db.policies, db.policyVersions, db.channels ++ [channel]) := by
  rw [createNotificationChannel] at h
  obtain ⟨tenantID, c₁, h₁, h⟩ := run_ok h
  obtain ⟨-, rfl⟩ := bindUUID_inv h₁
  have haudit : audit.map (fun entry => written (EventDB.insertAudit
      { entry with
        action := "notification_channel.created", resourceType := "notification_channel"
        resourceID := channelID }))
      = (audit.map fun entry => { entry with
        action := "notification_channel.created", resourceType := "notification_channel"
        resourceID := channelID }).map fun entry => written (EventDB.insertAudit entry) := by
    rw [Option.map_map]
    rfl
  rw [haudit] at h
  obtain ⟨db', hcreate, hrouting, hevidence⟩ := createAudited_inv h
  obtain rfl := insertChannel_inv hcreate
  exact ⟨hevidence, _, hrouting⟩

/-! ### What every call keeps -/

variable {doc : Policy.Document}

theorem NamesOwnChannels.mono (h : NamesOwnChannels doc tenantID db)
    (hgrow : ∀ key, (enabledChannel tenantID key db).isSome = true →
      (enabledChannel tenantID key db').isSome = true) :
    NamesOwnChannels doc tenantID db' :=
  fun key hkey hne => hgrow key (h key hkey hne)

theorem conserved_of_evidence (h : db.ledger.Conserved) (hkept : db'.evidence = db.evidence) :
    db'.ledger.Conserved := by
  have hledger : db'.ledger = db.ledger := congrArg Prod.snd hkept
  rw [hledger]
  exact h

theorem EventDB.Routed.grow (h : db.Routed pf) (hledger : db'.ledger.Conserved)
    (htenants : db'.tenants = db.tenants) (hpolicies : db'.policies = db.policies)
    (hversions : db'.policyVersions = db.policyVersions)
    (hgrow : ∀ t key, (enabledChannel t key db).isSome = true →
      (enabledChannel t key db').isSome = true) : db'.Routed pf where
  conserved := hledger
  mock := fun t ht => hgrow t _ (h.mock t (htenants ▸ ht))
  policies := hpolicies ▸ h.policies
  versions := by
    intro v hv
    obtain ⟨p, hp, hid, doc, hdoc, hnames⟩ := h.versions v (hversions ▸ hv)
    exact ⟨p, hpolicies ▸ hp, hid, doc, hdoc, hnames.mono (hgrow p.tenantID)⟩

theorem EventDB.Routed.kept (h : db.Routed pf) (hledger : db'.ledger.Conserved)
    (hrouting : db'.routing = db.routing) : db'.Routed pf := by
  obtain ⟨htenants, hrest⟩ := Prod.mk.inj hrouting
  obtain ⟨hpolicies, hrest⟩ := Prod.mk.inj hrest
  refine h.grow hledger htenants hpolicies (Prod.mk.inj hrest).1 fun t key hsome => ?_
  rw [enabledChannel_congr hrouting]
  exact hsome

theorem EventDB.Routed.channel (h : db.Routed pf) (hledger : db'.ledger.Conserved)
    {channel : Channel} (hrouting : db'.routing
      = (db.tenants, db.policies, db.policyVersions, db.channels ++ [channel])) :
    db'.Routed pf := by
  obtain ⟨htenants, hrest⟩ := Prod.mk.inj hrouting
  obtain ⟨hpolicies, hrest⟩ := Prod.mk.inj hrest
  obtain ⟨hversions, hchannels⟩ := Prod.mk.inj hrest
  refine h.grow hledger htenants hpolicies hversions fun t key hsome => ?_
  rw [enabledChannel, hchannels, List.find?_append, Option.isSome_or]
  rw [enabledChannel] at hsome
  rw [hsome, Bool.true_or]

theorem Created.keyed {policies : List PolicyRow} (h : Created policyID o db policies)
    (hkeyed : Keyed PolicyRow.id db.policies) : Keyed PolicyRow.id policies := by
  cases h with
  | old => exact hkeyed
  | new _ _ hfresh => exact hkeyed.append_singleton hfresh

theorem Created.mem {policies : List PolicyRow} (h : Created policyID o db policies)
    (hp : p ∈ db.policies) : p ∈ policies := by
  cases h with
  | old => exact hp
  | new _ => exact List.mem_append_left _ hp

theorem EventDB.Routed.policy (h : db.Routed pf)
    (hop : RoutingOp.AppliesOwn pf (.applyPolicy policyID input) db)
    (hrun : applyPolicy pf policyID input ⟨x, false, db⟩ = .ok (u, c)) : c.db.Routed pf := by
  rw [applyPolicy_eq_phases] at hrun
  obtain ⟨o, c₁, hopen, hclose⟩ := run_ok hrun
  obtain ⟨⟨doc, hdoc, -, -⟩, htenant, -, rfl⟩ := openPolicy_inv hopen
  obtain ⟨policies, p, hcreated, hp, htenantID, -, -, hevidence, hrouting⟩ :=
    closePolicy_inv hclose
  obtain ⟨htenants, hrest⟩ := Prod.mk.inj hrouting
  obtain ⟨hpolicies, hrest⟩ := Prod.mk.inj hrest
  obtain ⟨hversions, hchannels⟩ := Prod.mk.inj hrest
  have hsame : ∀ t key, enabledChannel t key c.db = enabledChannel t key db := by
    intro t key
    rw [enabledChannel, enabledChannel, hchannels]
  -- Activation writes neither the identifier nor the tenant of a row.
  have hrow : ∀ q ∈ policies, ∃ q' ∈ c.db.policies, q'.id = q.id ∧ q'.tenantID = q.tenantID := by
    intro q hq
    rw [hpolicies]
    exact ⟨_, mem_update_of_mem hq, patch_column PolicyRow.id rfl,
      patch_column PolicyRow.tenantID rfl⟩
  refine ⟨conserved_of_evidence h.conserved hevidence, fun t ht => ?_, ?_, fun v hv => ?_⟩
  · rw [hsame]
    exact h.mock t (htenants ▸ ht)
  · rw [hpolicies]
    exact (hcreated.keyed h.policies).map fun q _ => patch_column PolicyRow.id rfl
  rw [hversions] at hv
  rcases List.mem_append.mp hv with hold | hnew
  · obtain ⟨q, hq, hid, doc', hdoc', hnames⟩ := h.versions v hold
    obtain ⟨q', hq', hid', htenant'⟩ := hrow q (hcreated.mem hq)
    refine ⟨q', hq', hid'.trans hid, doc', hdoc', ?_⟩
    rw [htenant']
    exact hnames.mono fun key hsome => (hsame _ key).symm ▸ hsome
  obtain rfl := List.mem_singleton.mp hnew
  obtain ⟨q', hq', hid', htenant'⟩ := hrow p hp
  refine ⟨q', hq', hid', doc, hdoc, ?_⟩
  rw [htenant', htenantID]
  exact (hop doc o.tenantID hdoc htenant).mono fun key hsome => (hsame _ key).symm ▸ hsome

theorem routing_perform (call : EventCall) (db : EventDB) :
    (db.perform x (.call call)).routing = db.routing := by
  cases call with
  | processEvent =>
    exact (keeps_processEvent routing_ignoresEvents routing_ignoresDeliveries routing_ignoresTokens
      routing_ignoresAudit _ _ _ _ _).after x db
  | claimDeliveries => exact (keeps_claimDeliveries routing_ignoresDeliveries _ _ _ _).after x db
  | completeDelivery =>
    exact (keeps_completeDelivery routing_ignoresDeliveries routing_ignoresAudit _ _ _ _).after x db
  | transitionIncident =>
    exact (keeps_transitionIncident routing_ignoresEvents routing_ignoresAudit _ _ _).after x db
  | acknowledgeByToken =>
    exact (keeps_acknowledgeByToken routing_ignoresEvents routing_ignoresTokens
      routing_ignoresAudit _ _ _ _ _ _).after x db
  | recordAudit => exact (keeps_auditEvent routing_ignoresAudit _).after x db

/-- **What routing relies on is kept by every call**, if the policies that are
applied name enabled channels of their tenants. -/
theorem EventDB.Routed.serve (h : db.Routed pf) (x : Bool) (op : RoutingOp)
    (hop : op.AppliesOwn pf db) : (db.serve x pf op).Routed pf := by
  cases op with
  | call call =>
    exact h.kept (EventDB.conserved_perform x (.call call) db h.conserved) (routing_perform call db)
  | applyPolicy policyID input =>
    rcases after_cases (applyPolicy pf policyID input) x db with hsame | ⟨u, c, hrun, hafter⟩
    · rw [EventDB.serve, hsame]
      exact h
    · rw [EventDB.serve, hafter]
      exact h.policy hop hrun
  | createNotificationChannel channelID input audit =>
    rcases after_cases (createNotificationChannel pf channelID input audit) x db with
      hsame | ⟨u, c, hrun, hafter⟩
    · rw [EventDB.serve, hsame]
      exact h
    · rw [EventDB.serve, hafter]
      obtain ⟨hevidence, channel, hrouting⟩ := createNotificationChannel_inv hrun
      exact h.channel (conserved_of_evidence h.conserved hevidence) hrouting
  | createNotificationChannelWithAudit channelID input audit =>
    rcases after_cases (createNotificationChannelWithAudit pf channelID input audit) x db with
      hsame | ⟨u, c, hrun, hafter⟩
    · rw [EventDB.serve, hsame]
      exact h
    rw [EventDB.serve, hafter]
    rw [createNotificationChannelWithAudit] at hrun
    split at hrun
    · cases hrun
    · obtain ⟨hevidence, channel, hrouting⟩ := createNotificationChannel_inv hrun
      exact h.channel (conserved_of_evidence h.conserved hevidence) hrouting
  | createSource sourceID audit =>
    rcases after_cases (Admin.createSource (written (EventDB.insertSource sourceID))
      (audit.map fun entry => written (EventDB.insertAudit entry))) x db with
      hsame | ⟨u, c, hrun, hafter⟩
    · rw [EventDB.serve, hsame]
      exact h
    rw [EventDB.serve, hafter]
    obtain ⟨db', hcreate, hrouting, hevidence⟩ := createAudited_inv hrun
    have hsource : db' = { db with sources := db.sources ++ [sourceID] } := by
      rw [EventDB.insertSource] at hcreate
      split at hcreate
      · cases hcreate
      · exact (Except.ok.inj hcreate).symm
    subst hsource
    exact h.kept (conserved_of_evidence h.conserved hevidence) hrouting

/-! ### Routing is safe -/

theorem mem_enabledPolicies {policy : String × String} (h : policy ∈ enabledPolicies tenantID db) :
    ∃ p ∈ db.policies, p.tenantID = tenantID ∧ ∃ v ∈ db.policyVersions, v.policyID = p.id
      ∧ policy = (p.policyKey, v.documentYAML) := by
  rw [enabledPolicies] at h
  obtain ⟨p, hp, hversion⟩ := List.mem_filterMap.mp h
  rw [List.mem_insertionSort, List.mem_filter] at hp
  obtain ⟨v, hv, rfl⟩ := Option.map_eq_some_iff.mp hversion
  have hfound := List.find?_some hv
  simp only [Bool.and_eq_true, decide_eq_true_eq] at hp hfound
  exact ⟨p, hp.1, hp.2.1, v, List.mem_of_find?_eq_some hv, hfound.1, rfl⟩

theorem EventDB.Routed.inForce (h : db.Routed pf) {policy : String × String}
    (hpolicy : policy ∈ enabledPolicies tenantID db) :
    ∃ doc, Policy.parse pf.policy policy.2 = .ok doc ∧ NamesOwnChannels doc tenantID db := by
  obtain ⟨p, hp, rfl, v, hv, hid, rfl⟩ := mem_enabledPolicies hpolicy
  obtain ⟨q, hq, hqid, doc, hdoc, hnames⟩ := h.versions v hv
  obtain rfl := h.policies.eq_of_key hq hp (hqid.trans hid)
  exact ⟨doc, hdoc, hnames⟩

theorem EventDB.Routed.keys (h : db.Routed pf) {now : Time} {gen : Generated} {e : Events.Event}
    {options : ProcessOptions} {m : Matched}
    (hroute : route pf now gen e options ⟨x, false, db⟩ = .ok (.inr m, c)) :
    pf.uuid e.tenantID = some m.incident.tenantID ∧ c.db.routing = db.routing
      ∧ ∀ key ∈ m.keys, (enabledChannel m.incident.tenantID key db).isSome = true := by
  obtain ⟨htenant, hmem, hincident, hrouting, hkeys⟩ := route_inv h.conserved.groups hroute
  rw [hincident]
  refine ⟨htenant, hrouting, fun key hkey => ?_⟩
  rcases hkeys key hkey with rfl | ⟨hne, policy, hpolicy, doc, hdoc, hnamed⟩
  · exact h.mock _ hmem
  · obtain ⟨doc', hdoc', hnames⟩ := h.inForce hpolicy
    obtain rfl := Except.ok.inj (hdoc.symm.trans hdoc')
    exact hnames key hnamed hne

theorem EventDB.Routed.routesSafely (h : db.Routed pf) : db.RoutesSafely pf where
  keys := by
    intro x now gen e options m c hroute _
    obtain ⟨htenant, -, hkeys⟩ := h.keys hroute
    refine ⟨htenant, fun key hkey => ?_⟩
    obtain ⟨channel, hchannel⟩ := Option.isSome_iff_exists.mp (hkeys key hkey)
    have hfound := List.find?_some hchannel
    simp only [Bool.and_eq_true, decide_eq_true_eq] at hfound
    exact ⟨channel, List.mem_of_find?_eq_some hchannel, hfound.1.1, hfound.1.2, hfound.2⟩
  found := by
    intro x now gen e options m c hroute _ payload ciphertext ids key
    obtain ⟨-, hrouting, hkeys⟩ := h.keys hroute
    refine enqueueChannels_found (fun k hk => ?_) ids key
    rw [enabledChannel_congr hrouting]
    exact hkeys k hk
  parses := by
    intro tenantID policy hpolicy
    obtain ⟨doc, hdoc, -⟩ := h.inForce hpolicy
    exact ⟨doc, hdoc⟩

end Runs

/-- **Routing does not fail events of provisioned tenants.**  From a store without
events and policies in which every tenant owns an enabled `local-mock` channel,
in every run of calls whose `ApplyPolicy` calls name only channels that are
enabled for their tenant at that time, and in every state the run reaches: every
key that `ProcessEvent` passes to `enqueueNotifications`, for any event, has an
enabled channel of the event's tenant. -/
theorem routing_sound (pf : EventPlatform) (x : Bool) {db : EventDB} (hevents : db.NoEvents)
    (hpolicies : db.policies = [] ∧ db.policyVersions = [])
    (hmock : ∀ t ∈ db.tenants, (enabledChannel t "local-mock" db).isSome = true)
    (ops : List RoutingOp)
    (hops : Along (EventDB.serve x pf) (fun op db => op.AppliesOwn pf db) ops db) :
    Throughout (EventDB.serve x pf) (EventDB.RoutesSafely pf) ops db := by
  have hstart : db.Routed pf := by
    refine ⟨hevents.conserved, hmock, ?_, ?_⟩
    · rw [hpolicies.1]
      exact List.nodup_nil
    · rw [hpolicies.2]
      exact fun v hv => absurd hv List.not_mem_nil
  have hrouted : Throughout (EventDB.serve x pf) (EventDB.Routed pf) ops db :=
    Along.throughout (fun op db h hop => EventDB.Routed.serve h x op hop) ops hstart hops
  exact Throughout.imp (fun _ h => EventDB.Routed.routesSafely h) ops hrouted

/-! ### A policy that names an enabled channel, and a tenant without one -/

def migratedDB : EventDB :=
  { mockDB with policyVersions := [] }

/-- One policy for the channel `local-mock`. -/
def ownPolicy : List RoutingOp :=
  [.applyPolicy "p" { tenantID := "t", documentYAML := "page" }]

/-- The migrated store, after a policy was applied. -/
theorem routing_sound_policy :
    ((run (EventDB.serve true pagePlatform) ownPolicy migratedDB).policies.map fun p =>
        (p.policyKey, p.activeVersion)) = [("page", 1)]
      ∧ Throughout (EventDB.serve true pagePlatform)
        (EventDB.RoutesSafely pagePlatform) ownPolicy migratedDB := by
  refine ⟨by decide +kernel, routing_sound pagePlatform true ⟨rfl, rfl, rfl, rfl, rfl⟩ ⟨rfl, rfl⟩
    (by decide +kernel) ownPolicy ⟨?_, trivial⟩⟩
  intro doc tenantID hdoc htenant key hkey _
  obtain rfl : pagePolicy = doc := Except.ok.inj hdoc
  obtain rfl : "t" = tenantID := Option.some.inj htenant
  obtain rfl : key = "local-mock" := List.mem_singleton.mp hkey
  decide +kernel

def secondTenantDB : EventDB :=
  { migratedDB with tenants := ["t", "u"] }

def secondTenantEvent : Events.Event :=
  { pageEvent with tenantID := "u" }

/-- What `ProcessEvent` passes on for an event of the second tenant. -/
def secondTenantRoute : Option (Bool × List String × Option Channel) :=
  match route pagePlatform 0 pageIDs secondTenantEvent
      { dedupeWindow := 0, correlationWindow := 0 } ⟨true, false, secondTenantDB⟩ with
  | .ok (.inr m, _) =>
    some (m.suppressed, m.keys, enabledChannel m.incident.tenantID "local-mock" secondTenantDB)
  | _ => none

/-- **An event of a second tenant cannot be processed.**  The store has no events
and no policies; the event goes to `local-mock`, the tenant has no such channel,
and the event is rolled back. -/
theorem second_tenant_unrouted :
    (secondTenantDB.NoEvents ∧ secondTenantDB.policies = [] ∧ "u" ∈ secondTenantDB.tenants)
      ∧ secondTenantRoute.map (fun r => (r.1, r.2.1, r.2.2.isNone))
        = some (false, ["local-mock"], true)
      ∧ succeeds true (processEvent pagePlatform 0 pageIDs secondTenantEvent
          { dedupeWindow := 0, correlationWindow := 0 }) secondTenantDB = false
      ∧ ¬ secondTenantDB.RoutesSafely pagePlatform := by
  have hroute : secondTenantRoute.map (fun r => (r.1, r.2.1, r.2.2.isNone))
      = some (false, ["local-mock"], true) := by decide +kernel
  refine ⟨⟨⟨rfl, rfl, rfl, rfl, rfl⟩, rfl, by decide⟩, hroute, by decide +kernel, fun hsafe => ?_⟩
  rw [secondTenantRoute] at hroute
  split at hroute
  · rename_i m c hm
    simp only [Option.map_some, Option.some.injEq, Prod.mk.injEq] at hroute
    obtain ⟨hsuppressed, hkeys, hnone⟩ := hroute
    obtain ⟨-, hchannels⟩ := hsafe.keys true 0 pageIDs secondTenantEvent
      { dedupeWindow := 0, correlationWindow := 0 } m c hm hsuppressed
    obtain ⟨channel, hmem, htenant, hkey, henabled⟩ :=
      hchannels "local-mock" (hkeys ▸ List.mem_singleton.mpr rfl)
    rw [Option.isNone_iff_eq_none, enabledChannel, List.find?_eq_none] at hnone
    exact hnone channel hmem (by simp [htenant, hkey, henabled])
  · cases hroute

end StormRelay
