/-
What the methods of the event store write.

The tables fall into five groups: the events with their incidents, the
deliveries, the acknowledgement tokens, the audit log, and the configuration,
which no method below writes.  Every method is followed once, statement by
statement: whatever does not read the groups it writes is the same after it.

* `Issues`, `issues_processEvent` — what `ProcessEvent` adds to the outbox.

The lemmas are tagged for `grind`, which follows the structure of a body.
-/
import StormRelay.Connection

namespace StormRelay

open Tx Table

variable {τ : Type}

/-! ### Reading a part of the tables -/

/-- `f` does not read the events and incidents. -/
def IgnoresEvents (f : EventDB → τ) : Prop :=
  ∀ db raw normalized duplicates incidents transitions links,
    f { db with
      rawEvents := raw, normalizedEvents := normalized, duplicates := duplicates
      incidents := incidents, transitions := transitions, incidentEvents := links } = f db

def IgnoresDeliveries (f : EventDB → τ) : Prop :=
  ∀ db deliveries, f { db with deliveries := deliveries } = f db

def IgnoresTokens (f : EventDB → τ) : Prop :=
  ∀ db tokens, f { db with ackTokens := tokens } = f db

def IgnoresAudit (f : EventDB → τ) : Prop :=
  ∀ db entries, f { db with audit := entries } = f db

section Frames

variable {f : EventDB → τ}

/-! ### Statements -/

@[grind ←] theorem keeps_auditEvent (haudit : IgnoresAudit f) (entry : AuditEntry) :
    Keeps f (auditEvent entry) := by
  refine keeps_insert fun db db' h => ?_
  rw [EventDB.insertAudit] at h
  split at h
  · rw [← Except.ok.inj h]
    exact haudit db _
  · cases h

@[grind ←] theorem keeps_bindUUID (uuid : String → Option String) (text : String) :
    Keeps f (bindUUID uuid text) := by
  rw [bindUUID]
  cases uuid text <;> grind

@[grind ←] theorem keeps_liftEventError {α : Type} (r : Except String α) :
    Keeps f (liftEventError r) := by
  cases r with
  | ok a => exact keeps_pure a
  | error message => exact keeps_fail message

@[grind ←] theorem keeps_bindText (value : Option String) : Keeps f (bindText value) := by
  cases value <;> grind [bindText]

@[grind ←] theorem keeps_insertAckToken (htokens : IgnoresTokens f) (t : AckToken) :
    Keeps f (insert (EventDB.insertAckToken t)) := by
  refine keeps_insert fun db db' h => ?_
  rw [EventDB.insertAckToken] at h
  split at h
  · cases h
  · rw [← Except.ok.inj h]
    exact htokens db _

@[grind ←] theorem keeps_updateAckTokens (htokens : IgnoresTokens f) (p : AckToken → Bool)
    (g : AckToken → AckToken) : Keeps f (exec (EventDB.updateAckTokens p g)) :=
  keeps_exec fun db => htokens db _

@[grind ←] theorem keeps_insertDelivery (hdel : IgnoresDeliveries f) (d : DeliveryAttempt) :
    Keeps f (statement (EventDB.insertDelivery d)) := by
  refine keeps_statement fun db n db' h => ?_
  rw [EventDB.insertDelivery] at h
  split at h
  · cases h
  split at h
  · rw [← (ok_inj h).2]
  split at h
  · cases h
  · rw [← (ok_inj h).2]
    exact hdel db _

@[grind ←] theorem keeps_updateDeliveries (hdel : IgnoresDeliveries f)
    (p : DeliveryAttempt → Bool) (g : DeliveryAttempt → DeliveryAttempt) :
    Keeps f (exec (EventDB.updateDeliveries p g)) :=
  keeps_exec fun db => hdel db _

section Events

variable (hevents : IgnoresEvents f)

include hevents

@[grind ←] theorem keeps_insertRawEvent (r : RawEvent) :
    Keeps f (insert (EventDB.insertRawEvent r)) := by
  refine keeps_insert fun db db' h => ?_
  rw [(EventDB.insertRawEvent_inv h).2]
  exact hevents db _ _ _ _ _ _

@[grind ←] theorem keeps_insertNormalizedEvent (n : NormalizedEvent) :
    Keeps f (statement (EventDB.insertNormalizedEvent n)) := by
  refine keeps_statement fun db stored db' h => ?_
  cases stored with
  | none => rw [(EventDB.insertNormalizedEvent_none h).2]
  | some eventID =>
    obtain ⟨-, -, -, -, rfl⟩ := EventDB.insertNormalizedEvent_some.mp h
    exact hevents db _ _ _ _ _ _

@[grind ←] theorem keeps_countDuplicate (n : NormalizedEvent) :
    Keeps f (statement (countDuplicate n)) := by
  refine keeps_statement fun db r db' h => ?_
  rw [countDuplicate] at h
  split at h
  · rw [← (ok_inj h).2]
    exact hevents db _ _ _ _ _ _
  · cases h

@[grind ←] theorem keeps_insertDuplicate (d : EventDuplicate) :
    Keeps f (insert (EventDB.insertDuplicate d)) := by
  refine keeps_insert fun db db' h => ?_
  rw [EventDB.insertDuplicate_inv h]
  exact hevents db _ _ _ _ _ _

@[grind ←] theorem keeps_insertIncident (i : Incident) :
    Keeps f (insert (EventDB.insertIncident i)) := by
  refine keeps_insert fun db db' h => ?_
  rw [(EventDB.insertIncident_inv h).2]
  exact hevents db _ _ _ _ _ _

@[grind ←] theorem keeps_insertTransition (t : IncidentTransition) :
    Keeps f (insert (EventDB.insertTransition t)) := by
  refine keeps_insert fun db db' h => ?_
  rw [(EventDB.insertTransition_inv h).2]
  exact hevents db _ _ _ _ _ _

@[grind ←] theorem keeps_updateIncidentReturning (p : Incident → Bool) (g : Incident → Incident) :
    Keeps f (statement (EventDB.updateIncidentReturning p g)) := by
  refine keeps_statement fun db i db' h => ?_
  obtain ⟨-, -, -, -, rfl⟩ := EventDB.updateIncidentReturning_inv h
  exact hevents db _ _ _ _ _ _

@[grind ←] theorem keeps_attachEvent (incidentID eventID : String) :
    Keeps f (exec (EventDB.attachEvent incidentID eventID)) := by
  refine keeps_exec fun db => ?_
  rw [EventDB.attachEvent]
  split
  · rfl
  · exact hevents db _ _ _ _ _ _

end Events

/-! ### Methods -/

@[grind ←] theorem keeps_enqueueChannels (hdel : IgnoresDeliveries f) (now : Time)
    (incident : Incident) (payload : Json) (ciphertext : List UInt8) (keys ids : List String) :
    Keeps f (enqueueChannels now incident payload ciphertext keys ids) := by
  induction keys generalizing ids with
  | nil => exact keeps_pure []
  | cons key keys ih =>
    cases ids with
    | nil => exact keeps_fail _
    | cons deliveryID ids =>
      refine keeps_bind (keeps_queryMaybe _) fun found => ?_
      cases found <;> grind

@[grind ←] theorem keeps_concludeEvent (hdel : IgnoresDeliveries f) (htokens : IgnoresTokens f)
    (haudit : IgnoresAudit f) (pf : EventPlatform) (now : Time) (gen : Generated)
    (opt : ProcessOptions) (tenantID eventID : String) (e : Events.Event) (incident : Incident)
    (created : Bool) (channels : List String) (suppressed : Bool) :
    Keeps f (concludeEvent pf now gen opt tenantID eventID e incident created channels
      suppressed) := by
  cases suppressed <;> grind [concludeEvent, enqueueNotifications]

@[grind ←] theorem keeps_evaluatePolicies (haudit : IgnoresAudit f) (pf : EventPlatform)
    (tenantID incidentID actor : String) (e : Events.Event) :
    Keeps f (evaluatePolicies pf tenantID incidentID actor e) := by
  have hpass : ∀ r policy, Keeps f (evaluatePolicy pf tenantID incidentID actor e r policy) := by
    intro r policy
    rw [evaluatePolicy]
    cases Policy.parse pf.policy policy.2 <;> grind
  refine keeps_bind (keeps_query _) fun rows => keeps_bind (by grind) fun r => ?_
  grind

@[grind ←] theorem keeps_correlate (hevents : IgnoresEvents f) (now : Time) (gen : Generated)
    (tenantID eventID : String) (window : ℤ) (e : Events.Event) :
    Keeps f (correlate now gen tenantID eventID window e) := by
  refine keeps_bind (keeps_exec fun _ => rfl) fun _ => keeps_bind
    (keeps_queryMaybe _) fun found => ?_
  cases found <;> grind

@[grind ←] theorem keeps_recordDuplicate (hevents : IgnoresEvents f) (haudit : IgnoresAudit f)
    (gen : Generated) (n : NormalizedEvent) (e : Events.Event) (actor : String) :
    Keeps f (recordDuplicate gen n e actor) := by
  grind [recordDuplicate]

@[grind ←] theorem keeps_claimDeliveries (hdel : IgnoresDeliveries f) (pf : EventPlatform)
    (now : Time) (locked : List String) (limit : ℤ) :
    Keeps f (claimDeliveries pf now locked limit) := by
  have hpass : ∀ out item, Keeps f (claimDelivery pf now out item) := by
    intro out item
    refine keeps_bind (keeps_updateDeliveries hdel _ _) fun _ => ?_
    cases pf.decrypt item.1.ackTokenCiphertext item.1.incidentID with
    | none => exact keeps_fail _
    | some token => cases prepareDeliveryPayload item.1.payload token <;> grind
  refine keeps_bind (keeps_updateDeliveries hdel _ _) fun _ => keeps_bind (keeps_query _)
    fun rows => ?_
  exact keeps_bind (keeps_scanAll rows) fun items => keeps_fold hpass [] items

@[grind ←] theorem keeps_completeDelivery (hdel : IgnoresDeliveries f) (haudit : IgnoresAudit f)
    (now : Time) (deliveryID providerRef : String) (deliveryErr : Option String) :
    Keeps f (completeDelivery now deliveryID providerRef deliveryErr) := by
  cases deliveryErr <;> grind [completeDelivery]

@[grind ←] theorem keeps_transitionIncident (hevents : IgnoresEvents f) (haudit : IgnoresAudit f)
    (now : Time) (transitionID : String) (input : TransitionInput) :
    Keeps f (transitionIncident now transitionID input) := by
  grind [transitionIncident]

@[grind ←] theorem keeps_acknowledgeByToken (hevents : IgnoresEvents f) (htokens : IgnoresTokens f)
    (haudit : IgnoresAudit f) (pf : EventPlatform) (now : Time)
    (transitionID rawToken requestID traceID : String) :
    Keeps f (acknowledgeByToken pf now transitionID rawToken requestID traceID) := by
  refine keeps_bind (keeps_queryRow _) fun token => keeps_bind (keeps_queryRow _) fun current => ?_
  grind

/-- Whatever reads neither the events nor the outbox nor the audit log is the
same after `ProcessEvent`. -/
theorem keeps_processEvent (hevents : IgnoresEvents f) (hdel : IgnoresDeliveries f)
    (htokens : IgnoresTokens f) (haudit : IgnoresAudit f) (pf : EventPlatform) (now : Time)
    (gen : Generated) (e : Events.Event) (options : ProcessOptions) :
    Keeps f (processEvent pf now gen e options) := by
  refine keeps_bind (keeps_bindUUID _ _) fun tenantID => keeps_bind (keeps_bindUUID _ _)
    fun sourceID => keeps_bind (keeps_insertRawEvent hevents _) fun _ =>
    keeps_bind (keeps_insertNormalizedEvent hevents _) fun stored => ?_
  cases stored with
  | none => grind
  | some eventID => grind [routeEvent]

end Frames

/-! ### What `ProcessEvent` adds to the outbox -/

/-- New deliveries, which nobody has attempted, and new tokens, which nobody has
used. -/
structure Issues (db db' : EventDB) : Prop where
  deliveries : Grows DeliveryAttempt.id (fun d => d.status = .pending ∧ d.attempt = 0)
    db.deliveries db'.deliveries
  tokens : Grows AckToken.id (fun t => t.usedAt = none) db.ackTokens db'.ackTokens

instance : Std.Refl Issues :=
  ⟨fun _ => ⟨.refl _, .refl _⟩⟩

instance : IsTrans EventDB Issues :=
  ⟨fun _ _ _ h h' => ⟨h.deliveries.trans h'.deliveries, h.tokens.trans h'.tokens⟩⟩

/-- The tables that `Issues` looks at. -/
def EventDB.outbox (db : EventDB) : List DeliveryAttempt × List AckToken :=
  (db.deliveries, db.ackTokens)

theorem outbox_ignoresEvents : IgnoresEvents EventDB.outbox :=
  fun _ _ _ _ _ _ _ => rfl

theorem outbox_ignoresAudit : IgnoresAudit EventDB.outbox :=
  fun _ _ => rfl

theorem issues_of_keeps {α : Type} {m : Tx EventDB α} (h : Keeps EventDB.outbox m) :
    Relates Issues m := by
  refine h.relates fun db db' hsame => ?_
  obtain ⟨hdeliveries, htokens⟩ := Prod.mk.inj hsame
  exact ⟨hdeliveries ▸ .refl _, htokens ▸ .refl _⟩

theorem issues_insertDelivery {d : DeliveryAttempt} (hstatus : d.status = .pending)
    (hattempt : d.attempt = 0) : Relates Issues (statement (EventDB.insertDelivery d)) := by
  refine relates_statement fun db n db' h => ?_
  rw [EventDB.insertDelivery] at h
  split at h
  · cases h
  split at h
  · rw [← (ok_inj h).2]
    exact Std.Refl.refl _
  split at h
  · cases h
  · rename_i hfresh
    rw [← (ok_inj h).2]
    exact ⟨.snoc (by simpa using hfresh) ⟨hstatus, hattempt⟩, .refl _⟩

theorem issues_insertAckToken {t : AckToken} (hused : t.usedAt = none) :
    Relates Issues (insert (EventDB.insertAckToken t)) := by
  refine relates_insert fun db db' h => ?_
  rw [EventDB.insertAckToken] at h
  split at h
  · cases h
  rename_i hfresh
  rw [← Except.ok.inj h]
  simp only [List.any_eq_true, Bool.or_eq_true, decide_eq_true_eq, not_exists, not_and,
    not_or] at hfresh
  exact ⟨.refl _, .snoc (fun t' ht' => (hfresh t' ht').1) hused⟩

theorem issues_enqueueChannels (now : Time) (incident : Incident) (payload : Json)
    (ciphertext : List UInt8) (keys ids : List String) :
    Relates Issues (enqueueChannels now incident payload ciphertext keys ids) := by
  induction keys generalizing ids with
  | nil => exact relates_pure []
  | cons key keys ih =>
    cases ids with
    | nil => exact relates_fail _
    | cons deliveryID ids =>
      refine relates_bind (relates_queryMaybe _) fun found => ?_
      cases found with
      | none => exact relates_fail _
      | some channel =>
        exact relates_bind (issues_insertDelivery rfl rfl) fun inserted =>
          relates_bind (ih ids) fun _ => relates_pure _

theorem issues_enqueueNotifications (pf : EventPlatform) (now : Time) (gen : Generated)
    (incident : Incident) (channelKeys : List String) (baseURL : String) :
    Relates Issues (enqueueNotifications pf now gen incident channelKeys baseURL) := by
  refine relates_bind (issues_enqueueChannels _ _ _ _ _ _) fun ids => ?_
  split
  · exact relates_bind (issues_insertAckToken rfl) fun _ => relates_pure _
  · exact relates_pure _

theorem issues_concludeEvent (pf : EventPlatform) (now : Time) (gen : Generated)
    (opt : ProcessOptions) (tenantID eventID : String) (e : Events.Event) (incident : Incident)
    (created : Bool) (channels : List String) (suppressed : Bool) :
    Relates Issues (concludeEvent pf now gen opt tenantID eventID e incident created channels
      suppressed) := by
  have haudited : ∀ entry, Relates Issues (auditEvent entry) :=
    fun entry => issues_of_keeps (keeps_auditEvent outbox_ignoresAudit entry)
  cases suppressed with
  | true =>
    exact relates_bind (relates_pure _) fun ids => relates_bind (haudited _) fun _ =>
      relates_bind (haudited _) fun _ => relates_pure _
  | false =>
    exact relates_bind (issues_enqueueNotifications _ _ _ _ _ _) fun ids =>
      relates_bind (haudited _) fun _ => relates_bind (haudited _) fun _ => relates_pure _

/-- **`ProcessEvent` adds new deliveries and new tokens to the outbox and changes
none.** -/
theorem issues_processEvent (pf : EventPlatform) (now : Time) (gen : Generated) (e : Events.Event)
    (options : ProcessOptions) : Relates Issues (processEvent pf now gen e options) := by
  have hevents := outbox_ignoresEvents
  have haudit := outbox_ignoresAudit
  refine relates_bind (issues_of_keeps (keeps_bindUUID _ _)) fun tenantID =>
    relates_bind (issues_of_keeps (keeps_bindUUID _ _)) fun sourceID =>
    relates_bind (issues_of_keeps (keeps_insertRawEvent hevents _)) fun _ =>
    relates_bind (issues_of_keeps (keeps_insertNormalizedEvent hevents _)) fun stored => ?_
  cases stored with
  | none => exact issues_of_keeps (keeps_recordDuplicate hevents haudit _ _ _ _)
  | some eventID =>
    exact relates_bind (issues_of_keeps (keeps_correlate hevents _ _ _ _ _ _)) fun found =>
      relates_bind (issues_of_keeps (keeps_evaluatePolicies haudit _ _ _ _ _)) fun routing =>
        issues_concludeEvent _ _ _ _ _ _ _ _ _ _ _

end StormRelay
