/-
What the calls of the event store do to events and incidents.

* `ProcessOutcome`, `process_outcome` — **a `ProcessEvent` is refused, counts a
  duplicate, opens an incident or joins one**;
* `MoveOutcome`, `transition_outcome`, `acknowledge_outcome` — a life-cycle call
  leaves the tables alone or moves one incident along the transition table.
-/
import StormRelay.Frames

namespace StormRelay

open Tx Table

structure Casefile where
  raw : List RawEvent
  normalized : List NormalizedEvent
  duplicates : List EventDuplicate
  incidents : List Incident
  transitions : List IncidentTransition
  links : List (String × String)

def EventDB.casefile (db : EventDB) : Casefile :=
  ⟨db.rawEvents, db.normalizedEvents, db.duplicates, db.incidents, db.transitions,
    db.incidentEvents⟩

@[grind ←] theorem casefile_ignoresDeliveries : IgnoresDeliveries EventDB.casefile :=
  fun _ _ => rfl

@[grind ←] theorem casefile_ignoresTokens : IgnoresTokens EventDB.casefile :=
  fun _ _ => rfl

@[grind ←] theorem casefile_ignoresAudit : IgnoresAudit EventDB.casefile :=
  fun _ _ => rfl

/-- `ON CONFLICT DO NOTHING` on a list of links. -/
def attached (links : List (String × String)) (incidentID eventID : String) :
    List (String × String) :=
  if links.contains (incidentID, eventID) then links else links ++ [(incidentID, eventID)]

theorem attachEvent_eq (incidentID eventID : String) (db : EventDB) :
    (EventDB.attachEvent incidentID eventID db).2
      = { db with incidentEvents := attached db.incidentEvents incidentID eventID } := by
  simp only [EventDB.attachEvent, attached, List.contains_iff_mem]
  split <;> rfl

/-! ### `ProcessEvent` -/

def firstTransition (gen : Generated) (tenantID : String) (e : Events.Event) : IncidentTransition :=
  { id := gen.transitionID, tenantID := tenantID, incidentID := gen.incidentID, from_ := none
    to_ := .detected, actorType := "service", actorID := "correlation-engine"
    reason := "first correlated event", requestID := e.requestID
    traceID := traceIDFromParent e.traceParent }

/-- The incident that `correlate` finds for an event. -/
def foundIncident (tenantID : String) (options : ProcessOptions) (e : Events.Event) (db : EventDB) :
    Option Incident :=
  openIncident tenantID (correlationKey e) (e.receivedAt - options.effective.correlationWindow) db

theorem foundIncident_some {tenantID : String} {options : ProcessOptions} {e : Events.Event}
    {i : Incident} {db : EventDB} (h : foundIncident tenantID options e db = some i) :
    i ∈ db.incidents ∧ i.tenantID = tenantID ∧ i.correlationKey = correlationKey e
      ∧ i.state.isOpen = true
      ∧ e.receivedAt - options.effective.correlationWindow ≤ i.lastEventAt := by
  have hmem := List.mem_of_head? h
  rw [List.mem_insertionSort, List.mem_filter] at hmem
  simp only [Bool.and_eq_true, decide_eq_true_eq] at hmem
  exact ⟨hmem.1, hmem.2.1.1.1, hmem.2.1.1.2, hmem.2.1.2, hmem.2.2⟩

/-- The row `ProcessEvent` inserts for a canonical event. -/
def canonicalRow (gen : Generated) (tenantID sourceID : String) (options : ProcessOptions)
    (e : Events.Event) : NormalizedEvent :=
  normalizedEvent gen tenantID sourceID (timeBucket e.receivedAt options.effective.dedupeWindow) e

/-- The row that notes a repetition of the canonical event `m`. -/
def duplicateRow (gen : Generated) (tenantID : String) (e : Events.Event) (m : NormalizedEvent) :
    EventDuplicate :=
  { id := gen.duplicateID, tenantID := tenantID, canonicalEventID := m.id, rawEventID := gen.rawID
    duplicateNumber := m.duplicateCount + 1, reason := "dedupe_key_within_window"
    receivedAt := e.receivedAt }

/-- What is known of the event of a committed `ProcessEvent`: its tenant and
source, and that its raw row was accepted. -/
structure Accepted (pf : EventPlatform) (gen : Generated) (e : Events.Event)
    (tenantID sourceID : String) (db : EventDB) : Prop where
  tenant : pf.uuid e.tenantID = some tenantID
  source : pf.uuid e.sourceID = some sourceID
  raw : db.acceptsRaw (rawEvent pf gen tenantID sourceID e) = true

structure Canonical (gen : Generated) (tenantID sourceID : String) (options : ProcessOptions)
    (e : Events.Event) (db : EventDB) : Prop where
  unseen : ∀ m ∈ db.normalizedEvents,
    sameBucket (canonicalRow gen tenantID sourceID options e) m = false
  fresh : ∀ m ∈ db.normalizedEvents, m.id ≠ gen.normalizedID

/-- **Everything a `ProcessEvent` can do**: its answer, and the tables after
it. -/
inductive ProcessOutcome (pf : EventPlatform) (now : Time) (gen : Generated) (e : Events.Event)
    (options : ProcessOptions) (db : EventDB) : Except TxError ProcessResult → EventDB → Prop
  | refused {err : TxError} : ProcessOutcome pf now gen e options db (.error err) db
  | duplicate {tenantID sourceID : String} {m : NormalizedEvent} {res : ProcessResult}
      {db' : EventDB} (haccepted : Accepted pf gen e tenantID sourceID db)
      (hm : m ∈ db.normalizedEvents)
      (hsame : sameBucket (canonicalRow gen tenantID sourceID options e) m = true)
      (hres : res.duplicate = true ∧ res.incident = none)
      (hfile : db'.casefile = ⟨db.rawEvents ++ [rawEvent pf gen tenantID sourceID e],
        update (sameBucket (canonicalRow gen tenantID sourceID options e)) addDuplicate
          db.normalizedEvents,
        db.duplicates ++ [duplicateRow gen tenantID e m], db.incidents, db.transitions,
        db.incidentEvents⟩) :
      ProcessOutcome pf now gen e options db (.ok res) db'
  | opened {tenantID sourceID : String} {res : ProcessResult} {db' : EventDB}
      (haccepted : Accepted pf gen e tenantID sourceID db)
      (hcanonical : Canonical gen tenantID sourceID options e db)
      (hnone : foundIncident tenantID options e db = none)
      (hnew : ∀ i ∈ db.incidents, i.id ≠ gen.incidentID)
      (hres : res.duplicate = false
        ∧ res.incident = some (newIncident now gen tenantID (correlationKey e) e))
      (hfile : db'.casefile = ⟨db.rawEvents ++ [rawEvent pf gen tenantID sourceID e],
        db.normalizedEvents ++ [canonicalRow gen tenantID sourceID options e], db.duplicates,
        db.incidents ++ [newIncident now gen tenantID (correlationKey e) e],
        db.transitions ++ [firstTransition gen tenantID e],
        attached db.incidentEvents gen.incidentID gen.normalizedID⟩) :
      ProcessOutcome pf now gen e options db (.ok res) db'
  | joined {tenantID sourceID : String} {i j : Incident} {res : ProcessResult} {db' : EventDB}
      (haccepted : Accepted pf gen e tenantID sourceID db)
      (hcanonical : Canonical gen tenantID sourceID options e db)
      (hfound : foundIncident tenantID options e db = some i)
      (hj : j ∈ db.incidents) (hsame : j.id = i.id)
      (hres : res.duplicate = false
        ∧ res.incident = some (touchIncident now e (maxSeverity i.severity e.severity) j))
      (hfile : db'.casefile = ⟨db.rawEvents ++ [rawEvent pf gen tenantID sourceID e],
        db.normalizedEvents ++ [canonicalRow gen tenantID sourceID options e], db.duplicates,
        update (fun y => y.id = i.id && y.version = i.version)
          (touchIncident now e (maxSeverity i.severity e.severity)) db.incidents,
        db.transitions, attached db.incidentEvents i.id gen.normalizedID⟩) :
      ProcessOutcome pf now gen e options db (.ok res) db'

section Process

variable {pf : EventPlatform} {now : Time} {gen : Generated} {e : Events.Event} {db : EventDB}
  {x : Bool} {c : Conn EventDB} {res : ProcessResult}

theorem recordDuplicate_inv {n : NormalizedEvent} {actor : String}
    (h : recordDuplicate gen n e actor ⟨x, false, db⟩ = .ok (res, c)) :
    ∃ m ∈ db.normalizedEvents, sameBucket n m = true
      ∧ (res.duplicate = true ∧ res.incident = none)
      ∧ c.db.casefile = ⟨db.rawEvents, update (sameBucket n) addDuplicate db.normalizedEvents,
        db.duplicates ++ [duplicateRow gen n.tenantID e m], db.incidents, db.transitions,
        db.incidentEvents⟩ := by
  rw [recordDuplicate] at h
  obtain ⟨⟨canonical, count⟩, c₁, h₁, h⟩ := run_ok h
  obtain ⟨db₁, hcount, rfl⟩ := statement_inv h₁
  rw [countDuplicate] at hcount
  split at hcount
  swap
  · cases hcount
  rename_i m hm
  obtain ⟨hpair, rfl⟩ := ok_inj hcount
  obtain ⟨rfl, rfl⟩ := Prod.mk.inj hpair
  obtain ⟨u, c₂, h₂, h⟩ := run_ok h
  obtain ⟨db₂, hins, rfl⟩ := insert_inv h₂
  obtain rfl := EventDB.insertDuplicate_inv hins
  obtain ⟨u, c₃, h₃, h⟩ := run_ok h
  have hkept := keeps_auditEvent casefile_ignoresAudit _ _ _ _ h₃
  obtain ⟨rfl, rfl⟩ := ok_inj h
  exact ⟨m, List.mem_of_find?_eq_some hm, List.find?_some hm, ⟨rfl, rfl⟩, hkept⟩

theorem correlate_inv {tenantID eventID : String} {window : ℤ} {incident : Incident}
    {created : Bool}
    (h : correlate now gen tenantID eventID window e ⟨x, false, db⟩
      = .ok ((incident, created), c)) :
    (openIncident tenantID (correlationKey e) (e.receivedAt - window) db = none
        ∧ (∀ i ∈ db.incidents, i.id ≠ gen.incidentID)
        ∧ incident = newIncident now gen tenantID (correlationKey e) e
        ∧ c = ⟨x, false, { db with
            incidents := db.incidents ++ [newIncident now gen tenantID (correlationKey e) e]
            transitions := db.transitions ++ [firstTransition gen tenantID e]
            incidentEvents := attached db.incidentEvents gen.incidentID eventID }⟩)
      ∨ ∃ i j, openIncident tenantID (correlationKey e) (e.receivedAt - window) db = some i
        ∧ j ∈ db.incidents ∧ j.id = i.id
        ∧ incident = touchIncident now e (maxSeverity i.severity e.severity) j
        ∧ c = ⟨x, false, { db with
            incidents := update (fun y => y.id = i.id && y.version = i.version)
              (touchIncident now e (maxSeverity i.severity e.severity)) db.incidents
            incidentEvents := attached db.incidentEvents i.id eventID }⟩ := by
  simp only [correlate, run_exec, run_queryMaybe] at h
  rcases hfound : openIncident tenantID (correlationKey e) (e.receivedAt - window) db with _ | i
  · simp only [hfound] at h
    obtain ⟨u, c₁, h₁, h⟩ := run_ok h
    obtain ⟨db₁, hins, rfl⟩ := insert_inv h₁
    obtain ⟨hnew, rfl⟩ := EventDB.insertIncident_inv hins
    obtain ⟨u, c₂, h₂, h⟩ := run_ok h
    obtain ⟨db₂, hins, rfl⟩ := insert_inv h₂
    obtain ⟨-, rfl⟩ := EventDB.insertTransition_inv hins
    rw [run_exec, attachEvent_eq] at h
    obtain ⟨hpair, rfl⟩ := ok_inj h
    exact .inl ⟨rfl, hnew, (Prod.mk.inj hpair).1.symm, rfl⟩
  simp only [hfound] at h
  obtain ⟨i', c₁, h₁, h⟩ := run_ok h
  obtain ⟨db₁, hup, rfl⟩ := statement_inv h₁
  obtain ⟨j, hj, hpj, rfl, rfl⟩ := EventDB.updateIncidentReturning_inv hup
  have hid : j.id = i.id := by
    simp only [Bool.and_eq_true, decide_eq_true_eq] at hpj
    exact hpj.1
  rw [run_exec, attachEvent_eq] at h
  obtain ⟨hpair, rfl⟩ := ok_inj h
  refine .inr ⟨i, j, rfl, hj, hid, (Prod.mk.inj hpair).1.symm, ?_⟩
  have htouched : (touchIncident now e (maxSeverity i.severity e.severity) j).id = i.id := hid
  rw [htouched]
  rfl

theorem concludeEvent_incident {opt : ProcessOptions} {tenantID eventID : String}
    {incident : Incident} {created suppressed : Bool} {channels : List String} {c c' : Conn EventDB}
    (h : concludeEvent pf now gen opt tenantID eventID e incident created channels suppressed c
      = .ok (res, c')) :
    res.duplicate = false ∧ res.incident = some incident := by
  cases suppressed <;>
  · rw [concludeEvent] at h
    obtain ⟨ids, c₁, -, h⟩ := run_ok h
    obtain ⟨u, c₂, -, h⟩ := run_ok h
    obtain ⟨u, c₃, -, h⟩ := run_ok h
    obtain ⟨rfl, -⟩ := ok_inj h
    exact ⟨rfl, rfl⟩

/-- The statements a committed `ProcessEvent` has run: its raw row was accepted,
and the insertion of its normalised row decided how it went on. -/
theorem processEvent_inv {options : ProcessOptions}
    (h : processEvent pf now gen e options ⟨x, false, db⟩ = .ok (res, c)) :
    ∃ tenantID sourceID, Accepted pf gen e tenantID sourceID db
      ∧ ∃ stored db', EventDB.insertNormalizedEvent (canonicalRow gen tenantID sourceID options e)
          { db with rawEvents := db.rawEvents ++ [rawEvent pf gen tenantID sourceID e] }
            = .ok (stored, db')
        ∧ match stored with
          | none => recordDuplicate gen (canonicalRow gen tenantID sourceID options e) e
              options.effective.actorID ⟨x, false, db'⟩ = .ok (res, c)
          | some eventID => routeEvent pf now gen options.effective tenantID eventID e
              ⟨x, false, db'⟩ = .ok (res, c) := by
  rw [processEvent] at h
  obtain ⟨tenantID, c₁, h₁, h⟩ := run_ok h
  obtain ⟨htenant, rfl⟩ := bindUUID_inv h₁
  obtain ⟨sourceID, c₂, h₂, h⟩ := run_ok h
  obtain ⟨hsource, rfl⟩ := bindUUID_inv h₂
  obtain ⟨u, c₃, h₃, h⟩ := run_ok h
  obtain ⟨db₁, hraw, rfl⟩ := insert_inv h₃
  obtain ⟨haccepted, rfl⟩ := EventDB.insertRawEvent_inv hraw
  obtain ⟨stored, c₄, h₄, h⟩ := run_ok h
  obtain ⟨db₂, hstored, rfl⟩ := statement_inv h₄
  refine ⟨tenantID, sourceID, ⟨htenant, hsource, haccepted⟩, stored, db₂, hstored, ?_⟩
  cases stored <;> exact h

/-- **A `ProcessEvent` is refused, counts a duplicate, opens an incident or joins
one.** -/
theorem process_outcome (x : Bool) (pf : EventPlatform) (now : Time) (gen : Generated)
    (e : Events.Event) (options : ProcessOptions) (db : EventDB) :
    ProcessOutcome pf now gen e options db (commit x (processEvent pf now gen e options) db).1
      (after x (processEvent pf now gen e options) db) := by
  rw [after]
  obtain ⟨err, hcommit⟩ | ⟨res, c, hrun, hcommit⟩ :=
    commit_cases (processEvent pf now gen e options) x db
  · rw [hcommit]
    exact .refused
  rw [hcommit]
  obtain ⟨tenantID, sourceID, haccepted, stored, db', hstored, h⟩ := processEvent_inv hrun
  cases stored with
  | none =>
    obtain ⟨-, rfl⟩ := EventDB.insertNormalizedEvent_none hstored
    obtain ⟨m, hm, hsame, hres, hfile⟩ := recordDuplicate_inv h
    exact .duplicate haccepted hm hsame hres hfile
  | some eventID =>
    obtain ⟨-, hunseen, hfresh, rfl, rfl⟩ := EventDB.insertNormalizedEvent_some.mp hstored
    have hcanonical : Canonical gen tenantID sourceID options e db := ⟨hunseen, hfresh⟩
    simp only at h
    rw [routeEvent] at h
    obtain ⟨⟨incident, created⟩, c₁, h₁, h⟩ := run_ok h
    obtain ⟨⟨channels, suppressed⟩, c₂, h₂, h⟩ := run_ok h
    -- Policies and notifications leave the events and incidents alone.
    have hkept : c.db.casefile = c₁.db.casefile :=
      (keeps_concludeEvent casefile_ignoresDeliveries casefile_ignoresTokens
        casefile_ignoresAudit _ _ _ _ _ _ _ _ _ _ _ _ _ _ h).trans
        (keeps_evaluatePolicies casefile_ignoresAudit _ _ _ _ _ _ _ _ h₂)
    have hres := concludeEvent_incident h
    rcases correlate_inv h₁ with ⟨hnone, hnew, rfl, rfl⟩ | ⟨i, j, hfound, hj, hid, rfl, rfl⟩
    · exact .opened haccepted hcanonical hnone hnew hres hkept
    · exact .joined haccepted hcanonical hfound hj hid hres hkept

end Process

/-! ### The life cycle of an incident -/

/-- The tables after one move of the incident with identifier `id`, recorded as
the transition `t`. -/
def movedFile (now : Time) (id : String) (to_ : IncidentState) (t : IncidentTransition)
    (db : EventDB) : Casefile :=
  ⟨db.rawEvents, db.normalizedEvents, db.duplicates,
    update (fun y => y.id = id) (transitionedRow now to_) db.incidents, db.transitions ++ [t],
    db.incidentEvents⟩

/-- The row `t` records the move of the incident `i` to `to_`. -/
structure RecordsMove (t : IncidentTransition) (i : Incident) (to_ : IncidentState) : Prop where
  incident : t.incidentID = i.id
  origin : t.from_ = some i.state
  target : t.to_ = to_

/-- **Everything a `TransitionIncident` can do.** -/
inductive TransitionOutcome (now : Time) (input : TransitionInput) (db : EventDB) :
    Except TxError Incident → EventDB → Prop
  | refused {err : TxError} : TransitionOutcome now input db (.error err) db
  | moved {i answer : Incident} {t : IncidentTransition} {db' : EventDB} (hi : i ∈ db.incidents)
      (hid : i.id = input.incidentID)
      (hvalid : i.state.validateTransition input.to_ = .ok ()) (ht : RecordsMove t i input.to_)
      (hfile : db'.casefile = movedFile now input.incidentID input.to_ t db) :
      TransitionOutcome now input db (.ok answer) db'

/-- The token that `AcknowledgeByToken` finds. -/
def liveToken (pf : EventPlatform) (now : Time) (rawToken : String) (db : EventDB) :
    Option AckToken :=
  db.ackTokens.find? fun t => t.tokenHash = pf.sha256 (Policy.utf8 rawToken) && t.expiresAt > now

def settledFor (token : AckToken) (i : Incident) : Prop :=
  token.usedAt.isSome ∨ i.state = .acknowledged ∨ i.state = .investigating

instance (token : AckToken) (i : Incident) : Decidable (settledFor token i) :=
  inferInstanceAs (Decidable (_ ∨ _ ∨ _))

/-- **Everything an `AcknowledgeByToken` can do.** -/
inductive AcknowledgeOutcome (pf : EventPlatform) (now : Time) (rawToken : String) (db : EventDB) :
    Except TxError Incident → EventDB → Prop
  | refused {err : TxError} : AcknowledgeOutcome pf now rawToken db (.error err) db
  | settled {token : AckToken} {i : Incident} (htoken : liveToken pf now rawToken db = some token)
      (hi : db.incidents.find? (fun i => i.id = token.incidentID) = some i)
      (hdone : settledFor token i) : AcknowledgeOutcome pf now rawToken db (.ok i) db
  | acknowledged {token : AckToken} {i answer : Incident} {t : IncidentTransition} {db' : EventDB}
      (htoken : liveToken pf now rawToken db = some token)
      (hi : db.incidents.find? (fun i => i.id = token.incidentID) = some i)
      (hdue : ¬ settledFor token i)
      (hvalid : i.state.validateTransition .acknowledged = .ok ())
      (ht : RecordsMove t i .acknowledged)
      (hfile : db'.casefile = movedFile now token.incidentID .acknowledged t db)
      (htokens : db'.ackTokens
        = update (fun t => t.id = token.id) (fun t => { t with usedAt := some now }) db.ackTokens) :
      AcknowledgeOutcome pf now rawToken db (.ok answer) db'

section Moves

variable {now : Time} {db : EventDB} {x : Bool} {c : Conn EventDB}

theorem liftEventError_inv {α : Type} {r : Except String α} {a : α}
    (h : liftEventError r ⟨x, false, db⟩ = .ok (a, c)) : r = .ok a ∧ c = ⟨x, false, db⟩ := by
  unfold liftEventError at h
  split at h
  · obtain ⟨rfl, rfl⟩ := ok_inj h
    exact ⟨rfl, rfl⟩
  · cases h

/-- A committed transition has found the incident of the tenant, answers with the row
it wrote and records the move under the tenant. -/
theorem transitionIncident_inv {transitionID : String} {input : TransitionInput}
    {answer : Incident} (h : transitionIncident now transitionID input ⟨x, false, db⟩
      = .ok (answer, c)) :
    ∃ i ∈ db.incidents, (i.tenantID = input.tenantID ∧ i.id = input.incidentID)
      ∧ i.state.validateTransition input.to_ = .ok ()
      ∧ (∃ j ∈ db.incidents, j.id = i.id ∧ answer = transitionedRow now input.to_ j)
      ∧ ∃ t, t.tenantID = input.tenantID ∧ RecordsMove t i input.to_
        ∧ c.db.casefile = movedFile now input.incidentID input.to_ t db := by
  rw [transitionIncident] at h
  obtain ⟨i, c₁, h₁, h⟩ := run_ok h
  obtain ⟨hfound, rfl⟩ := queryRow_inv h₁
  have hkey : i.tenantID = input.tenantID ∧ i.id = input.incidentID := by
    simpa only [Bool.and_eq_true, decide_eq_true_eq] using List.find?_some hfound
  split at h
  · cases h
  obtain ⟨u, c₂, h₂, h⟩ := run_ok h
  obtain ⟨hvalid, rfl⟩ := liftEventError_inv h₂
  obtain ⟨i', c₃, h₃, h⟩ := run_ok h
  obtain ⟨db₃, hup, rfl⟩ := statement_inv h₃
  obtain ⟨j, hj, hsame, hrow, rfl⟩ := EventDB.updateIncidentReturning_inv hup
  obtain ⟨u, c₄, h₄, h⟩ := run_ok h
  obtain ⟨db₄, hins, rfl⟩ := insert_inv h₄
  obtain ⟨-, rfl⟩ := EventDB.insertTransition_inv hins
  obtain ⟨u, c₅, h₅, h⟩ := run_ok h
  have hkept := keeps_auditEvent casefile_ignoresAudit _ _ _ _ h₅
  obtain ⟨rfl, rfl⟩ := ok_inj h
  have hfile : c₅.db.casefile = movedFile now i.id input.to_ _ db := hkept
  rw [hkey.2] at hfile
  exact ⟨i, List.mem_of_find?_eq_some hfound, hkey, hvalid,
    ⟨j, hj, by simpa using hsame, hrow⟩, _, rfl, ⟨hkey.2.symm, rfl, rfl⟩, hfile⟩

/-- **A transition is refused or moves its incident.** -/
theorem transition_outcome (x : Bool) (now : Time) (transitionID : String)
    (input : TransitionInput) (db : EventDB) :
    TransitionOutcome now input db (commit x (transitionIncident now transitionID input) db).1
      (after x (transitionIncident now transitionID input) db) := by
  rw [after]
  obtain ⟨err, hcommit⟩ | ⟨answer, c, h, hcommit⟩ :=
    commit_cases (transitionIncident now transitionID input) x db
  · rw [hcommit]
    exact .refused
  obtain ⟨i, hi, hkey, hvalid, -, t, -, ht, hfile⟩ := transitionIncident_inv h
  rw [hcommit]
  exact .moved hi hkey.2 hvalid ht hfile

/-- **An acknowledgement link is refused, has nothing to do, or acknowledges its
incident and is used up.** -/
theorem acknowledge_outcome (x : Bool) (pf : EventPlatform) (now : Time)
    (transitionID rawToken requestID traceID : String) (db : EventDB) :
    AcknowledgeOutcome pf now rawToken db
      (commit x (acknowledgeByToken pf now transitionID rawToken requestID traceID) db).1
      (after x (acknowledgeByToken pf now transitionID rawToken requestID traceID) db) := by
  rw [after]
  obtain ⟨err, hcommit⟩ | ⟨answer, c, h, hcommit⟩ :=
    commit_cases (acknowledgeByToken pf now transitionID rawToken requestID traceID) x db
  · rw [hcommit]
    exact .refused
  rw [hcommit, acknowledgeByToken] at *
  obtain ⟨token, c₁, h₁, h⟩ := run_ok h
  obtain ⟨htoken, rfl⟩ := queryRow_inv h₁
  obtain ⟨i, c₂, h₂, h⟩ := run_ok h
  obtain ⟨hfound, rfl⟩ := queryRow_inv h₂
  have hid : i.id = token.incidentID := by simpa using List.find?_some hfound
  split at h
  · rename_i hdone
    obtain ⟨rfl, rfl⟩ := ok_inj h
    exact .settled htoken hfound hdone
  rename_i hdue
  obtain ⟨u, c₃, h₃, h⟩ := run_ok h
  obtain ⟨hvalid, rfl⟩ := liftEventError_inv h₃
  rw [run_exec] at h
  obtain ⟨i', c₄, h₄, h⟩ := run_ok h
  obtain ⟨db₄, hup, rfl⟩ := statement_inv h₄
  obtain ⟨-, -, -, -, rfl⟩ := EventDB.updateIncidentReturning_inv hup
  obtain ⟨u, c₅, h₅, h⟩ := run_ok h
  obtain ⟨db₅, hins, rfl⟩ := insert_inv h₅
  obtain ⟨-, rfl⟩ := EventDB.insertTransition_inv hins
  obtain ⟨u, c₆, h₆, h⟩ := run_ok h
  have hfile := keeps_auditEvent casefile_ignoresAudit _ _ _ _ h₆
  have htokens := keeps_auditEvent (f := EventDB.ackTokens) (fun _ _ => rfl) _ _ _ _ h₆
  obtain ⟨-, rfl⟩ := ok_inj h
  exact .acknowledged htoken hfound hdue hvalid ⟨hid.symm, rfl, rfl⟩ hfile htokens

end Moves

end StormRelay
