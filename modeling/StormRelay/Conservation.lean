/-
Conservation of events (`internal/storage/process.go`).

Every event that is stored leaves one raw row, and the raw row is the beginning
of a canonical event or a numbered duplicate of one.  The tables are read as a
ledger whose items are raw events, whose entries are canonical events under
their deduplication keys, and whose groups are incidents.

* `ProcessOutcome.ledger_step` — **a committed `ProcessEvent` is one step of the
  ledger**; every other call leaves it as it is;
* `events_conserved` — **the event tables are conserved after every run**.
-/
import StormRelay.EventOutcome
import StormRelay.Ledger
import StormRelay.Transition

namespace StormRelay

open Tx Table Transition

/-! ### The tables as a ledger -/

/-- The columns of `UNIQUE (tenant_id,source_id,dedupe_key,dedupe_bucket)`. -/
def NormalizedEvent.bucketKey (n : NormalizedEvent) : String × String × String × Time :=
  (n.tenantID, n.sourceID, n.dedupeKey, n.dedupeBucket)

theorem sameBucket_iff {n m : NormalizedEvent} :
    sameBucket n m = true ↔ n.bucketKey = m.bucketKey := by
  simp only [sameBucket, NormalizedEvent.bucketKey, Bool.and_eq_true, decide_eq_true_eq,
    Prod.mk.injEq, and_assoc]

def NormalizedEvent.entry (n : NormalizedEvent) :
    Ledger.Entry String (String × String × String × Time) String :=
  { id := n.id, key := n.bucketKey, item := n.rawEventID, repeats := n.duplicateCount }

def EventDuplicate.repetition (d : EventDuplicate) : Ledger.Repeat String String :=
  { entry := d.canonicalEventID, item := d.rawEventID, number := d.duplicateNumber }

def EventDB.ledger (db : EventDB) :
    Ledger String (String × String × String × Time) String String :=
  { items := db.rawEvents.map RawEvent.id
    entries := db.normalizedEvents.map NormalizedEvent.entry
    repeats := db.duplicates.map EventDuplicate.repetition
    links := db.incidentEvents
    groups := db.incidents.map Incident.id }

/-! ### What leaves the ledger as it is -/

/-- The raw events and the ledger: what calls other than `ProcessEvent` keep. -/
def EventDB.evidence (db : EventDB) :
    List RawEvent × Ledger String (String × String × String × Time) String String :=
  (db.rawEvents, db.ledger)

section Frames

@[grind ←] theorem evidence_ignoresDeliveries : IgnoresDeliveries EventDB.evidence :=
  fun _ _ => rfl

@[grind ←] theorem evidence_ignoresTokens : IgnoresTokens EventDB.evidence :=
  fun _ _ => rfl

@[grind ←] theorem evidence_ignoresAudit : IgnoresAudit EventDB.evidence :=
  fun _ _ => rfl

@[grind ←] theorem evidence_insertTransition (t : IncidentTransition) :
    Keeps EventDB.evidence (insert (EventDB.insertTransition t)) := by
  refine keeps_insert fun db db' h => ?_
  rw [(EventDB.insertTransition_inv h).2]
  rfl

theorem ids_update {p : Incident → Bool} {f : Incident → Incident} (hf : ∀ i, (f i).id = i.id)
    (incidents : List Incident) :
    (update p f incidents).map Incident.id = incidents.map Incident.id := by
  rw [update, List.map_map]
  exact List.map_congr_left fun i _ => patch_column Incident.id (hf i)

theorem evidence_transitionedRow (p : Incident → Bool) (now : Time) (to_ : IncidentState) :
    Keeps EventDB.evidence
      (statement (EventDB.updateIncidentReturning p (transitionedRow now to_))) := by
  refine keeps_statement fun db i db' h => ?_
  obtain ⟨-, -, -, -, rfl⟩ := EventDB.updateIncidentReturning_inv h
  simp only [EventDB.evidence, EventDB.ledger, EventDB.updateIncidents]
  rw [ids_update (f := transitionedRow now to_) fun _ => rfl]

theorem evidence_transitionIncident (now : Time) (transitionID : String)
    (input : TransitionInput) :
    Keeps EventDB.evidence (transitionIncident now transitionID input) := by
  grind [transitionIncident, evidence_transitionedRow]

theorem evidence_acknowledgeByToken (pf : EventPlatform) (now : Time)
    (transitionID rawToken requestID traceID : String) :
    Keeps EventDB.evidence
      (acknowledgeByToken pf now transitionID rawToken requestID traceID) := by
  refine keeps_bind (keeps_queryRow _) fun token => keeps_bind (keeps_queryRow _) fun current => ?_
  grind [evidence_transitionedRow]

end Frames

/-! ### `ProcessEvent` is a step of the ledger -/

/-- How an event is recorded whose row would be `n`: as a duplicate of the event
in its bucket, or as a canonical event in an incident. -/
inductive Recorded (db db' : EventDB) (n : NormalizedEvent) : Prop
  | duplicate (m : NormalizedEvent) (hm : m ∈ db.normalizedEvents) (hsame : sameBucket n m = true)
      (hledger : db'.ledger = db.ledger.note m.entry n.rawEventID)
  | canonical (g : String) (groups : List String)
      (hunseen : ∀ m ∈ db.normalizedEvents, sameBucket n m = false)
      (hfresh : ∀ m ∈ db.normalizedEvents, m.id ≠ n.id)
      (hgrows : Ledger.Grows db.ledger.groups groups) (hg : g ∈ groups)
      (hledger : db'.ledger = db.ledger.enter n.entry g groups)

section Process

variable {pf : EventPlatform} {now : Time} {gen : Generated} {e : Events.Event}
  {options : ProcessOptions} {db db' : EventDB} {res : ProcessResult}

def Casefile.ledger (f : Casefile) :
    Ledger String (String × String × String × Time) String String :=
  { items := f.raw.map RawEvent.id
    entries := f.normalized.map NormalizedEvent.entry
    repeats := f.duplicates.map EventDuplicate.repetition
    links := f.links
    groups := f.incidents.map Incident.id }

theorem ledger_of_casefile {f : Casefile} (h : db.casefile = f) : db.ledger = f.ledger := by
  rw [← h]
  rfl

theorem Accepted.fresh {tenantID sourceID : String} (h : Accepted pf gen e tenantID sourceID db) :
    gen.rawID ∉ db.ledger.items := by
  intro hin
  obtain ⟨r, hr, hid⟩ := List.mem_map.mp hin
  have haccepted := h.raw
  simp only [EventDB.acceptsRaw, Bool.and_eq_true, Bool.not_eq_true', List.any_eq_false,
    decide_eq_true_eq] at haccepted
  exact haccepted.1.1.2 r hr hid

theorem unlinked_of_fresh (hc : db.ledger.Conserved) {eventID : String}
    (hfresh : ∀ m ∈ db.normalizedEvents, m.id ≠ eventID) :
    ∀ p ∈ db.incidentEvents, p.2 ≠ eventID := by
  intro p hp hid
  have hin : p.2 ∈ db.ledger.entries.map Ledger.Entry.id := by
    rw [← hc.linked]
    exact List.mem_map_of_mem hp
  obtain ⟨n, hn, hnid⟩ := List.mem_map.mp hin
  obtain ⟨m, hm, rfl⟩ := List.mem_map.mp hn
  exact hfresh m hm (hnid.trans hid)

theorem attached_eq {links : List (String × String)} {incidentID eventID : String}
    (h : ∀ p ∈ links, p.2 ≠ eventID) :
    attached links incidentID eventID = links ++ [(incidentID, eventID)] :=
  if_neg fun hin => h _ (List.contains_iff_mem.mp hin) rfl

theorem entries_addDuplicate {n m : NormalizedEvent} (hsame : sameBucket n m = true)
    (item : String) :
    (update (sameBucket n) addDuplicate db.normalizedEvents).map NormalizedEvent.entry
      = (db.ledger.note m.entry item).entries := by
  have hkey := sameBucket_iff.mp hsame
  have hbump : ∀ y, (addDuplicate y).entry = y.entry.bump := fun _ => rfl
  refine map_update (fun y => ?_) hbump db.normalizedEvents
  rw [Bool.eq_iff_iff, sameBucket_iff, hkey, decide_eq_true_iff]
  exact ⟨Eq.symm, Eq.symm⟩

/-- **A committed `ProcessEvent` records its event**, under an identifier no raw
event has. -/
theorem ProcessOutcome.recorded (h : ProcessOutcome pf now gen e options db (.ok res) db')
    (hc : db.ledger.Conserved) :
    gen.rawID ∉ db.ledger.items
      ∧ ∃ tenantID sourceID, pf.uuid e.tenantID = some tenantID ∧ pf.uuid e.sourceID = some sourceID
        ∧ Recorded db db' (canonicalRow gen tenantID sourceID options e) := by
  cases h with
  | @duplicate tenantID sourceID m _ _ haccepted hm hsame hres hfile =>
    refine ⟨haccepted.fresh, tenantID, sourceID, haccepted.tenant, haccepted.source,
      .duplicate m hm hsame ((ledger_of_casefile hfile).trans ?_)⟩
    simp only [Casefile.ledger, entries_addDuplicate hsame gen.rawID, List.map_append]
    rfl
  | @opened tenantID sourceID _ _ haccepted hcanonical hnone hnew hres hfile =>
    refine ⟨haccepted.fresh, tenantID, sourceID, haccepted.tenant, haccepted.source,
      .canonical gen.incidentID (db.ledger.groups ++ [gen.incidentID]) hcanonical.unseen
        hcanonical.fresh (.inr ⟨gen.incidentID, fun hin => ?_, rfl⟩)
        (List.mem_append_right _ (List.mem_singleton.mpr rfl))
        ((ledger_of_casefile hfile).trans ?_)⟩
    · obtain ⟨j, hj, hid⟩ := List.mem_map.mp hin
      exact hnew j hj hid
    · simp only [Casefile.ledger, attached_eq (unlinked_of_fresh hc hcanonical.fresh),
        List.map_append]
      rfl
  | @joined tenantID sourceID i j _ _ haccepted hcanonical hfound hj hid hres hfile =>
    refine ⟨haccepted.fresh, tenantID, sourceID, haccepted.tenant, haccepted.source,
      .canonical i.id db.ledger.groups hcanonical.unseen hcanonical.fresh (.inl rfl)
        (List.mem_map.mpr ⟨j, hj, hid⟩) ((ledger_of_casefile hfile).trans ?_)⟩
    simp only [Casefile.ledger, attached_eq (unlinked_of_fresh hc hcanonical.fresh),
      List.map_append]
    rw [ids_update (f := touchIncident now e (maxSeverity i.severity e.severity)) fun _ => rfl]
    rfl

/-- **A committed `ProcessEvent` adds the raw row of its event.** -/
theorem ProcessOutcome.raw (h : ProcessOutcome pf now gen e options db (.ok res) db') :
    ∃ tenantID sourceID,
      db'.rawEvents = db.rawEvents ++ [rawEvent pf gen tenantID sourceID e] := by
  cases h with
  | duplicate _ _ _ _ hfile | opened _ _ _ _ _ hfile
  | joined _ _ _ _ _ _ hfile => exact ⟨_, _, congrArg Casefile.raw hfile⟩

theorem Recorded.step {n : NormalizedEvent} (h : Recorded db db' n)
    (hitem : n.rawEventID ∉ db.ledger.items) (hcount : n.duplicateCount = 0) :
    Ledger.Step db.ledger db'.ledger := by
  cases h with
  | duplicate m hm hsame hledger =>
    rw [hledger]
    exact .note hitem (List.mem_map_of_mem hm)
  | canonical g groups hunseen hfresh hgrows hg hledger =>
    rw [hledger]
    refine .enter hitem (fun y hy hid => ?_) (fun y hy hkey => ?_) hcount hgrows hg
    · obtain ⟨m, hm, rfl⟩ := List.mem_map.mp hy
      exact hfresh m hm hid
    obtain ⟨m, hm, rfl⟩ := List.mem_map.mp hy
    have hsame := sameBucket_iff.mpr (Eq.symm hkey)
    rw [hunseen m hm] at hsame
    cases hsame

/-- **A committed `ProcessEvent` is one step of the ledger.** -/
theorem ProcessOutcome.ledger_step (h : ProcessOutcome pf now gen e options db (.ok res) db')
    (hc : db.ledger.Conserved) : Ledger.Step db.ledger db'.ledger := by
  obtain ⟨hitem, tenantID, sourceID, -, -, hrec⟩ := h.recorded hc
  exact hrec.step hitem rfl

theorem ProcessOutcome.conserved {answer : Except TxError ProcessResult}
    (h : ProcessOutcome pf now gen e options db answer db') (hc : db.ledger.Conserved) :
    db'.ledger.Conserved := by
  cases answer with
  | error err =>
    cases h
    exact hc
  | ok res => exact hc.step (h.ledger_step hc)

theorem outcome_of_succeeds {x : Bool}
    (h : succeeds x (processEvent pf now gen e options) db = true) :
    ∃ res, ProcessOutcome pf now gen e options db (.ok res)
      (after x (processEvent pf now gen e options) db) := by
  have hout := process_outcome x pf now gen e options db
  rw [Tx.succeeds] at h
  generalize (commit x (processEvent pf now gen e options) db).1 = answer at h hout
  cases answer with
  | error err => cases h
  | ok res => exact ⟨res, hout⟩

end Process

/-! ### Runs of the store -/

structure Configuration where
  tenants : List String
  sources : List String
  policies : List PolicyRow
  policyVersions : List PolicyVersion
  channels : List Channel

/-- A step of the event store: a call of one of its methods, or a change of its
configuration. -/
inductive EventOp where
  | call (call : EventCall)
  | configure (configuration : Configuration)

namespace EventDB

def configured (config : Configuration) (db : EventDB) : EventDB :=
  { db with
    tenants := config.tenants, sources := config.sources, policies := config.policies
    policyVersions := config.policyVersions, channels := config.channels }

/-- The tables after a step; `x` says whether a connection runs one statement at
a time. -/
def perform (x : Bool) : EventOp → EventDB → EventDB
  | .call (.processEvent pf now gen e options), db =>
    after x (StormRelay.processEvent pf now gen e options) db
  | .call (.claimDeliveries pf now locked limit), db =>
    after x (StormRelay.claimDeliveries pf now locked limit) db
  | .call (.completeDelivery now deliveryID providerRef deliveryErr), db =>
    after x (StormRelay.completeDelivery now deliveryID providerRef deliveryErr) db
  | .call (.transitionIncident now transitionID input), db =>
    after x (StormRelay.transitionIncident now transitionID input) db
  | .call (.acknowledgeByToken pf now transitionID rawToken requestID traceID), db =>
    after x (StormRelay.acknowledgeByToken pf now transitionID rawToken requestID traceID) db
  | .call (.recordAudit entry), db => after x (StormRelay.recordAudit entry) db
  | .configure config, db => db.configured config

/-- No event has been processed yet. -/
structure NoEvents (db : EventDB) : Prop where
  raw : db.rawEvents = []
  normalized : db.normalizedEvents = []
  duplicates : db.duplicates = []
  incidents : db.incidents = []
  links : db.incidentEvents = []

theorem NoEvents.conserved {db : EventDB} (h : db.NoEvents) : db.ledger.Conserved := by
  have hledger : db.ledger = ⟨[], [], [], [], []⟩ := by
    rw [ledger, h.raw, h.normalized, h.duplicates, h.incidents, h.links]
    rfl
  rw [hledger]
  exact ⟨List.nodup_nil, List.Perm.refl _, List.nodup_nil, List.nodup_nil, nofun, nofun, rfl,
    nofun, List.nodup_nil⟩

theorem evidence_perform (x : Bool) (op : EventOp) (db : EventDB)
    (h : ∀ pf now gen e options, op ≠ .call (.processEvent pf now gen e options)) :
    (db.perform x op).evidence = db.evidence := by
  cases op with
  | configure config => rfl
  | call call =>
    cases call with
    | processEvent pf now gen e options => exact absurd rfl (h pf now gen e options)
    | claimDeliveries =>
      exact (keeps_claimDeliveries evidence_ignoresDeliveries _ _ _ _).after x db
    | completeDelivery =>
      exact (keeps_completeDelivery evidence_ignoresDeliveries evidence_ignoresAudit _ _ _ _).after
        x db
    | transitionIncident => exact (evidence_transitionIncident _ _ _).after x db
    | acknowledgeByToken => exact (evidence_acknowledgeByToken _ _ _ _ _ _).after x db
    | recordAudit => exact (keeps_auditEvent evidence_ignoresAudit _).after x db

theorem conserved_perform (x : Bool) (op : EventOp) (db : EventDB) (h : db.ledger.Conserved) :
    (db.perform x op).ledger.Conserved := by
  by_cases hop : ∃ pf now gen e options, op = .call (.processEvent pf now gen e options)
  · obtain ⟨pf, now, gen, e, options, rfl⟩ := hop
    exact (process_outcome x pf now gen e options db).conserved h
  have hkept := evidence_perform x op db fun pf now gen e options he =>
    hop ⟨pf, now, gen, e, options, he⟩
  have hledger : (db.perform x op).ledger = db.ledger := congrArg Prod.snd hkept
  rw [hledger]
  exact h

/-- The raw events a step adds: that of its event when it is a `ProcessEvent`
that commits, none otherwise. -/
def AddsOwnRaw (x : Bool) : EventOp → EventDB → Prop
  | .call (.processEvent pf now gen e options), db =>
    if succeeds x (StormRelay.processEvent pf now gen e options) db then
      ∃ tenantID sourceID, (db.perform x (.call (.processEvent pf now gen e options))).rawEvents
        = db.rawEvents ++ [rawEvent pf gen tenantID sourceID e]
    else db.perform x (.call (.processEvent pf now gen e options)) = db
  | op, db => (db.perform x op).rawEvents = db.rawEvents

theorem addsOwnRaw (x : Bool) (op : EventOp) (db : EventDB) : AddsOwnRaw x op db := by
  unfold AddsOwnRaw
  split
  · rename_i pf now gen e options
    split
    · rename_i hok
      obtain ⟨res, hout⟩ := outcome_of_succeeds hok
      exact hout.raw
    · rename_i hfail
      exact after_of_not_succeeds (by simpa using hfail)
  · rename_i hop
    exact congrArg Prod.fst (evidence_perform x op db hop)

end EventDB

/-! ### Conservation over runs -/

/-- What the event tables say of every event. -/
structure EventsConserved (db : EventDB) : Prop where
  /-- A raw event is that of one canonical event or of one duplicate, not both. -/
  raw : ∀ r ∈ db.rawEvents,
    db.normalizedEvents.countP (fun n => n.rawEventID = r.id) = 1
        ∧ db.duplicates.countP (fun d => d.rawEventID = r.id) = 0
      ∨ db.normalizedEvents.countP (fun n => n.rawEventID = r.id) = 0
        ∧ db.duplicates.countP (fun d => d.rawEventID = r.id) = 1
  counted : ∀ n ∈ db.normalizedEvents,
    n.duplicateCount = db.duplicates.countP fun d => d.canonicalEventID = n.id
  numbered : ∀ n ∈ db.normalizedEvents,
    (db.duplicates.filter fun d => d.canonicalEventID = n.id).map EventDuplicate.duplicateNumber
      = List.range' 1 n.duplicateCount
  linked : ∀ n ∈ db.normalizedEvents,
    ∃ i ∈ db.incidents, db.incidentEvents.filter (fun p => p.2 = n.id) = [(i.id, n.id)]
      ∧ ∀ j ∈ db.incidents, j.id = i.id → j = i
  buckets : db.normalizedEvents.Pairwise fun n m => sameBucket n m = false

theorem count_map {α : Type} (f : α → String) (b : String) (l : List α) :
    (l.map f).count b = l.countP fun a => f a = b := by
  rw [List.count_eq_countP, List.countP_map]
  refine List.countP_congr fun a _ => ?_
  simp

theorem EventDB.eventsConserved {db : EventDB} (h : db.ledger.Conserved) : EventsConserved db where
  raw := by
    intro r hr
    have honce := h.once (List.mem_map_of_mem hr)
    simp only [EventDB.ledger, List.map_map] at honce
    rw [count_map, count_map] at honce
    have hone : db.normalizedEvents.countP (fun n => n.rawEventID = r.id)
        + db.duplicates.countP (fun d => d.rawEventID = r.id) = 1 := honce
    omega
  counted := by
    intro n hn
    have hcount := h.counted (List.mem_map_of_mem hn)
    rw [EventDB.ledger, List.countP_map] at hcount
    exact hcount.symm
  numbered := by
    intro n hn
    have hnum := h.numbered _ (List.mem_map_of_mem hn)
    rw [Ledger.numbers, EventDB.ledger, List.filter_map, List.map_map] at hnum
    exact hnum
  linked := by
    intro n hn
    obtain ⟨g, hg, hlinks⟩ := h.grouped_once (List.mem_map_of_mem hn)
    obtain ⟨i, hi, rfl⟩ := List.mem_map.mp hg
    exact ⟨i, hi, hlinks, fun j hj hid => Table.Keyed.eq_of_key h.groups hj hi hid⟩
  buckets := by
    have hkeys := h.keys
    rw [Keyed, EventDB.ledger, List.map_map, List.Nodup, List.pairwise_map] at hkeys
    refine hkeys.imp fun {n m} hne => ?_
    rw [← Bool.not_eq_true, sameBucket_iff]
    exact hne

/-- **Conservation of events.**  From tables without events, for every sequence
of `ProcessEvent` calls on arbitrary events, mixed with any other calls and
configuration changes: every call that commits adds the raw row of its event
and no other, and in every state the event tables account for every raw row
once, count and number the duplicates of every canonical event, link it to one
incident, and hold one canonical event per bucket. -/
theorem events_conserved (x : Bool) {db : EventDB} (hinit : db.NoEvents) (ops : List EventOp) :
    Along (EventDB.perform x) (EventDB.AddsOwnRaw x) ops db
      ∧ Throughout (EventDB.perform x) EventsConserved ops db := by
  have hstep : ∀ op (db : EventDB), db.ledger.Conserved → (db.perform x op).ledger.Conserved :=
    fun op db h => EventDB.conserved_perform x op db h
  constructor
  · exact along_of_invariant hstep (fun op db _ => EventDB.addsOwnRaw x op db) ops
      hinit.conserved
  · exact Throughout.imp (fun db h => EventDB.eventsConserved h) ops
      (throughout_of_invariant hstep ops hinit.conserved)

def mockDB : EventDB :=
  { pageDB with
    policies := []
    channels := [{ id := "c", tenantID := "t", channelKey := "local-mock", kind := "mock"
                   config := .null, enabled := true }] }

def deliveredTwice : List EventOp :=
  [.call (.processEvent pagePlatform 0 pageIDs pageEvent
      { dedupeWindow := 0, correlationWindow := 0 }),
    .call (.processEvent pagePlatform 1 { pageIDs with rawID := "raw2" } pageEvent
      { dedupeWindow := 0, correlationWindow := 0 })]

/-- The second delivery of an event is its first duplicate. -/
theorem events_conserved_twice :
    ((run (EventDB.perform true) deliveredTwice mockDB).duplicates.map fun d =>
        (d.canonicalEventID, d.rawEventID, d.duplicateNumber)) = [("event", "raw2", 1)]
      ∧ EventsConserved (run (EventDB.perform true) deliveredTwice mockDB) := by
  refine ⟨by decide +kernel, ?_⟩
  have hrun := (events_conserved true (show mockDB.NoEvents from ⟨rfl, rfl, rfl, rfl, rfl⟩)
    deliveredTwice).2
  exact throughout_iff.mp hrun deliveredTwice List.prefix_rfl

end StormRelay
