/-
Incidents as cases.

A case is what the store knows about one incident: its row, the events linked
to it, and the moves recorded for it.

* `FileStep.case` — **for every incident, a step of the store opens its case, adds
  an event or a move to it, or keeps it**.
-/
import StormRelay.Conservation

namespace StormRelay

open Tx Table

/-! ### Cases -/

/-- An incident with its events and its moves: when each event linked to it was
received, and its severity; the state that each move left and the one it
entered. -/
structure Case where
  row : Incident
  events : List (Time × Severity)
  moves : List (Option IncidentState × IncidentState)

namespace Casefile

def gathered (f : Casefile) (incidentID : String) : List (Time × Severity) :=
  (f.normalized.filter fun n => f.links.contains (incidentID, n.id)).filterMap fun n =>
    (f.raw.find? fun r => r.id = n.rawEventID).map fun r => (r.receivedAt, n.severity)

def moves (f : Casefile) (incidentID : String) : List (Option IncidentState × IncidentState) :=
  (f.transitions.filter fun t => t.incidentID = incidentID).map fun t => (t.from_, t.to_)

def caseOf (f : Casefile) (i : Incident) : Case :=
  ⟨i, f.gathered i.id, f.moves i.id⟩

end Casefile

/-! ### What a step does to a case -/

/-- The step commits and attaches the event `e`, which is no duplicate, to the
open incident `i`. -/
inductive Joins (x : Bool) (db : EventDB) (i : Incident) (e : Events.Event) : EventOp → Prop
  | intro {pf : EventPlatform} {now : Time} {gen : Generated} {options : ProcessOptions}
      {tenantID : String} {res : ProcessResult} (htenant : pf.uuid e.tenantID = some tenantID)
      (hfound : foundIncident tenantID options e db = some i)
      (hcommit : (commit x (processEvent pf now gen e options) db).1 = .ok res)
      (hnew : res.duplicate = false) :
      Joins x db i e (.call (.processEvent pf now gen e options))

def Case.joined (c : Case) (now : Time) (e : Events.Event) : Case :=
  ⟨touchIncident now e (maxSeverity c.row.severity e.severity) c.row,
    c.events ++ [(e.receivedAt, e.severity)], c.moves⟩

def Case.moved (c : Case) (now : Time) (to_ : IncidentState) : Case :=
  ⟨transitionedRow now to_ c.row, c.events, c.moves ++ [(some c.row.state, to_)]⟩

inductive CaseChange (x : Bool) (db : EventDB) (op : EventOp) (c : Case) : Case → Prop
  | joined {now : Time} {e : Events.Event} (h : Joins x db c.row e op) :
      CaseChange x db op c (c.joined now e)
  | moved {now : Time} {to_ : IncidentState}
      (h : c.row.state.validateTransition to_ = .ok ()) : CaseChange x db op c (c.moved now to_)

inductive CaseOpened : Case → Prop
  | intro {now : Time} {gen : Generated} {tenantID : String} {e : Events.Event} :
      CaseOpened ⟨newIncident now gen tenantID (correlationKey e) e, [(e.receivedAt, e.severity)],
        [(none, .detected)]⟩

/-- The step commits and updates the row of the incident `id`: an event joins
it, or it moves. -/
def Writes (x : Bool) (id : String) : EventOp → EventDB → Bool
  | .call (.processEvent pf now gen e options), db =>
    match (commit x (StormRelay.processEvent pf now gen e options) db).1 with
    | .ok res => res.incident.any (fun i => i.id = id) && db.incidents.any fun i => i.id = id
    | .error _ => false
  | .call (.transitionIncident now transitionID input), db =>
    (commit x (StormRelay.transitionIncident now transitionID input) db).1.isOk
      && input.incidentID = id
  | .call (.acknowledgeByToken pf now transitionID rawToken requestID traceID), db =>
    (commit x (StormRelay.acknowledgeByToken pf now transitionID rawToken requestID traceID)
        db).1.isOk
      && (liveToken pf now rawToken db).any fun token =>
        token.incidentID = id
          && (db.incidents.find? fun i => i.id = id).any fun i => !decide (settledFor token i)
  | _, _ => false

/-- What a step from `db` that leads to the tables `f` does to the case of the
incident `i'` of `f`. -/
inductive CaseStep (x : Bool) (db : EventDB) (op : EventOp) (f : Casefile) (i' : Incident) : Prop
  | kept (hi : i' ∈ db.incidents) (hno : Writes x i'.id op db = false)
      (hcase : f.caseOf i' = db.casefile.caseOf i')
  | changed (i : Incident) (hi : i ∈ db.incidents) (hid : i'.id = i.id)
      (hyes : Writes x i.id op db = true)
      (hcase : CaseChange x db op (db.casefile.caseOf i) (f.caseOf i'))
  | opened (hnew : ∀ i ∈ db.incidents, i.id ≠ i'.id) (hcase : CaseOpened (f.caseOf i'))

/-! ### The tables a case is read from -/

/-- The event tables are conserved, and every transition is that of a stored
incident. -/
structure EventDB.Filed (db : EventDB) : Prop where
  conserved : db.ledger.Conserved
  transitions : ∀ t ∈ db.transitions, ∃ i ∈ db.incidents, i.id = t.incidentID

namespace EventDB.Filed

variable {db : EventDB}

theorem keyed (h : db.Filed) : Keyed Incident.id db.incidents :=
  h.conserved.groups

theorem backed (h : db.Filed) {n : NormalizedEvent} (hn : n ∈ db.normalizedEvents) :
    ∃ r ∈ db.rawEvents, r.id = n.rawEventID := by
  have hin : n.rawEventID ∈ db.ledger.items :=
    h.conserved.covered.subset (List.mem_append_left _
      (List.mem_map.mpr ⟨n.entry, List.mem_map_of_mem hn, rfl⟩))
  obtain ⟨r, hr, hid⟩ := List.mem_map.mp hin
  exact ⟨r, hr, hid⟩

theorem unused (h : db.Filed) {id : String} (hnew : ∀ i ∈ db.incidents, i.id ≠ id) :
    db.casefile.gathered id = [] ∧ db.casefile.moves id = [] := by
  constructor
  · have hnone : db.casefile.normalized.filter
        (fun n => db.casefile.links.contains (id, n.id)) = [] := by
      rw [List.filter_eq_nil_iff]
      intro n _ hlink
      have hlinked := List.contains_iff_mem.mp hlink
      obtain ⟨i, hi, hid⟩ := List.mem_map.mp (h.conserved.grouped _ hlinked)
      exact hnew i hi hid
    rw [Casefile.gathered, hnone, List.filterMap_nil]
  rw [Casefile.moves, List.map_eq_nil_iff, List.filter_eq_nil_iff]
  intro t ht hid
  obtain ⟨i, hi, hti⟩ := h.transitions t ht
  exact hnew i hi (hti.trans (of_decide_eq_true hid))

end EventDB.Filed

section Gathered

variable {f f' : Casefile} {r : RawEvent} {n : NormalizedEvent} {g : String}

theorem find?_raw_append {raw : List RawEvent} {id : String} (h : ∃ r' ∈ raw, r'.id = id)
    (r : RawEvent) :
    (raw ++ [r]).find? (fun r => r.id = id) = raw.find? fun r => r.id = id := by
  obtain ⟨r', hr', hid⟩ := h
  rw [List.find?_append]
  obtain ⟨y, hy⟩ : ∃ y, raw.find? (fun r => decide (r.id = id)) = some y := by
    rw [← Option.isSome_iff_exists, List.find?_isSome]
    exact ⟨r', hr', by simpa using hid⟩
  rw [hy]
  rfl

theorem gathered_enter (hraw : f'.raw = f.raw ++ [r]) (hnorm : f'.normalized = f.normalized ++ [n])
    (hlinks : f'.links = f.links ++ [(g, n.id)]) (hrow : n.rawEventID = r.id)
    (hfresh : ∀ r' ∈ f.raw, r'.id ≠ r.id) (hunlinked : ∀ p ∈ f.links, p.2 ≠ n.id)
    (hnew : ∀ m ∈ f.normalized, m.id ≠ n.id)
    (hbacked : ∀ m ∈ f.normalized, ∃ r' ∈ f.raw, r'.id = m.rawEventID) (id : String) :
    f'.gathered id
      = f.gathered id ++ if id = g then [(r.receivedAt, n.severity)] else [] := by
  -- The old events keep their links and their raw rows.
  have hold : (f.normalized.filter fun m => f'.links.contains (id, m.id)).filterMap
        (fun m => (f'.raw.find? fun r => r.id = m.rawEventID).map fun r =>
          (r.receivedAt, m.severity))
      = f.gathered id := by
    have hfilter : f.normalized.filter (fun m => f'.links.contains (id, m.id))
        = f.normalized.filter fun m => f.links.contains (id, m.id) := by
      refine List.filter_congr fun m hm => ?_
      have hne : (id, m.id) ≠ (g, n.id) := fun he => hnew m hm (Prod.mk.inj he).2
      simp [hlinks, hne]
    rw [hfilter, Casefile.gathered]
    refine List.filterMap_congr fun m hm => ?_
    rw [hraw, find?_raw_append (hbacked m (List.mem_of_mem_filter hm))]
  have hfound : f'.raw.find? (fun y => y.id = n.rawEventID) = some r := by
    rw [hraw, List.find?_append, List.find?_eq_none.mpr]
    · simp [hrow]
    · intro r' hr'
      simpa [hrow] using hfresh r' hr'
  have hlast : ([n].filter fun m => f'.links.contains (id, m.id)).filterMap
        (fun m => (f'.raw.find? fun r => r.id = m.rawEventID).map fun r =>
          (r.receivedAt, m.severity))
      = if id = g then [(r.receivedAt, n.severity)] else [] := by
    have hold' : (id, n.id) ∉ f.links := fun hin => hunlinked _ hin rfl
    by_cases hid : id = g
    · simp [hlinks, hid, hfound]
    · simp [hlinks, hid, hold']
  conv_lhs => rw [Casefile.gathered]
  rw [hnorm, List.filter_append, List.filterMap_append, hold, hlast]

theorem gathered_duplicate {p : NormalizedEvent → Bool} (hraw : f'.raw = f.raw ++ [r])
    (hnorm : f'.normalized = update p addDuplicate f.normalized) (hlinks : f'.links = f.links)
    (hbacked : ∀ m ∈ f.normalized, ∃ r' ∈ f.raw, r'.id = m.rawEventID) (id : String) :
    f'.gathered id = f.gathered id := by
  rw [Casefile.gathered, Casefile.gathered, hnorm, hlinks,
    filter_update (q := fun n => f.links.contains (id, n.id)) (f := addDuplicate) (fun _ => rfl),
    update, List.filterMap_map]
  refine List.filterMap_congr fun m hm => ?_
  have hitem : (patch p addDuplicate m).rawEventID = m.rawEventID :=
    patch_column NormalizedEvent.rawEventID rfl
  have hsev : (patch p addDuplicate m).severity = m.severity :=
    patch_column NormalizedEvent.severity rfl
  rw [Function.comp_apply, hitem, hsev, hraw,
    find?_raw_append (hbacked m (List.mem_of_mem_filter hm))]

theorem moves_append {t : IncidentTransition} (h : f'.transitions = f.transitions ++ [t])
    (id : String) :
    f'.moves id = f.moves id ++ if t.incidentID = id then [(t.from_, t.to_)] else [] := by
  rw [Casefile.moves, Casefile.moves, h, List.filter_append, List.map_append]
  by_cases hid : t.incidentID = id <;> simp [hid]

end Gathered

/-! ### What a step does to the tables -/

/-- The rows `r` and `n` are new and stand for the event `e`. -/
structure Entered (db : EventDB) (e : Events.Event) (r : RawEvent)
    (n : NormalizedEvent) : Prop where
  received : r.receivedAt = e.receivedAt
  severity : n.severity = e.severity
  row : n.rawEventID = r.id
  freshRaw : ∀ r' ∈ db.rawEvents, r'.id ≠ r.id
  fresh : ∀ m ∈ db.normalizedEvents, m.id ≠ n.id

/-- **Everything a step can do to the event and incident tables**, and whose row
it updates. -/
inductive FileStep (x : Bool) (db : EventDB) (op : EventOp) (f : Casefile) : Prop
  | kept (hno : ∀ id, Writes x id op db = false) (hfile : f = db.casefile)
  | duplicate {r : RawEvent} {p : NormalizedEvent → Bool} {duplicates : List EventDuplicate}
      (hno : ∀ id, Writes x id op db = false)
      (hfile : f = ⟨db.rawEvents ++ [r], update p addDuplicate db.normalizedEvents, duplicates,
        db.incidents, db.transitions, db.incidentEvents⟩)
  | opened {now : Time} {gen : Generated} {tenantID : String} {e : Events.Event} {r : RawEvent}
      {n : NormalizedEvent} (hno : ∀ id, Writes x id op db = false) (hentered : Entered db e r n)
      (hnew : ∀ i ∈ db.incidents, i.id ≠ gen.incidentID)
      (hfile : f = ⟨db.rawEvents ++ [r], db.normalizedEvents ++ [n], db.duplicates,
        db.incidents ++ [newIncident now gen tenantID (correlationKey e) e],
        db.transitions ++ [firstTransition gen tenantID e],
        db.incidentEvents ++ [(gen.incidentID, n.id)]⟩)
  | joined {now : Time} {e : Events.Event} {r : RawEvent} {n : NormalizedEvent} {i : Incident}
      (hwrites : ∀ id, Writes x id op db = decide (id = i.id)) (hentered : Entered db e r n)
      (hjoins : Joins x db i e op) (hi : i ∈ db.incidents) (hopen : i.state.isOpen = true)
      (hfile : f = ⟨db.rawEvents ++ [r], db.normalizedEvents ++ [n], db.duplicates,
        update (fun y => y.id = i.id && y.version = i.version)
          (touchIncident now e (maxSeverity i.severity e.severity)) db.incidents,
        db.transitions, db.incidentEvents ++ [(i.id, n.id)]⟩)
  | moved {now : Time} {i : Incident} {to_ : IncidentState} {t : IncidentTransition}
      (hwrites : ∀ id, Writes x id op db = decide (id = i.id)) (hi : i ∈ db.incidents)
      (hvalid : i.state.validateTransition to_ = .ok ()) (ht : RecordsMove t i to_)
      (hfile : f = movedFile now i.id to_ t db)

section FileSteps

variable {x : Bool} {db : EventDB}

theorem Accepted.entered {pf : EventPlatform} {gen : Generated} {e : Events.Event}
    {tenantID sourceID : String} {options : ProcessOptions}
    (haccepted : Accepted pf gen e tenantID sourceID db)
    (hcanonical : Canonical gen tenantID sourceID options e db) :
    Entered db e (rawEvent pf gen tenantID sourceID e)
      (canonicalRow gen tenantID sourceID options e) where
  received := rfl
  severity := rfl
  row := rfl
  freshRaw := fun r' hr' hid => haccepted.fresh (List.mem_map.mpr ⟨r', hr', hid⟩)
  fresh := hcanonical.fresh

theorem fileStep_processEvent (h : db.Filed) (pf : EventPlatform) (now : Time) (gen : Generated)
    (e : Events.Event) (options : ProcessOptions) :
    FileStep x db (.call (.processEvent pf now gen e options))
      (after x (processEvent pf now gen e options) db).casefile := by
  have hout := process_outcome x pf now gen e options db
  have hwrites : ∀ id, Writes x id (.call (.processEvent pf now gen e options)) db
      = match (commit x (processEvent pf now gen e options) db).1 with
        | .ok res => res.incident.any (fun i => i.id = id) && db.incidents.any fun i => i.id = id
        | .error _ => false := fun _ => rfl
  generalize after x (processEvent pf now gen e options) db = db' at hout ⊢
  generalize hanswer : (commit x (processEvent pf now gen e options) db).1 = answer at hout hwrites
  cases hout with
  | refused => exact .kept hwrites rfl
  | duplicate haccepted hm hsame hres hfile =>
    refine .duplicate (fun id => ?_) hfile
    simp only [hwrites, hres.2, Option.any_none, Bool.false_and]
  | @opened tenantID sourceID _ _ haccepted hcanonical hnone hnew hres hfile =>
    rw [attached_eq (unlinked_of_fresh h.conserved hcanonical.fresh)] at hfile
    refine .opened (fun id => ?_) (haccepted.entered hcanonical) hnew hfile
    simp only [hwrites, hres.2, Option.any_some, Bool.and_eq_false_iff, decide_eq_false_iff_not,
      List.any_eq_false, decide_eq_true_eq]
    by_cases hid : id = gen.incidentID
    · exact .inr fun i hi => hid ▸ hnew i hi
    · exact .inl fun he => hid he.symm
  | @joined tenantID sourceID i j _ _ haccepted hcanonical hfound hj hid hres hfile =>
    obtain ⟨hi, -, -, hopen, -⟩ := foundIncident_some hfound
    rw [attached_eq (unlinked_of_fresh h.conserved hcanonical.fresh)] at hfile
    refine .joined (fun id => ?_) (haccepted.entered hcanonical)
      (.intro haccepted.tenant hfound hanswer hres.1) hi hopen hfile
    simp only [hwrites, hres.2, Option.any_some]
    have hstored : (db.incidents.any fun y => y.id = i.id) = true :=
      List.any_eq_true.mpr ⟨i, hi, decide_eq_true rfl⟩
    by_cases he : id = i.id
    · subst he
      simp [hstored, touchIncident, hid]
    · simp [touchIncident, hid, he, Ne.symm he]

theorem fileStep_transitionIncident (now : Time) (transitionID : String) (input : TransitionInput) :
    FileStep x db (.call (.transitionIncident now transitionID input))
      (after x (transitionIncident now transitionID input) db).casefile := by
  have hout := transition_outcome x now transitionID input db
  have hwrites : ∀ id, Writes x id (.call (.transitionIncident now transitionID input)) db
      = ((commit x (transitionIncident now transitionID input) db).1.isOk
        && decide (input.incidentID = id)) := fun _ => rfl
  generalize after x (transitionIncident now transitionID input) db = db' at hout ⊢
  generalize (commit x (transitionIncident now transitionID input) db).1 = answer at hout hwrites
  cases hout with
  | refused => exact .kept (fun id => hwrites id) rfl
  | moved hi hid hvalid ht hfile =>
    rw [← hid] at hfile
    refine .moved (fun id => ?_) hi hvalid ht hfile
    rw [hwrites, ← hid]
    exact decide_eq_decide.mpr eq_comm

theorem fileStep_acknowledgeByToken (pf : EventPlatform) (now : Time)
    (transitionID rawToken requestID traceID : String) :
    FileStep x db (.call (.acknowledgeByToken pf now transitionID rawToken requestID traceID))
      (after x (acknowledgeByToken pf now transitionID rawToken requestID traceID) db).casefile
      := by
  have hout := acknowledge_outcome x pf now transitionID rawToken requestID traceID db
  have hwrites : ∀ id,
      Writes x id (.call (.acknowledgeByToken pf now transitionID rawToken requestID traceID)) db
      = ((commit x (acknowledgeByToken pf now transitionID rawToken requestID traceID) db).1.isOk
        && (liveToken pf now rawToken db).any fun token => decide (token.incidentID = id)
          && (db.incidents.find? fun i => i.id = id).any fun i => !decide (settledFor token i)) :=
    fun _ => rfl
  generalize after x (acknowledgeByToken pf now transitionID rawToken requestID traceID) db = db'
    at hout ⊢
  generalize (commit x (acknowledgeByToken pf now transitionID rawToken requestID traceID) db).1
    = answer at hout hwrites
  cases hout with
  | refused => exact .kept (fun id => hwrites id) rfl
  | @settled token i htoken hi hdone =>
    refine .kept (fun id => ?_) rfl
    by_cases hid : token.incidentID = id
    · subst hid
      simp [hwrites, htoken, hi, hdone]
    · simp [hwrites, htoken, hid]
  | @acknowledged token i answer t _ htoken hi hdue hvalid ht hfile =>
    have hid : i.id = token.incidentID := by simpa using List.find?_some hi
    rw [← hid] at hfile
    refine .moved (fun id => ?_) (List.mem_of_find?_eq_some hi) hvalid ht hfile
    by_cases he : id = i.id
    · subst he
      rw [← hid] at hi
      simp [hwrites, htoken, hid.symm, hi, hdue, Except.isOk, Except.toBool]
    · have hne : token.incidentID ≠ id := fun ht => he (ht.symm.trans hid.symm)
      simp [hwrites, htoken, hne, he]

/-- **Everything a step of the store can do to the event and incident tables.** -/
theorem fileStep_perform (h : db.Filed) (x : Bool) (op : EventOp) :
    FileStep x db op (db.perform x op).casefile := by
  cases op with
  | configure config => exact .kept (fun _ => rfl) rfl
  | call call =>
    cases call with
    | processEvent pf now gen e options => exact fileStep_processEvent h pf now gen e options
    | claimDeliveries pf now locked limit =>
      exact .kept (fun _ => rfl)
        ((keeps_claimDeliveries casefile_ignoresDeliveries pf now locked limit).after x db)
    | completeDelivery now deliveryID providerRef deliveryErr =>
      exact .kept (fun _ => rfl)
        ((keeps_completeDelivery casefile_ignoresDeliveries casefile_ignoresAudit now deliveryID
          providerRef deliveryErr).after x db)
    | transitionIncident now transitionID input =>
      exact fileStep_transitionIncident now transitionID input
    | acknowledgeByToken pf now transitionID rawToken requestID traceID =>
      exact fileStep_acknowledgeByToken pf now transitionID rawToken requestID traceID
    | recordAudit entry =>
      exact .kept (fun _ => rfl) ((keeps_auditEvent casefile_ignoresAudit entry).after x db)

end FileSteps

section Steps

variable {x : Bool} {db : EventDB} {op : EventOp} {f : Casefile}

theorem FileStep.persists (h : FileStep x db op f) {i : Incident} (hi : i ∈ db.incidents) :
    ∃ i' ∈ f.incidents, i'.id = i.id := by
  have hupdate : ∀ (p : Incident → Bool) (g : Incident → Incident), (g i).id = i.id →
      ∃ i' ∈ update p g db.incidents, i'.id = i.id :=
    fun p g hg => ⟨patch p g i, mem_update_of_mem hi, patch_column Incident.id hg⟩
  cases h with
  | kept hno hfile | duplicate hno hfile =>
    subst hfile
    exact ⟨i, hi, rfl⟩
  | opened hno hentered hnew hfile =>
    subst hfile
    exact ⟨i, List.mem_append_left _ hi, rfl⟩
  | joined hwrites hentered hjoins hstored hopen hfile | moved hwrites hstored hvalid ht hfile =>
    subst hfile
    exact hupdate _ _ rfl

theorem FileStep.transitions (h : FileStep x db op f) {t : IncidentTransition}
    (ht : t ∈ f.transitions) :
    t ∈ db.transitions ∨ ∃ i ∈ f.incidents, i.id = t.incidentID := by
  have hpersists := fun i (hi : i ∈ db.incidents) => h.persists hi
  cases h with
  | kept hno hfile | duplicate hno hfile | joined hwrites hentered hjoins hi hopen hfile =>
    subst hfile
    exact .inl ht
  | opened hno hentered hnew hfile =>
    subst hfile
    rcases List.mem_append.mp ht with ht | ht
    · exact .inl ht
    · rw [List.mem_singleton.mp ht]
      exact .inr ⟨_, List.mem_append_right _ (List.mem_singleton.mpr rfl), rfl⟩
  | moved hwrites hi hvalid hrecords hfile =>
    subst hfile
    rcases List.mem_append.mp ht with ht | ht
    · exact .inl ht
    · rw [List.mem_singleton.mp ht, hrecords.incident]
      exact .inr (hpersists _ hi)

/-- **Every step keeps the tables filed.** -/
theorem EventDB.Filed.perform (h : db.Filed) (x : Bool) (op : EventOp) :
    (db.perform x op).Filed where
  conserved := EventDB.conserved_perform x op db h.conserved
  transitions := by
    intro t ht
    have hstep := fileStep_perform h x op
    rcases hstep.transitions ht with hold | hnew
    · obtain ⟨i, hi, hid⟩ := h.transitions t hold
      obtain ⟨i', hi', hid'⟩ := hstep.persists hi
      exact ⟨i', hi', hid'.trans hid⟩
    · exact hnew

theorem Entered.gathered {e : Events.Event} {r : RawEvent} {n : NormalizedEvent} {g : String}
    (h : Entered db e r n) (hf : db.Filed) (hraw : f.raw = db.rawEvents ++ [r])
    (hnorm : f.normalized = db.normalizedEvents ++ [n])
    (hlinks : f.links = db.incidentEvents ++ [(g, n.id)]) (id : String) :
    f.gathered id
      = db.casefile.gathered id ++ if id = g then [(e.receivedAt, e.severity)] else [] := by
  rw [← h.received, ← h.severity]
  exact gathered_enter hraw hnorm hlinks h.row h.freshRaw (unlinked_of_fresh hf.conserved h.fresh)
    h.fresh (fun m hm => hf.backed hm) id

theorem FileStep.caseOf_joined {now : Time} {e : Events.Event} {r : RawEvent} {n : NormalizedEvent}
    {i : Incident} (hf : db.Filed) (hentered : Entered db e r n)
    (hfile : f = ⟨db.rawEvents ++ [r], db.normalizedEvents ++ [n], db.duplicates,
        update (fun y => y.id = i.id && y.version = i.version)
          (touchIncident now e (maxSeverity i.severity e.severity)) db.incidents,
        db.transitions, db.incidentEvents ++ [(i.id, n.id)]⟩) :
    f.caseOf (touchIncident now e (maxSeverity i.severity e.severity) i)
      = (db.casefile.caseOf i).joined now e := by
  have hgathered := hentered.gathered hf (congrArg Casefile.raw hfile)
    (congrArg Casefile.normalized hfile) (congrArg Casefile.links hfile) i.id
  rw [if_pos rfl] at hgathered
  have hmoves : f.moves i.id = db.casefile.moves i.id := by
    rw [hfile]
    rfl
  exact congrArg₂ (Case.mk _) hgathered hmoves

/-- **What a step does to the case of every incident.** -/
theorem FileStep.case (h : FileStep x db op f) (hf : db.Filed) {i' : Incident}
    (hi' : i' ∈ f.incidents) : CaseStep x db op f i' := by
  cases h with
  | kept hno hfile =>
    subst hfile
    exact .kept hi' (hno _) rfl
  | duplicate hno hfile =>
    have hlinks : f.links = db.incidentEvents := congrArg Casefile.links hfile
    have hgathered := gathered_duplicate (f := db.casefile) (congrArg Casefile.raw hfile)
      (congrArg Casefile.normalized hfile) hlinks (fun m hm => hf.backed hm) i'.id
    subst hfile
    exact .kept hi' (hno _) (congrArg₂ (Case.mk i') hgathered rfl)
  | @opened now gen tenantID e r n hno hentered hnew hfile =>
    have hgathered := hentered.gathered hf (congrArg Casefile.raw hfile)
      (congrArg Casefile.normalized hfile) (congrArg Casefile.links hfile)
    have hmoves := moves_append (f := db.casefile) (congrArg Casefile.transitions hfile)
    rcases List.mem_append.mp (hfile ▸ hi' : i' ∈ db.incidents ++ _) with hi | hi
    · -- The incidents stored before have no part in it.
      have hsame : f.gathered i'.id = db.casefile.gathered i'.id := by
        rw [hgathered, if_neg (hnew i' hi), List.append_nil]
      have hstill : f.moves i'.id = db.casefile.moves i'.id := by
        rw [hmoves, if_neg fun hid => hnew i' hi hid.symm, List.append_nil]
      exact .kept hi (hno _) (congrArg₂ (Case.mk i') hsame hstill)
    obtain rfl := List.mem_singleton.mp hi
    obtain ⟨hnone, hstill⟩ := hf.unused hnew
    have hone : f.gathered gen.incidentID = [(e.receivedAt, e.severity)] := by
      rw [hgathered, if_pos rfl, hnone]
      rfl
    have hfirst : f.moves gen.incidentID = [(none, .detected)] := by
      rw [hmoves, hstill, List.nil_append]
      exact if_pos rfl
    have hcase : f.caseOf (newIncident now gen tenantID (correlationKey e) e)
        = ⟨_, [(e.receivedAt, e.severity)], [(none, .detected)]⟩ :=
      congrArg₂ (Case.mk _) hone hfirst
    exact .opened hnew (hcase ▸ .intro)
  | @joined now e r n i hwrites hentered hjoins hi hopen hfile =>
    rcases hf.keyed.mem_update_cases hi (by simp) (fun y hy => by simp at hy; exact hy.1)
      (hfile ▸ hi' : i' ∈ update _ _ db.incidents) with rfl | ⟨hi', hne⟩
    · refine .changed i hi rfl ((hwrites _).trans (decide_eq_true rfl)) ?_
      rw [FileStep.caseOf_joined hf hentered hfile]
      exact .joined hjoins
    have hgathered := hentered.gathered hf (congrArg Casefile.raw hfile)
      (congrArg Casefile.normalized hfile) (congrArg Casefile.links hfile) i'.id
    rw [if_neg hne, List.append_nil] at hgathered
    have hmoves : f.moves i'.id = db.casefile.moves i'.id := by
      rw [hfile]
      rfl
    exact .kept hi' ((hwrites _).trans (decide_eq_false hne))
      (congrArg₂ (Case.mk i') hgathered hmoves)
  | @moved now i to_ t hwrites hi hvalid ht hfile =>
    have hgathered : f.gathered i'.id = db.casefile.gathered i'.id := by
      rw [hfile]
      rfl
    have hmoves := moves_append (f := db.casefile) (congrArg Casefile.transitions hfile) i'.id
    rw [ht.incident, ht.origin, ht.target] at hmoves
    rcases hf.keyed.mem_update_cases hi (by simp) (fun y hy => by simpa using hy)
      (hfile ▸ hi' : i' ∈ update _ _ db.incidents) with rfl | ⟨hi', hne⟩
    · rw [if_pos (show i.id = (transitionedRow now to_ i).id from rfl)] at hmoves
      have hcase : f.caseOf (transitionedRow now to_ i) = (db.casefile.caseOf i).moved now to_ :=
        congrArg₂ (Case.mk _) hgathered hmoves
      refine .changed i hi rfl ((hwrites _).trans (decide_eq_true rfl)) ?_
      rw [hcase]
      exact .moved hvalid
    · rw [if_neg fun hid => hne hid.symm, List.append_nil] at hmoves
      exact .kept hi' ((hwrites _).trans (decide_eq_false hne))
        (congrArg₂ (Case.mk i') hgathered hmoves)

theorem FileStep.writes_absent (h : FileStep x db op f) {id : String}
    (habsent : ∀ i ∈ db.incidents, i.id ≠ id) : Writes x id op db = false := by
  cases h with
  | kept hno hfile | duplicate hno hfile | opened hno hentered hnew hfile => exact hno id
  | joined hwrites hentered hjoins hi hopen hfile | moved hwrites hi hvalid ht hfile =>
    rw [hwrites]
    exact decide_eq_false fun hid => habsent _ hi hid.symm

end Steps

/-! ### Invariants of cases -/

/-- Every incident's case has the property `P`. -/
structure EveryCase (P : Case → Prop) (db : EventDB) : Prop where
  filed : db.Filed
  holds : ∀ i ∈ db.incidents, P (db.casefile.caseOf i)

section Invariants

variable {P : Case → Prop} {x : Bool} {db : EventDB} {op : EventOp}

/-- **The invariant rule of cases**: what a new case has and a change of a case
keeps holds of every case after a step. -/
theorem EveryCase.perform (h : EveryCase P db) (hopened : ∀ c, CaseOpened c → P c)
    (hchange : ∀ i ∈ db.incidents, ∀ c', P (db.casefile.caseOf i) →
      CaseChange x db op (db.casefile.caseOf i) c' → P c') :
    EveryCase P (db.perform x op) where
  filed := h.filed.perform x op
  holds := by
    intro i' hi'
    cases (fileStep_perform h.filed x op).case h.filed hi' with
    | kept hi hno hcase => exact hcase ▸ h.holds i' hi
    | changed i hi hid hyes hcase => exact hchange i hi _ (h.holds i hi) hcase
    | opened hnew hcase => exact hopened _ hcase

end Invariants

end StormRelay
