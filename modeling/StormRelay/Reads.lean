/-
Reading executions and incidents
(`internal/storage/executions.go`, `incidents.go`).

`GetExecution` joins an execution of the tenant with its runbook and lists its steps;
`GetIncident` returns an incident of the tenant with the counts of its events.  The two
queries of `GetExecution` do not share a transaction, so that they may see two states
of the tables.
-/
import StormRelay.Control
import StormRelay.Outbox

namespace StormRelay

/-! ### `GetExecution` -/

structure ExecutionDetails where
  row : Execution
  runbookKey : String
  runbookVersion : ℤ
  steps : List ExecutionStep := []

def executionRow (tenantID executionID : String) (db : DB) : Option ExecutionDetails := do
  let e ← ownedExecution tenantID executionID db
  let rv ← db.runbookVersions.find? fun rv => rv.id = e.runbookVersionID
  let r ← db.runbooks.find? fun r => r.id = rv.runbookID
  pure { row := e, runbookKey := r.runbookKey, runbookVersion := rv.version }

/-- `ORDER BY is_rollback,position`. -/
def listedBefore (a b : ExecutionStep) : Prop :=
  (a.isRollback = false ∧ b.isRollback = true)
    ∨ (a.isRollback = b.isRollback ∧ a.position ≤ b.position)

instance : DecidableRel listedBefore :=
  fun _ _ => inferInstanceAs (Decidable (_ ∨ _))

def executionSteps (executionID : String) (db : DB) : List ExecutionStep :=
  (db.steps.filter fun es => es.executionID = executionID).insertionSort listedBefore

/-- `GetExecution`; its second query sees the tables `later`. -/
def getExecution (tenantID executionID : String) (db later : DB) : Option ExecutionDetails :=
  (executionRow tenantID executionID db).map fun d =>
    { d with steps := executionSteps executionID later }

theorem executionRow_some {tenantID executionID : String} {db : DB} {d : ExecutionDetails}
    (h : executionRow tenantID executionID db = some d) :
    (d.row ∈ db.executions ∧ d.row.tenantID = tenantID ∧ d.row.id = executionID)
      ∧ ∃ rv ∈ db.runbookVersions, ∃ r ∈ db.runbooks, rv.id = d.row.runbookVersionID
        ∧ r.id = rv.runbookID ∧ d.runbookKey = r.runbookKey ∧ d.runbookVersion = rv.version := by
  simp only [executionRow, Option.bind_eq_bind, Option.bind_eq_some_iff] at h
  obtain ⟨e, he, rv, hrv, r, hr, hd⟩ := h
  obtain rfl := Option.some.inj hd
  have hkey := List.find?_some he
  simp only [Bool.and_eq_true, decide_eq_true_eq] at hkey
  exact ⟨⟨List.mem_of_find?_eq_some he, hkey⟩, rv, List.mem_of_find?_eq_some hrv, r,
    List.mem_of_find?_eq_some hr, by simpa using List.find?_some hrv,
    by simpa using List.find?_some hr, rfl, rfl⟩

theorem mem_executionSteps {executionID : String} {db : DB} {es : ExecutionStep} :
    es ∈ executionSteps executionID db ↔ es ∈ db.steps ∧ es.executionID = executionID := by
  rw [executionSteps, List.mem_insertionSort, List.mem_filter, decide_eq_true_eq]

/-! ### `GetIncident` -/

/-- An incident with the counts over its events; a row that is returned by an `UPDATE`
carries none. -/
structure IncidentDetails where
  row : Incident
  duplicateCount : ℕ := 0
  eventCount : ℕ := 0

def EventDB.eventsOf (db : EventDB) (incidentID : String) : List (Option NormalizedEvent) :=
  (db.incidentEvents.filter fun link => link.1 = incidentID).map fun link =>
    db.normalizedEvents.find? fun n => n.id = link.2

/-- `COALESCE(SUM(e.duplicate_count),0),COUNT(ie.event_id)` of an incident. -/
def EventDB.withCounts (db : EventDB) (i : Incident) : IncidentDetails :=
  { row := i
    duplicateCount :=
      ((db.eventsOf i.id).map fun n => (n.map NormalizedEvent.duplicateCount).getD 0).sum
    eventCount := (db.eventsOf i.id).length }

def getIncident (tenantID incidentID : String) (db : EventDB) : Option IncidentDetails :=
  (db.incidents.find? fun i => i.tenantID = tenantID && i.id = incidentID).map db.withCounts

theorem getIncident_some {tenantID incidentID : String} {db : EventDB} {d : IncidentDetails}
    (h : getIncident tenantID incidentID db = some d) :
    d.row ∈ db.incidents ∧ d.row.tenantID = tenantID ∧ d.row.id = incidentID := by
  obtain ⟨i, hi, rfl⟩ := Option.map_eq_some_iff.mp h
  have hkey : i.tenantID = tenantID ∧ i.id = incidentID := by
    simpa only [Bool.and_eq_true, decide_eq_true_eq] using List.find?_some hi
  exact ⟨List.mem_of_find?_eq_some hi, hkey⟩

end StormRelay
