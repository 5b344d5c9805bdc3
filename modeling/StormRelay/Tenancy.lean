/-
Tenants share the tables.

Executions, approvals and incidents carry the identifier of their tenant; steps belong
to the tenant of their execution, versions to that of their runbook.  Several statements
find their row by its identifier alone, after a check on another table.

* `Store.Owned`, `owned_of_reachable` — **every reference stays within a tenant**: the
  runbook version and the incident of an execution, the step of an approval, the
  execution of a claim, the events of an incident.
-/
import StormRelay.Versions
import StormRelay.IncidentLife
import StormRelay.Ownership
import StormRelay.Reads

namespace StormRelay

open Tx Table Ownership

/-! ### Whose row it is -/

namespace DB

def OwnsExecution (db : DB) (tenantID id : String) : Prop :=
  Owns Execution.id Execution.tenantID db.executions tenantID id

def OwnsStep (db : DB) (tenantID id : String) : Prop :=
  Through ExecutionStep.id ExecutionStep.executionID db.steps (db.OwnsExecution tenantID) id

def OwnsRunbook (db : DB) (tenantID id : String) : Prop :=
  Owns Runbook.id Runbook.tenantID db.runbooks tenantID id

def OwnsVersion (db : DB) (tenantID id : String) : Prop :=
  Through RunbookVersion.id RunbookVersion.runbookID db.runbookVersions (db.OwnsRunbook tenantID) id

def stepOwner (db : DB) (r : ExecutionStep) : Option String :=
  (db.execution? r.executionID).map Execution.tenantID

theorem stepOwner_eq {db : DB} (hk : Keyed Execution.id db.executions) {tenantID : String}
    {r : ExecutionStep} (h : db.OwnsExecution tenantID r.executionID) :
    db.stepOwner r = some tenantID := by
  obtain ⟨e, he, hid, rfl⟩ := h
  rw [stepOwner, execution?, ← hid, hk.find?_eq he]
  rfl

end DB

def Casefile.OwnsIncident (f : Casefile) (tenantID id : String) : Prop :=
  Owns Incident.id Incident.tenantID f.incidents tenantID id

def Casefile.OwnsEvent (f : Casefile) (tenantID id : String) : Prop :=
  Owns NormalizedEvent.id NormalizedEvent.tenantID f.normalized tenantID id

def Casefile.LinksOwned (f : Casefile) : Prop :=
  ∀ link ∈ f.links, ∃ tenantID, f.OwnsIncident tenantID link.1 ∧ f.OwnsEvent tenantID link.2

/-! ### The definition tables under the operations on executions -/

/-- The tables that `StartExecution` reads. -/
def DB.catalog (db : DB) : List Runbook × List RunbookVersion × List IncidentRecord :=
  (db.runbooks, db.runbookVersions, db.incidents)

section Catalog

@[grind ←] theorem catalog_updateSteps (p : ExecutionStep → Bool)
    (f : ExecutionStep → ExecutionStep) : Keeps DB.catalog (exec (DB.updateSteps p f)) :=
  keeps_exec fun _ => rfl

@[grind ←] theorem catalog_updateExecutions (p : Execution → Bool) (f : Execution → Execution) :
    Keeps DB.catalog (exec (DB.updateExecutions p f)) :=
  keeps_exec fun _ => rfl

@[grind ←] theorem catalog_updateApprovals (p : Approval → Bool) (f : Approval → Approval) :
    Keeps DB.catalog (exec (DB.updateApprovals p f)) :=
  keeps_exec fun _ => rfl

@[grind ←] theorem catalog_appendAudit (entry : AuditEntry) :
    Keeps DB.catalog (appendAudit entry) :=
  keeps_bind (keeps_exec fun _ => rfl) fun _ => keeps_pure _

@[grind ←] theorem catalog_insertStep (es : ExecutionStep) :
    Keeps DB.catalog (insert (DB.insertStep es)) := by
  refine keeps_insert fun db db' h => ?_
  rw [DB.insertStep] at h
  split at h
  · cases h
  · rw [← Except.ok.inj h]
    rfl

@[grind ←] theorem catalog_insertExecution (e : Execution) :
    Keeps DB.catalog (insert (DB.insertExecution e)) := by
  refine keeps_insert fun db db' h => ?_
  rw [DB.insertExecution] at h
  split at h
  · cases h
  · rw [← Except.ok.inj h]
    rfl

@[grind ←] theorem catalog_insertApproval (a : Approval) :
    Keeps DB.catalog (statement (DB.insertApproval a)) := by
  refine keeps_statement fun db out db' h => ?_
  obtain ⟨-, -, rfl⟩ | ⟨-, -, -, rfl⟩ := insertApproval_cases h <;> rfl

@[grind ←] theorem catalog_bindText (value : Option String) :
    Keeps DB.catalog (bindText value) := by
  cases value <;> grind [bindText]

@[grind ←] theorem catalog_bindJSON (value : Option Json) : Keeps DB.catalog (bindJSON value) := by
  grind [bindJSON]

@[grind ←] theorem catalog_liftError {α : Type} (r : Except String α) :
    Keeps DB.catalog (liftError r) := by
  cases r with
  | ok a => exact keeps_pure a
  | error message => exact keeps_fail message

@[grind ←] theorem catalog_finalize (now : Time) (executionID : String) :
    Keeps DB.catalog (finalizeExecutionIfDone now executionID) := by
  grind [finalizeExecutionIfDone]

@[grind ←] theorem catalog_updateLeased (stepID workerID : String)
    (f : ExecutionStep → ExecutionStep) : Keeps DB.catalog (updateLeased stepID workerID f) := by
  grind [updateLeased]

theorem catalog_recover (now : Time) (locked order : List String) (actor : String) :
    Keeps DB.catalog (recoverExpiredStepLeases now locked order actor) := by
  refine keeps_bind (keeps_query _) fun rows => ?_
  grind

theorem catalog_advance (now : Time) (locked : List String) (actor : String) :
    Keeps DB.catalog (advanceRunbookTimers now locked actor) := by
  refine keeps_bind (keeps_queryUpdate fun _ => rfl) fun rows => keeps_bind (keeps_scanAll _)
    fun items => keeps_bind keeps_close fun _ => keeps_bind (by grind) fun _ =>
    keeps_bind (keeps_query _) fun expired => ?_
  grind

theorem catalog_insertForwardSteps (pf : Platform) (now : Time) (doc : Document)
    (executionID : String) (position : ℕ) (steps : List Step) (ids : List String) :
    Keeps DB.catalog (insertForwardSteps pf now doc executionID position steps ids) := by
  induction steps generalizing position ids with
  | nil => cases ids <;> exact keeps_pure ()
  | cons step steps ih =>
    cases ids with
    | nil => exact keeps_fail _
    | cons stepID ids => grind [insertForwardSteps]

theorem catalog_insertRollbackSteps (now : Time) (executionID : String) (position : ℕ)
    (sources : List (ExecutionStep × Action)) (ids : List String) :
    Keeps DB.catalog (insertRollbackSteps now executionID position sources ids) := by
  induction sources generalizing position ids with
  | nil => cases ids <;> exact keeps_pure ()
  | cons source sources ih =>
    cases ids with
    | nil => exact keeps_fail _
    | cons rollbackID ids => grind [insertRollbackSteps]

theorem catalog_openApproval (now : Time) (approvalID : String) (step : ClaimedStep)
    (workerID prompt : String) (expiresAt : Option Time) :
    Keeps DB.catalog (openApproval now approvalID step workerID prompt expiresAt) := by
  grind [openApproval]

theorem catalog_complete (pf : Platform) (now : Time) (step : ClaimedStep) (workerID : String)
    (status : StepStatus) (output : Option Json) (executionErr : Option String) :
    Keeps DB.catalog
      (completeExecutionStep pf now step workerID status output executionErr) := by
  cases executionErr <;> grind [completeExecutionStep]

theorem catalog_changeState (now : Time) (tenantID executionID : String) (action : ControlAction)
    (actor requestID traceID : String) :
    Keeps DB.catalog
      (changeExecutionState now tenantID executionID action actor requestID traceID) := by
  cases action <;> grind [changeExecutionState]

theorem catalog_rollback (now : Time) (ids : List String)
    (tenantID executionID actor requestID traceID : String) :
    Keeps DB.catalog
      (startExecutionRollback now ids tenantID executionID actor requestID traceID) := by
  refine keeps_bind (keeps_queryRow _) fun e => ?_
  split
  · exact keeps_fail _
  refine keeps_bind (keeps_queryRow _) fun existingRollback => ?_
  split
  · exact keeps_fail _
  refine keeps_bind (keeps_query _) fun rows => ?_
  grind [catalog_insertRollbackSteps]

theorem catalog_start (pf : Platform) (now : Time) (executionID : String) (ids : List String)
    (input : StartExecutionInput) :
    Keeps DB.catalog (startExecution pf now executionID ids input) := by
  grind [startExecution, catalog_insertForwardSteps]

theorem catalog_commitFor {env : Env} {s : Sys} {α : Type} {n : ℕ}
    {body : String → ClaimedStep → Tx DB α} (h : ∀ workerID c, Keeps DB.catalog (body workerID c)) :
    (s.commitFor env n body).db.catalog = s.db.catalog := by
  rw [Sys.commitFor]
  split
  · exact (h _ _).after env.exclusive s.db
  · rfl

def Op.isCatalog : Op → Bool
  | .catalog _ _ _ => true
  | _ => false

/-- **No operation on executions writes the definition tables.** -/
theorem catalog_perform (env : Env) (s : Sys) {op : Op} (hop : op.isCatalog = false) :
    (Sys.perform env op s).db.catalog = s.db.catalog := by
  cases op with
  | tick elapsed => rfl
  | catalog runbooks versions incidents => cases hop
  | startExecution executionID ids input => exact (catalog_start _ _ _ _ _).after _ _
  | claim locked workerID limit lease lost =>
    rw [perform_claim_db]
    rfl
  | recover locked order actor => exact (catalog_recover _ _ _ _).after _ _
  | advance locked actor => exact (catalog_advance _ _ _).after _ _
  | scheduleWait n until_ => exact catalog_commitFor fun _ _ => by grind [scheduleWait]
  | openApproval n approvalID prompt expiresAt =>
    exact catalog_commitFor fun _ _ => catalog_openApproval _ _ _ _ _ _
  | complete n status output executionErr =>
    exact catalog_commitFor fun _ _ => catalog_complete _ _ _ _ _ _ _
  | markAmbiguous n executionErr =>
    exact catalog_commitFor fun _ _ => by grind [markExecutionStepAmbiguous]
  | changeState tenantID executionID action actor requestID traceID =>
    exact (catalog_changeState _ _ _ _ _ _ _).after _ _
  | decide tenantID approvalID decision actor reason requestID traceID =>
    have hkeeps : Keeps DB.catalog
        (decideApproval s.now tenantID approvalID decision actor reason requestID traceID) := by
      grind [decideApproval]
    exact hkeeps.after _ _
  | retry tenantID executionID stepID actor requestID traceID force =>
    have hkeeps : Keeps DB.catalog
        (retryExecutionStep s.now tenantID executionID stepID actor requestID traceID force) := by
      grind [retryExecutionStep]
    exact hkeeps.after _ _
  | rollback ids tenantID executionID actor requestID traceID =>
    exact (catalog_rollback _ _ _ _ _ _ _).after _ _

end Catalog

/-! ### Executions, steps and claims keep their tenant -/

section Runs

variable {env : Env} {s : Sys} {op : Op} {db' : DB} {tenantID id : String}

theorem ExecutionKept.tenant_eq {e e' : Execution} (h : ExecutionKept e e') :
    e'.tenantID = e.tenantID := by
  have htenant := congrArg Execution.tenantID h.definition
  exact htenant

theorem Effect.ownsExecution (h : Effect s op db') (ho : s.db.OwnsExecution tenantID id) :
    db'.OwnsExecution tenantID id := by
  obtain ⟨kept, new, heq, hkept, -⟩ := h.executions
  obtain ⟨e, he, rfl, rfl⟩ := ho
  obtain ⟨e', he', hk⟩ := hkept.exists_mem he
  exact ⟨e', heq ▸ List.mem_append_left _ he', hk.id, hk.tenant_eq⟩

theorem Effect.ownsStep (h : Effect s op db') (ho : s.db.OwnsStep tenantID id) :
    db'.OwnsStep tenantID id := by
  obtain ⟨r, hr, rfl, hown⟩ := ho
  obtain ⟨r', hr', hch⟩ := h.rows.next hr
  have hdef : r'.definition = r.definition := hch.elim (fun he => he ▸ rfl) StepChange.definition
  refine ⟨r', hr', column_of_definition ExecutionStep.id (fun _ => rfl) hdef, ?_⟩
  rw [column_of_definition ExecutionStep.executionID (fun _ => rfl) hdef]
  exact h.ownsExecution hown

theorem ApprovalChange.tenant_eq {a a' : Approval} (h : ApprovalChange s op a a') :
    a'.tenantID = a.tenantID := by
  cases h <;> rfl

theorem ClaimValid.ownsStep {db : DB} {workerID : String} {c : ClaimedStep}
    (h : ClaimValid db workerID c) (ho : db.OwnsExecution tenantID c.step.executionID) :
    db.OwnsStep tenantID c.step.id := by
  obtain ⟨r, hr, hdef, -, -⟩ := h.row
  refine ⟨r, hr, column_of_definition ExecutionStep.id (fun _ => rfl) hdef, ?_⟩
  rw [column_of_definition ExecutionStep.executionID (fun _ => rfl) hdef]
  exact ho

/-- **Where an execution comes from**: it was stored with the same tenant, version and
incident, or `StartExecution` has just found a version and an incident for it. -/
theorem executions_perform (env : Env) (hi : s.Inv) (op : Op) {e' : Execution}
    (he' : e' ∈ (Sys.perform env op s).db.executions) :
    (∃ e ∈ s.db.executions, e'.definition = e.definition)
      ∨ ∃ executionID rv incident input,
        (∃ r, activeRunbook input.tenantID input.runbookKey s.db = some (r, rv))
        ∧ incidentJSON input s.db = some incident
        ∧ e' = newExecution s.now executionID rv incident input := by
  by_cases hop : ∃ executionID ids input, op = .startExecution executionID ids input
  · obtain ⟨executionID, ids, input, rfl⟩ := hop
    simp only [Sys.perform, Sys.commit] at he'
    obtain h | ⟨rv, doc, incident, rows, entry, ⟨hrv, hincident⟩, -, -, -, -, hafter⟩ :=
      start_cases env.exclusive s.db s.now env.platform executionID ids input
    · rw [h] at he'
      exact .inl ⟨e', he', rfl⟩
    rw [hafter] at he'
    rcases List.mem_append.mp he' with hold | hnew
    · exact .inl ⟨e', hold, rfl⟩
    · exact .inr ⟨executionID, rv, incident, input, hrv, hincident, List.mem_singleton.mp hnew⟩
  have hkept := (kept_perform env hi fun executionID ids input he =>
    hop ⟨executionID, ids, input, he⟩).kept
  obtain ⟨k, heq, hk⟩ := hkept
  rw [heq] at he'
  obtain ⟨e, he, rfl⟩ := List.mem_map.mp he'
  exact .inl ⟨e, he, (hk e).definition⟩

theorem Sys.Inv.of_tables {s' : Sys} (h : s.Inv) (hexec : s'.db.executions = s.db.executions)
    (hsteps : s'.db.steps = s.db.steps) (happr : s'.db.approvals = s.db.approvals)
    (hissued : s'.issued = s.issued) : s'.Inv := by
  obtain ⟨⟨h₁, h₂, h₃, h₄, h₅, h₆, h₇, h₈, h₉⟩, hclaims⟩ := h
  refine ⟨⟨?_, ?_, ?_, ?_, ?_, ?_, ?_, ?_, ?_⟩, fun w hw => ?_⟩
  all_goals try simp only [hexec, hsteps, happr]
  all_goals try assumption
  rw [hissued] at hw
  obtain ⟨ho, hrow, hexecution⟩ := hclaims w hw
  exact ⟨ho, by rwa [hsteps], by rwa [hexec]⟩

end Runs

/-! ### Events and incidents keep their tenant -/

section Events

variable {x : Bool} {db : EventDB} {op : EventOp} {f : Casefile} {tenantID id : String}

theorem FileStep.ownsIncident (h : FileStep x db op f)
    (ho : db.casefile.OwnsIncident tenantID id) : f.OwnsIncident tenantID id := by
  cases h with
  | kept hno hfile | duplicate hno hfile => exact hfile ▸ ho
  | opened hno hentered hnew hfile =>
    subst hfile
    exact Owns.append ho
  | joined hwrites hentered hjoins hi hopen hfile | moved hwrites hi hvalid ht hfile =>
    subst hfile
    exact ho.map fun r _ => ⟨patch_column Incident.id rfl, patch_column Incident.tenantID rfl⟩

theorem mem_attached {links : List (String × String)} {incidentID eventID : String}
    {link : String × String} (h : link ∈ attached links incidentID eventID) :
    link ∈ links ∨ link = (incidentID, eventID) := by
  rw [attached] at h
  split at h
  · exact .inl h
  · exact (List.mem_append.mp h).imp_right List.mem_singleton.mp

theorem linksOwned_moved (h : db.casefile.LinksOwned) (now : Time) (to_ : IncidentState)
    (t : IncidentTransition) : (movedFile now id to_ t db).LinksOwned := by
  intro link hlink
  obtain ⟨tenantID, hincident, hevent⟩ := h link hlink
  exact ⟨tenantID, Owns.map
    (fun r _ => ⟨patch_column Incident.id rfl, patch_column Incident.tenantID rfl⟩) hincident,
    hevent⟩

/-- **Correlation links an event to an incident of its tenant.** -/
theorem linksOwned_processEvent (h : db.casefile.LinksOwned) (pf : EventPlatform) (now : Time)
    (gen : Generated) (e : Events.Event) (options : ProcessOptions) :
    (after x (processEvent pf now gen e options) db).casefile.LinksOwned := by
  have hout := process_outcome x pf now gen e options db
  generalize after x (processEvent pf now gen e options) db = db' at hout ⊢
  generalize (commit x (processEvent pf now gen e options) db).1 = answer at hout
  cases hout with
  | refused => exact h
  | duplicate haccepted hm hsame hres hfile =>
    rw [hfile]
    intro link hlink
    obtain ⟨tenantID, hincident, hevent⟩ := h link hlink
    exact ⟨tenantID, hincident, Owns.map (fun r _ =>
      ⟨patch_column NormalizedEvent.id rfl, patch_column NormalizedEvent.tenantID rfl⟩) hevent⟩
  | @opened tenantID sourceID _ _ haccepted hcanonical hnone hnew hres hfile =>
    rw [hfile]
    intro link hlink
    rcases mem_attached hlink with hold | rfl
    · obtain ⟨tenantID, hincident, hevent⟩ := h link hold
      exact ⟨tenantID, Owns.append hincident, Owns.append hevent⟩
    · exact ⟨tenantID, ⟨_, List.mem_append_right _ (List.mem_singleton.mpr rfl), rfl, rfl⟩,
        _, List.mem_append_right _ (List.mem_singleton.mpr rfl), rfl, rfl⟩
  | @joined tenantID sourceID i j _ _ haccepted hcanonical hfound hj hid hres hfile =>
    obtain ⟨hi, htenant, -⟩ := foundIncident_some hfound
    have hmap : ∀ {tenantID id : String}, db.casefile.OwnsIncident tenantID id → Owns Incident.id
        Incident.tenantID (update (fun y => y.id = i.id && y.version = i.version)
          (touchIncident now e (maxSeverity i.severity e.severity)) db.incidents) tenantID id :=
      Owns.map fun r _ => ⟨patch_column Incident.id rfl, patch_column Incident.tenantID rfl⟩
    rw [hfile]
    intro link hlink
    rcases mem_attached hlink with hold | rfl
    · obtain ⟨tenantID, hincident, hevent⟩ := h link hold
      exact ⟨tenantID, hmap hincident, Owns.append hevent⟩
    · exact ⟨tenantID, hmap ⟨i, hi, rfl, htenant⟩,
        _, List.mem_append_right _ (List.mem_singleton.mpr rfl), rfl, rfl⟩

theorem linksOwned_perform (h : db.casefile.LinksOwned) (op : EventOp) :
    (db.perform x op).casefile.LinksOwned := by
  cases op with
  | configure config => exact h
  | call call =>
    cases call with
    | processEvent pf now gen e options => exact linksOwned_processEvent h pf now gen e options
    | claimDeliveries pf now locked limit =>
      have hsame :=
        (keeps_claimDeliveries casefile_ignoresDeliveries pf now locked limit).after x db
      exact hsame ▸ h
    | completeDelivery now deliveryID providerRef deliveryErr =>
      have hsame := (keeps_completeDelivery casefile_ignoresDeliveries casefile_ignoresAudit now
        deliveryID providerRef deliveryErr).after x db
      exact hsame ▸ h
    | transitionIncident now transitionID input =>
      rw [EventDB.perform]
      have hout := transition_outcome x now transitionID input db
      generalize after x (transitionIncident now transitionID input) db = db' at hout ⊢
      generalize (commit x (transitionIncident now transitionID input) db).1 = answer at hout
      cases hout with
      | refused => exact h
      | moved hi hid hvalid ht hfile => exact hfile ▸ linksOwned_moved h _ _ _
    | acknowledgeByToken pf now transitionID rawToken requestID traceID =>
      rw [EventDB.perform]
      have hout := acknowledge_outcome x pf now transitionID rawToken requestID traceID db
      generalize after x (acknowledgeByToken pf now transitionID rawToken requestID traceID) db
        = db' at hout ⊢
      generalize (commit x (acknowledgeByToken pf now transitionID rawToken requestID traceID)
        db).1 = answer at hout
      cases hout with
      | refused | settled htoken hi hdone => exact h
      | acknowledged htoken hi hdue hvalid ht hfile htokens =>
        exact hfile ▸ linksOwned_moved h _ _ _
    | recordAudit entry =>
      have hsame := (keeps_auditEvent casefile_ignoresAudit entry).after x db
      exact hsame ▸ h

end Events

/-! ### The definition tables under `ApplyRunbook` -/

/-- Runbooks and versions are added, and keep their tenants; nothing else changes. -/
structure CatalogGrows (db db' : DB) : Prop where
  executions : db'.executions = db.executions
  steps : db'.steps = db.steps
  approvals : db'.approvals = db.approvals
  incidents : db'.incidents = db.incidents
  runbookIDs : Keyed Runbook.id db.runbooks → Keyed Runbook.id db'.runbooks
  versionIDs : Keyed RunbookVersion.id db.runbookVersions →
    Keyed RunbookVersion.id db'.runbookVersions
  ownsRunbook : ∀ tenantID id, db.OwnsRunbook tenantID id → db'.OwnsRunbook tenantID id
  ownsVersion : ∀ tenantID id, db.OwnsVersion tenantID id → db'.OwnsVersion tenantID id

instance : Std.Refl CatalogGrows :=
  ⟨fun _ => ⟨rfl, rfl, rfl, rfl, id, id, fun _ _ => id, fun _ _ => id⟩⟩

instance : IsTrans DB CatalogGrows where
  trans _ _ _ h h' :=
    ⟨h'.executions.trans h.executions, h'.steps.trans h.steps, h'.approvals.trans h.approvals,
      h'.incidents.trans h.incidents, h'.runbookIDs ∘ h.runbookIDs, h'.versionIDs ∘ h.versionIDs,
      fun _ _ ho => h'.ownsRunbook _ _ (h.ownsRunbook _ _ ho),
      fun _ _ ho => h'.ownsVersion _ _ (h.ownsVersion _ _ ho)⟩

theorem grows_createRunbook (tenants : List String) (runbookID tenantID key : String) :
    Relates CatalogGrows (statement (createRunbook tenants runbookID tenantID key)) := by
  refine relates_statement fun db u db' h => ?_
  obtain ⟨hid, -, rfl⟩ := insertRunbook_inv (written_inv h)
  exact ⟨rfl, rfl, rfl, rfl, fun hk => hk.append_singleton hid, id, fun _ _ => Owns.append,
    fun _ _ => Through.imp fun _ => Owns.append⟩

theorem grows_addRunbookVersion (versionID : String) (input : ApplyRunbookInput)
    (tenantID key : String) (version : ℤ) :
    Relates CatalogGrows (statement (addRunbookVersion versionID input tenantID key version)) := by
  refine relates_statement fun db u db' h => ?_
  obtain ⟨r, -, hinsert⟩ := onRunbook_inv h
  obtain ⟨hid, -, rfl⟩ := insertRunbookVersion_inv hinsert
  exact ⟨rfl, rfl, rfl, rfl, id, fun hk => hk.append_singleton hid, fun _ _ => id,
    fun _ _ => Through.append⟩

theorem grows_activateRunbook (tenantID key : String) (version : ℤ) :
    Relates CatalogGrows (statement (activateRunbook tenantID key version)) := by
  refine relates_statement fun db u db' h => ?_
  obtain ⟨r, -, hactive⟩ := onRunbook_inv h
  obtain rfl := Except.ok.inj hactive
  have howns : ∀ tenantID id, db.OwnsRunbook tenantID id →
      (db.activateRunbook r.id version).OwnsRunbook tenantID id := fun _ _ =>
    Owns.map fun q _ => ⟨patch_column Runbook.id rfl, patch_column Runbook.tenantID rfl⟩
  exact ⟨rfl, rfl, rfl, rfl, fun hk => hk.map fun q _ => patch_column Runbook.id rfl, id, howns,
    fun tenantID _ => Through.imp (howns tenantID)⟩

theorem grows_auditRunbook (input : ApplyRunbookInput) (tenantID key : String) :
    Relates CatalogGrows (statement (auditRunbook input tenantID key)) := by
  refine relates_statement fun db u db' h => ?_
  obtain ⟨r, -, haudit⟩ := onRunbook_inv h
  obtain rfl := Except.ok.inj haudit
  exact ⟨rfl, rfl, rfl, rfl, id, id, fun _ _ => id, fun _ _ => id⟩

/-- **`ApplyRunbook` only adds definitions**, whatever it had found. -/
theorem grows_closeRunbook (tenants : List String) (runbookID versionID : String)
    (input : ApplyRunbookInput) (o : Opened) :
    Relates CatalogGrows (closeRunbook tenants runbookID versionID input o) := by
  have hactivation : Relates CatalogGrows
      (if o.version > 1 then statement (activateRunbook o.tenantID o.key o.version)
        else pure ()) := by
    split
    · exact grows_activateRunbook _ _ _
    · exact relates_pure ()
  have hrest := relates_bind
    (grows_addRunbookVersion versionID input o.tenantID o.key o.version) fun _ =>
    relates_bind hactivation fun _ => grows_auditRunbook input o.tenantID o.key
  unfold closeRunbook Admin.enter
  cases o.found with
  | none =>
    dsimp only
    split
    · exact relates_fail _
    · exact relates_bind (grows_createRunbook _ _ _ _) fun _ => hrest
  | some active =>
    dsimp only
    split
    · exact relates_fail _
    · exact hrest

/-! ### The whole store -/

/-- What the store runs on; `members` are the members of an incident's JSON encoding that
no condition can name. -/
structure StoreEnv extends Env where
  members : Incident → List (String × Json)

/-- The tables of one database: those of runbooks and those of events. -/
structure Store where
  runbooks : Sys
  events : EventDB

/-- An incident as `StartExecution` reads it. -/
def Incident.record (members : Incident → List (String × Json)) (i : Incident) : IncidentRecord :=
  { id := i.id, tenantID := i.tenantID, title := i.title, state := i.state.text
    severity := i.severity.text, service := i.service, environment := i.environment
    rest := members i }

/-- An operation on executions, the transaction of an `ApplyRunbook` (whatever its lookup
had found), or a step of the event store. -/
inductive StoreOp where
  | execution (op : Op) (hop : op.isCatalog = false)
  | applyRunbook (call : PendingRunbook)
  | event (op : EventOp)

namespace Store

variable (env : StoreEnv)

/-- The incidents as `StartExecution` reads them are those of the event tables. -/
def mirrored (events : EventDB) (s : Sys) : Sys :=
  { s with db := { s.db with incidents := events.incidents.map (Incident.record env.members) } }

def perform : StoreOp → Store → Store
  | .execution op _, st => { st with runbooks := Sys.perform env.toEnv op st.runbooks }
  | .applyRunbook call, st =>
    { st with
      runbooks := st.runbooks.commit env.toEnv
        (closeRunbook st.events.tenants call.runbookID call.versionID call.input call.opened) }
  | .event op, st =>
    let events := st.events.perform env.exclusive op
    { runbooks := mirrored env events st.runbooks, events := events }

/-- A database with no rows but configuration. -/
structure Init (st : Store) : Prop where
  runbooks : st.runbooks.Init
  catalog : st.runbooks.db.catalog = ([], [], [])
  events : st.events.Fresh

def Reachable (st : Store) : Prop :=
  Transition.Reachable (perform env) Init st

/-- **Every reference stays within a tenant.** -/
structure Owned (st : Store) : Prop where
  runbooks : st.runbooks.Inv
  events : st.events.Filed
  incidents : st.runbooks.db.incidents = st.events.incidents.map (Incident.record env.members)
  runbookIDs : Keyed Runbook.id st.runbooks.db.runbooks
  versionIDs : Keyed RunbookVersion.id st.runbooks.db.runbookVersions
  version : ∀ e ∈ st.runbooks.db.executions,
    st.runbooks.db.OwnsVersion e.tenantID e.runbookVersionID
  incident : ∀ e ∈ st.runbooks.db.executions, ∀ id, e.incidentID = some id →
    st.events.casefile.OwnsIncident e.tenantID id
  approval : ∀ a ∈ st.runbooks.db.approvals,
    st.runbooks.db.OwnsStep a.tenantID a.executionStepID
  claim : ∀ w ∈ st.runbooks.issued,
    st.runbooks.db.OwnsExecution w.2.tenantID w.2.step.executionID
  links : st.events.casefile.LinksOwned

variable {env} {st : Store}

theorem Init.owned (h : st.Init) : st.Owned env := by
  obtain ⟨⟨hexec, hsteps, happr, hissued⟩, hcatalog, hevents⟩ := h
  obtain ⟨hrunbooks, hrest⟩ := Prod.mk.inj hcatalog
  obtain ⟨hversions, hincidents⟩ := Prod.mk.inj hrest
  refine ⟨inv_init ⟨hexec, hsteps, happr, hissued⟩, (hevents.everyCase fun _ => True).filed, ?_, ?_,
    ?_, ?_, ?_, ?_, ?_, ?_⟩
  · rw [hincidents, hevents.incidents]
    rfl
  · rw [hrunbooks]
    exact List.nodup_nil
  · rw [hversions]
    exact List.nodup_nil
  · simp [hexec]
  · simp [hexec]
  · simp [happr]
  · simp [hissued]
  · intro link hlink
    rw [EventDB.casefile, hevents.links] at hlink
    cases hlink

theorem Owned.started (h : st.Owned env) {input : StartExecutionInput} {r : Runbook}
    {rv : RunbookVersion} {incident : Json}
    (hrv : activeRunbook input.tenantID input.runbookKey st.runbooks.db = some (r, rv))
    (hincident : incidentJSON input st.runbooks.db = some incident) :
    st.runbooks.db.OwnsVersion input.tenantID rv.id
      ∧ (input.incidentID ≠ "" →
        st.events.casefile.OwnsIncident input.tenantID input.incidentID) := by
  constructor
  · simp only [activeRunbook, Option.bind_eq_bind, Option.bind_eq_some_iff] at hrv
    obtain ⟨r', hr', rv', hrv', heq⟩ := hrv
    obtain ⟨rfl, rfl⟩ := Prod.mk.inj (Option.some.inj heq)
    have hrunbook := List.find?_some hr'
    have hversion := List.find?_some hrv'
    simp only [Bool.and_eq_true, decide_eq_true_eq] at hrunbook hversion
    exact ⟨rv', List.mem_of_find?_eq_some hrv', rfl, r', List.mem_of_find?_eq_some hr',
      hversion.1.symm, hrunbook.1.1⟩
  intro hnamed
  rw [incidentJSON, if_neg hnamed, Option.map_eq_some_iff] at hincident
  obtain ⟨j, hj, -⟩ := hincident
  have hkey := List.find?_some hj
  simp only [Bool.and_eq_true, decide_eq_true_eq] at hkey
  have hmem := List.mem_of_find?_eq_some hj
  rw [h.incidents] at hmem
  obtain ⟨i, hi, rfl⟩ := List.mem_map.mp hmem
  exact ⟨i, hi, hkey.2, hkey.1⟩

theorem Owned.execution (h : st.Owned env) (op : Op) (hop : op.isCatalog = false) :
    (st.perform env (.execution op hop)).Owned env := by
  have heff := effect_perform env.toEnv h.runbooks op
  have hcatalog := catalog_perform env.toEnv st.runbooks hop
  obtain ⟨hrunbooks, hrest⟩ := Prod.mk.inj hcatalog
  obtain ⟨hversions, hincidents⟩ := Prod.mk.inj hrest
  have hversion : ∀ tenantID id, st.runbooks.db.OwnsVersion tenantID id →
      (Sys.perform env.toEnv op st.runbooks).db.OwnsVersion tenantID id := by
    rintro tenantID id ⟨rv, hrv, hid, ho⟩
    exact ⟨rv, hversions ▸ hrv, hid, by rwa [DB.OwnsRunbook, hrunbooks]⟩
  refine ⟨inv_perform env.toEnv h.runbooks op, h.events, hincidents.trans h.incidents, ?_, ?_, ?_,
    ?_, ?_, ?_, h.links⟩
  · exact hrunbooks ▸ h.runbookIDs
  · exact hversions ▸ h.versionIDs
  · intro e' he'
    refine hversion _ _ ?_
    rcases executions_perform env.toEnv h.runbooks op he' with ⟨e, he, hdef⟩
      | ⟨executionID, rv, incident, input, ⟨r, hrv⟩, hincident, rfl⟩
    · have hcolumns := congrArg (fun e => (e.tenantID, e.runbookVersionID)) hdef
      obtain ⟨htenant, hrv⟩ := Prod.mk.inj hcolumns
      exact htenant.symm ▸ hrv.symm ▸ h.version e he
    · exact (h.started hrv hincident).1
  · intro e' he' id hid
    rcases executions_perform env.toEnv h.runbooks op he' with ⟨e, he, hdef⟩
      | ⟨executionID, rv, incident, input, ⟨r, hrv⟩, hincident, rfl⟩
    · have hcolumns := congrArg (fun e => (e.tenantID, e.incidentID)) hdef
      obtain ⟨htenant, hincidentID⟩ := Prod.mk.inj hcolumns
      exact htenant.symm ▸ h.incident e he id (hincidentID.symm.trans hid)
    simp only [newExecution] at hid
    split at hid
    · cases hid
    · rename_i hnamed
      exact Option.some.inj hid ▸ (h.started hrv hincident).2 hnamed
  · intro a' ha'
    rcases heff.approvalRows.prev ha' with ⟨a, ha, rfl | hchange⟩ | hnew
    · exact heff.ownsStep (h.approval a' ha)
    · rw [hchange.tenant_eq, hchange.keys.2]
      exact heff.ownsStep (h.approval a ha)
    -- A worker asks for the step it has claimed, under the tenant of the claim.
    cases hnew with
    | requested hn =>
      have hmem := List.mem_of_getElem? hn
      exact heff.ownsStep ((h.runbooks.claims _ hmem).ownsStep (h.claim _ hmem))
  intro w hw
  rcases perform_issued env.toEnv st.runbooks op with hsame
    | ⟨locked, workerID, limit, lease, rfl, hissued⟩
  · exact heff.ownsExecution (h.claim w (hsame ▸ hw))
  have hw' : w ∈ st.runbooks.issued ++ (st.runbooks.claims locked workerID limit lease).map
      fun c => (workerID, c) := hissued ▸ hw
  rcases List.mem_append.mp hw' with hold | hnew
  · exact heff.ownsExecution (h.claim w hold)
  obtain ⟨c, hc, rfl⟩ := List.mem_map.mp hnew
  obtain ⟨r, hr, e, -, he, rfl⟩ := mem_claims hc
  have hid : e.id = r.executionID := by simpa [DB.execution?] using List.find?_some he
  exact heff.ownsExecution ⟨e, List.mem_of_find?_eq_some he, hid, rfl⟩

theorem Owned.applyRunbook (h : st.Owned env) (call : PendingRunbook) :
    (st.perform env (.applyRunbook call)).Owned env := by
  have hgrows := (grows_closeRunbook st.events.tenants call.runbookID call.versionID call.input
    call.opened).after env.exclusive st.runbooks.db
  simp only [perform, Sys.commit]
  generalize after env.exclusive _ st.runbooks.db = db' at hgrows ⊢
  refine ⟨h.runbooks.of_tables hgrows.executions hgrows.steps hgrows.approvals rfl, h.events,
    hgrows.incidents.trans h.incidents, hgrows.runbookIDs h.runbookIDs,
    hgrows.versionIDs h.versionIDs, ?_, ?_, ?_, ?_, h.links⟩
  · intro e he
    exact hgrows.ownsVersion _ _ (h.version e (hgrows.executions ▸ he))
  · intro e he
    exact h.incident e (hgrows.executions ▸ he)
  · intro a ha
    obtain ⟨r, hr, hid, ho⟩ := h.approval a (hgrows.approvals ▸ ha)
    exact ⟨r, hgrows.steps ▸ hr, hid, by rwa [DB.OwnsExecution, hgrows.executions]⟩
  · intro w hw
    rw [DB.OwnsExecution, hgrows.executions]
    exact h.claim w hw

theorem Owned.event (h : st.Owned env) (op : EventOp) : (st.perform env (.event op)).Owned env := by
  have hstep := fileStep_perform h.events env.exclusive op
  exact ⟨h.runbooks.of_tables rfl rfl rfl rfl, h.events.perform env.exclusive op, rfl,
    h.runbookIDs, h.versionIDs, h.version,
    fun e he id hid => hstep.ownsIncident (h.incident e he id hid), h.approval, h.claim,
    linksOwned_perform h.links op⟩

theorem owned_perform (op : StoreOp) (st : Store) (h : st.Owned env) :
    (st.perform env op).Owned env := by
  cases op with
  | execution op hop => exact h.execution op hop
  | applyRunbook call => exact h.applyRunbook call
  | event op => exact h.event op

/-- **In every reachable state every reference stays within a tenant.** -/
theorem owned_of_reachable (h : st.Reachable env) : st.Owned env :=
  Transition.Reachable.invariant (I := Owned env) (fun _ h₀ => h₀.owned) owned_perform h

end Store

end StormRelay
