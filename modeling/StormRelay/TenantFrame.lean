/-
A call for one tenant.

The methods of the store that a tenant's requests reach take the tenant's identifier and
identifiers that may be anything: those of another tenant's rows, or of rows that do not
belong together.

* `tenant_frame` — **in every reachable state, a call for a tenant changes no row of
  another one, and every row it returns belongs to its tenant**.
-/
import StormRelay.Tenancy

namespace StormRelay

open Tx Table Ownership Transition

/-! ### The rows of the other tenants -/

/-- The executions, steps and approvals of the other tenants are as they were. -/
structure DB.Frame (tenantID : String) (db db' : DB) : Prop where
  executions : others (fun e : Execution => some e.tenantID) tenantID db'.executions
    = others (fun e : Execution => some e.tenantID) tenantID db.executions
  steps : others db'.stepOwner tenantID db'.steps = others db.stepOwner tenantID db.steps
  approvals : others (fun a : Approval => some a.tenantID) tenantID db'.approvals
    = others (fun a : Approval => some a.tenantID) tenantID db.approvals

/-- The incidents and the transitions of the other tenants are as they were. -/
structure EventDB.Frame (tenantID : String) (db db' : EventDB) : Prop where
  incidents : others (fun i : Incident => some i.tenantID) tenantID db'.incidents
    = others (fun i : Incident => some i.tenantID) tenantID db.incidents
  transitions : others (fun t : IncidentTransition => some t.tenantID) tenantID db'.transitions
    = others (fun t : IncidentTransition => some t.tenantID) tenantID db.transitions

section Frames

variable {db db' : DB} {tenantID executionID : String}

theorem DB.Frame.refl (tenantID : String) (db : DB) : db.Frame tenantID db :=
  ⟨rfl, rfl, rfl⟩

/-- **A transaction that writes one execution of the tenant**, with its steps, and
approvals of the tenant.  The statements name their rows by identifiers; that the rows are
the tenant's follows from the ownership of the execution afterwards. -/
theorem frame_of_writes (hc : Consistent db) (hc' : Consistent db')
    (hgrows : ∀ tenantID id, db.OwnsExecution tenantID id → db'.OwnsExecution tenantID id)
    (hown : db'.OwnsExecution tenantID executionID) {kept new : List Execution}
    (hexec : db'.executions = kept ++ new)
    (hkept : Rewrites (fun e => e.id = executionID) Execution.tenantID db.executions kept)
    (hnew : ∀ e ∈ new, e.tenantID = tenantID) {keptSteps newSteps : List ExecutionStep}
    (hsteps : db'.steps = keptSteps ++ newSteps)
    (hkeptSteps : Rewrites (fun r => r.executionID = executionID) ExecutionStep.executionID
      db.steps keptSteps)
    (hnewSteps : ∀ r ∈ newSteps, r.executionID = executionID)
    (happr : Rewrites (fun a => a.tenantID = tenantID) Approval.tenantID db.approvals
      db'.approvals) :
    db.Frame tenantID db' := by
  have hmine : ∀ owner, db.OwnsExecution owner executionID → owner = tenantID :=
    fun owner ho => (hgrows _ _ ho).unique hc'.executions hown
  have howner : ∀ r ∈ db.steps, ∃ owner, db.OwnsExecution owner r.executionID := by
    intro r hr
    obtain ⟨e, he, hid⟩ := hc.owner r hr
    exact ⟨e.tenantID, e, he, hid, rfl⟩
  refine ⟨?_, ?_, ?_⟩
  · rw [hexec, others_append fun e he => congrArg some (hnew e he)]
    refine hkept.others (fun e he hid => ?_) fun e _ e' htenant => congrArg some htenant
    exact congrArg some (hmine _ ⟨e, he, hid, rfl⟩)
  · have hadded : ∀ r ∈ newSteps, db'.stepOwner r = some tenantID := fun r hr =>
      DB.stepOwner_eq hc'.executions (by rwa [hnewSteps r hr])
    rw [hsteps, others_append hadded]
    refine hkeptSteps.others (fun r hr hid => ?_) fun r hr r' hsame => ?_
    · obtain ⟨owner, ho⟩ := howner r hr
      rw [DB.stepOwner_eq hc.executions ho, hmine owner (hid ▸ ho)]
    obtain ⟨owner, ho⟩ := howner r hr
    have ho' : db'.OwnsExecution owner r'.executionID := by
      rw [hsame]
      exact hgrows _ _ ho
    rw [DB.stepOwner_eq hc.executions ho, DB.stepOwner_eq hc'.executions ho']
  · exact happr.others (fun a _ htenant => congrArg some htenant)
      fun a _ a' htenant => congrArg some htenant

end Frames

/-! ### Operator calls -/

section Calls

variable {env : Env} {s : Sys} {tenantID executionID : String}

theorem ownedExecution_owns {db : DB} {e : Execution}
    (h : ownedExecution tenantID executionID db = some e) :
    db.OwnsExecution tenantID executionID := by
  have hkey := List.find?_some h
  simp only [Bool.and_eq_true, decide_eq_true_eq] at hkey
  exact ⟨e, List.mem_of_find?_eq_some h, hkey.2, hkey.1⟩

theorem ownedStep_owns {db : DB} {stepID : String} {es : ExecutionStep}
    (h : ownedStep tenantID executionID stepID db = some es) :
    db.OwnsExecution tenantID executionID := by
  simp only [ownedStep, Option.bind_eq_bind, Option.bind_eq_some_iff] at h
  obtain ⟨e, he, -⟩ := h
  exact ownedExecution_owns he

theorem approvalWithStep_tenant {db : DB} {approvalID : String} {a : Approval} {es : ExecutionStep}
    (h : approvalWithStep tenantID approvalID db = some (a, es)) : a.tenantID = tenantID := by
  simp only [approvalWithStep, Option.bind_eq_bind, Option.bind_eq_some_iff] at h
  obtain ⟨b, hb, es', -, hpair⟩ := h
  obtain ⟨rfl, -⟩ := Prod.mk.inj (Option.some.inj hpair)
  have hkey := List.find?_some hb
  simp only [Bool.and_eq_true, decide_eq_true_eq] at hkey
  exact hkey.1

theorem Effect.frame {op : Op} {db' : DB} (hi : s.Inv) (heff : Effect s op db')
    (hown : s.db.OwnsExecution tenantID executionID)
    (hexec : Rewrites (fun e => e.id = executionID) Execution.tenantID s.db.executions
      db'.executions)
    (hsteps : Rewrites (fun r => r.executionID = executionID) ExecutionStep.executionID s.db.steps
      db'.steps)
    (happr : Rewrites (fun a => a.tenantID = tenantID) Approval.tenantID s.db.approvals
      db'.approvals) :
    s.db.Frame tenantID db' :=
  frame_of_writes hi.consistent (heff.consistent hi.consistent) (fun _ _ => heff.ownsExecution)
    (heff.ownsExecution hown) (List.append_nil _).symm hexec (List.forall_mem_nil _)
    (List.append_nil _).symm hsteps (List.forall_mem_nil _) happr

theorem rewrites_execution {t : List Execution} {f : Execution → Execution}
    (hf : ∀ e, (f e).tenantID = e.tenantID) :
    Rewrites (fun e => e.id = executionID) Execution.tenantID t
      (update (fun e => e.id = executionID) f t) :=
  .update (fun _ _ hid => of_decide_eq_true hid) hf

theorem frame_change (hi : s.Inv) (action : ControlAction) (actor requestID traceID : String) :
    s.db.Frame tenantID (Sys.perform env
      (.changeState tenantID executionID action actor requestID traceID) s).db := by
  have heff := effect_perform env hi
    (.changeState tenantID executionID action actor requestID traceID)
  simp only [Sys.perform, Sys.commit] at heff ⊢
  have hout := change_outcome env.exclusive s.now tenantID executionID action actor requestID
    traceID s.db
  generalize after env.exclusive _ s.db = db' at hout heff ⊢
  cases hout with
  | refused => exact .refl _ _
  | paused he | resumed he =>
    exact heff.frame hi (ownedExecution_owns he) (rewrites_execution fun _ => rfl) (.refl _)
      (.refl _)
  | canceled he =>
    refine heff.frame hi (ownedExecution_owns he) (rewrites_execution fun _ => rfl)
      (.update (fun r _ hp => ?_) fun _ => rfl) (.refl _)
    simp only [Bool.and_eq_true, decide_eq_true_eq] at hp
    exact hp.1

theorem frame_retry (hi : s.Inv) (stepID actor requestID traceID : String) (force : Bool) :
    s.db.Frame tenantID (Sys.perform env
      (.retry tenantID executionID stepID actor requestID traceID force) s).db := by
  have heff := effect_perform env hi
    (.retry tenantID executionID stepID actor requestID traceID force)
  simp only [Sys.perform, Sys.commit] at heff ⊢
  have hout := retry_outcome env.exclusive s.now tenantID executionID stepID actor requestID
    traceID force s.db
  generalize after env.exclusive _ s.db = db' at hout heff ⊢
  cases hout with
  | refused => exact .refl _ _
  | retried hes =>
    -- The step is named by its identifier alone; it is the one found in the execution.
    obtain ⟨hmem, hid, hexec⟩ := ownedStep_some hes
    refine heff.frame hi (ownedStep_owns hes) (rewrites_execution fun _ => rfl)
      (.update (fun r hr hp => ?_) fun _ => rfl) (.refl _)
    rw [hi.consistent.eq_of_id hr hmem ((of_decide_eq_true hp).trans hid.symm), hexec]

theorem frame_rollback (hi : s.Inv) (ids : List String) (actor requestID traceID : String) :
    s.db.Frame tenantID
      (Sys.perform env (.rollback ids tenantID executionID actor requestID traceID) s).db := by
  have heff := effect_perform env hi
    (.rollback ids tenantID executionID actor requestID traceID)
  simp only [Sys.perform, Sys.commit] at heff ⊢
  obtain h | ⟨e, rows, entry, he, -, -, hrows, -, -, hafter⟩ :=
    rollback_cases env.exclusive s.db s.now ids tenantID executionID actor requestID traceID
  · rw [h]
    exact .refl _ _
  rw [hafter] at heff ⊢
  refine frame_of_writes hi.consistent (heff.consistent hi.consistent)
    (fun _ _ => heff.ownsExecution) (heff.ownsExecution (ownedExecution_owns he))
    (List.append_nil _).symm (rewrites_execution fun _ => rfl) (List.forall_mem_nil _) rfl (.refl _)
    (fun r hr => ?_) (.refl _)
  obtain ⟨_, _, _, _, _, _, -, -, -, rfl⟩ := hrows.mem hr
  rfl

/-- **A new execution belongs to the tenant that starts it**, with its steps. -/
theorem frame_start (hi : s.Inv) (executionID : String) (ids : List String)
    (input : StartExecutionInput) :
    s.db.Frame input.tenantID (Sys.perform env (.startExecution executionID ids input) s).db := by
  have heff := effect_perform env hi (.startExecution executionID ids input)
  simp only [Sys.perform, Sys.commit] at heff ⊢
  obtain h | ⟨rv, doc, incident, rows, entry, -, -, -, hrows, -, hafter⟩ :=
    start_cases env.exclusive s.db s.now env.platform executionID ids input
  · rw [h]
    exact .refl _ _
  rw [hafter] at heff ⊢
  refine @frame_of_writes s.db _ input.tenantID executionID hi.consistent
    (heff.consistent hi.consistent) (fun _ _ => heff.ownsExecution)
    ⟨_, List.mem_append_right _ (List.mem_singleton.mpr rfl), rfl, rfl⟩ _ _ rfl (.refl _)
    (fun e he => ?_) _ _ rfl (.refl _) (fun r hr => ?_) (.refl _)
  · rw [List.mem_singleton.mp he]
    rfl
  · obtain ⟨_, _, _, _, _, -, -, -, rfl⟩ := hrows.mem hr
    rfl

/-- **A decision stays within the tenant of its approval**: the approval belongs to the
tenant of its step's execution. -/
theorem frame_decide (hi : s.Inv)
    (hown : ∀ a ∈ s.db.approvals, s.db.OwnsStep a.tenantID a.executionStepID)
    (approvalID : String) (decision : Decision) (actor reason requestID traceID : String) :
    s.db.Frame tenantID (Sys.perform env
      (.decide tenantID approvalID decision actor reason requestID traceID) s).db := by
  have hc := hi.consistent
  have heff := effect_perform env hi
    (.decide tenantID approvalID decision actor reason requestID traceID)
  simp only [Sys.perform, Sys.commit] at heff ⊢
  have hout := decide_outcome env.exclusive s.now tenantID approvalID decision actor reason
    requestID traceID hc.owner
  generalize after env.exclusive _ s.db = db' at hout heff ⊢
  -- What both decisions write.
  have hwrites : ∀ {d : Decision} {a : Approval} {es : ExecutionStep},
      AwaitsDecision s.db tenantID approvalID d reason a es →
      s.db.OwnsExecution tenantID es.executionID
        ∧ Rewrites (fun r => r.executionID = es.executionID) ExecutionStep.executionID s.db.steps
          (update (fun y => y.id = es.id) (decidedRow s.now d approvalID actor reason) s.db.steps)
        ∧ Rewrites (fun a => a.tenantID = tenantID) Approval.tenantID s.db.approvals
          (update (fun y => y.id = approvalID) (decideApprovalRow s.now d actor reason)
            s.db.approvals) := by
    intro d a es hwait
    obtain ⟨ha, hid, hes, hstep⟩ := approvalWithStep_some hwait.found
    have htenant := approvalWithStep_tenant hwait.found
    refine ⟨?_, .update (fun r hr hp => ?_) fun _ => rfl, .update (fun b hb hp => ?_) fun _ => rfl⟩
    · exact htenant ▸ (hown a ha).of_mem hc.keyed hes hstep
    · rw [hc.eq_of_id hr hes (of_decide_eq_true hp)]
    · rw [hc.approvals.eq_of_key hb ha ((of_decide_eq_true hp).trans hid.symm), htenant]
  cases hout with
  | refused => exact .refl _ _
  | @approved a es hwait entry =>
    obtain ⟨howns, hsteps, happr⟩ := hwrites hwait
    refine heff.frame hi howns ?_ ((finalizedDB_steps _ _).symm ▸ hsteps)
      ((finalizedDB_approvals _ _).symm ▸ happr)
    refine (rewrites_execution (f := approvedExecution s.now) fun _ => rfl).trans ?_
    obtain h | ⟨_, final, -, -, -, h⟩ := finalizedDB_executions
      ((decidedDB s.now .approved approvalID actor reason es s.db).updateExecutions
        (fun e => e.id = es.executionID) (approvedExecution s.now)).2 s.now es.executionID
    · exact h.symm ▸ .refl _
    · exact h.symm ▸ rewrites_execution fun _ => rfl
  | rejected hwait =>
    obtain ⟨howns, hsteps, happr⟩ := hwrites hwait
    exact heff.frame hi howns (rewrites_execution fun _ => rfl) hsteps happr

end Calls

/-- **A transition stays within the tenant of its incident.** -/
theorem frame_transition {x : Bool} {db : EventDB} (hf : db.Filed) (now : Time)
    (transitionID : String) (input : TransitionInput) :
    db.Frame input.tenantID (after x (transitionIncident now transitionID input) db) := by
  rw [after]
  obtain ⟨err, hcommit⟩ | ⟨answer, c, h, hcommit⟩ :=
    commit_cases (transitionIncident now transitionID input) x db
  · rw [hcommit]
    exact ⟨rfl, rfl⟩
  obtain ⟨i, hi, ⟨htenant, hid⟩, -, -, t, ht, -, hfile⟩ := transitionIncident_inv h
  have hincidents : c.db.incidents
      = update (fun j => j.id = input.incidentID) (transitionedRow now input.to_) db.incidents :=
    congrArg Casefile.incidents hfile
  have htransitions : c.db.transitions = db.transitions ++ [t] :=
    congrArg Casefile.transitions hfile
  have hwrites : Rewrites (fun j => j.tenantID = input.tenantID) Incident.tenantID db.incidents
      c.db.incidents := by
    rw [hincidents]
    refine .update (fun j hj hp => ?_) fun _ => rfl
    rw [hf.keyed.eq_of_key hj hi ((of_decide_eq_true hp).trans hid.symm), htenant]
  rw [hcommit]
  refine ⟨hwrites.others (fun j _ h => congrArg some h) fun j _ j' h => congrArg some h, ?_⟩
  rw [htransitions, others_append fun u hu => ?_]
  rw [List.mem_singleton.mp hu, ht]

/-! ### Calls with their answers -/

/-- The calls that take the identifier of a tenant.  Identifiers that the code generates
are arguments. -/
inductive TenantCall where
  | startExecution (executionID : String) (ids : List String) (input : StartExecutionInput)
  | getExecution (tenantID executionID : String)
  | changeExecutionState (tenantID executionID : String) (action : ControlAction)
      (actor requestID traceID : String)
  | retryExecutionStep (tenantID executionID stepID actor requestID traceID : String)
      (force : Bool)
  | startExecutionRollback (ids : List String)
      (tenantID executionID actor requestID traceID : String)
  | decideApproval (tenantID approvalID : String) (decision : Decision)
      (actor reason requestID traceID : String)
  | transitionIncident (now : Time) (transitionID : String) (input : TransitionInput)
  | getIncident (tenantID incidentID : String)

namespace TenantCall

def tenantID : TenantCall → String
  | .startExecution _ _ input => input.tenantID
  | .getExecution tenantID _ => tenantID
  | .changeExecutionState tenantID _ _ _ _ _ => tenantID
  | .retryExecutionStep tenantID _ _ _ _ _ _ => tenantID
  | .startExecutionRollback _ tenantID _ _ _ _ => tenantID
  | .decideApproval tenantID _ _ _ _ _ _ => tenantID
  | .transitionIncident _ _ input => input.tenantID
  | .getIncident tenantID _ => tenantID

def op : TenantCall → Option StoreOp
  | .startExecution executionID ids input =>
    some (.execution (.startExecution executionID ids input) rfl)
  | .changeExecutionState tenantID executionID action actor requestID traceID =>
    some (.execution (.changeState tenantID executionID action actor requestID traceID) rfl)
  | .retryExecutionStep tenantID executionID stepID actor requestID traceID force =>
    some (.execution (.retry tenantID executionID stepID actor requestID traceID force) rfl)
  | .startExecutionRollback ids tenantID executionID actor requestID traceID =>
    some (.execution (.rollback ids tenantID executionID actor requestID traceID) rfl)
  | .decideApproval tenantID approvalID decision actor reason requestID traceID =>
    some (.execution (.decide tenantID approvalID decision actor reason requestID traceID) rfl)
  | .transitionIncident now transitionID input =>
    some (.event (.call (.transitionIncident now transitionID input)))
  | .getExecution _ _ | .getIncident _ _ => none

end TenantCall

inductive Answer where
  | execution (details : ExecutionDetails)
  | incident (details : IncidentDetails)

namespace Store

variable (env : StoreEnv)

/-- The store after the transaction of a call. -/
def call (c : TenantCall) (st : Store) : Store :=
  match c.op with
  | some op => st.perform env op
  | none => st

/-- `GetExecution`, whose queries see the states `read` and `steps`. -/
def readBack (tenantID executionID : String) (read steps : Store) : Except TxError Answer :=
  match getExecution tenantID executionID read.runbooks.db steps.runbooks.db with
  | some details => .ok (.execution details)
  | none => .error .noRows

/-- What the call returns when its transaction starts in `st`.  After the commit the
execution is read back, by two queries in the states `read` and `steps`. -/
def answer (c : TenantCall) (st read steps : Store) : Except TxError Answer := do
  let now := st.runbooks.now
  let db := st.runbooks.db
  match c with
  | .startExecution executionID ids input =>
    (commit env.exclusive (startExecution env.platform now executionID ids input) db).1
    readBack input.tenantID executionID read steps
  | .getExecution tenantID executionID => readBack tenantID executionID read steps
  | .changeExecutionState tenantID executionID action actor requestID traceID =>
    (commit env.exclusive
      (changeExecutionState now tenantID executionID action actor requestID traceID) db).1
    readBack tenantID executionID read steps
  | .retryExecutionStep tenantID executionID stepID actor requestID traceID force =>
    (commit env.exclusive
      (retryExecutionStep now tenantID executionID stepID actor requestID traceID force) db).1
    readBack tenantID executionID read steps
  | .startExecutionRollback ids tenantID executionID actor requestID traceID =>
    (commit env.exclusive
      (startExecutionRollback now ids tenantID executionID actor requestID traceID) db).1
    readBack tenantID executionID read steps
  | .decideApproval tenantID approvalID decision actor reason requestID traceID =>
    (commit env.exclusive
      (decideApproval now tenantID approvalID decision actor reason requestID traceID) db).1
    -- The execution is the one of the approval's step.
    match approvalWithStep tenantID approvalID db with
    | some (_, es) => readBack tenantID es.executionID read steps
    | none => .error .noRows
  | .transitionIncident now transitionID input =>
    let row ← (commit env.exclusive (transitionIncident now transitionID input) st.events).1
    pure (.incident { row := row })
  | .getIncident tenantID incidentID =>
    match StormRelay.getIncident tenantID incidentID read.events with
    | some details => .ok (.incident details)
    | none => .error .noRows

end Store

/-- The execution is one of the tenant in the state `read`, with a version of a runbook of
the tenant; its steps are steps of the tenant in the state `later`. -/
structure ExecutionDetails.BelongsTo (d : ExecutionDetails) (tenantID : String) (read later : DB) :
    Prop where
  row : d.row ∈ read.executions ∧ d.row.tenantID = tenantID
  runbook : ∃ r ∈ read.runbooks, r.tenantID = tenantID ∧ r.runbookKey = d.runbookKey
    ∧ ∃ v ∈ read.runbookVersions, v.runbookID = r.id ∧ v.id = d.row.runbookVersionID
      ∧ v.version = d.runbookVersion
  steps : ∀ es ∈ d.steps, es ∈ later.steps ∧ later.stepOwner es = some tenantID

/-- The incident is one of the tenant, and so is every event that its counts count. -/
structure IncidentDetails.BelongsTo (d : IncidentDetails) (tenantID : String) (read : EventDB) :
    Prop where
  row : d.row.tenantID = tenantID
  counted : ∀ n ∈ read.normalizedEvents, (d.row.id, n.id) ∈ read.incidentEvents →
    n.tenantID = tenantID

def Answer.BelongsTo (tenantID : String) (read steps : Store) : Answer → Prop
  | .execution d => d.BelongsTo tenantID read.runbooks.db steps.runbooks.db
  | .incident d => d.BelongsTo tenantID read.events

namespace Store

variable {env : StoreEnv} {st read steps : Store} {tenantID executionID : String}

theorem ownsExecution_run (ops : List StoreOp) (h : st.Owned env) (tenantID id : String)
    (ho : st.runbooks.db.OwnsExecution tenantID id) :
    (run (perform env) ops st).runbooks.db.OwnsExecution tenantID id := by
  have hinv := run_invariant
    (I := fun st => st.Owned env ∧ st.runbooks.db.OwnsExecution tenantID id)
    (fun op st hst => ⟨owned_perform op st hst.1, ?_⟩) ops ⟨h, ho⟩
  · exact hinv.2
  cases op with
  | execution op hop => exact (effect_perform env.toEnv hst.1.runbooks op).ownsExecution hst.2
  | applyRunbook call =>
    have hgrows := (grows_closeRunbook st.events.tenants call.runbookID call.versionID call.input
      call.opened).after env.exclusive st.runbooks.db
    simp only [perform, Sys.commit, DB.OwnsExecution, hgrows.executions]
    exact hst.2
  | event op => exact hst.2

theorem ownsIncident_run (ops : List StoreOp) (h : st.Owned env) {id : String}
    (ho : st.events.casefile.OwnsIncident tenantID id) :
    (run (perform env) ops st).events.casefile.OwnsIncident tenantID id := by
  have hinv := run_invariant
    (I := fun st => st.Owned env ∧ st.events.casefile.OwnsIncident tenantID id)
    (fun op st hst => ⟨owned_perform op st hst.1, ?_⟩) ops ⟨h, ho⟩
  · exact hinv.2
  · cases op with
    | execution op hop | applyRunbook call => exact hst.2
    | event op => exact (fileStep_perform hst.1.events env.exclusive op).ownsIncident hst.2

/-- **What is read back belongs to the tenant**, whichever execution was asked for. -/
theorem belongs_readBack (hread : read.Owned env) (hsteps : steps.Owned env)
    (hlater : ∀ id, read.runbooks.db.OwnsExecution tenantID id →
      steps.runbooks.db.OwnsExecution tenantID id) {a : Answer}
    (h : readBack tenantID executionID read steps = .ok a) : a.BelongsTo tenantID read steps := by
  rw [readBack] at h
  split at h
  swap
  · cases h
  rename_i details hdetails
  obtain rfl := Except.ok.inj h
  obtain ⟨d, hd, rfl⟩ := Option.map_eq_some_iff.mp hdetails
  obtain ⟨⟨hmem, htenant, hid⟩, rv, hrv, r, hr, hversion, hrunbook, hkey, hnumber⟩ :=
    executionRow_some hd
  refine ⟨⟨hmem, htenant⟩, ⟨r, hr, ?_, hkey.symm, rv, hrv, hrunbook.symm, hversion,
    hnumber.symm⟩, fun es hes => ?_⟩
  · -- The version of the execution is the tenant's, and so is its runbook.
    have hown := (hread.version _ hmem).of_mem hread.versionIDs hrv hversion
    exact (hown.owner_eq hread.runbookIDs hr hrunbook).trans htenant
  obtain ⟨hes, hexec⟩ := mem_executionSteps.mp hes
  have hown : steps.runbooks.db.OwnsExecution tenantID es.executionID := by
    rw [hexec]
    exact hlater _ ⟨d.row, hmem, hid, htenant⟩
  exact ⟨hes, DB.stepOwner_eq hsteps.runbooks.consistent.executions hown⟩

theorem Owned.counted (h : st.Owned env) {i : Incident}
    (ho : st.events.casefile.OwnsIncident tenantID i.id) {n : NormalizedEvent}
    (hn : n ∈ st.events.normalizedEvents) (hlink : (i.id, n.id) ∈ st.events.incidentEvents) :
    n.tenantID = tenantID := by
  obtain ⟨owner, hincident, hevent⟩ := h.links _ hlink
  have hids : Keyed NormalizedEvent.id st.events.normalizedEvents := by
    have hkeyed := h.events.conserved.ids
    rw [Keyed, EventDB.ledger, List.map_map] at hkeyed
    exact hkeyed
  rw [hevent.owner_eq hids hn rfl, hincident.unique h.events.keyed ho]

theorem frame_runbooks (c : TenantCall) {op : Op} {hop : op.isCatalog = false}
    (hcall : c.op = some (.execution op hop))
    (h : st.runbooks.db.Frame c.tenantID (Sys.perform env.toEnv op st.runbooks).db) :
    st.runbooks.db.Frame c.tenantID (st.call env c).runbooks.db
      ∧ st.events.Frame c.tenantID (st.call env c).events := by
  rw [call, hcall]
  exact ⟨h, rfl, rfl⟩

theorem frame_call (h : st.Owned env) (c : TenantCall) :
    st.runbooks.db.Frame c.tenantID (st.call env c).runbooks.db
      ∧ st.events.Frame c.tenantID (st.call env c).events := by
  cases c with
  | startExecution executionID ids input =>
    exact frame_runbooks _ rfl (frame_start h.runbooks executionID ids input)
  | getExecution tenantID executionID
  | getIncident tenantID incidentID => exact ⟨.refl _ _, rfl, rfl⟩
  | changeExecutionState tenantID executionID action actor requestID traceID =>
    exact frame_runbooks _ rfl (frame_change h.runbooks action actor requestID traceID)
  | retryExecutionStep tenantID executionID stepID actor requestID traceID force =>
    exact frame_runbooks _ rfl (frame_retry h.runbooks stepID actor requestID traceID force)
  | startExecutionRollback ids tenantID executionID actor requestID traceID =>
    exact frame_runbooks _ rfl (frame_rollback h.runbooks ids actor requestID traceID)
  | decideApproval tenantID approvalID decision actor reason requestID traceID =>
    exact frame_runbooks _ rfl
      (frame_decide h.runbooks h.approval approvalID decision actor reason requestID traceID)
  | transitionIncident now transitionID input =>
    exact ⟨⟨rfl, rfl, rfl⟩, frame_transition h.events now transitionID input⟩

theorem owned_call (h : st.Owned env) (c : TenantCall) : (st.call env c).Owned env := by
  rw [call]
  cases c.op with
  | none => exact h
  | some op => exact owned_perform op st h

theorem bind_answer {α : Type} {m : Except TxError Unit} {r : Except TxError α} {a : α}
    (h : (m >>= fun _ => r) = .ok a) : r = .ok a := by
  cases m with
  | error e => cases h
  | ok u => exact h

/-- **Every answer belongs to the tenant of the call**, whatever happens between its
transaction and its queries. -/
theorem belongs_answer (h : st.Owned env) (c : TenantCall) (between later : List StoreOp)
    {a : Answer}
    (ha : st.answer env c (run (perform env) between (st.call env c))
      (run (perform env) later
        (run (perform env) between (st.call env c))) = .ok a) :
    a.BelongsTo c.tenantID (run (perform env) between (st.call env c))
      (run (perform env) later
        (run (perform env) between (st.call env c))) := by
  have hread : (run (perform env) between (st.call env c)).Owned env :=
    run_invariant (I := Owned env) owned_perform between (owned_call h c)
  have hsteps := run_invariant (I := Owned env) owned_perform later hread
  have hlater := ownsExecution_run later hread c.tenantID
  cases c with
  | startExecution executionID ids input
  | changeExecutionState tenantID executionID action actor requestID traceID
  | retryExecutionStep tenantID executionID stepID actor requestID traceID force
  | startExecutionRollback ids tenantID executionID actor requestID traceID =>
    exact belongs_readBack hread hsteps hlater (bind_answer ha)
  | getExecution tenantID executionID => exact belongs_readBack hread hsteps hlater ha
  | decideApproval tenantID approvalID decision actor reason requestID traceID =>
    replace ha := bind_answer ha
    split at ha
    · exact belongs_readBack hread hsteps hlater ha
    · cases ha
  | transitionIncident now transitionID input =>
    rw [answer] at ha
    rcases hcommit : (commit env.exclusive (transitionIncident now transitionID input)
      st.events).1 with e | row
    · rw [hcommit] at ha
      cases ha
    rw [hcommit] at ha
    obtain rfl := Except.ok.inj ha
    obtain ⟨c, hrun, -⟩ := commit_ok_inv hcommit
    obtain ⟨i, hi, ⟨htenant, hid⟩, -, ⟨j, hj, hsame, rfl⟩, -⟩ := transitionIncident_inv hrun
    obtain rfl := h.events.keyed.eq_of_key hj hi hsame
    refine ⟨htenant, fun n hn hlink => hread.counted (i := j) ?_ hn hlink⟩
    refine ownsIncident_run between (owned_call h _) ?_
    exact (fileStep_perform h.events env.exclusive _).ownsIncident ⟨j, hj, rfl, htenant⟩
  | getIncident tenantID incidentID =>
    rw [answer] at ha
    split at ha
    swap
    · cases ha
    rename_i details hdetails
    obtain rfl := Except.ok.inj ha
    obtain ⟨hmem, htenant, -⟩ := getIncident_some hdetails
    exact ⟨htenant, fun n hn hlink => hread.counted ⟨_, hmem, rfl, htenant⟩ hn hlink⟩

end Store

/-! ### The result -/

/-- **Tenants are separated.**  In every reachable state, a call with a tenant and any
identifiers leaves the executions, steps, approvals, incidents and transitions of all other
tenants as they were, and whatever happens between its transaction and the queries of its
answer, every row it returns belongs to its tenant. -/
theorem tenant_frame (env : StoreEnv) {st : Store} (hst : st.Reachable env) (c : TenantCall) :
    (st.runbooks.db.Frame c.tenantID (st.call env c).runbooks.db
        ∧ st.events.Frame c.tenantID (st.call env c).events)
      ∧ ∀ (between later : List StoreOp) (read steps : Store),
        read = run (Store.perform env) between (st.call env c) →
        steps = run (Store.perform env) later read →
        ∀ a, st.answer env c read steps = .ok a → a.BelongsTo c.tenantID read steps := by
  have howned := Store.owned_of_reachable hst
  refine ⟨Store.frame_call howned c, ?_⟩
  rintro between later _ _ rfl rfl a ha
  exact Store.belongs_answer howned c between later ha

def twoTenantsEnv : StoreEnv :=
  { platform := editions, exclusive := true, members := fun _ => [] }

def twoTenants : Store :=
  run (Store.perform twoTenantsEnv)
    [.applyRunbook
      { runbookID := "r", versionID := "v", input := { tenantID := "a", documentYAML := "1" }
        opened := { tenantID := "a", key := "restart", version := 1, found := none } },
      .execution
        (.startExecution "e" ["s"] { tenantID := "a", runbookKey := "restart" }) rfl]
    { runbooks := { oneRunbook with db := emptyDesk.db }
      events := { mockDB with tenants := ["a", "b"] } }

def foreignCancel : TenantCall :=
  .changeExecutionState "b" "e" .cancel "" "" ""

theorem tenant_frame_foreign :
    (twoTenants.runbooks.db.executions.map fun e => (e.id, e.tenantID)) = [("e", "a")]
      ∧ twoTenants.runbooks.db.Frame "b"
        (twoTenants.call twoTenantsEnv foreignCancel).runbooks.db :=
  ⟨by decide +kernel, (tenant_frame twoTenantsEnv
    ⟨_, _, ⟨⟨rfl, rfl, rfl, rfl⟩, rfl, ⟨⟨rfl, rfl, rfl, rfl, rfl⟩, rfl, rfl⟩⟩, rfl⟩
    foreignCancel).1.1⟩

end StormRelay
