/-
What each store transaction leaves behind.

For every method of the scheduler and of operator control, the equations that
say when it commits and what the tables are then; a method that does not commit
leaves the database as it was.  `audited` stands for the audit row a method
appends, which no method reads.

* `complete_outcome`, `mark_outcome` — the branches of `CompleteExecutionStep` and
  `MarkExecutionStepAmbiguous`, each with its guard.
-/
import StormRelay.Control

namespace StormRelay

open Tx Table

/-! ### Table projections -/

namespace DB

variable (db : DB)

def audited (entry : AuditEntry) : DB :=
  (db.appendAudit entry).2

@[simp] theorem updateSteps_fst (p : ExecutionStep → Bool) (f : ExecutionStep → ExecutionStep) :
    (db.updateSteps p f).1 = affected p db.steps := rfl

@[simp] theorem updateSteps_steps (p : ExecutionStep → Bool) (f : ExecutionStep → ExecutionStep) :
    (db.updateSteps p f).2.steps = update p f db.steps := rfl

@[simp] theorem updateSteps_executions (p : ExecutionStep → Bool)
    (f : ExecutionStep → ExecutionStep) :
    (db.updateSteps p f).2.executions = db.executions := rfl

@[simp] theorem updateExecutions_executions (p : Execution → Bool) (f : Execution → Execution) :
    (db.updateExecutions p f).2.executions = update p f db.executions := rfl

@[simp] theorem audited_steps (entry : AuditEntry) : (db.audited entry).steps = db.steps := rfl

@[simp] theorem audited_executions (entry : AuditEntry) :
    (db.audited entry).executions = db.executions := rfl

@[simp] theorem audited_approvals (entry : AuditEntry) :
    (db.audited entry).approvals = db.approvals := rfl

end DB

variable {x : Bool} {db : DB}

theorem appendAudit_idle (entry : AuditEntry) :
    appendAudit entry ⟨x, false, db⟩ = .ok ((), ⟨x, false, db.audited entry⟩) := by
  simp [appendAudit, DB.audited, pure_apply]

@[simp] theorem run_appendAudit {α : Type} (entry : AuditEntry) (k : Unit → Tx DB α) :
    (appendAudit entry >>= k) ⟨x, false, db⟩ = k () ⟨x, false, db.audited entry⟩ :=
  bind_ok (appendAudit_idle entry)

def bindableText (value : Option String) : Bool :=
  value.any textStorable

/-- A `jsonb` parameter that PostgreSQL accepts. -/
def bindableJSON (value : Option Json) : Bool :=
  value.all Json.storable

theorem bindText_some {text : String} (h : textStorable text = true) :
    (bindText (some text) : Tx DB String) = pure text :=
  if_pos h

theorem bindText_ok {value : Option String} (h : bindableText value = true) :
    ∃ text, value = some text ∧ (bindText value : Tx DB String) = pure text := by
  rcases value with _ | text
  · cases h
  · exact ⟨text, rfl, if_pos h⟩

theorem bindText_error {value : Option String} (h : bindableText value = false) (c : Conn DB) :
    ∃ message, bindText value c = .error (.failed message) := by
  rcases value with _ | text
  · exact ⟨_, rfl⟩
  · rw [bindText, if_neg (by simpa [bindableText] using h)]
    exact ⟨_, rfl⟩

theorem bindJSON_ok {value : Option Json} (h : bindableJSON value = true) :
    bindJSON value = pure value :=
  if_pos h

theorem bindJSON_error {value : Option Json} (h : bindableJSON value = false) (c : Conn DB) :
    ∃ message, bindJSON value c = .error (.failed message) := by
  rw [bindJSON, if_neg (by simpa [bindableJSON] using h)]
  exact ⟨_, rfl⟩

/-! ### Claiming -/

theorem claim_commit (now : Time) (locked : List String) (workerID : String) (limit lease : ℤ) :
    commit x (claimExecutionSteps now locked workerID limit lease) db
      = (.ok (claimUpdate now locked workerID (claimLimit limit) (claimLease lease) db).1,
        (claimUpdate now locked workerID (claimLimit limit) (claimLease lease) db).2) := by
  refine commit_ok ?_
  rw [claimExecutionSteps, run_query]
  rfl

variable {now : Time} {locked : List String} {actor id : String}

theorem mem_candidates {limit : ℕ} (h : id ∈ candidates db now locked limit) :
    ∃ es ∈ db.steps, es.id = id ∧ ∃ e, db.execution? es.executionID = some e
      ∧ claimable db now e es = true := by
  simp only [candidates] at h
  obtain ⟨c, hc, rfl⟩ := List.mem_map.mp h
  have hmem := (List.mem_insertionSort _).mp (List.mem_of_mem_take hc)
  obtain ⟨es, hes, hsel⟩ := List.mem_filterMap.mp hmem
  rcases he : db.execution? es.executionID with _ | e
  · simp [he] at hsel
  simp only [he] at hsel
  split at hsel
  · rename_i hcl
    obtain rfl := Option.some.inj hsel
    rw [Bool.and_eq_true] at hcl
    exact ⟨es, hes, rfl, e, he, hcl.1⟩
  · cases hsel

/-! ### Recovery -/

def recoverPass (now : Time) (actor : String) (db : DB) (item : ExecutionStep × String) : DB :=
  ((((db.updateSteps (fun es => es.id = item.1.id) (recoverRow now item.1)).2).updateExecutions
    (fun e => e.id = item.1.executionID) (recoverExecution now item.1)).2).audited
    { tenantID := item.2, actorType := "service", actorID := defaultText actor "runbook-recovery"
      action := "execution_step.lease_expired", resourceType := "execution_step"
      resourceID := item.1.id }

def expiredItems (now : Time) (locked order : List String) (db : DB) :
    List (ExecutionStep × String) :=
  (expiredRows now locked order db).map fun es => (es, tenantOf db es.executionID)

theorem expiredItems_fst (now : Time) (locked order : List String) (db : DB) :
    (expiredItems now locked order db).map Prod.fst = expiredRows now locked order db := by
  rw [expiredItems, List.map_map]
  exact List.map_id _

theorem recover_after (now : Time) (locked order : List String) (actor : String) :
    after x (recoverExpiredStepLeases now locked order actor) db
      = (expiredItems now locked order db).foldl (recoverPass now actor) db := by
  refine after_ok (a := (expiredItems now locked order db).length) ?_
  simp only [recoverExpiredStepLeases, run_query, run_scanAll, run_close]
  rw [bind_ok (each_eq_foldl (g := recoverPass now actor) ?_ _ _)]
  · rfl
  · rintro ⟨y, tenantID⟩ db'
    simp only [run_exec]
    exact appendAudit_idle _

theorem foldl_recoverPass_steps (now : Time) (actor : String)
    (items : List (ExecutionStep × String)) :
    (items.foldl (recoverPass now actor) db).steps
      = (items.map Prod.fst).foldl
          (fun t y => update (fun es => es.id = y.id) (recoverRow now y) t) db.steps := by
  rw [List.foldl_map]
  exact (List.foldl_hom DB.steps fun _ _ => rfl).symm

theorem foldl_recoverPass_executions (now : Time) (actor : String)
    (items : List (ExecutionStep × String)) :
    (items.foldl (recoverPass now actor) db).executions
      = (items.map Prod.fst).foldl
          (fun t y => update (fun e => e.id = y.executionID) (recoverExecution now y) t)
          db.executions := by
  rw [List.foldl_map]
  exact (List.foldl_hom DB.executions fun _ _ => rfl).symm

theorem foldl_recoverPass_approvals (now : Time) (actor : String)
    (items : List (ExecutionStep × String)) :
    (items.foldl (recoverPass now actor) db).approvals = db.approvals := by
  induction items generalizing db with
  | nil => rfl
  | cons item items ih => exact ih

/-! ### Finalisation -/

/-- The database after `finalizeExecutionIfDone`. -/
def finalizedDB (now : Time) (executionID : String) (db : DB) : DB :=
  match remainingSteps executionID db with
  | none => db
  | some (status, remaining) =>
    if remaining ≠ 0 ∨ (status ≠ .running ∧ status ≠ .rollingBack) then db
    else (db.updateExecutions (fun e => e.id = executionID)
      (finalizeRow now (if status = .rollingBack then .rolledBack else .completed))).2

theorem finalize_idle {executionID : String} (h : (remainingSteps executionID db).isSome) :
    finalizeExecutionIfDone now executionID ⟨x, false, db⟩
      = .ok ((), ⟨x, false, finalizedDB now executionID db⟩) := by
  obtain ⟨⟨status, remaining⟩, hrem⟩ := Option.isSome_iff_exists.mp h
  rw [finalizeExecutionIfDone, run_queryRow_some hrem, finalizedDB, hrem]
  simp only
  split
  · rfl
  · rw [run_exec]
    rfl

theorem DB.execution?_isSome :
    (db.execution? id).isSome ↔ ∃ e ∈ db.executions, e.id = id := by
  simp [DB.execution?]

/-- The finalisation query returns a row exactly for a stored execution with
at least one step. -/
theorem remainingSteps_isSome :
    (remainingSteps id db).isSome
      ↔ (∃ e ∈ db.executions, e.id = id) ∧ ∃ es ∈ db.steps, es.executionID = id := by
  rw [← DB.execution?_isSome, remainingSteps]
  rcases he : db.execution? id with _ | e
  · simp
  have hid : e.id = id := by simpa [DB.execution?] using List.find?_some he
  simp only
  split
  · rename_i hempty
    rw [List.isEmpty_iff, List.filter_eq_nil_iff] at hempty
    simpa [hid] using hempty
  · rename_i hempty
    rw [List.isEmpty_iff, List.filter_eq_nil_iff] at hempty
    simpa [hid] using hempty

@[simp] theorem finalizedDB_steps (now : Time) (executionID : String) :
    (finalizedDB now executionID db).steps = db.steps := by
  rw [finalizedDB]
  split
  · rfl
  · split <;> rfl

@[simp] theorem finalizedDB_approvals (now : Time) (executionID : String) :
    (finalizedDB now executionID db).approvals = db.approvals := by
  rw [finalizedDB]
  split
  · rfl
  · split <;> rfl

/-- Finalisation completes a running execution and ends a rollback; it touches
no other execution. -/
theorem finalizedDB_executions (db : DB) (now : Time) (executionID : String) :
    (finalizedDB now executionID db).executions = db.executions
      ∨ ∃ e final, db.execution? executionID = some e
        ∧ (e.status = .running ∨ e.status = .rollingBack)
        ∧ final ≠ .canceled ∧ (finalizedDB now executionID db).executions
          = update (fun e => e.id = executionID) (finalizeRow now final) db.executions := by
  rw [finalizedDB]
  rcases hrem : remainingSteps executionID db with _ | ⟨status, remaining⟩
  · exact .inl rfl
  simp only
  split
  · exact .inl rfl
  rename_i hopen
  rw [not_or] at hopen
  rw [remainingSteps] at hrem
  rcases he : db.execution? executionID with _ | e
  · rw [he] at hrem
    cases hrem
  rw [he] at hrem
  simp only at hrem
  split at hrem
  · cases hrem
  obtain ⟨rfl, -⟩ := Prod.mk.inj (Option.some.inj hrem)
  refine .inr ⟨e, _, rfl, ?_, ?_, rfl⟩
  · exact or_iff_not_imp_left.mpr fun hr => not_not.mp fun hb => hopen.2 ⟨hr, hb⟩
  · split <;> simp

theorem mem_finalizedDB_ids {a b : String} :
    (∃ e ∈ (finalizedDB now b db).executions, e.id = a) ↔ ∃ e ∈ db.executions, e.id = a := by
  obtain heq | ⟨_, final, -, -, -, heq⟩ := finalizedDB_executions db now b
  · rw [heq]
  rw [heq]
  constructor
  · rintro ⟨e', he', hid⟩
    obtain ⟨e, he, rfl⟩ := mem_update.mp he'
    rw [patch_column Execution.id rfl] at hid
    exact ⟨e, he, hid⟩
  rintro ⟨e, he, hid⟩
  refine ⟨_, mem_update_of_mem he, ?_⟩
  rw [patch_column Execution.id rfl]
  exact hid

theorem remainingSteps_finalizedDB {a b : String} :
    (remainingSteps a (finalizedDB now b db)).isSome ↔ (remainingSteps a db).isSome := by
  rw [remainingSteps_isSome, remainingSteps_isSome, mem_finalizedDB_ids, finalizedDB_steps]

/-- The loop that finalises executions stops at one that is not stored. -/
theorem finalizeAll_orphan {ids : List String} (hid : id ∈ ids)
    (hnone : ¬ (remainingSteps id db).isSome) :
    each ids (finalizeExecutionIfDone now) ⟨x, false, db⟩ = .error .noRows := by
  induction ids generalizing db with
  | nil => cases hid
  | cons a ids ih =>
    by_cases ha : (remainingSteps a db).isSome
    · -- This pass succeeds; the missing execution is still to come.
      have hne : id ≠ a := by
        rintro rfl
        exact hnone ha
      rw [each, bind_ok (finalize_idle ha)]
      refine ih ((List.mem_cons.mp hid).resolve_left hne) ?_
      rw [remainingSteps_finalizedDB]
      exact hnone
    · refine each_error ?_
      rw [finalizeExecutionIfDone]
      exact run_queryRow_none (by simpa using ha)

/-! ### Waits, timers and expired approvals -/

theorem scheduleWait_cases (x : Bool) (c : ClaimedStep) (until_ : Time) (actor : String) (db : DB) :
    after x (scheduleWait c until_ actor) db = db
      ∨ after x (scheduleWait c until_ actor) db
        = (db.updateSteps (fun es => leasedTo c.step.id actor es && es.status = .running)
          (waitRow until_)).2 := by
  rw [after_eq_settled, scheduleWait, run_exec]
  split
  · exact .inl rfl
  · exact .inr settled_ok

def timersDB (now : Time) (db : DB) : DB :=
  (db.updateSteps (waitDue now) (timerRow now)).2

theorem remainingSteps_timersDB {es : ExecutionStep} (hes : es ∈ db.steps) :
    (remainingSteps es.executionID (timersDB now db)).isSome
      ↔ ∃ e ∈ db.executions, e.id = es.executionID := by
  rw [remainingSteps_isSome]
  refine and_iff_left ⟨_, mem_update_of_mem hes, ?_⟩
  exact patch_column ExecutionStep.executionID rfl

def wokenDB (now : Time) (db : DB) : DB :=
  ((db.steps.filter (waitDue now)).map fun es => es.executionID).foldl
    (fun db id => finalizedDB now id db) (timersDB now db)

def expiredApprovals (now : Time) (locked : List String) (db : DB) : List (Approval × String) :=
  (db.approvals.filter (approvalExpired db now locked)).map fun a =>
    (a, executionOf db a.executionStepID)

def expirePass (now : Time) (actor : String) (db : DB) (item : Approval × String) : DB :=
  ((((db.updateApprovals (fun y => y.id = item.1.id) (expireApproval now)).2.updateSteps
    (fun es => es.id = item.1.executionStepID) (expireRow now)).2).updateExecutions
    (fun e => e.id = item.2) (expireExecution now)).2.audited
    { tenantID := item.1.tenantID, actorType := "service"
      actorID := defaultText actor "runbook-timer"
      action := "approval.expired", resourceType := "approval", resourceID := item.1.id }

@[simp] theorem wokenDB_steps (now : Time) (db : DB) :
    (wokenDB now db).steps = update (waitDue now) (timerRow now) db.steps := by
  have h : ∀ (ids : List String) (db : DB),
      (ids.foldl (fun db id => finalizedDB now id db) db).steps = db.steps := by
    intro ids
    induction ids with
    | nil => exact fun _ => rfl
    | cons id ids ih => exact fun db => (ih _).trans (finalizedDB_steps now id)
  exact h _ _

@[simp] theorem wokenDB_approvals (now : Time) (db : DB) :
    (wokenDB now db).approvals = db.approvals := by
  have h : ∀ (ids : List String) (db : DB),
      (ids.foldl (fun db id => finalizedDB now id db) db).approvals = db.approvals := by
    intro ids
    induction ids with
    | nil => exact fun _ => rfl
    | cons id ids ih => exact fun db => (ih _).trans (finalizedDB_approvals now id)
  exact h _ _

theorem expiredApprovals_wokenDB (now : Time) (locked : List String) (db : DB) :
    expiredApprovals now locked (wokenDB now db) = expiredApprovals now locked db := by
  have hstep : ∀ stepID, (wokenDB now db).step? stepID
      = (db.step? stepID).map (patch (waitDue now) (timerRow now)) := by
    intro stepID
    rw [DB.step?, DB.step?, wokenDB_steps, update, List.find?_map]
    congr 2
    funext es
    simp only [Function.comp]
    rw [patch_column ExecutionStep.id rfl]
  have hexp : approvalExpired (wokenDB now db) now locked = approvalExpired db now locked := by
    funext a
    simp only [approvalExpired, hstep, Option.isSome_map]
  have howner : ∀ stepID, executionOf (wokenDB now db) stepID = executionOf db stepID := by
    intro stepID
    rw [executionOf, executionOf, hstep, Option.map_map]
    congr 2
    funext es
    exact patch_column ExecutionStep.executionID rfl
  rw [expiredApprovals, expiredApprovals, wokenDB_approvals, hexp]
  exact List.map_congr_left fun a _ => by rw [howner]

def WaitsOwned (now : Time) (db : DB) : Prop :=
  ∀ es ∈ db.steps, waitDue now es = true → ∃ e ∈ db.executions, e.id = es.executionID

/-- The part of `AdvanceRunbookTimers` before the expiry loop: it needs every
due wait to belong to a stored execution. -/
theorem advance_prepare {α : Type} (howner : WaitsOwned now db) (k : Unit → Tx DB α) :
    (each ((db.steps.filter (waitDue now)).map fun es => es.executionID)
        (finalizeExecutionIfDone now) >>= k) ⟨x, false, timersDB now db⟩
      = k () ⟨x, false, wokenDB now db⟩ := by
  refine bind_ok (each_eq_foldl_of (P := fun db' => ∀ es ∈ db.steps, waitDue now es = true →
    (remainingSteps es.executionID db').isSome) ?_ ?_)
  · intro id hid db' hP
    obtain ⟨es, hes, rfl⟩ := List.mem_map.mp hid
    obtain ⟨hmem, hdue⟩ := List.mem_filter.mp hes
    exact ⟨finalize_idle (hP es hmem hdue),
      fun es' hes' hdue' => remainingSteps_finalizedDB.mpr (hP es' hes' hdue')⟩
  · exact fun es hes hdue => (remainingSteps_timersDB hes).mpr (howner es hes hdue)

theorem advance_orphan (horphan : ¬ WaitsOwned now db) :
    advanceRunbookTimers now locked actor ⟨x, false, db⟩ = .error .noRows := by
  simp only [WaitsOwned, not_forall] at horphan
  obtain ⟨es, hes, hdue, hnone⟩ := horphan
  simp only [advanceRunbookTimers, run_query, run_scanAll, run_close]
  have hid : es.executionID ∈ (db.steps.filter (waitDue now)).map fun es => es.executionID :=
    List.mem_map_of_mem (List.mem_filter.mpr ⟨hes, hdue⟩)
  refine bind_error (finalizeAll_orphan hid fun hsome => hnone ?_)
  exact (remainingSteps_timersDB hes).mp hsome

/-- `AdvanceRunbookTimers` commits when the connection tolerates statements
inside the expiry loop, or the loop has nothing to do. -/
theorem advance_run (howner : WaitsOwned now db)
    (h : x = false ∨ expiredApprovals now locked (wokenDB now db) = []) :
    advanceRunbookTimers now locked actor ⟨x, false, db⟩
      = .ok (((db.steps.filter (waitDue now)).map fun es => es.executionID).length,
          ⟨x, false, (expiredApprovals now locked (wokenDB now db)).foldl (expirePass now actor)
            (wokenDB now db)⟩) := by
  simp only [advanceRunbookTimers, run_query, run_scanAll, run_close]
  rw [show (db.updateSteps (waitDue now) (timerRow now)).2 = timersDB now db from rfl,
    advance_prepare howner]
  simp only [run_query, eachRow, run_bind]
  change (each (expiredApprovals now locked (wokenDB now db)) _ >>= _) _ = _
  rcases h with rfl | hnone
  · rw [bind_ok (each_eq_foldl (g := expirePass now actor) ?_ _ _)]
    · rfl
    · rintro ⟨a, executionID⟩ db'
      rfl
  · rw [hnone]
    rfl

/-- On an exclusive connection the first expired approval ends the
transaction. -/
theorem advance_busy (howner : WaitsOwned now db)
    (h : expiredApprovals now locked (wokenDB now db) ≠ []) :
    advanceRunbookTimers now locked actor ⟨true, false, db⟩ = .error .connBusy := by
  obtain ⟨item, items, hitems⟩ := List.exists_cons_of_ne_nil h
  simp only [advanceRunbookTimers, run_query, run_scanAll, run_close]
  rw [show (db.updateSteps (waitDue now) (timerRow now)).2 = timersDB now db from rfl,
    advance_prepare howner]
  simp only [run_query, eachRow, run_bind]
  change (each (expiredApprovals now locked (wokenDB now db)) _ >>= _) _ = _
  rw [hitems]
  exact bind_error (each_error rfl)

/-- **What `AdvanceRunbookTimers` leaves behind.**  On an exclusive connection an
expired approval ends the transaction. -/
inductive AdvanceOutcome (x : Bool) (now : Time) (locked : List String) (actor : String)
    (db : DB) : DB → Prop
  | busy (hx : x = true) (h : expiredApprovals now locked db ≠ []) :
      AdvanceOutcome x now locked actor db db
  | advanced (h : x = false ∨ expiredApprovals now locked db = []) :
      AdvanceOutcome x now locked actor db
        ((expiredApprovals now locked db).foldl (expirePass now actor) (wokenDB now db))

theorem advance_outcome (x : Bool) (now : Time) (howner : WaitsOwned now db)
    (locked : List String) (actor : String) :
    AdvanceOutcome x now locked actor db (after x (advanceRunbookTimers now locked actor) db) := by
  have hitems := expiredApprovals_wokenDB now locked db
  by_cases hok : x = false ∨ expiredApprovals now locked db = []
  · rw [← hitems] at hok
    rw [after_ok (advance_run howner hok), hitems]
    rw [hitems] at hok
    exact .advanced hok
  rw [not_or, Bool.not_eq_false] at hok
  obtain ⟨rfl, hsome⟩ := hok
  rw [after_error (advance_busy howner (hitems ▸ hsome))]
  exact .busy rfl hsome

theorem foldl_expirePass_steps (now : Time) (actor : String) (items : List (Approval × String)) :
    (items.foldl (expirePass now actor) db).steps
      = items.foldl
          (fun t item => update (fun es => es.id = item.1.executionStepID) (expireRow now) t)
          db.steps :=
  (List.foldl_hom DB.steps fun _ _ => rfl).symm

theorem foldl_expirePass_executions (now : Time) (actor : String)
    (items : List (Approval × String)) :
    (items.foldl (expirePass now actor) db).executions
      = items.foldl (fun t item => update (fun e => e.id = item.2) (expireExecution now) t)
          db.executions :=
  (List.foldl_hom DB.executions fun _ _ => rfl).symm

theorem foldl_expirePass_approvals (now : Time) (actor : String)
    (items : List (Approval × String)) :
    (items.foldl (expirePass now actor) db).approvals
      = items.foldl (fun t item => update (fun a => a.id = item.1.id) (expireApproval now) t)
          db.approvals :=
  (List.foldl_hom DB.approvals fun _ _ => rfl).symm

/-! ### Completion -/

@[simp] theorem run_updateLeased {α : Type} (stepID workerID : String)
    (f : ExecutionStep → ExecutionStep) (k : Unit → Tx DB α) :
    (updateLeased stepID workerID f >>= k) ⟨x, false, db⟩
      = k () ⟨x, false, (db.updateSteps (leasedTo stepID workerID) f).2⟩ := by
  rw [updateLeased, run_bind, run_exec]
  rfl

section Complete

variable {pf : Platform} {now : Time} {c : ClaimedStep} {workerID : String} {status : StepStatus}
  {output : Option Json} {row : ExecutionStep} {tenantID : String} {executionErr : Option String}

def completionBindable (output : Option Json) (executionErr : Option String) : Bool :=
  match executionErr with
  | none => bindableJSON output
  | some err => bindableText (truncate err 1000)

/-- **What `CompleteExecutionStep` leaves behind** for a claim whose stored row is
`row`: nothing changes, or the row is closed, scheduled again or failed. -/
inductive CompleteOutcome (now : Time) (c : ClaimedStep) (workerID : String) (status : StepStatus)
    (output : Option Json) (row : ExecutionStep) (db : DB) : Option String → DB → Prop
  | refused {executionErr : Option String}
      (h : ¬ (row.status.inFlight = true ∧ completionBindable output executionErr = true)) :
      CompleteOutcome now c workerID status output row db executionErr db
  | success (hin : row.status.inFlight = true) (hbind : completionBindable output none = true)
      (entry : AuditEntry) :
      CompleteOutcome now c workerID status output row db none
        ((finalizedDB now c.step.executionID (db.updateSteps (leasedTo c.step.id workerID)
          (completeRow now (completionStatus status) output)).2).audited entry)
  | retry {err message : String} {backoff : ℤ} (hin : row.status.inFlight = true)
      (hbind : completionBindable output (some err) = true)
      (hlt : (row.attemptCount : ℤ) < row.retryPolicy.maxAttempts) (entry : AuditEntry) :
      CompleteOutcome now c workerID status output row db (some err)
        ((db.updateSteps (leasedTo c.step.id workerID)
          (retryLaterRow now message backoff)).2.audited entry)
  | fail {err message : String} (hin : row.status.inFlight = true)
      (hbind : completionBindable output (some err) = true)
      (hmax : row.retryPolicy.maxAttempts ≤ row.attemptCount) (entry : AuditEntry) :
      CompleteOutcome now c workerID status output row db (some err)
        (((db.updateSteps (leasedTo c.step.id workerID) (failRow now message)).2.updateExecutions
          (fun e => e.id = c.step.executionID) (failExecution now message)).2.audited entry)

theorem complete_outcome (x : Bool) (pf : Platform) (now : Time) (workerID : String)
    (status : StepStatus) (output : Option Json) (executionErr : Option String)
    (h : stepWithTenant c.step.id db = some (row, tenantID))
    (hrem : (remainingSteps c.step.executionID db).isSome) :
    CompleteOutcome now c workerID status output row db executionErr
      (after x (completeExecutionStep pf now c workerID status output executionErr) db) := by
  rw [after_eq_settled, completeExecutionStep, run_queryRow_some h]
  by_cases hin : row.status.inFlight = true
  swap
  · simp only [Bool.not_eq_true _ ▸ hin, if_true]
    exact .refused fun hno => hin hno.1
  simp only [hin, Bool.true_eq_false, if_false]
  rcases executionErr with _ | err
  · by_cases hbind : completionBindable output none = true
    swap
    · obtain ⟨message, hm⟩ := bindJSON_error (Bool.not_eq_true _ ▸ hbind) ⟨x, false, db⟩
      simp only [bind_error hm]
      exact .refused fun hno => hbind hno.2
    simp only [bindJSON_ok hbind, run_pure, run_updateLeased]
    rw [bind_ok (finalize_idle ?_), appendAudit_idle, settled_ok]
    · exact .success hin hbind _
    rw [remainingSteps_isSome] at hrem ⊢
    obtain ⟨hexec, es, hes, hid⟩ := hrem
    exact ⟨hexec, _, mem_update_of_mem hes, (patch_column ExecutionStep.executionID rfl).trans hid⟩
  by_cases hbind : completionBindable output (some err) = true
  swap
  · obtain ⟨message, hm⟩ := bindText_error (Bool.not_eq_true _ ▸ hbind) ⟨x, false, db⟩
    simp only [bind_error hm]
    exact .refused fun hno => hbind hno.2
  obtain ⟨message, -, hpure⟩ := bindText_ok hbind
  simp only [hpure, run_pure]
  by_cases hlt : (row.attemptCount : ℤ) < row.retryPolicy.maxAttempts
  · simp only [if_pos hlt, run_updateLeased]
    rw [appendAudit_idle, settled_ok]
    exact .retry hin hbind hlt _
  · simp only [if_neg hlt, run_updateLeased, run_exec]
    rw [appendAudit_idle, settled_ok]
    exact .fail hin hbind (not_lt.mp hlt) _

/-! ### `MarkExecutionStepAmbiguous` -/

/-- What `MarkExecutionStepAmbiguous` leaves behind. -/
inductive MarkOutcome (now : Time) (c : ClaimedStep) (workerID : String)
    (executionErr : Option String) (db : DB) : DB → Prop
  | refused
      (h : ¬ (bindableText (ambiguousMessage executionErr) = true
        ∧ affected (fun es => leasedTo c.step.id workerID es && es.status.inFlight) db.steps = 1)) :
      MarkOutcome now c workerID executionErr db db
  | marked {message : String} (hbind : bindableText (ambiguousMessage executionErr) = true)
      (haff : affected (fun es => leasedTo c.step.id workerID es && es.status.inFlight)
        db.steps = 1) (entry : AuditEntry) :
      MarkOutcome now c workerID executionErr db
        (((db.updateSteps (fun es => leasedTo c.step.id workerID es && es.status.inFlight)
          (ambiguousRow now message)).2.updateExecutions (fun e => e.id = c.step.executionID)
            (ambiguousExecution now message)).2.audited entry)

theorem mark_outcome (x : Bool) (now : Time) (c : ClaimedStep) (workerID : String)
    (executionErr : Option String) (db : DB) :
    MarkOutcome now c workerID executionErr db
      (after x (markExecutionStepAmbiguous now c workerID executionErr) db) := by
  rw [after_eq_settled, markExecutionStepAmbiguous]
  by_cases hbind : bindableText (ambiguousMessage executionErr) = true
  swap
  · obtain ⟨message, hm⟩ := bindText_error (by simpa using hbind) ⟨x, false, db⟩
    rw [bind_error hm]
    exact .refused fun hno => hbind hno.1
  obtain ⟨message, -, hpure⟩ := bindText_ok hbind
  rw [hpure, run_pure, run_exec, DB.updateSteps_fst]
  by_cases haff : affected (fun es => leasedTo c.step.id workerID es && es.status.inFlight)
      db.steps = 1
  · rw [if_neg (not_not.mpr haff), run_exec, appendAudit_idle, settled_ok]
    exact .marked hbind haff _
  · rw [if_pos haff]
    exact .refused fun hno => haff hno.2

end Complete

end StormRelay
