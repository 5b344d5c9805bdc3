/-
What the approval and control transactions leave behind.

The counterpart of `Outcome` for `OpenApproval`, `DecideApproval`,
`ChangeExecutionState`, `RetryExecutionStep`, `StartExecutionRollback` and
`StartExecution`.

* `insertRollbackSteps_ok`, `insertForwardSteps_ok` — the two insertion loops
  append rows one position after the other, none in conflict with another.
-/
import StormRelay.Outcome

namespace StormRelay

open Tx Table

variable {x : Bool} {db : DB} {now : Time}

/-! ### `OpenApproval` -/

/-- An approval request either finds the row of the step, and changes nothing,
or appends its own. -/
theorem insertApproval_cases {a out : Approval} {db' : DB}
    (h : DB.insertApproval a db = .ok (out, db')) :
    (out ∈ db.approvals ∧ out.executionStepID = a.executionStepID ∧ db' = db)
      ∨ (out = a ∧ (∀ y ∈ db.approvals, y.executionStepID ≠ a.executionStepID ∧ y.id ≠ a.id)
        ∧ (∃ es ∈ db.steps, es.id = a.executionStepID)
        ∧ db' = { db with approvals := db.approvals ++ [a] }) := by
  rw [DB.insertApproval] at h
  rcases hfind : db.approvals.find? fun y => y.executionStepID = a.executionStepID with _ | old
  · rw [hfind] at h
    simp only at h
    split at h
    · cases h
    rename_i hid
    split at h
    · rename_i hstep
      obtain ⟨rfl, rfl⟩ := ok_inj h
      refine .inr ⟨rfl, fun y hy => ⟨?_, ?_⟩, ?_, rfl⟩
      · simpa using List.find?_eq_none.mp hfind y hy
      · exact fun he => hid (List.any_eq_true.mpr ⟨y, hy, by simpa using he⟩)
      · simpa using hstep
    · cases h
  · rw [hfind] at h
    obtain ⟨rfl, rfl⟩ := ok_inj h
    exact .inl ⟨List.mem_of_find?_eq_some hfind, by simpa using List.find?_some hfind, rfl⟩

theorem insertApproval_ok {a : Approval} (hstep : ∃ es ∈ db.steps, es.id = a.executionStepID)
    (hfree : (∃ y ∈ db.approvals, y.executionStepID = a.executionStepID)
      ∨ ∀ y ∈ db.approvals, y.id ≠ a.id) :
    ∃ written, DB.insertApproval a db = .ok written := by
  rw [DB.insertApproval]
  rcases hfind : db.approvals.find? fun y => y.executionStepID = a.executionStepID with _ | old
  · have hids : ∀ y ∈ db.approvals, y.id ≠ a.id := hfree.resolve_left fun ⟨y, hy, he⟩ => by
      simpa [he] using List.find?_eq_none.mp hfind y hy
    obtain ⟨es, hes, hid⟩ := hstep
    rw [hfind]
    simp only
    rw [if_neg (by simpa using hids),
      if_pos (List.any_eq_true.mpr ⟨es, hes, by simpa using hid⟩)]
    exact ⟨_, rfl⟩
  · rw [hfind]
    exact ⟨_, rfl⟩

/-- The request has what `OpenApproval` needs: a prompt that can be stored, the
lease of the step, and an identifier that is free unless the step has an
approval already. -/
structure CanRequest (approvalID workerID prompt : String) (c : ClaimedStep) (db : DB) : Prop where
  prompt : textStorable prompt = true
  leased : affected (leasedTo c.step.id workerID) db.steps = 1
  free : (∃ a ∈ db.approvals, a.executionStepID = c.step.id)
    ∨ ∀ a ∈ db.approvals, a.id ≠ approvalID

/-- **What `OpenApproval` leaves behind**: nothing changes, or the step waits, for
the approval it has already or for a new one. -/
inductive OpenOutcome (now : Time) (approvalID workerID prompt : String) (c : ClaimedStep)
    (expiresAt : Option Time) (db : DB) : DB → Prop
  | refused (h : ¬ CanRequest approvalID workerID prompt c db) :
      OpenOutcome now approvalID workerID prompt c expiresAt db db
  | known {out : Approval} (h : CanRequest approvalID workerID prompt c db)
      (hout : out ∈ db.approvals) (hstep : out.executionStepID = c.step.id) (entry : AuditEntry) :
      OpenOutcome now approvalID workerID prompt c expiresAt db
        (((db.updateSteps (leasedTo c.step.id workerID)
          (waitingApprovalRow out.id prompt)).2.updateExecutions
          (fun e => e.id = c.step.executionID) (waitingApprovalExecution now)).2.audited entry)
  | requested (h : CanRequest approvalID workerID prompt c db)
      (hfree : ∀ a ∈ db.approvals, a.executionStepID ≠ c.step.id ∧ a.id ≠ approvalID)
      (entry : AuditEntry) :
      OpenOutcome now approvalID workerID prompt c expiresAt db
        (((DB.updateSteps (leasedTo c.step.id workerID) (waitingApprovalRow approvalID prompt)
          { db with
            approvals := db.approvals ++ [newApproval now approvalID c prompt expiresAt]
          }).2.updateExecutions
          (fun e => e.id = c.step.executionID) (waitingApprovalExecution now)).2.audited entry)

theorem open_outcome (x : Bool) (now : Time) (approvalID workerID prompt : String)
    (c : ClaimedStep) (expiresAt : Option Time) (db : DB) :
    OpenOutcome now approvalID workerID prompt c expiresAt db
      (after x (openApproval now approvalID c workerID prompt expiresAt) db) := by
  rw [after_eq_settled, openApproval]
  by_cases hprompt : textStorable prompt = true
  swap
  · obtain ⟨message, hm⟩ := bindText_error
      (show bindableText (some prompt) = false from Bool.not_eq_true _ ▸ hprompt) ⟨x, false, db⟩
    rw [bind_error hm]
    exact .refused fun hno => hprompt hno.prompt
  rw [bindText_some hprompt, run_pure]
  rcases hins : DB.insertApproval (newApproval now approvalID c prompt expiresAt) db with
    message | ⟨out, db'⟩
  · rw [run_statement_error hins]
    refine .refused fun hno => ?_
    -- The leased row is the stored step that the new approval refers to.
    obtain ⟨r, hr, hl⟩ := exists_of_affected hno.leased
    obtain ⟨written, hok⟩ := insertApproval_ok
      (a := newApproval now approvalID c prompt expiresAt) ⟨r, hr, leasedTo_id hl⟩ hno.free
    rw [hok] at hins
    cases hins
  rw [run_statement_ok hins, run_exec, DB.updateSteps_fst]
  by_cases haff : affected (leasedTo c.step.id workerID) db'.steps = 1
  · rw [if_neg (not_not.mpr haff), run_exec, run_appendAudit, pure_apply, settled_ok]
    obtain ⟨hout, hid, rfl⟩ | ⟨rfl, hfree, -, rfl⟩ := insertApproval_cases hins
    · exact .known ⟨hprompt, haff, .inl ⟨out, hout, hid⟩⟩ hout hid _
    · have hcan : CanRequest approvalID workerID prompt c db :=
        ⟨hprompt, haff, .inr fun a ha => (hfree a ha).2⟩
      exact .requested hcan hfree _
  rw [if_pos haff]
  refine .refused fun hno => haff ?_
  obtain ⟨-, -, rfl⟩ | ⟨-, -, -, rfl⟩ := insertApproval_cases hins
  · exact hno.leased
  · exact hno.leased

/-! ### `DecideApproval` -/

section Decide

variable {tenantID approvalID actor reason requestID traceID : String} {decision : Decision}
  {a : Approval} {es : ExecutionStep}

/-- The approval is pending, the decision is one of the two, and its reason
can be stored. -/
structure AwaitsDecision (db : DB) (tenantID approvalID : String) (decision : Decision)
    (reason : String) (a : Approval) (es : ExecutionStep) : Prop where
  decision : decision = .approved ∨ decision = .rejected
  found : approvalWithStep tenantID approvalID db = some (a, es)
  pending : a.status = .pending
  reason : textStorable reason = true

theorem approvalWithStep_some (h : approvalWithStep tenantID approvalID db = some (a, es)) :
    a ∈ db.approvals ∧ a.id = approvalID ∧ es ∈ db.steps ∧ es.id = a.executionStepID := by
  simp only [approvalWithStep, Option.bind_eq_bind, Option.bind_eq_some_iff] at h
  obtain ⟨b, hb, es', hes, hpair⟩ := h
  obtain ⟨rfl, rfl⟩ := Prod.mk.inj (Option.some.inj hpair)
  have hkey := List.find?_some hb
  have hid := List.find?_some hes
  simp only [Bool.and_eq_true, decide_eq_true_eq] at hkey hid
  exact ⟨List.mem_of_find?_eq_some hb, hkey.2, List.mem_of_find?_eq_some hes, hid⟩

theorem AwaitsDecision.unique {a' : Approval} {es' : ExecutionStep}
    (h : AwaitsDecision db tenantID approvalID decision reason a es)
    (h' : AwaitsDecision db tenantID approvalID decision reason a' es') : a = a' ∧ es = es' :=
  Prod.mk.inj (Option.some.inj (h.found.symm.trans h'.found))

def decidedDB (now : Time) (decision : Decision) (approvalID actor reason : String)
    (es : ExecutionStep) (db : DB) : DB :=
  ((db.updateApprovals (fun y => y.id = approvalID)
    (decideApprovalRow now decision actor reason)).2.updateSteps (fun y => y.id = es.id)
    (decidedRow now decision approvalID actor reason)).2

theorem decide_approved_run (x : Bool) (now : Time) (actor requestID traceID : String)
    (h : AwaitsDecision db tenantID approvalID .approved reason a es)
    (hexec : ∃ e ∈ db.executions, e.id = es.executionID) :
    ∃ u entry, decideApproval now tenantID approvalID .approved actor reason requestID traceID
        ⟨x, false, db⟩
      = .ok (u, ⟨x, false, (finalizedDB now es.executionID
          ((decidedDB now .approved approvalID actor reason es db).updateExecutions
            (fun e => e.id = es.executionID) (approvedExecution now)).2).audited entry⟩) := by
  obtain ⟨-, -, hes, -⟩ := approvalWithStep_some h.found
  rw [decideApproval, if_neg (by simp), run_queryRow_some h.found]
  simp only
  rw [if_neg (not_not.mpr h.pending), bindText_some h.reason, run_pure, run_exec, run_exec]
  simp only [if_true]
  rw [run_exec, bind_ok (finalize_idle ?_)]
  · exact ⟨_, _, appendAudit_idle _⟩
  rw [remainingSteps_isSome]
  obtain ⟨e, he, hid⟩ := hexec
  exact ⟨⟨_, mem_update_of_mem he, (patch_column Execution.id rfl).trans hid⟩,
    _, mem_update_of_mem hes, patch_column ExecutionStep.executionID rfl⟩

theorem decide_rejected_run (x : Bool) (now : Time) (actor requestID traceID : String)
    (h : AwaitsDecision db tenantID approvalID .rejected reason a es) :
    ∃ u entry, decideApproval now tenantID approvalID .rejected actor reason requestID traceID
        ⟨x, false, db⟩
      = .ok (u, ⟨x, false, ((decidedDB now .rejected approvalID actor reason es
          db).updateExecutions (fun e => e.id = es.executionID)
            (rejectedExecution now)).2.audited entry⟩) := by
  rw [decideApproval, if_neg (by simp), run_queryRow_some h.found]
  simp only
  rw [if_neg (not_not.mpr h.pending), bindText_some h.reason, run_pure, run_exec, run_exec,
    if_neg (by simp), run_exec]
  exact ⟨_, _, appendAudit_idle _⟩

theorem decide_fails (x : Bool) (now : Time) (actor requestID traceID : String)
    (h : ∀ a es, ¬ AwaitsDecision db tenantID approvalID decision reason a es) :
    ∃ e, decideApproval now tenantID approvalID decision actor reason requestID traceID
      ⟨x, false, db⟩ = .error e := by
  by_cases hd : decision ≠ .approved ∧ decision ≠ .rejected
  · refine ⟨.failed "decision must be approved or rejected", ?_⟩
    rw [decideApproval, if_pos hd]
    rfl
  rcases hfound : approvalWithStep tenantID approvalID db with _ | ⟨a, es⟩
  · refine ⟨.noRows, ?_⟩
    rw [decideApproval, if_neg hd, run_queryRow_none hfound]
  by_cases hp : a.status = .pending
  · have hr : textStorable reason = false := by
      rw [← Bool.not_eq_true]
      exact fun hr => h a es ⟨by tauto, hfound, hp, hr⟩
    obtain ⟨message, hm⟩ := bindText_error
      (show bindableText (some reason) = false from hr) ⟨x, false, db⟩
    refine ⟨.failed message, ?_⟩
    rw [decideApproval, if_neg hd, run_queryRow_some hfound]
    simp only
    rw [if_neg (not_not.mpr hp), bind_error hm]
  refine ⟨.failed ("approval is already " ++ a.status.text), ?_⟩
  rw [decideApproval, if_neg hd, run_queryRow_some hfound]
  simp only
  rw [if_pos hp]
  rfl

/-- **What `DecideApproval` leaves behind.** -/
inductive DecideOutcome (now : Time) (tenantID approvalID actor reason : String) (db : DB) :
    Decision → DB → Prop
  | refused {decision : Decision}
      (h : ∀ a es, ¬ AwaitsDecision db tenantID approvalID decision reason a es) :
      DecideOutcome now tenantID approvalID actor reason db decision db
  | approved {a : Approval} {es : ExecutionStep}
      (h : AwaitsDecision db tenantID approvalID .approved reason a es) (entry : AuditEntry) :
      DecideOutcome now tenantID approvalID actor reason db .approved
        ((finalizedDB now es.executionID
          ((decidedDB now .approved approvalID actor reason es db).updateExecutions
            (fun e => e.id = es.executionID) (approvedExecution now)).2).audited entry)
  | rejected {a : Approval} {es : ExecutionStep}
      (h : AwaitsDecision db tenantID approvalID .rejected reason a es) (entry : AuditEntry) :
      DecideOutcome now tenantID approvalID actor reason db .rejected
        (((decidedDB now .rejected approvalID actor reason es db).updateExecutions
          (fun e => e.id = es.executionID) (rejectedExecution now)).2.audited entry)

theorem decide_outcome (x : Bool) (now : Time) (tenantID approvalID : String) (decision : Decision)
    (actor reason requestID traceID : String)
    (hexec : ∀ es ∈ db.steps, ∃ e ∈ db.executions, e.id = es.executionID) :
    DecideOutcome now tenantID approvalID actor reason db decision
      (after x (decideApproval now tenantID approvalID decision actor reason requestID traceID)
        db) := by
  by_cases hok : ∃ a es, AwaitsDecision db tenantID approvalID decision reason a es
  · obtain ⟨a, es, h⟩ := hok
    obtain ⟨-, -, hes, -⟩ := approvalWithStep_some h.found
    rcases h.decision with rfl | rfl
    · obtain ⟨u, entry, hm⟩ := decide_approved_run x now actor requestID traceID h (hexec es hes)
      rw [after_ok hm]
      exact .approved h entry
    · obtain ⟨u, entry, hm⟩ := decide_rejected_run x now actor requestID traceID h
      rw [after_ok hm]
      exact .rejected h entry
  · obtain ⟨e, he⟩ := decide_fails x now actor requestID traceID fun a es h => hok ⟨a, es, h⟩
    rw [after_error he]
    exact .refused fun a es h => hok ⟨a, es, h⟩

/-- **A decision commits exactly when the approval awaits it.** -/
theorem decide_succeeds_iff
    (hexec : ∀ es ∈ db.steps, ∃ e ∈ db.executions, e.id = es.executionID) :
    succeeds x (decideApproval now tenantID approvalID decision actor reason requestID traceID) db
        = true
      ↔ ∃ a es, AwaitsDecision db tenantID approvalID decision reason a es := by
  constructor
  · intro h
    by_contra hno
    obtain ⟨e, he⟩ := decide_fails x now actor requestID traceID
      fun a es hes => hno ⟨a, es, hes⟩
    obtain ⟨u, c, hm, -⟩ := succeeds_inv h
    rw [he] at hm
    cases hm
  rintro ⟨a, es, h⟩
  obtain ⟨-, -, hes, -⟩ := approvalWithStep_some h.found
  rcases h.decision with rfl | rfl
  · obtain ⟨u, entry, hm⟩ := decide_approved_run x now actor requestID traceID h (hexec es hes)
    exact succeeds_ok hm
  · obtain ⟨u, entry, hm⟩ := decide_rejected_run x now actor requestID traceID h
    exact succeeds_ok hm

end Decide

/-! ### `ChangeExecutionState` -/

section Change

variable {tenantID executionID actor requestID traceID : String} {e : Execution}

/-- The states `ChangeExecutionState` accepts for an action. -/
def actionAllowed : ControlAction → ExecutionStatus → Bool
  | .pause, status => status = .running
  | .resume, status => status = .paused
  | .cancel, status => status ≠ .completed && status ≠ .canceled && status ≠ .rolledBack
  | .other _, _ => false

theorem change_error {action : ControlAction}
    (h : ∀ e, ownedExecution tenantID executionID db = some e →
      actionAllowed action e.status = false) :
    after x (changeExecutionState now tenantID executionID action actor requestID traceID) db
      = db := by
  rcases he : ownedExecution tenantID executionID db with _ | e
  · refine after_error (e := .noRows) ?_
    rw [changeExecutionState, run_queryRow_none he]
  have hno := h e he
  rw [changeExecutionState]
  cases action with
  | pause =>
    refine after_error (e := .failed "only running execution can be paused") ?_
    rw [run_queryRow_some he]
    simp only [actionAllowed, decide_eq_false_iff_not] at hno
    simp only [ne_eq, hno, not_false_eq_true, if_true]
    rfl
  | resume =>
    refine after_error (e := .failed "only paused execution can be resumed") ?_
    rw [run_queryRow_some he]
    simp only [actionAllowed, decide_eq_false_iff_not] at hno
    simp only [ne_eq, hno, not_false_eq_true, if_true]
    rfl
  | cancel =>
    refine after_error (e := .failed "execution is already terminal") ?_
    rw [run_queryRow_some he]
    have hterm : e.status = .completed ∨ e.status = .canceled ∨ e.status = .rolledBack := by
      cases hs : e.status <;> simp [actionAllowed, hs] at hno <;> simp
    simp only [hterm, if_true]
    rfl
  | other text =>
    refine after_error (e := .failed ("unsupported execution action " ++ GoStd.quote text)) ?_
    rw [run_queryRow_some he]
    rfl

theorem pause_ok (x : Bool) (now : Time) (actor requestID traceID : String)
    (he : ownedExecution tenantID executionID db = some e)
    (hs : e.status = .running) :
    ∃ entry, after x
        (changeExecutionState now tenantID executionID .pause actor requestID traceID) db
      = (db.updateExecutions (fun y => y.id = executionID) (pausedExecution now)).2.audited
          entry := by
  rw [after_eq_settled, changeExecutionState, run_queryRow_some he]
  simp only [hs, ne_eq, not_true_eq_false, if_false, run_exec]
  rw [appendAudit_idle, settled_ok]
  exact ⟨_, rfl⟩

def canceledDB (now : Time) (executionID : String) (db : DB) : DB :=
  ((db.updateExecutions (fun y => y.id = executionID) (canceledExecution now)).2.updateSteps
    (fun es => es.executionID = executionID && cancelable es) (canceledRow now)).2

theorem cancel_ok (x : Bool) (now : Time) (actor requestID traceID : String)
    (he : ownedExecution tenantID executionID db = some e)
    (hs : actionAllowed .cancel e.status = true) :
    ∃ entry, after x
        (changeExecutionState now tenantID executionID .cancel actor requestID traceID) db
      = (canceledDB now executionID db).audited entry := by
  have hopen : ¬ (e.status = .completed ∨ e.status = .canceled ∨ e.status = .rolledBack) := by
    cases hst : e.status <;> simp [actionAllowed, hst] at hs <;> simp
  rw [after_eq_settled, changeExecutionState, run_queryRow_some he]
  simp only [hopen, if_false, run_exec]
  rw [appendAudit_idle, settled_ok]
  exact ⟨_, rfl⟩

/-- **What `ChangeExecutionState` leaves behind.** -/
inductive ChangeOutcome (now : Time) (tenantID executionID : String) (db : DB) :
    ControlAction → DB → Prop
  | refused {action : ControlAction}
      (h : ∀ e, ownedExecution tenantID executionID db = some e →
        actionAllowed action e.status = false) :
      ChangeOutcome now tenantID executionID db action db
  | paused {e : Execution} (he : ownedExecution tenantID executionID db = some e)
      (hs : e.status = .running) (entry : AuditEntry) :
      ChangeOutcome now tenantID executionID db .pause
        ((db.updateExecutions (fun y => y.id = executionID) (pausedExecution now)).2.audited entry)
  | resumed {e : Execution} (he : ownedExecution tenantID executionID db = some e)
      (hs : e.status = .paused) (entry : AuditEntry) :
      ChangeOutcome now tenantID executionID db .resume
        ((db.updateExecutions (fun y => y.id = executionID) (resumedExecution now)).2.audited entry)
  | canceled {e : Execution} (he : ownedExecution tenantID executionID db = some e)
      (hs : actionAllowed .cancel e.status = true) (entry : AuditEntry) :
      ChangeOutcome now tenantID executionID db .cancel
        ((canceledDB now executionID db).audited entry)

theorem change_outcome (x : Bool) (now : Time) (tenantID executionID : String)
    (action : ControlAction) (actor requestID traceID : String) (db : DB) :
    ChangeOutcome now tenantID executionID db action
      (after x (changeExecutionState now tenantID executionID action actor requestID traceID)
        db) := by
  by_cases hok : ∃ e, ownedExecution tenantID executionID db = some e
      ∧ actionAllowed action e.status = true
  swap
  · have hno : ∀ e, ownedExecution tenantID executionID db = some e →
        actionAllowed action e.status = false := by
      intro e he
      rw [← Bool.not_eq_true]
      exact fun h => hok ⟨e, he, h⟩
    rw [change_error hno]
    exact .refused hno
  obtain ⟨e, he, hallowed⟩ := hok
  cases action with
  | pause =>
    have hs : e.status = .running := by simpa [actionAllowed] using hallowed
    obtain ⟨entry, hafter⟩ := pause_ok x now actor requestID traceID he hs
    rw [hafter]
    exact .paused he hs entry
  | resume =>
    have hs : e.status = .paused := by simpa [actionAllowed] using hallowed
    rw [after_eq_settled, changeExecutionState, run_queryRow_some he]
    simp only [hs, ne_eq, not_true_eq_false, if_false, run_exec]
    rw [appendAudit_idle, settled_ok]
    exact .resumed he hs _
  | cancel =>
    obtain ⟨entry, hafter⟩ := cancel_ok x now actor requestID traceID he hallowed
    rw [hafter]
    exact .canceled he hallowed entry
  | other text => cases hallowed

end Change

/-! ### `RetryExecutionStep` -/

section Retry

variable {tenantID executionID stepID actor requestID traceID : String} {force : Bool}
  {es : ExecutionStep}

def retryAllowed (force : Bool) (es : ExecutionStep) : Bool :=
  es.status = .failed || (es.status = .ambiguous && (idempotent es || force))

theorem retry_ok (x : Bool) (now : Time) (actor requestID traceID : String)
    (hes : ownedStep tenantID executionID stepID db = some es)
    (hok : retryAllowed force es = true) :
    ∃ entry, after x
        (retryExecutionStep now tenantID executionID stepID actor requestID traceID force) db
      = ((db.updateSteps (fun y => y.id = stepID) (retryRow now)).2.updateExecutions
          (fun e => e.id = executionID) (retriedExecution now)).2.audited entry := by
  have h₁ : ¬ (es.status ≠ .failed ∧ es.status ≠ .ambiguous) := by
    rintro ⟨hf, ha⟩
    simp [retryAllowed, hf, ha] at hok
  have h₂ : ¬ (es.status = .ambiguous ∧ idempotent es = false ∧ force = false) := by
    rintro ⟨ha, hi, hfo⟩
    simp [retryAllowed, ha, hi, hfo] at hok
  rw [after_eq_settled, retryExecutionStep, run_queryRow_some hes, if_neg h₁, if_neg h₂, run_exec,
    run_exec]
  rw [appendAudit_idle, settled_ok]
  exact ⟨_, rfl⟩

theorem retry_fails (x : Bool) (now : Time) (actor requestID traceID : String)
    (h : ∀ es, ownedStep tenantID executionID stepID db = some es → retryAllowed force es = false) :
    ∃ e, retryExecutionStep now tenantID executionID stepID actor requestID traceID force
      ⟨x, false, db⟩ = .error e := by
  rw [retryExecutionStep]
  rcases hes : ownedStep tenantID executionID stepID db with _ | es
  · exact ⟨.noRows, run_queryRow_none hes⟩
  rw [run_queryRow_some hes]
  have hno := h es hes
  by_cases h₁ : es.status ≠ .failed ∧ es.status ≠ .ambiguous
  · rw [if_pos h₁]
    exact ⟨_, rfl⟩
  have h₂ : es.status = .ambiguous ∧ idempotent es = false ∧ force = false := by
    simp only [retryAllowed, Bool.or_eq_false_iff, Bool.and_eq_false_iff,
      decide_eq_false_iff_not] at hno
    tauto
  rw [if_neg h₁, if_pos h₂]
  exact ⟨_, rfl⟩

theorem retry_error
    (h : ∀ es, ownedStep tenantID executionID stepID db = some es → retryAllowed force es = false) :
    after x (retryExecutionStep now tenantID executionID stepID actor requestID traceID force) db
      = db := by
  obtain ⟨e, he⟩ := retry_fails x now actor requestID traceID h
  exact after_error he

/-- What `RetryExecutionStep` leaves behind. -/
inductive RetryOutcome (now : Time) (tenantID executionID stepID : String) (force : Bool)
    (db : DB) : DB → Prop
  | refused
      (h : ∀ es, ownedStep tenantID executionID stepID db = some es →
        retryAllowed force es = false) :
      RetryOutcome now tenantID executionID stepID force db db
  | retried {es : ExecutionStep} (hes : ownedStep tenantID executionID stepID db = some es)
      (hok : retryAllowed force es = true) (entry : AuditEntry) :
      RetryOutcome now tenantID executionID stepID force db
        (((db.updateSteps (fun y => y.id = stepID) (retryRow now)).2.updateExecutions
          (fun e => e.id = executionID) (retriedExecution now)).2.audited entry)

theorem retry_outcome (x : Bool) (now : Time) (tenantID executionID stepID actor requestID traceID :
    String) (force : Bool) (db : DB) :
    RetryOutcome now tenantID executionID stepID force db
      (after x (retryExecutionStep now tenantID executionID stepID actor requestID traceID force)
        db) := by
  by_cases hok : ∃ es, ownedStep tenantID executionID stepID db = some es
      ∧ retryAllowed force es = true
  · obtain ⟨es, hes, hallowed⟩ := hok
    obtain ⟨entry, hafter⟩ := retry_ok x now actor requestID traceID hes hallowed
    rw [hafter]
    exact .retried hes hallowed entry
  have hno : ∀ es, ownedStep tenantID executionID stepID db = some es →
      retryAllowed force es = false := by
    intro es hes
    rw [← Bool.not_eq_true]
    exact fun h => hok ⟨es, hes, h⟩
  rw [retry_error hno]
  exact .refused hno

theorem retry_succeeds (h : succeeds x
      (retryExecutionStep now tenantID executionID stepID actor requestID traceID force) db
        = true) :
    ∃ es, ownedStep tenantID executionID stepID db = some es ∧ retryAllowed force es = true := by
  by_contra hno
  obtain ⟨e, he⟩ := retry_fails x now actor requestID traceID fun es hes => by
    rw [← Bool.not_eq_true]
    exact fun hok => hno ⟨es, hes, hok⟩
  obtain ⟨u, c, hm, -⟩ := succeeds_inv h
  rw [he] at hm
  cases hm

theorem ownedStep_some (h : ownedStep tenantID executionID stepID db = some es) :
    es ∈ db.steps ∧ es.id = stepID ∧ es.executionID = executionID := by
  simp only [ownedStep, Option.bind_eq_bind, Option.bind_eq_some_iff] at h
  obtain ⟨e, -, hes⟩ := h
  have hkey := List.find?_some hes
  simp only [Bool.and_eq_true, decide_eq_true_eq] at hkey
  exact ⟨List.mem_of_find?_eq_some hes, hkey.2, hkey.1⟩

theorem ownedExecution_some {e : Execution} (h : ownedExecution tenantID executionID db = some e) :
    e ∈ db.executions ∧ e.id = executionID := by
  have hkey := List.find?_some h
  simp only [Bool.and_eq_true, decide_eq_true_eq] at hkey
  exact ⟨List.mem_of_find?_eq_some h, hkey.2⟩

end Retry

/-! ### Insertion loops -/

theorem liftError_inv {α : Type} {r : Except String α} {c c' : Conn DB} {a : α}
    (h : liftError r c = .ok (a, c')) : r = .ok a ∧ c' = c := by
  rcases r with message | b
  · cases h
  · obtain ⟨rfl, rfl⟩ := ok_inj h
    exact ⟨rfl, rfl⟩

/-- No two rows violate a unique constraint of `execution_steps`. -/
def NoConflict (steps : List ExecutionStep) : Prop :=
  steps.Pairwise fun y z => DB.stepsConflict y z = false

theorem insertStep_ok {es : ExecutionStep} {db' : DB} (h : DB.insertStep es db = .ok db') :
    db' = { db with steps := db.steps ++ [es] }
      ∧ (NoConflict db.steps → NoConflict (db.steps ++ [es])) := by
  rw [DB.insertStep] at h
  split at h
  · cases h
  rename_i hfree
  refine ⟨(Except.ok.inj h).symm, fun hp => ?_⟩
  rw [NoConflict, List.pairwise_append]
  refine ⟨hp, List.pairwise_singleton _ _, fun y hy z hz => ?_⟩
  rw [List.mem_singleton.mp hz, ← Bool.not_eq_true]
  exact fun hc => hfree (List.any_eq_true.mpr ⟨y, hy, hc⟩)

/-- The rows the rollback loop inserts for its sources, from a position on. -/
inductive RollbackRows (now : Time) (executionID : String) :
    ℕ → List (ExecutionStep × Action) → List ExecutionStep → Prop
  | nil (position : ℕ) : RollbackRows now executionID position [] []
  | cons {position : ℕ} {source : ExecutionStep} {action : Action}
      {sources : List (ExecutionStep × Action)} {rows : List ExecutionStep} {timeout : ℤ}
      {retry : RetryParsed} (rollbackID : String)
      (htimeout : timeoutSeconds (rollbackStep source action) = .ok timeout)
      (hretry : parsedRetry (rollbackStep source action).retry = .ok retry)
      (hrest : RollbackRows now executionID (position + 1) sources rows) :
      RollbackRows now executionID position ((source, action) :: sources)
        (rollbackRow now executionID rollbackID position source (rollbackStep source action)
          timeout retry :: rows)

variable {executionID : String}

theorem insertRollbackSteps_ok {sources : List (ExecutionStep × Action)} {position : ℕ}
    {ids : List String} {u : Unit} {c : Conn DB}
    (h : insertRollbackSteps now executionID position sources ids ⟨x, false, db⟩ = .ok (u, c)) :
    ∃ rows, RollbackRows now executionID position sources rows
      ∧ c = ⟨x, false, { db with steps := db.steps ++ rows }⟩
      ∧ (NoConflict db.steps → NoConflict (db.steps ++ rows)) := by
  induction sources generalizing position ids db with
  | nil =>
    obtain ⟨-, rfl⟩ := ok_inj h
    refine ⟨[], .nil position, ?_, ?_⟩
    · rw [List.append_nil]
    · rw [List.append_nil]
      exact id
  | cons item sources ih =>
    obtain ⟨source, action⟩ := item
    rcases ids with _ | ⟨rollbackID, ids⟩
    · cases h
    rw [insertRollbackSteps] at h
    obtain ⟨timeout, c₁, h₁, h⟩ := run_ok h
    obtain ⟨htimeout, rfl⟩ := liftError_inv h₁
    obtain ⟨retry, c₂, h₂, h⟩ := run_ok h
    obtain ⟨hretry, rfl⟩ := liftError_inv h₂
    obtain ⟨_, c₃, h₃, h⟩ := run_ok h
    obtain ⟨db', hins, rfl⟩ := insert_inv h₃
    obtain ⟨rfl, hclean⟩ := insertStep_ok hins
    obtain ⟨rows, hrows, rfl, hclean'⟩ := ih h
    refine ⟨_, .cons rollbackID htimeout hretry hrows, ?_, fun hp => ?_⟩
    · simp
    · simpa using hclean' (hclean hp)

/-- The rows the insertion loop of `StartExecution` writes, from a position
on. -/
inductive ForwardRows (now : Time) (doc : Document) (executionID : String) :
    ℕ → List Step → List ExecutionStep → Prop
  | nil (position : ℕ) : ForwardRows now doc executionID position [] []
  | cons {position : ℕ} {step : Step} {steps : List Step} {rows : List ExecutionStep}
      {timeout : ℤ} {retry : RetryParsed} (stepID : String)
      (htimeout : timeoutSeconds step = .ok timeout) (hretry : parsedRetry step.retry = .ok retry)
      (hrest : ForwardRows now doc executionID (position + 1) steps rows) :
      ForwardRows now doc executionID position (step :: steps)
        (forwardRow now doc executionID stepID position step timeout retry :: rows)

theorem insertForwardSteps_ok {pf : Platform} {doc : Document} {steps : List Step} {position : ℕ}
    {ids : List String} {u : Unit} {c : Conn DB}
    (h : insertForwardSteps pf now doc executionID position steps ids ⟨x, false, db⟩ = .ok (u, c)) :
    ∃ rows, ForwardRows now doc executionID position steps rows
      ∧ c = ⟨x, false, { db with steps := db.steps ++ rows }⟩
      ∧ (NoConflict db.steps → NoConflict (db.steps ++ rows)) := by
  induction steps generalizing position ids db with
  | nil =>
    obtain ⟨-, rfl⟩ := ok_inj h
    refine ⟨[], .nil position, ?_, ?_⟩
    · rw [List.append_nil]
    · rw [List.append_nil]
      exact id
  | cons step steps ih =>
    rcases ids with _ | ⟨stepID, ids⟩
    · cases h
    rw [insertForwardSteps] at h
    obtain ⟨timeout, c₁, h₁, h⟩ := run_ok h
    obtain ⟨htimeout, rfl⟩ := liftError_inv h₁
    obtain ⟨retry, c₂, h₂, h⟩ := run_ok h
    obtain ⟨hretry, rfl⟩ := liftError_inv h₂
    simp only at h
    split at h
    · cases h
    obtain ⟨_, c₃, h₃, h⟩ := run_ok h
    obtain ⟨db', hins, rfl⟩ := insert_inv h₃
    obtain ⟨rfl, hclean⟩ := insertStep_ok hins
    obtain ⟨rows, hrows, rfl, hclean'⟩ := ih h
    refine ⟨_, .cons stepID htimeout hretry hrows, ?_, fun hp => ?_⟩
    · simp
    · simpa using hclean' (hclean hp)

/-! ### `StartExecutionRollback` and `StartExecution` -/

theorem mem_rollbackSources_iff {source : ExecutionStep} {action : Action} :
    (source, action) ∈ rollbackSources executionID db ↔ source ∈ db.steps
      ∧ source.executionID = executionID ∧ source.isRollback = false
      ∧ source.status = .completed ∧ source.rollbackDefinition = some action := by
  rw [rollbackSources, List.mem_insertionSort, List.mem_filterMap]
  constructor
  · rintro ⟨es, hes, hsel⟩
    split at hsel
    · rename_i hcond
      obtain ⟨_, haction, hpair⟩ := Option.map_eq_some_iff.mp hsel
      obtain ⟨rfl, rfl⟩ := Prod.mk.inj hpair
      simp only [Bool.and_eq_true, decide_eq_true_eq, Bool.not_eq_true'] at hcond
      exact ⟨hes, hcond.1.1, hcond.1.2, hcond.2, haction⟩
    · cases hsel
  rintro ⟨hes, hexec, hphase, hstatus, haction⟩
  refine ⟨source, hes, ?_⟩
  rw [if_pos (by simp [hexec, hphase, hstatus]), haction]
  rfl

section Rollback

variable (x : Bool) (db : DB) (now : Time) (ids : List String)
  (tenantID executionID actor requestID traceID : String)

/-- The state after a rollback request that found a finished execution without
rollback steps, and appended one rollback step per source. -/
def RolledBack (now : Time) (tenantID executionID : String) (db db' : DB) : Prop :=
  ∃ e rows entry, ownedExecution tenantID executionID db = some e
    ∧ (e.status = .completed ∨ e.status = .failed ∨ e.status = .ambiguous)
    ∧ (∀ es ∈ db.steps, es.executionID = executionID → es.isRollback = false)
    ∧ RollbackRows now executionID 0 (rollbackSources executionID db) rows ∧ rows ≠ []
    ∧ (NoConflict db.steps → NoConflict (db.steps ++ rows))
    ∧ db' = ((DB.updateExecutions (fun y => y.id = executionID) (rollingBackExecution now)
        { db with steps := db.steps ++ rows }).2).audited entry

theorem rollback_ok {u : Unit} {c : Conn DB}
    (hm : startExecutionRollback now ids tenantID executionID actor requestID traceID ⟨x, false, db⟩
      = .ok (u, c)) : RolledBack now tenantID executionID db c.db := by
  rw [startExecutionRollback] at hm
  obtain ⟨e, c₁, h₁, hm⟩ := run_ok hm
  obtain ⟨he, rfl⟩ := queryRow_inv h₁
  split at hm
  · cases hm
  rename_i hstatus
  obtain ⟨existing, c₂, h₂, hm⟩ := run_ok hm
  obtain ⟨hcount, rfl⟩ := queryRow_inv h₂
  split at hm
  · cases hm
  rename_i hnone
  simp only [run_query, run_scanAll, run_close] at hm
  split at hm
  · cases hm
  rename_i hsources
  obtain ⟨_, c₃, h₃, hm⟩ := run_ok hm
  obtain ⟨rows, hrows, rfl, hclean⟩ := insertRollbackSteps_ok h₃
  rw [run_exec, appendAudit_idle] at hm
  obtain ⟨-, rfl⟩ := ok_inj hm
  have hne : rows ≠ [] := by
    rintro rfl
    generalize rollbackSources executionID db = sources at hrows hsources
    cases hrows
    exact hsources rfl
  refine ⟨e, rows, _, he, by tauto, ?_, hrows, hne, hclean, rfl⟩
  intro es hes hid
  obtain rfl := Option.some.inj hcount
  have hzero := List.countP_eq_zero.mp (Nat.le_zero.mp (not_lt.mp hnone)) es hes
  simpa [hid] using hzero

theorem rollback_cases :
    after x (startExecutionRollback now ids tenantID executionID actor requestID traceID) db = db
      ∨ RolledBack now tenantID executionID db
        (after x (startExecutionRollback now ids tenantID executionID actor requestID traceID)
          db) := by
  refine (after_cases _ x db).imp_right fun ⟨_, c, hm, hafter⟩ => ?_
  rw [hafter]
  exact rollback_ok x db now ids tenantID executionID actor requestID traceID hm

end Rollback

/-- A committed start parsed a stored runbook, and inserted a new execution
with one pending step per step of the document. -/
theorem start_cases (x : Bool) (db : DB) (now : Time) (pf : Platform) (executionID : String)
    (ids : List String) (input : StartExecutionInput) :
    after x (startExecution pf now executionID ids input) db = db
      ∨ ∃ rv doc incident rows entry,
        ((∃ r, activeRunbook input.tenantID input.runbookKey db = some (r, rv))
          ∧ incidentJSON input db = some incident)
        ∧ parse pf rv.documentYAML = .ok doc
        ∧ (∀ e ∈ db.executions, e.id ≠ executionID)
        ∧ ForwardRows now doc executionID 0 doc.spec.steps rows
        ∧ (NoConflict db.steps → NoConflict (db.steps ++ rows))
        ∧ after x (startExecution pf now executionID ids input) db
          = DB.audited { db with
              executions := db.executions ++ [newExecution now executionID rv incident input]
              steps := db.steps ++ rows } entry := by
  refine (after_cases _ x db).imp_right fun ⟨_, c, hm, hafter⟩ => ?_
  rw [startExecution] at hm
  obtain ⟨⟨r, rv⟩, c₁, h₁, hm⟩ := run_ok hm
  obtain ⟨hrv, rfl⟩ := queryRow_inv h₁
  obtain ⟨doc, c₂, h₂, hm⟩ := run_ok hm
  obtain ⟨hdoc, rfl⟩ := liftError_inv h₂
  obtain ⟨incident, c₃, h₃, hm⟩ := run_ok hm
  obtain ⟨hincident, rfl⟩ := queryRow_inv h₃
  obtain ⟨_, c₄, h₄, hm⟩ := run_ok hm
  obtain rfl : c₄ = ⟨x, false, db⟩ := by
    rw [bindJSON] at h₄
    split at h₄
    · exact (ok_inj h₄).2.symm
    · cases h₄
  obtain ⟨_, c₅, h₅, hm⟩ := run_ok hm
  obtain ⟨db', hins, rfl⟩ := insert_inv h₅
  rw [DB.insertExecution] at hins
  split at hins
  · cases hins
  rename_i hfree
  obtain rfl := Except.ok.inj hins
  obtain ⟨_, c₆, h₆, hm⟩ := run_ok hm
  obtain ⟨rows, hrows, rfl, hclean⟩ := insertForwardSteps_ok h₆
  rw [appendAudit_idle] at hm
  obtain ⟨-, rfl⟩ := ok_inj hm
  refine ⟨rv, doc, incident, rows, _, ⟨⟨r, hrv⟩, hincident⟩, ?_, ?_, hrows, hclean, hafter⟩
  · rcases hp : parse pf rv.documentYAML with err | d
    · rw [hp] at hdoc
      cases hdoc
    · rw [hp] at hdoc
      exact hdoc
  · intro e he hid
    exact hfree (List.any_eq_true.mpr ⟨e, he, by simpa [newExecution] using hid⟩)

end StormRelay
