/-
The effect of every operation on the tables.

One lemma per operation, each from the outcome of its transaction, and their
assembly `effect_perform`.
-/
import StormRelay.Lifecycle

namespace StormRelay

open Tx Table

variable {env : Env} {s : Sys}

/-! ### Scheduler operations -/

variable {db : DB} {now : Time} {r : ExecutionStep}

theorem claimable_status {e : Execution} (h : claimable db now e r = true) :
    r.status = .pending ∨ r.status = .retrying := by
  simp only [claimable, Bool.and_eq_true, Bool.or_eq_true, decide_eq_true_eq] at h
  exact h.1.1.1.2

variable {locked : List String}

theorem claimable_of_candidate (hc : Consistent s.db) {limit : ℕ} (hr : r ∈ s.db.steps)
    (h : r.id ∈ candidates s.db s.now locked limit) :
    ∃ e, s.db.execution? r.executionID = some e ∧ claimable s.db s.now e r = true := by
  obtain ⟨es, hes, hid, hcl⟩ := mem_candidates h
  obtain rfl := hc.eq_of_id hes hr hid
  exact hcl

theorem effect_claim (hc : Consistent s.db) (locked : List String) (workerID : String)
    (limit lease : ℤ) (lost : Bool) :
    KeptEffect s (.claim locked workerID limit lease lost)
      (claimUpdate s.now locked workerID (claimLimit limit) (claimLease lease) s.db).2 := by
  refine .of_update hc rfl (fun r hr hp => ?_) (.refl _) rfl
  obtain ⟨e, he, hcl⟩ := claimable_of_candidate hc hr (by simpa using hp)
  refine ⟨.claim he hcl, .inl ?_⟩
  rcases claimable_status hcl with h | h <;> simp [h]

theorem recover_steps (hc : Consistent s.db) (locked order : List String) (actor : String) :
    ((expiredItems s.now locked order s.db).foldl (recoverPass s.now actor) s.db).steps
      = update (leaseExpired s.db s.now locked) (fun r => recoverRow s.now r r) s.db.steps := by
  rw [foldl_recoverPass_steps, expiredItems_fst, foldl_update]
  exact List.map_congr_left fun r hr =>
    foldl_patch_selected (fun _ _ => rfl) hc.keyed (arrange_perm _) hr

theorem effect_recover (hc : Consistent s.db) (locked order : List String) (actor : String) :
    KeptEffect s (.recover locked order actor)
      (after env.exclusive (recoverExpiredStepLeases s.now locked order actor) s.db) := by
  rw [recover_after]
  refine .of_update hc (recover_steps hc locked order actor)
    (fun r hr hp => ⟨.recover hp, .inl ?_⟩) ?_ (foldl_recoverPass_approvals _ _ _)
  · have hin := inFlight_of_leaseExpired hp
    constructor <;> intro hs <;> rw [hs] at hin <;> cases hin
  · rw [foldl_recoverPass_executions]
    exact .foldl (f := recoverExecution s.now) _ (fun _ _ => ⟨rfl, id⟩) _

theorem mem_expiredApprovals {item : Approval × String}
    (h : item ∈ expiredApprovals now locked db) :
    item.1 ∈ db.approvals ∧ item.1.status = .pending := by
  obtain ⟨a, ha, rfl⟩ := List.mem_map.mp h
  obtain ⟨hmem, hexp⟩ := List.mem_filter.mp ha
  simp only [approvalExpired, Bool.and_eq_true, decide_eq_true_eq] at hexp
  exact ⟨hmem, hexp.1.1.1⟩

theorem keyed_expiredApprovals {κ : Type} {key : Approval → κ} (h : Keyed key db.approvals) :
    Keyed (fun item : Approval × String => key item.1) (expiredApprovals now locked db) := by
  rw [Keyed, expiredApprovals, List.map_map]
  exact List.Nodup.sublist (List.filter_sublist.map key) h

def expireRows (now : Time) (items : List (Approval × String)) (r : ExecutionStep) :
    ExecutionStep :=
  items.foldl (fun r item => patch (fun y => y.id = item.1.executionStepID) (expireRow now) r) r

def expireApprovals (now : Time) (items : List (Approval × String)) (a : Approval) : Approval :=
  items.foldl (fun a item => patch (fun y => y.id = item.1.id) (expireApproval now) a) a

section ExpiryLoop

variable {now : Time} {items : List (Approval × String)}
  {item : Approval × String} {r : ExecutionStep}

theorem expireRows_named (hk : Keyed (fun item : Approval × String => item.1.executionStepID) items)
    (hitem : item ∈ items) (hid : r.id = item.1.executionStepID) :
    expireRows now items r = expireRow now r :=
  foldl_patch_of_mem (f := fun _ => expireRow now) (fun _ _ => rfl) hk hitem hid

theorem expireRows_free (h : ∀ item ∈ items, r.id ≠ item.1.executionStepID) :
    expireRows now items r = r := by
  refine foldl_patch_of_not_mem (fun _ => expireRow now)
    (show r.id ∉ items.map fun item => item.1.executionStepID from fun hin => ?_)
  obtain ⟨item, hitem, hid⟩ := List.mem_map.mp hin
  exact h item hitem hid.symm

theorem expireApprovals_named (hk : Keyed (fun item : Approval × String => item.1.id) items)
    (hitem : item ∈ items) {a : Approval} (hid : a.id = item.1.id) :
    expireApprovals now items a = expireApproval now a :=
  foldl_patch_of_mem (f := fun _ => expireApproval now) (fun _ _ => rfl) hk hitem hid

theorem expireApprovals_free {a : Approval} (h : ∀ item ∈ items, a.id ≠ item.1.id) :
    expireApprovals now items a = a := by
  refine foldl_patch_of_not_mem (fun _ => expireApproval now)
    (show a.id ∉ items.map fun item => item.1.id from fun hin => ?_)
  obtain ⟨item, hitem, hid⟩ := List.mem_map.mp hin
  exact h item hitem hid.symm

def advanceRow (now : Time) (items : List (Approval × String)) (r : ExecutionStep) :
    ExecutionStep :=
  expireRows now items (patch (waitDue now) (timerRow now) r)

theorem advanced_steps (actor : String) (db : DB) :
    (items.foldl (expirePass now actor) (wokenDB now db)).steps
      = db.steps.map (advanceRow now items) := by
  rw [foldl_expirePass_steps, foldl_update, wokenDB_steps, update, List.map_map]
  rfl

theorem advanced_approvals (actor : String) (db : DB) :
    (items.foldl (expirePass now actor) (wokenDB now db)).approvals
      = db.approvals.map (expireApprovals now items) := by
  rw [foldl_expirePass_approvals, foldl_update, wokenDB_approvals]
  rfl

theorem advanceRow_named (hk : Keyed (fun item : Approval × String => item.1.executionStepID) items)
    (hitem : item ∈ items) (hid : r.id = item.1.executionStepID) :
    advanceRow now items r = expireRow now (patch (waitDue now) (timerRow now) r) :=
  expireRows_named hk hitem ((patch_column ExecutionStep.id rfl).trans hid)

theorem advanceRow_free (h : ∀ item ∈ items, r.id ≠ item.1.executionStepID) :
    advanceRow now items r = patch (waitDue now) (timerRow now) r :=
  expireRows_free fun item hitem hid => h item hitem
    ((patch_column ExecutionStep.id rfl).symm.trans hid)

end ExpiryLoop

theorem effect_advance (hc : Consistent s.db) (locked : List String) (actor : String) :
    KeptEffect s (.advance locked actor)
      (after env.exclusive (advanceRunbookTimers s.now locked actor) s.db) := by
  have hout := advance_outcome env.exclusive s.now hc.waitsOwned locked actor
  generalize after env.exclusive _ s.db = db' at hout ⊢
  rcases hout with - | -
  · -- The transaction met its own open result set.
    exact .unchanged hc rfl
  set items := expiredApprovals s.now locked s.db
  have hkeys : Keyed (fun item : Approval × String => item.1.executionStepID) items :=
    keyed_expiredApprovals hc.approvalSteps
  have hids : Keyed (fun item : Approval × String => item.1.id) items :=
    keyed_expiredApprovals hc.approvals
  -- A timer touches no step that an approval waits for.
  have hrest : ∀ r : ExecutionStep, (r.status = .waitingApproval ∨ r.status = .canceled) →
      patch (waitDue s.now) (timerRow s.now) r = r := by
    intro r hst
    refine patch_neg ?_
    rcases hst with h | h <;> simp [waitDue, h]
  refine .of_mapped hc (advanced_steps _ _) (fun r hr => ?_) ?_ (advanced_approvals _ _)
    (fun a ha => ?_) fun a ha r hr hid hp => ?_
  · by_cases hnamed : ∃ item ∈ items, r.id = item.1.executionStepID
    · obtain ⟨item, hitem, hid⟩ := hnamed
      obtain ⟨ha, hp⟩ := mem_expiredApprovals hitem
      rw [advanceRow_named hkeys hitem hid, hrest r (hc.of_pending hr ha hp hid).2]
      exact .inr (.expire ha hp hid)
    rw [advanceRow_free fun item hitem hid => hnamed ⟨item, hitem, hid⟩]
    by_cases hdue : waitDue s.now r = true
    · rw [patch_pos hdue]
      exact .inr (.timer hdue)
    · exact .inl (patch_neg (by simpa using hdue))
  · rw [foldl_expirePass_executions]
    exact (wokenDB_kept s.now s.db).trans
      (.foldl (f := fun _ => expireExecution s.now) _ (fun _ _ => ⟨rfl, id⟩) _)
  · by_cases hnamed : ∃ item ∈ items, a.id = item.1.id
    · obtain ⟨item, hitem, hid⟩ := hnamed
      obtain ⟨hmem, hp⟩ := mem_expiredApprovals hitem
      obtain rfl := hc.approvals.eq_of_key ha hmem hid
      rw [expireApprovals_named hids hitem rfl]
      exact .inr (.expire hp)
    · exact .inl (expireApprovals_free fun item hitem hid => hnamed ⟨item, hitem, hid⟩)
  -- An approval that is still pending was not one of the expired ones …
  have hfree : ∀ item ∈ items, a.id ≠ item.1.id := by
    intro item hitem he
    rw [expireApprovals_named hids hitem he] at hp
    cases hp
  rw [expireApprovals_free hfree] at hp
  have hst := (hc.of_pending hr ha hp hid).2
  -- … and a step has one approval, so the loop did not name its step either.
  rw [advanceRow_free fun item hitem he => hfree item hitem ?_, hrest r hst]
  · exact hst
  · rw [hc.approvalSteps.eq_of_key ha (mem_expiredApprovals hitem).1 (hid.symm.trans he)]

/-! ### Worker calls -/

variable {n : ℕ} {workerID : String} {c : ClaimedStep}

theorem claim_row (hi : s.Inv) (hn : s.issued[n]? = some (workerID, c)) :
    ∃ r ∈ s.db.steps, r.id = c.step.id ∧ r.executionID = c.step.executionID
      ∧ (remainingSteps c.step.executionID s.db).isSome
      ∧ ∃ tenantID, stepWithTenant c.step.id s.db = some (r, tenantID) := by
  obtain ⟨r, hr, hdef, -, -⟩ := (hi.claims _ (List.mem_of_getElem? hn)).row
  have hid : r.id = c.step.id := column_of_definition ExecutionStep.id (fun _ => rfl) hdef
  have hexec : r.executionID = c.step.executionID :=
    column_of_definition ExecutionStep.executionID (fun _ => rfl) hdef
  obtain ⟨e, he, hown⟩ := hi.consistent.owner r hr
  refine ⟨r, hr, hid, hexec, ?_, e.tenantID, ?_⟩
  · exact remainingSteps_isSome.mpr ⟨⟨e, he, hown.trans hexec⟩, r, hr, hexec⟩
  · simp only [stepWithTenant, ← hid, hi.consistent.step?_eq hr, Option.bind_eq_bind,
      Option.bind_some, ← hown, hi.consistent.execution?_eq he]
    rfl

theorem claim_of_leased (hi : s.Inv) (hn : s.issued[n]? = some (workerID, c)) (hr : r ∈ s.db.steps)
    (hl : leasedTo c.step.id workerID r = true) :
    r.executionID = c.step.executionID ∧ r.isRollback = c.step.isRollback := by
  obtain ⟨q, hq, hdef, -, -⟩ := (hi.claims _ (List.mem_of_getElem? hn)).row
  have hid : q.id = c.step.id := column_of_definition ExecutionStep.id (fun _ => rfl) hdef
  obtain rfl := hi.consistent.eq_of_id hq hr (hid.trans (leasedTo_id hl).symm)
  exact ⟨column_of_definition ExecutionStep.executionID (fun _ => rfl) hdef,
    column_of_definition ExecutionStep.isRollback (fun _ => rfl) hdef⟩

theorem Consistent.affected_leased_iff (hc : Consistent db) {stepID : String} :
    affected (leasedTo stepID workerID) db.steps = 1
      ↔ ∃ r ∈ db.steps, leasedTo stepID workerID r = true :=
  ⟨exists_of_affected,
    fun ⟨_, hr, hl⟩ => hc.keyed.affected_eq_one (fun _ hy => leasedTo_id hy) hr hl⟩

theorem inFlight_not_resting {status : StepStatus} (h : status.inFlight = true) :
    status ≠ .waitingApproval ∧ status ≠ .canceled := by
  constructor <;> rintro rfl <;> cases h

theorem effect_scheduleWait (hc : Consistent s.db) {until_ : Time}
    (hn : s.issued[n]? = some (workerID, c)) :
    KeptEffect s (.scheduleWait n until_)
      (after env.exclusive (scheduleWait c until_ workerID) s.db) := by
  rcases scheduleWait_cases env.exclusive c until_ workerID s.db with hafter | hafter
  · exact .unchanged hc hafter
  rw [hafter]
  refine .of_update hc rfl (fun r hr hp => ?_) (.refl _) rfl
  simp only [Bool.and_eq_true, decide_eq_true_eq] at hp
  exact ⟨.wait hn hp.1 hp.2, .inl (by simp [hp.2])⟩

theorem effect_markAmbiguous (hc : Consistent s.db) {executionErr : Option String}
    (hn : s.issued[n]? = some (workerID, c)) :
    KeptEffect s (.markAmbiguous n executionErr)
      (after env.exclusive (markExecutionStepAmbiguous s.now c workerID executionErr) s.db) := by
  have hout := mark_outcome env.exclusive s.now c workerID executionErr s.db
  generalize after env.exclusive _ s.db = db' at hout ⊢
  cases hout with
  | refused => exact .unchanged hc rfl
  | marked =>
    refine .of_update hc rfl (fun r hr hp => ?_) (.update _ fun _ => ⟨rfl, id⟩) rfl
    simp only [Bool.and_eq_true] at hp
    exact ⟨.ambiguous hn hp.1, .inl (inFlight_not_resting hp.2)⟩

theorem effect_complete (hi : s.Inv) {status : StepStatus} {output : Option Json}
    {executionErr : Option String} (hn : s.issued[n]? = some (workerID, c)) :
    KeptEffect s (.complete n status output executionErr)
      (after env.exclusive
        (completeExecutionStep env.platform s.now c workerID status output executionErr) s.db) := by
  have hc := hi.consistent
  obtain ⟨r, hr, hid, -, hrem, tenantID, hfound⟩ := claim_row hi hn
  have hrest : ∀ y ∈ s.db.steps, leasedTo c.step.id workerID y = true →
      y.status ≠ .waitingApproval ∧ y.status ≠ .canceled := fun y hy hl =>
    inFlight_not_resting (hc.inFlight_of_leased hy hl)
  have hout := complete_outcome env.exclusive env.platform s.now workerID status output
    executionErr hfound hrem
  generalize after env.exclusive _ s.db = db' at hout ⊢
  cases hout with
  | refused => exact .unchanged hc rfl
  | success =>
    exact .of_update hc (finalizedDB_steps _ _)
      (fun y hy hl => ⟨.complete hn hl, .inl (hrest y hy hl)⟩) (finalizedDB_kept _ _)
      (finalizedDB_approvals _ _)
  | retry _ _ hlt =>
    refine .of_update hc rfl (fun y hy hl => ?_) (.refl _) rfl
    -- The leased row is the one whose attempts were counted.
    have hyr : y = r := hc.eq_of_id hy hr ((leasedTo_id hl).trans hid.symm)
    exact ⟨.retryLater hn hl (hyr ▸ hlt), .inl (hrest y hy hl)⟩
  | fail =>
    exact .of_update hc rfl (fun y hy hl => ⟨.fail hn hl, .inl (hrest y hy hl)⟩)
      (.update _ fun _ => ⟨rfl, id⟩) rfl

theorem effect_openApproval (hc : Consistent s.db) {approvalID prompt : String}
    {expiresAt : Option Time} (hn : s.issued[n]? = some (workerID, c)) :
    KeptEffect s (.openApproval n approvalID prompt expiresAt)
      (after env.exclusive (openApproval s.now approvalID c workerID prompt expiresAt) s.db) := by
  -- The effect with the approvals as they were, whichever approval is awaited.
  have hbase : ∀ (out : Approval) (db₁ : DB),
      db₁.steps = update (leasedTo c.step.id workerID) (waitingApprovalRow out.id prompt)
        s.db.steps →
      ExecutionsKept s.db.executions db₁.executions → db₁.approvals = s.db.approvals →
      KeptEffect s (.openApproval n approvalID prompt expiresAt) db₁ := by
    intro out db₁ hsteps hexec happr
    refine .of_update hc hsteps (fun r hr hl => ?_) hexec happr
    exact ⟨.openApproval hn hl, .inl (inFlight_not_resting (hc.inFlight_of_leased hr hl))⟩
  have hout := open_outcome env.exclusive s.now approvalID workerID prompt c expiresAt s.db
  generalize after env.exclusive _ s.db = db' at hout ⊢
  cases hout with
  | refused => exact .unchanged hc rfl
  | @known out => exact hbase out _ rfl (.update _ fun _ => ⟨rfl, id⟩) rfl
  | requested hcan hfree entry =>
    refine (hbase (newApproval s.now approvalID c prompt expiresAt)
      (((s.db.updateSteps (leasedTo c.step.id workerID)
      (waitingApprovalRow approvalID prompt)).2.updateExecutions
      (fun e => e.id = c.step.executionID) (waitingApprovalExecution s.now)).2.audited entry)
      rfl (.update _ fun _ => ⟨rfl, id⟩) rfl).add_approval rfl (.requested hn) hfree ?_
    obtain ⟨r, hr, hl⟩ := exists_of_affected hcan.leased
    have hpos := hc.attempts_of_inFlight hr (hc.inFlight_of_leased hr hl)
    have hid : r.id = c.step.id := leasedTo_id hl
    exact ⟨_, mem_update_pos hr hl, hid, hpos, .inl rfl⟩

/-! ### Operator calls -/

theorem effect_changeState (hc : Consistent s.db)
    (tenantID executionID : String) (action : ControlAction) (actor requestID traceID : String) :
    KeptEffect s (.changeState tenantID executionID action actor requestID traceID)
      (after env.exclusive
        (changeExecutionState s.now tenantID executionID action actor requestID traceID) s.db) := by
  have hout := change_outcome env.exclusive s.now tenantID executionID action actor requestID
    traceID s.db
  generalize after env.exclusive _ s.db = db' at hout ⊢
  cases hout with
  | refused => exact .unchanged hc rfl
  | paused | resumed => exact .of_executions hc rfl (.update _ fun _ => ⟨rfl, id⟩) rfl
  | canceled =>
    refine .of_update hc rfl (fun r hr hp => ?_) (.update _ fun _ => ⟨rfl, fun _ => rfl⟩) rfl
    simp only [Bool.and_eq_true, decide_eq_true_eq] at hp
    exact ⟨.cancel hp.1 hp.2, .inr rfl⟩

theorem effect_retry (hc : Consistent s.db)
    (tenantID executionID stepID actor requestID traceID : String) (force : Bool) :
    KeptEffect s (.retry tenantID executionID stepID actor requestID traceID force)
      (after env.exclusive
        (retryExecutionStep s.now tenantID executionID stepID actor requestID traceID force)
        s.db) := by
  have hout := retry_outcome env.exclusive s.now tenantID executionID stepID actor requestID
    traceID force s.db
  generalize after env.exclusive _ s.db = db' at hout ⊢
  cases hout with
  | refused => exact .unchanged hc rfl
  | retried hes hallowed =>
    obtain ⟨hmem, hid, -⟩ := ownedStep_some hes
    refine .of_update hc rfl (fun r hr hp => ?_) (.update _ fun _ => ⟨rfl, id⟩) rfl
    replace hp : r.id = stepID := by simpa using hp
    obtain rfl := hc.eq_of_id hmem hr (hid.trans hp.symm)
    refine ⟨.retry hp hallowed, .inl ?_⟩
    constructor <;> intro hst <;> simp [retryAllowed, hst] at hallowed

theorem effect_decided (hc : Consistent s.db) {tenantID approvalID : String} {decision : Decision}
    {actor reason requestID traceID : String} {a : Approval} {es : ExecutionStep}
    (hwait : AwaitsDecision s.db tenantID approvalID decision reason a es) {db' : DB}
    (hsteps : db'.steps = update (fun y => y.id = es.id)
      (decidedRow s.now decision approvalID actor reason) s.db.steps)
    (hexec : ExecutionsKept s.db.executions db'.executions)
    (happr : db'.approvals = update (fun y => y.id = approvalID)
      (decideApprovalRow s.now decision actor reason) s.db.approvals) :
    KeptEffect s (.decide tenantID approvalID decision actor reason requestID traceID) db' := by
  obtain ⟨ha, hid, -, hstep⟩ := approvalWithStep_some hwait.found
  refine .of_mapped hc hsteps (fun r hr => ?_) hexec happr (fun y hy => ?_) ?_
  · by_cases hp : r.id = es.id
    · rw [patch_pos (by simpa using hp)]
      exact .inr (.decide ha hid hwait.pending (hp.trans hstep) hwait.decision)
    · exact .inl (patch_neg (by simpa using hp))
  · by_cases hyid : y.id = approvalID
    · obtain rfl := hc.approvals.eq_of_key hy ha (hyid.trans hid.symm)
      rw [patch_pos (by simpa using hyid)]
      subst hyid
      exact .inr (.decide hwait.pending)
    · exact .inl (patch_neg (by simpa using hyid))
  intro y hy r hr hrid hp
  by_cases hyid : y.id = approvalID
  · rw [patch_pos (by simpa using hyid)] at hp
    simp only [decideApprovalRow] at hp
    cases decision <;> cases hp
  rw [patch_neg (by simpa using hyid)] at hp
  have hne : r.id ≠ es.id := fun he => hyid <| by
    rw [hc.approvalSteps.eq_of_key hy ha (hrid.symm.trans (he.trans hstep)), hid]
  rw [patch_neg (by simpa using hne)]
  exact (hc.of_pending hr hy hp hrid).2

theorem effect_decide (hc : Consistent s.db) (tenantID approvalID : String) (decision : Decision)
    (actor reason requestID traceID : String) :
    KeptEffect s (.decide tenantID approvalID decision actor reason requestID traceID)
      (after env.exclusive
        (decideApproval s.now tenantID approvalID decision actor reason requestID traceID)
        s.db) := by
  have hout := decide_outcome env.exclusive s.now tenantID approvalID decision actor reason
    requestID traceID hc.owner
  generalize after env.exclusive _ s.db = db' at hout ⊢
  cases hout with
  | refused => exact .unchanged hc rfl
  | approved hwait =>
    exact effect_decided hc hwait (finalizedDB_steps _ _)
      ((ExecutionsKept.update (f := approvedExecution s.now) _ fun _ => ⟨rfl, id⟩).trans
        (finalizedDB_kept _ _)) (finalizedDB_approvals _ _)
  | rejected hwait => exact effect_decided hc hwait rfl (.update _ fun _ => ⟨rfl, id⟩) rfl

/-! ### Insertions -/

theorem ForwardRows.mem {doc : Document} {executionID : String} {position : ℕ} {steps : List Step}
    {rows : List ExecutionStep} (h : ForwardRows now doc executionID position steps rows)
    (hr : r ∈ rows) :
    ∃ stepID position step timeout retry, step ∈ steps ∧ timeoutSeconds step = .ok timeout
      ∧ parsedRetry step.retry = .ok retry
      ∧ r = forwardRow now doc executionID stepID position step timeout retry := by
  induction h with
  | nil => cases hr
  | cons stepID htimeout hretry _ ih =>
    rcases List.mem_cons.mp hr with rfl | hr
    · exact ⟨_, _, _, _, _, List.mem_cons_self, htimeout, hretry, rfl⟩
    · obtain ⟨stepID, position, step, timeout, retry, hstep, ht, hp, rfl⟩ := ih hr
      exact ⟨_, _, _, _, _, List.mem_cons_of_mem _ hstep, ht, hp, rfl⟩

theorem RollbackRows.mem {executionID : String} {position : ℕ}
    {sources : List (ExecutionStep × Action)} {rows : List ExecutionStep}
    (h : RollbackRows now executionID position sources rows) (hr : r ∈ rows) :
    ∃ rollbackID position source action timeout retry, (source, action) ∈ sources
      ∧ timeoutSeconds (rollbackStep source action) = .ok timeout
      ∧ parsedRetry (rollbackStep source action).retry = .ok retry
      ∧ r = rollbackRow now executionID rollbackID position source (rollbackStep source action)
          timeout retry := by
  induction h with
  | nil => cases hr
  | cons rollbackID htimeout hretry _ ih =>
    rcases List.mem_cons.mp hr with rfl | hr
    · exact ⟨_, _, _, _, _, _, List.mem_cons_self, htimeout, hretry, rfl⟩
    · obtain ⟨rollbackID, position, source, action, timeout, retry, hsource, ht, hp, rfl⟩ := ih hr
      exact ⟨_, _, _, _, _, _, List.mem_cons_of_mem _ hsource, ht, hp, rfl⟩

theorem approvalRows_same {op : Op} {approvals : List Approval}
    (h : approvals = s.db.approvals) : ApprovalRows s op approvals :=
  ⟨fun a => a, [], by simp [h], fun _ _ => .inl rfl, fun _ ha => by cases ha⟩

theorem requested_append (hc : Consistent s.db) (new : List ExecutionStep) :
    ∀ a ∈ s.db.approvals, ∃ r ∈ s.db.steps ++ new, r.id = a.executionStepID ∧ 0 < r.attemptCount
      ∧ (a.status = .pending → r.status = .waitingApproval ∨ r.status = .canceled) := by
  intro a ha
  obtain ⟨r, hr, h⟩ := hc.requested a ha
  exact ⟨r, List.mem_append_left _ hr, h⟩

theorem effect_rollback (hc : Consistent s.db) (ids : List String)
    (tenantID executionID actor requestID traceID : String) :
    KeptEffect s (.rollback ids tenantID executionID actor requestID traceID)
      (after env.exclusive
        (startExecutionRollback s.now ids tenantID executionID actor requestID traceID) s.db) := by
  obtain h | ⟨e, rows, entry, he, -, hnone, hrows, -, hclean, hafter⟩ :=
    rollback_cases env.exclusive s.db s.now ids tenantID executionID actor requestID traceID
  · exact .unchanged hc h
  obtain ⟨hmem, hid⟩ := ownedExecution_some he
  have hkept : ExecutionsKept s.db.executions
      (update (fun y => y.id = executionID) (rollingBackExecution s.now) s.db.executions) :=
    .update _ fun _ => ⟨rfl, id⟩
  rw [hafter]
  refine ⟨⟨.appended rfl fun r hr => ?_, hclean hc.steps, ⟨_, [], (List.append_nil _).symm, hkept,
    .inl rfl⟩, fun r hr => ?_, approvalRows_same rfl, hc.approvals, hc.approvalSteps,
    requested_append hc rows⟩, hkept⟩
  · obtain ⟨_, _, _, _, _, _, hsource, ht, -, rfl⟩ := hrows.mem hr
    exact .rollback hnone ⟨e, hmem, hid⟩ hsource ht
  have hown : ∃ e ∈ s.db.executions, e.id = r.executionID := by
    rcases List.mem_append.mp hr with hold | hnew
    · exact hc.owner r hold
    · obtain ⟨_, _, _, _, _, _, -, -, -, rfl⟩ := hrows.mem hnew
      exact ⟨e, hmem, hid⟩
  obtain ⟨e₀, he₀, hid₀⟩ := hown
  obtain ⟨e', he', hk⟩ := hkept.exists_mem he₀
  exact ⟨e', he', hk.id.trans hid₀⟩

theorem effect_start (hc : Consistent s.db) (executionID : String) (ids : List String)
    (input : StartExecutionInput) :
    Effect s (.startExecution executionID ids input)
      (after env.exclusive (startExecution env.platform s.now executionID ids input) s.db) := by
  obtain h | ⟨rv, doc, incident, rows, entry, -, -, hnew, hrows, hclean, hafter⟩ :=
    start_cases env.exclusive s.db s.now env.platform executionID ids input
  · exact (KeptEffect.unchanged hc h).toEffect
  rw [hafter]
  refine ⟨.appended rfl fun r hr => ?_, hclean hc.steps, ⟨_, _, rfl, .refl _, .inr ⟨_, rfl, hnew⟩⟩,
    fun r hr => ?_, approvalRows_same rfl, hc.approvals, hc.approvalSteps,
    requested_append hc rows⟩
  · obtain ⟨_, _, _, _, _, hstep, ht, -, rfl⟩ := hrows.mem hr
    exact .forward hnew hstep ht
  rcases List.mem_append.mp hr with hold | hin
  · obtain ⟨e, he, hid⟩ := hc.owner r hold
    exact ⟨e, List.mem_append_left _ he, hid⟩
  · obtain ⟨_, _, _, _, _, -, -, -, rfl⟩ := hrows.mem hin
    exact ⟨_, List.mem_append_right _ (List.mem_singleton.mpr rfl), rfl⟩

theorem perform_claim_db (locked : List String) (workerID : String) (limit lease : ℤ)
    (lost : Bool) :
    (Sys.perform env (.claim locked workerID limit lease lost) s).db
      = (claimUpdate s.now locked workerID (claimLimit limit) (claimLease lease) s.db).2 := by
  have hcommit : after env.exclusive (claimExecutionSteps s.now locked workerID limit lease) s.db
      = _ := congrArg Prod.snd (claim_commit s.now locked workerID limit lease)
  rw [← hcommit, Sys.perform]
  split <;> rfl

theorem effect_commitFor (hc : Consistent s.db) {α : Type} {op : Op}
    {body : String → ClaimedStep → Tx DB α}
    (h : ∀ workerID c, s.issued[n]? = some (workerID, c) →
      KeptEffect s op (after env.exclusive (body workerID c) s.db)) :
    KeptEffect s op (s.commitFor env n body).db := by
  rw [Sys.commitFor]
  split
  · rename_i hn
    exact h _ _ hn
  · exact .unchanged hc rfl

theorem kept_perform (env : Env) (hi : s.Inv) {op : Op}
    (hop : ∀ executionID ids input, op ≠ .startExecution executionID ids input) :
    KeptEffect s op (Sys.perform env op s).db := by
  have hc := hi.consistent
  cases op with
  | tick elapsed => exact .unchanged hc rfl
  | catalog runbooks versions incidents => exact .of_executions hc rfl (.refl _) rfl
  | startExecution executionID ids input => exact absurd rfl (hop executionID ids input)
  | claim locked workerID limit lease lost =>
    rw [perform_claim_db]
    exact effect_claim hc locked workerID limit lease lost
  | recover locked order actor => exact effect_recover hc locked order actor
  | advance locked actor => exact effect_advance hc locked actor
  | scheduleWait n until_ => exact effect_commitFor hc fun _ _ hn => effect_scheduleWait hc hn
  | openApproval n approvalID prompt expiresAt =>
    exact effect_commitFor hc fun _ _ hn => effect_openApproval hc hn
  | complete n status output executionErr =>
    exact effect_commitFor hc fun _ _ hn => effect_complete hi hn
  | markAmbiguous n executionErr =>
    exact effect_commitFor hc fun _ _ hn => effect_markAmbiguous hc hn
  | changeState tenantID executionID action actor requestID traceID =>
    exact effect_changeState hc tenantID executionID action actor requestID traceID
  | decide tenantID approvalID decision actor reason requestID traceID =>
    exact effect_decide hc tenantID approvalID decision actor reason requestID traceID
  | retry tenantID executionID stepID actor requestID traceID force =>
    exact effect_retry hc tenantID executionID stepID actor requestID traceID force
  | rollback ids tenantID executionID actor requestID traceID =>
    exact effect_rollback hc ids tenantID executionID actor requestID traceID

/-- **The effect of every operation.** -/
theorem effect_perform (env : Env) (hi : s.Inv) (op : Op) :
    Effect s op (Sys.perform env op s).db := by
  cases op with
  | startExecution executionID ids input => exact effect_start hi.consistent executionID ids input
  | _ => exact (kept_perform env hi fun _ _ _ h => by cases h).toEffect

end StormRelay
