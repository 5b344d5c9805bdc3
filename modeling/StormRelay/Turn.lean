/-
The life of one execution.

What the scheduler knows of an execution is its status, whether a cancel was
requested, and its steps.  This module says what every operation of the store
does to these three at once: the store refines, for each execution, the
transition relation `Turn`.

* `turn_perform` — **every operation is a turn of every stored execution**.
-/
import StormRelay.Invariant

namespace StormRelay

open Tx Table

structure View where
  status : ExecutionStatus
  cancelRequested : Bool
  steps : List ExecutionStep

/-- The steps of an execution. -/
def DB.own (db : DB) (id : String) : List ExecutionStep :=
  db.steps.filter fun es => es.executionID = id

def DB.view (db : DB) (id : String) : Option View :=
  (db.execution? id).map fun e => ⟨e.status, e.cancelRequestedAt.isSome, db.own id⟩

theorem DB.mem_own {db : DB} {id : String} {r : ExecutionStep} :
    r ∈ db.own id ↔ r ∈ db.steps ∧ r.executionID = id := by
  simp [DB.own]

namespace View

def AllSettled (v : View) : Prop :=
  ∀ r ∈ v.steps, r.status.settled = true

instance (v : View) : Decidable v.AllSettled :=
  inferInstanceAs (Decidable (∀ r ∈ v.steps, _))

/-- `finalizeExecutionIfDone`. -/
def settle (v : View) : View :=
  if v.status = .running ∧ v.AllSettled then { v with status := .completed }
  else if v.status = .rollingBack ∧ v.AllSettled then { v with status := .rolledBack }
  else v

variable (v : View)

@[simp] theorem settle_steps : v.settle.steps = v.steps := by
  rw [settle]
  split
  · rfl
  · split <;> rfl

@[simp] theorem settle_cancelRequested : v.settle.cancelRequested = v.cancelRequested := by
  rw [settle]
  split
  · rfl
  · split <;> rfl

theorem settle_status : v.settle.status
    = if v.status = .running ∧ v.AllSettled then .completed
      else if v.status = .rollingBack ∧ v.AllSettled then .rolledBack else v.status := by
  rw [settle]
  split
  · rfl
  · split <;> rfl

theorem settle_settle : v.settle.settle = v.settle := by
  have h : ¬ (v.settle.status = .running ∧ v.AllSettled)
      ∧ ¬ (v.settle.status = .rollingBack ∧ v.AllSettled) := by
    rw [settle_status]
    grind
  have hsettled : v.settle.AllSettled ↔ v.AllSettled := by
    simp [AllSettled]
  conv_lhs => rw [settle]
  rw [if_neg fun hc => h.1 ⟨hc.1, hsettled.mp hc.2⟩, if_neg fun hc => h.2 ⟨hc.1, hsettled.mp hc.2⟩]

/-- A step the scheduler may claim, as far as its execution is concerned. -/
structure Claimable (v : View) (now : Time) (r : ExecutionStep) : Prop where
  status : r.status = .pending ∨ r.status = .retrying
  phase : v.status = .running ∧ r.isRollback = false ∨ v.status = .rollingBack ∧ r.isRollback = true
  cancel : v.cancelRequested = false
  due : r.nextAttemptAt ≤ now

end View

/-- The steps of the execution `id` that a recovery finds expired, in the order of
the answer. -/
def Sys.expiredOf (s : Sys) (locked order : List String) (id : String) : List ExecutionStep :=
  (expiredRows s.now locked order s.db).filter fun r => r.executionID = id

/-- **Everything an operation can do to a stored execution.**  `Turn s id op v v'`:
in state `s`, operation `op` may turn the execution `id` from `v` into `v'`. -/
inductive Turn (s : Sys) (id : String) : Op → View → View → Prop
  | idle {op : Op} {v : View} : Turn s id op v v
  | claim {locked : List String} {workerID : String} {limit lease : ℤ} {lost : Bool} {v : View}
      {p : ExecutionStep → Bool} (hp : ∀ r ∈ v.steps, p r = true → v.Claimable s.now r) :
      Turn s id (.claim locked workerID limit lease lost) v
        { v with steps := update p (claimRow s.now workerID (claimLease lease)) v.steps }
  | recover {locked order : List String} {actor : String} {v : View} {last : ExecutionStep}
      (hlast : (s.expiredOf locked order id).getLast? = some last) :
      Turn s id (.recover locked order actor) v
        { v with
          status := if recoverable last then .running else .ambiguous
          steps := update (leaseExpired s.db s.now locked) (fun r => recoverRow s.now r r) v.steps }
  | wake {locked : List String} {actor : String} {v : View} {r : ExecutionStep}
      (hr : r ∈ v.steps) (hdue : waitDue s.now r = true) :
      Turn s id (.advance locked actor) v
        (View.settle { v with steps := update (waitDue s.now) (timerRow s.now) v.steps })
  | expire {locked : List String} {actor : String} {v : View} {item : Approval × String}
      {g : ExecutionStep → ExecutionStep} (hitem : item ∈ expiredApprovals s.now locked s.db)
      (hid : item.2 = id)
      (hg : ∀ r ∈ v.steps, g r = r ∨ StepChange s (.advance locked actor) r (g r)) :
      Turn s id (.advance locked actor) v { v with status := .failed, steps := v.steps.map g }
  | wait {n : ℕ} {until_ : Time} {workerID : String} {c : ClaimedStep} {v : View}
      (hn : s.issued[n]? = some (workerID, c)) :
      Turn s id (.scheduleWait n until_) v
        { v with
          steps := update (fun es => leasedTo c.step.id workerID es && es.status = .running)
            (waitRow until_) v.steps }
  | openApproval {n : ℕ} {approvalID prompt : String} {expiresAt : Option Time}
      {workerID : String} {c : ClaimedStep} {a : Approval} {v : View} {r : ExecutionStep}
      (hn : s.issued[n]? = some (workerID, c)) (hr : r ∈ v.steps)
      (hl : leasedTo c.step.id workerID r = true) :
      Turn s id (.openApproval n approvalID prompt expiresAt) v
        { v with
          status := .waitingApproval
          steps := update (leasedTo c.step.id workerID) (waitingApprovalRow a.id prompt) v.steps }
  | complete {n : ℕ} {status : StepStatus} {output : Option Json} {workerID : String}
      {c : ClaimedStep} {v : View} {r : ExecutionStep}
      (hn : s.issued[n]? = some (workerID, c)) (hr : r ∈ v.steps) (hid : r.id = c.step.id)
      (hin : r.status.inFlight = true) :
      Turn s id (.complete n status output none) v
        (View.settle { v with
          steps := update (leasedTo c.step.id workerID)
            (completeRow s.now (completionStatus status) output) v.steps })
  | retryLater {n : ℕ} {status : StepStatus} {output : Option Json} {err message : String}
      {backoff : ℤ} {workerID : String} {c : ClaimedStep} {v : View}
      (hn : s.issued[n]? = some (workerID, c)) :
      Turn s id (.complete n status output (some err)) v
        { v with
          steps := update (leasedTo c.step.id workerID) (retryLaterRow s.now message backoff)
            v.steps }
  | fail {n : ℕ} {status : StepStatus} {output : Option Json} {err message : String}
      {workerID : String} {c : ClaimedStep} {v : View} {r : ExecutionStep}
      (hn : s.issued[n]? = some (workerID, c)) (hr : r ∈ v.steps) (hid : r.id = c.step.id)
      (hin : r.status.inFlight = true) (hmax : r.retryPolicy.maxAttempts ≤ r.attemptCount) :
      Turn s id (.complete n status output (some err)) v
        { v with
          status := .failed
          steps := update (leasedTo c.step.id workerID) (failRow s.now message) v.steps }
  | ambiguous {n : ℕ} {executionErr : Option String} {message : String} {workerID : String}
      {c : ClaimedStep} {v : View} {r : ExecutionStep}
      (hn : s.issued[n]? = some (workerID, c)) (hr : r ∈ v.steps)
      (hl : leasedTo c.step.id workerID r = true) :
      Turn s id (.markAmbiguous n executionErr) v
        { v with
          status := .ambiguous
          steps := update (fun es => leasedTo c.step.id workerID es && es.status.inFlight)
            (ambiguousRow s.now message) v.steps }
  | pause {tenantID actor requestID traceID : String} {e : Execution} {v : View}
      (he : ownedExecution tenantID id s.db = some e) (heq : v.status = e.status)
      (hs : v.status = .running) :
      Turn s id (.changeState tenantID id .pause actor requestID traceID) v
        { v with status := .paused }
  | resume {tenantID actor requestID traceID : String} {e : Execution} {v : View}
      (he : ownedExecution tenantID id s.db = some e) (heq : v.status = e.status)
      (hs : v.status = .paused) :
      Turn s id (.changeState tenantID id .resume actor requestID traceID) v
        { v with status := .running }
  | cancel {tenantID actor requestID traceID : String} {e : Execution} {v : View}
      (he : ownedExecution tenantID id s.db = some e) (heq : v.status = e.status)
      (hs : actionAllowed .cancel v.status = true) :
      Turn s id (.changeState tenantID id .cancel actor requestID traceID) v
        { status := .canceled, cancelRequested := true
          steps := update cancelable (canceledRow s.now) v.steps }
  | approve {tenantID approvalID actor reason requestID traceID : String} {a : Approval}
      {es : ExecutionStep} {v : View}
      (h : AwaitsDecision s.db tenantID approvalID .approved reason a es) (hes : es ∈ v.steps) :
      Turn s id (.decide tenantID approvalID .approved actor reason requestID traceID) v
        (View.settle { v with
          status := .running
          steps := update (fun y => y.id = es.id)
            (decidedRow s.now .approved approvalID actor reason) v.steps })
  | reject {tenantID approvalID actor reason requestID traceID : String} {a : Approval}
      {es : ExecutionStep} {v : View}
      (h : AwaitsDecision s.db tenantID approvalID .rejected reason a es) (hes : es ∈ v.steps) :
      Turn s id (.decide tenantID approvalID .rejected actor reason requestID traceID) v
        { v with
          status := .failed
          steps := update (fun y => y.id = es.id)
            (decidedRow s.now .rejected approvalID actor reason) v.steps }
  | retry {tenantID stepID actor requestID traceID : String} {force : Bool} {es : ExecutionStep}
      {v : View} (hes : ownedStep tenantID id stepID s.db = some es)
      (hok : retryAllowed force es = true) :
      Turn s id (.retry tenantID id stepID actor requestID traceID force) v
        { v with
          status := .running
          steps := update (fun y => y.id = stepID) (retryRow s.now) v.steps }
  | rollback {ids : List String} {tenantID actor requestID traceID : String} {e : Execution}
      {v : View} {rows : List ExecutionStep}
      (he : ownedExecution tenantID id s.db = some e) (heq : v.status = e.status)
      (hs : v.status = .completed ∨ v.status = .failed ∨ v.status = .ambiguous)
      (hnone : ∀ r ∈ v.steps, r.isRollback = false)
      (hrows : RollbackRows s.now id 0 (rollbackSources id s.db) rows) (hne : rows ≠ []) :
      Turn s id (.rollback ids tenantID id actor requestID traceID) v
        { v with status := .rollingBack, steps := v.steps ++ rows }

/-! ### Views of updated tables -/

section Views

variable {db db' : DB} {id target : String} {v : View}

theorem view_some (h : db.view id = some v) :
    ∃ e, db.execution? id = some e ∧ e ∈ db.executions ∧ e.id = id
      ∧ v = ⟨e.status, e.cancelRequestedAt.isSome, db.own id⟩ := by
  obtain ⟨e, he, rfl⟩ := Option.map_eq_some_iff.mp h
  have hid : e.id = id := by simpa [DB.execution?] using List.find?_some he
  exact ⟨e, he, List.mem_of_find?_eq_some he, hid, rfl⟩

theorem view_steps (h : db.view id = some v) : v.steps = db.own id := by
  obtain ⟨e, -, -, -, rfl⟩ := view_some h
  rfl

theorem mem_view (h : db.view id = some v) {r : ExecutionStep} :
    r ∈ v.steps ↔ r ∈ db.steps ∧ r.executionID = id := by
  rw [view_steps h, DB.mem_own]

theorem view_congr (hexec : db'.execution? id = db.execution? id) (hown : db'.own id = db.own id) :
    db'.view id = db.view id := by
  rw [DB.view, DB.view, hexec, hown]

theorem own_update {p : ExecutionStep → Bool} {g : ExecutionStep → ExecutionStep} (id : String)
    (hsteps : db'.steps = update p g db.steps) (hg : ∀ r, (g r).executionID = r.executionID) :
    db'.own id = update p g (db.own id) := by
  rw [DB.own, DB.own, hsteps]
  exact filter_update (fun r => by rw [hg r]) _

theorem own_other {p : ExecutionStep → Bool} {g : ExecutionStep → ExecutionStep}
    (hsteps : db'.steps = update p g db.steps) (hg : ∀ r, (g r).executionID = r.executionID)
    (hp : ∀ r ∈ db.own id, p r = false) : db'.own id = db.own id := by
  rw [own_update id hsteps hg, update_eq_self hp]

section Executions

variable {f : Execution → Execution}
  (hexec : db'.executions = update (fun e => e.id = target) f db.executions)
  (hf : ∀ e, (f e).id = e.id)
include hexec hf

theorem execution?_update :
    db'.execution? id = (db.execution? id).map (patch (fun e => e.id = target) f) := by
  rw [DB.execution?, DB.execution?, hexec]
  exact find?_update (fun e => by rw [hf e]) _

theorem execution?_other (hne : target ≠ id) : db'.execution? id = db.execution? id := by
  rw [execution?_update hexec hf]
  rcases he : db.execution? id with _ | e
  · rfl
  have hid : e.id = id := by simpa [DB.execution?] using List.find?_some he
  have hpatch : patch (fun e : Execution => decide (e.id = target)) f e = e :=
    patch_neg (by simpa [hid] using hne.symm)
  rw [Option.map_some, hpatch]

theorem view_written (requested : Bool) (hv : db.view target = some v)
    {status : ExecutionStatus} (hstatus : ∀ e, (f e).status = status)
    (hcancel : ∀ e, (f e).cancelRequestedAt.isSome = (requested || e.cancelRequestedAt.isSome)) :
    db'.view target = some ⟨status, requested || v.cancelRequested, db'.own target⟩ := by
  obtain ⟨e, he, -, hid, rfl⟩ := view_some hv
  rw [DB.view, execution?_update hexec hf, he, Option.map_some, Option.map_some,
    patch_pos (by simpa using hid), hstatus, hcancel]

end Executions

theorem remainingSteps_view (hv : db.view id = some v) (hne : v.steps ≠ []) :
    remainingSteps id db = some (v.status, v.steps.countP fun es => !es.status.settled) := by
  obtain ⟨e, he, -, hid, rfl⟩ := view_some hv
  have hown : (db.steps.filter fun es => es.executionID = e.id) = db.own id := by
    rw [hid]
    rfl
  rw [remainingSteps, he]
  simp only [hown]
  rw [if_neg (by simpa using hne)]

theorem view_finalizedDB (hv : db.view id = some v) (hne : v.steps ≠ []) (now : Time) :
    (finalizedDB now id db).view id = some v.settle := by
  have hzero : (v.steps.countP fun es => !es.status.settled) = 0 ↔ v.AllSettled := by
    simp [List.countP_eq_zero, View.AllSettled]
  rw [finalizedDB, remainingSteps_view hv hne]
  simp only
  split
  · rename_i hopen
    rw [hv, View.settle]
    rw [ne_eq, hzero] at hopen
    rw [if_neg (by tauto), if_neg (by tauto)]
  rename_i hdone
  rw [not_or, not_not, hzero, not_and_or, not_not, not_not] at hdone
  rw [view_written (f := finalizeRow now _) rfl (fun _ => rfl) false hv (fun _ => rfl)
    fun _ => rfl]
  have hown : DB.own (db.updateExecutions (fun e => e.id = id) (finalizeRow now
      (if v.status = .rollingBack then .rolledBack else .completed))).2 id = v.steps :=
    (view_steps hv).symm
  rw [hown, View.settle]
  rcases hdone.2 with hst | hst <;> simp [hst, hdone.1]

theorem view_finalizedDB_other (hne : target ≠ id) (now : Time) :
    (finalizedDB now target db).view id = db.view id := by
  refine view_congr ?_ ?_
  · obtain heq | ⟨_, final, -, -, -, heq⟩ := finalizedDB_executions db now target
    · rw [DB.execution?, DB.execution?, heq]
    · exact execution?_other heq (fun _ => rfl) hne
  · rw [DB.own, DB.own, finalizedDB_steps]

theorem view_finalizeAll (hv : db.view id = some v) (now : Time) {ids : List String}
    (hne : id ∈ ids → v.steps ≠ []) :
    (ids.foldl (fun db target => finalizedDB now target db) db).view id
      = some (if id ∈ ids then v.settle else v) := by
  induction ids generalizing db v with
  | nil => simpa using hv
  | cons target ids ih =>
    rw [List.foldl_cons]
    by_cases htarget : target = id
    · subst htarget
      have hsteps : v.steps ≠ [] := hne List.mem_cons_self
      rw [ih (view_finalizedDB hv hsteps now) fun _ => by simpa using hsteps, View.settle_settle]
      simp
    · rw [ih ((view_finalizedDB_other htarget now).trans hv) fun hin =>
        hne (List.mem_cons_of_mem _ hin)]
      simp [Ne.symm htarget]

end Views

/-! ### Every operation is a turn -/

section Refines

variable {env : Env} {s : Sys} {id : String} {v : View}

/-- Some turn of the execution leads to the tables `db'`. -/
def Refines (s : Sys) (id : String) (op : Op) (v : View) (db' : DB) : Prop :=
  ∃ v', db'.view id = some v' ∧ Turn s id op v v'

variable {op : Op} {db' : DB}

theorem Refines.unchanged (hv : s.db.view id = some v) (h : db'.view id = s.db.view id) :
    Refines s id op v db' :=
  ⟨v, h.trans hv, .idle⟩

variable {f : Execution → Execution} {status : ExecutionStatus}

/-- Tables in which the row of the execution `target` and a selection of its steps
are written: for another execution nothing changes. -/
theorem view_target (target : String) (requested : Bool) (hv : s.db.view id = some v)
    {p : ExecutionStep → Bool} {g : ExecutionStep → ExecutionStep}
    (hsteps : db'.steps = update p g s.db.steps)
    (hexec : db'.executions = update (fun e => e.id = target) f s.db.executions)
    (hg : ∀ r, (g r).executionID = r.executionID) (hf : ∀ e, (f e).id = e.id)
    (hp : ∀ r ∈ s.db.steps, p r = true → r.executionID = target)
    (hstatus : ∀ e, (f e).status = status)
    (hcancel : ∀ e, (f e).cancelRequestedAt.isSome = (requested || e.cancelRequestedAt.isSome)) :
    db'.view id = some (if target = id
      then ⟨status, requested || v.cancelRequested, update p g v.steps⟩ else v) := by
  by_cases htarget : target = id
  · subst htarget
    rw [if_pos rfl, view_written hexec hf requested hv hstatus hcancel, own_update target hsteps hg,
      ← view_steps hv]
  rw [if_neg htarget, ← hv]
  refine view_congr (execution?_other hexec hf htarget) (own_other hsteps hg fun r hr => ?_)
  obtain ⟨hmem, hown⟩ := DB.mem_own.mp hr
  rw [← Bool.not_eq_true]
  exact fun hpr => htarget ((hp r hmem hpr).symm.trans hown)

theorem Refines.written {target : String} {w : View}
    (hview : db'.view id = some (if target = id then w else v))
    (hturn : target = id → Turn s id op v w) : Refines s id op v db' := by
  refine ⟨_, hview, ?_⟩
  split
  · exact hturn ‹_›
  · exact .idle

theorem Refines.finalized {now : Time} {mid : DB} {target : String} {w : View}
    (hview : mid.view id = some (if target = id then w else v)) (hne : target = id → w.steps ≠ [])
    (hturn : target = id → Turn s id op v w.settle) :
    Refines s id op v (finalizedDB now target mid) := by
  by_cases htarget : target = id
  · subst htarget
    rw [if_pos rfl] at hview
    exact ⟨_, view_finalizedDB hview (hne rfl) now, hturn rfl⟩
  · rw [if_neg htarget] at hview
    exact ⟨v, (view_finalizedDB_other htarget now).trans hview, .idle⟩

theorem owner_of_id (hc : Consistent s.db) {r x : ExecutionStep} (hr : r ∈ s.db.steps)
    (hx : x ∈ s.db.steps) (hid : x.id = r.id) : x.executionID = r.executionID := by
  rw [hc.eq_of_id hx hr hid]

/-! ### Scheduler operations -/

theorem claimable_view (hv : s.db.view id = some v) {r : ExecutionStep} (hr : r ∈ v.steps)
    {e : Execution} (he : s.db.execution? r.executionID = some e)
    (hcl : claimable s.db s.now e r = true) : v.Claimable s.now r := by
  obtain ⟨e', he', -, -, rfl⟩ := view_some hv
  obtain ⟨-, hown⟩ := DB.mem_own.mp hr
  rw [hown, he'] at he
  cases he
  simp only [claimable, Bool.and_eq_true, Bool.or_eq_true, decide_eq_true_eq, Bool.not_eq_true',
    Option.isNone_iff_eq_none] at hcl
  obtain ⟨⟨⟨⟨⟨-, hcancel⟩, hstatus⟩, hdue⟩, hphase⟩, -⟩ := hcl
  exact ⟨hstatus, hphase, by simp [hcancel], hdue⟩

theorem refines_claim (hc : Consistent s.db) (hv : s.db.view id = some v) (locked : List String)
    (workerID : String) (limit lease : ℤ) (lost : Bool) :
    Refines s id (.claim locked workerID limit lease lost) v
      (claimUpdate s.now locked workerID (claimLimit limit) (claimLease lease) s.db).2 := by
  obtain ⟨e, he, -, -, rfl⟩ := view_some hv
  refine ⟨⟨e.status, e.cancelRequestedAt.isSome, _⟩, ?_, .claim (p := fun es =>
    es.id ∈ candidates s.db s.now locked (claimLimit limit)) fun r hr hp => ?_⟩
  · have hown := own_update id (g := claimRow s.now workerID (claimLease lease))
      (show (claimUpdate s.now locked workerID (claimLimit limit) (claimLease lease) s.db).2.steps
        = update (fun es => es.id ∈ candidates s.db s.now locked (claimLimit limit)) _ s.db.steps
        from rfl) fun _ => rfl
    rw [DB.view, hown]
    show (s.db.execution? id).map _ = _
    rw [he]
    rfl
  · obtain ⟨hmem, -⟩ := DB.mem_own.mp hr
    obtain ⟨e', he', hcl⟩ := claimable_of_candidate hc hmem (by simpa using hp)
    exact claimable_view hv hr he' hcl

theorem find?_foldl_update {α : Type} (items : List α) (name : α → String)
    {f : α → Execution → Execution} (hf : ∀ a e, (f a e).id = e.id) (t : List Execution) :
    (items.foldl (fun t a => update (fun e => e.id = name a) (f a) t) t).find?
        (fun e => e.id = id)
      = (t.find? fun e => e.id = id).map fun e =>
          (items.filter fun a => name a = id).foldl (fun e a => f a e) e := by
  induction items generalizing t with
  | nil => simp
  | cons a items ih =>
    rw [List.foldl_cons, ih, find?_update (fun e => by rw [hf a e]), Option.map_map]
    refine Option.map_congr fun e he => ?_
    have hid : e.id = id := by simpa using List.find?_some he
    by_cases hname : name a = id
    · simp [patch, hid, hname]
    · simp [patch, hid, hname, Ne.symm hname]

theorem foldl_recoverExecution (now : Time) (items : List ExecutionStep) (e : Execution) :
    (items.foldl (fun e y => recoverExecution now y e) e).status
        = (items.getLast?.elim e.status fun y => if recoverable y then .running else .ambiguous)
      ∧ (items.foldl (fun e y => recoverExecution now y e) e).cancelRequestedAt
        = e.cancelRequestedAt := by
  induction items generalizing e with
  | nil => exact ⟨rfl, rfl⟩
  | cons y items ih =>
    obtain ⟨hstatus, hcancel⟩ := ih (recoverExecution now y e)
    rw [List.foldl_cons, hstatus, hcancel]
    rcases items with _ | ⟨z, items⟩
    · exact ⟨rfl, rfl⟩
    · exact ⟨by rw [List.getLast?_cons_cons]; rfl, rfl⟩

theorem mem_expiredOf (hv : s.db.view id = some v) {locked order : List String}
    {r : ExecutionStep} :
    r ∈ s.expiredOf locked order id ↔ r ∈ v.steps ∧ leaseExpired s.db s.now locked r = true := by
  rw [Sys.expiredOf, List.mem_filter, expiredRows, mem_arrange, List.mem_filter, mem_view hv,
    decide_eq_true_eq]
  exact and_right_comm

/-- The loop leaves the execution with what the last of its own items wrote. -/
theorem view_recover (x : Bool) (hc : Consistent s.db) (hv : s.db.view id = some v)
    (locked order : List String) (actor : String) :
    (after x (recoverExpiredStepLeases s.now locked order actor) s.db).view id
      = some { v with
          status := (s.expiredOf locked order id).getLast?.elim v.status fun y =>
            if recoverable y then .running else .ambiguous
          steps := update (leaseExpired s.db s.now locked) (fun r => recoverRow s.now r r)
            v.steps } := by
  obtain ⟨e, he, -, -, rfl⟩ := view_some hv
  rw [recover_after]
  set db' := (expiredItems s.now locked order s.db).foldl (recoverPass s.now actor) s.db with hdb'
  have hown : db'.own id = update (leaseExpired s.db s.now locked)
      (fun r => recoverRow s.now r r) (s.db.own id) :=
    own_update id (recover_steps hc locked order actor) fun _ => rfl
  have hexec : db'.execution? id = some ((s.expiredOf locked order id).foldl
      (fun e y => recoverExecution s.now y e) e) := by
    rw [DB.execution?, hdb', foldl_recoverPass_executions, expiredItems_fst,
      find?_foldl_update (f := recoverExecution s.now) _ ExecutionStep.executionID
        (fun _ _ => rfl)]
    rw [DB.execution?] at he
    rw [he]
    rfl
  obtain ⟨hstatus, hcancel⟩ := foldl_recoverExecution s.now (s.expiredOf locked order id) e
  rw [DB.view, hexec, Option.map_some, hstatus, hcancel, hown]

theorem refines_recover (hc : Consistent s.db) (hv : s.db.view id = some v)
    (locked order : List String) (actor : String) :
    Refines s id (.recover locked order actor) v
      (after env.exclusive (recoverExpiredStepLeases s.now locked order actor) s.db) := by
  refine ⟨_, view_recover env.exclusive hc hv locked order actor, ?_⟩
  rcases hlast : (s.expiredOf locked order id).getLast? with _ | last
  · -- No lease of this execution has expired, so no row of it is selected either.
    have hnil : s.expiredOf locked order id = [] := List.getLast?_eq_none_iff.mp hlast
    rw [update_eq_self fun r hr => ?_]
    · exact .idle
    rw [Bool.eq_false_iff]
    exact fun hexp => List.not_mem_nil (hnil ▸ (mem_expiredOf hv).mpr ⟨hr, hexp⟩)
  · exact .recover hlast

/-! ### Timers -/

theorem view_wokenDB (hv : s.db.view id = some v) :
    (wokenDB s.now s.db).view id = some (if ∃ r ∈ v.steps, waitDue s.now r = true
      then View.settle { v with steps := update (waitDue s.now) (timerRow s.now) v.steps }
      else v) := by
  obtain ⟨e, he, -, -, rfl⟩ := view_some hv
  have htimers : (timersDB s.now s.db).view id = some ⟨e.status, e.cancelRequestedAt.isSome,
      update (waitDue s.now) (timerRow s.now) (s.db.own id)⟩ := by
    have hown := own_update id (g := timerRow s.now)
      (show (timersDB s.now s.db).steps = update (waitDue s.now) _ s.db.steps from rfl)
      fun _ => rfl
    rw [DB.view, hown]
    show (s.db.execution? id).map _ = _
    rw [he]
    rfl
  have hnamed : id ∈ (s.db.steps.filter (waitDue s.now)).map (fun es => es.executionID)
      ↔ ∃ r ∈ s.db.own id, waitDue s.now r = true := by
    simp only [List.mem_map, List.mem_filter, DB.mem_own]
    constructor
    · rintro ⟨r, ⟨hr, hdue⟩, hown⟩
      exact ⟨r, ⟨hr, hown⟩, hdue⟩
    · rintro ⟨r, ⟨hr, hown⟩, hdue⟩
      exact ⟨r, ⟨hr, hdue⟩, hown⟩
  have hne : id ∈ (s.db.steps.filter (waitDue s.now)).map (fun es => es.executionID) →
      update (waitDue s.now) (timerRow s.now) (s.db.own id) ≠ [] := by
    intro hin
    obtain ⟨r, hr, -⟩ := hnamed.mp hin
    exact List.ne_nil_of_mem (mem_update_of_mem hr)
  rw [wokenDB, view_finalizeAll htimers s.now hne]
  by_cases hdue : ∃ r ∈ s.db.own id, waitDue s.now r = true
  · rw [if_pos (hnamed.mpr hdue), if_pos hdue]
  · rw [if_neg fun hin => hdue (hnamed.mp hin), if_neg hdue, update_eq_self fun r hr => ?_]
    rw [← Bool.not_eq_true]
    exact fun h => hdue ⟨r, hr, h⟩

variable {locked : List String}

theorem expired_owner (hc : Consistent s.db) {item : Approval × String}
    (hitem : item ∈ expiredApprovals s.now locked s.db) {r : ExecutionStep} (hr : r ∈ s.db.steps)
    (hid : r.id = item.1.executionStepID) : item.2 = r.executionID := by
  obtain ⟨a, -, rfl⟩ := List.mem_map.mp hitem
  simp only at hid
  simp only [executionOf, ← hid, hc.step?_eq hr]
  rfl

theorem expireRows_column {β : Type} (c : ExecutionStep → β) {now : Time}
    (hc : ∀ r, c (expireRow now r) = c r) (items : List (Approval × String)) (r : ExecutionStep) :
    c (expireRows now items r) = c r := by
  induction items generalizing r with
  | nil => rfl
  | cons item items ih =>
    have hfirst := ih (patch (fun y => y.id = item.1.executionStepID) (expireRow now) r)
    exact hfirst.trans (patch_column c (hc r))

theorem view_expired_other (hc : Consistent s.db) (actor : String)
    (hother : ∀ item ∈ expiredApprovals s.now locked s.db, item.2 ≠ id) :
    ((expiredApprovals s.now locked s.db).foldl (expirePass s.now actor)
      (wokenDB s.now s.db)).view id = (wokenDB s.now s.db).view id := by
  set items := expiredApprovals s.now locked s.db with hitems
  refine view_congr ?_ ?_
  · rw [DB.execution?, foldl_expirePass_executions,
      find?_foldl_update (f := fun _ => expireExecution s.now) items Prod.snd (fun _ _ => rfl),
      List.filter_eq_nil_iff.mpr fun item hitem => by simpa using hother item hitem]
    exact Option.map_id'
  rw [DB.own, foldl_expirePass_steps, foldl_update, List.filter_map]
  have hsame : ((fun es : ExecutionStep => decide (es.executionID = id)) ∘ fun r =>
      items.foldl (fun r item => patch (fun es => es.id = item.1.executionStepID)
        (expireRow s.now) r) r) = fun es => decide (es.executionID = id) :=
    funext fun r => congrArg (fun o => decide (o = id))
      (expireRows_column ExecutionStep.executionID (fun _ => rfl) items r)
  rw [hsame]
  refine (List.map_congr_left fun r' hr' => ?_).trans (List.map_id' _)
  -- A row the loop names belongs to the execution of its item.
  obtain ⟨hmem, hown⟩ := List.mem_filter.mp hr'
  rw [wokenDB_steps] at hmem
  obtain ⟨r, hr, rfl⟩ := mem_update.mp hmem
  refine expireRows_free fun item hitem hid => hother item hitem ?_
  rw [patch_column ExecutionStep.id rfl] at hid
  have howner : (patch (waitDue s.now) (timerRow s.now) r).executionID = r.executionID :=
    patch_column ExecutionStep.executionID rfl
  rw [expired_owner hc hitem hr hid, ← howner]
  simpa using hown

theorem view_expired (hv : s.db.view id = some v) (actor : String) {item : Approval × String}
    (hitem : item ∈ expiredApprovals s.now locked s.db) (hid : item.2 = id)
    (hdb : db' = (expiredApprovals s.now locked s.db).foldl (expirePass s.now actor)
      (wokenDB s.now s.db))
    (heff : Effect s (.advance locked actor) db') : Refines s id (.advance locked actor) v db' := by
  obtain ⟨g, new, hsteps, hg, hnew⟩ := heff.rows
  obtain rfl : new = [] := by
    refine List.eq_nil_iff_forall_not_mem.mpr fun r hr => ?_
    cases hnew r hr
  have hown : db'.own id = (s.db.own id).map g := by
    rw [DB.own, hsteps, List.append_nil, List.filter_map, DB.own]
    congr 1
    refine List.filter_congr fun r hr => ?_
    have hdef : (g r).definition = r.definition :=
      (hg r hr).elim (fun h => by rw [h]) StepChange.definition
    have hsame := congrArg ExecutionStep.executionID hdef
    simp only [Function.comp_apply]
    exact congrArg (fun o => decide (o = id)) hsame
  obtain ⟨w, hw⟩ : ∃ w, (wokenDB s.now s.db).view id = some w := ⟨_, view_wokenDB hv⟩
  have hcancel : w.cancelRequested = v.cancelRequested := by
    rw [view_wokenDB hv] at hw
    obtain rfl := Option.some.inj hw
    split
    · simp
    · rfl
  obtain ⟨e, he, -, -, rfl⟩ := view_some hw
  have hexec : db'.execution? id = some
      (((expiredApprovals s.now locked s.db).filter fun item => item.2 = id).foldl
        (fun e _ => expireExecution s.now e) e) := by
    rw [DB.execution?, hdb, foldl_expirePass_executions,
      find?_foldl_update (f := fun _ => expireExecution s.now) _ Prod.snd (fun _ _ => rfl)]
    rw [DB.execution?] at he
    rw [he]
    rfl
  have hfailed : ∀ (l : List (Approval × String)) (e : Execution), l ≠ [] →
      (l.foldl (fun e _ => expireExecution s.now e) e).status = .failed
        ∧ (l.foldl (fun e _ => expireExecution s.now e) e).cancelRequestedAt
          = e.cancelRequestedAt := by
    intro l
    induction l with
    | nil => exact fun _ h => absurd rfl h
    | cons a l ih =>
      intro e _
      rcases l with _ | ⟨b, l⟩
      · exact ⟨rfl, rfl⟩
      · exact ih (expireExecution s.now e) (by simp)
  have hmine : item ∈ (expiredApprovals s.now locked s.db).filter fun item => item.2 = id :=
    List.mem_filter.mpr ⟨hitem, by simpa using hid⟩
  obtain ⟨hstatus, hreq⟩ := hfailed _ e (List.ne_nil_of_mem hmine)
  refine ⟨⟨.failed, v.cancelRequested, v.steps.map g⟩, ?_, ?_⟩
  · rw [DB.view, hexec, Option.map_some, hstatus, hreq, hown, view_steps hv]
    simp only at hcancel
    rw [hcancel]
  · refine .expire hitem hid fun r hr => hg r ((mem_view hv).mp hr).1

theorem refines_advance (hi : s.Inv) (hv : s.db.view id = some v) (locked : List String)
    (actor : String) :
    Refines s id (.advance locked actor) v
      (after env.exclusive (advanceRunbookTimers s.now locked actor) s.db) := by
  have hc := hi.consistent
  have heff : Effect s (.advance locked actor)
      (after env.exclusive (advanceRunbookTimers s.now locked actor) s.db) :=
    (effect_advance hc locked actor).toEffect
  have hout := advance_outcome env.exclusive s.now hc.waitsOwned locked actor
  generalize after env.exclusive _ s.db = db' at heff hout ⊢
  rcases hout with - | -
  · exact .unchanged hv rfl
  by_cases hnamed : ∃ item ∈ expiredApprovals s.now locked s.db, item.2 = id
  · obtain ⟨item, hitem, hid⟩ := hnamed
    exact view_expired hv actor hitem hid rfl heff
  have hview := view_expired_other hc actor fun item hitem hid => hnamed ⟨item, hitem, hid⟩
  rw [view_wokenDB hv] at hview
  refine ⟨_, hview, ?_⟩
  split
  · rename_i hdue
    obtain ⟨r, hr, hd⟩ := hdue
    exact .wake hr hd
  · exact .idle

/-! ### Worker calls -/

variable {n : ℕ}

theorem refines_commitFor (hv : s.db.view id = some v) {α : Type}
    {body : String → ClaimedStep → Tx DB α}
    (h : ∀ workerID c, s.issued[n]? = some (workerID, c) →
      Refines s id op v (after env.exclusive (body workerID c) s.db)) :
    Refines s id op v (s.commitFor env n body).db := by
  rw [Sys.commitFor]
  split
  · rename_i hn
    exact h _ _ hn
  · exact .unchanged hv rfl

theorem view_updateSteps (hv : s.db.view id = some v) {p : ExecutionStep → Bool}
    {g : ExecutionStep → ExecutionStep} (hg : ∀ r, (g r).executionID = r.executionID) :
    (s.db.updateSteps p g).2.view id = some { v with steps := update p g v.steps } := by
  obtain ⟨e, he, -, -, rfl⟩ := view_some hv
  have hown : (s.db.updateSteps p g).2.own id = update p g (s.db.own id) := own_update id rfl hg
  rw [DB.view, hown]
  show (s.db.execution? id).map _ = _
  rw [he]
  rfl

variable {tenantID workerID : String} {c : ClaimedStep}

theorem refines_scheduleWait (hv : s.db.view id = some v) {until_ : Time}
    (hn : s.issued[n]? = some (workerID, c)) :
    Refines s id (.scheduleWait n until_) v
      (after env.exclusive (scheduleWait c until_ workerID) s.db) := by
  rcases scheduleWait_cases env.exclusive c until_ workerID s.db with h | h
  · exact .unchanged hv (by rw [h])
  · rw [h]
    exact ⟨_, view_updateSteps hv fun _ => rfl, .wait hn⟩

theorem refines_openApproval (hi : s.Inv) (hv : s.db.view id = some v) {approvalID prompt : String}
    {expiresAt : Option Time} (hn : s.issued[n]? = some (workerID, c)) :
    Refines s id (.openApproval n approvalID prompt expiresAt) v
      (after env.exclusive (openApproval s.now approvalID c workerID prompt expiresAt) s.db) := by
  have hleased := fun r hr hl => (claim_of_leased (r := r) hi hn hr hl).1
  -- Whichever approval is awaited, the step and its execution wait.
  have hwritten : ∀ (out : Approval) {db' : DB}, CanRequest approvalID workerID prompt c s.db →
      db'.steps = update (leasedTo c.step.id workerID) (waitingApprovalRow out.id prompt)
        s.db.steps →
      db'.executions = update (fun e => e.id = c.step.executionID)
        (waitingApprovalExecution s.now) s.db.executions →
      Refines s id (.openApproval n approvalID prompt expiresAt) v db' := by
    intro out db' hcan hsteps hexecs
    refine .written (view_target c.step.executionID false hv hsteps hexecs (fun _ => rfl)
      (fun _ => rfl) hleased (fun _ => rfl) fun _ => rfl) fun htarget => ?_
    obtain ⟨r, hr, hl⟩ := exists_of_affected hcan.leased
    exact .openApproval hn ((mem_view hv).mpr ⟨hr, (hleased r hr hl).trans htarget⟩) hl
  have hout := open_outcome env.exclusive s.now approvalID workerID prompt c expiresAt s.db
  generalize after env.exclusive _ s.db = db' at hout ⊢
  cases hout with
  | refused => exact .unchanged hv rfl
  | @known out hcan => exact hwritten out hcan rfl rfl
  | requested hcan =>
    exact hwritten (newApproval s.now approvalID c prompt expiresAt) hcan rfl rfl

theorem refines_markAmbiguous (hi : s.Inv) (hv : s.db.view id = some v)
    {executionErr : Option String} (hn : s.issued[n]? = some (workerID, c)) :
    Refines s id (.markAmbiguous n executionErr) v
      (after env.exclusive (markExecutionStepAmbiguous s.now c workerID executionErr) s.db) := by
  have hleased := fun r hr hl => (claim_of_leased (r := r) hi hn hr hl).1
  have hout := mark_outcome env.exclusive s.now c workerID executionErr s.db
  generalize after env.exclusive _ s.db = db' at hout ⊢
  cases hout with
  | refused => exact .unchanged hv rfl
  | @marked message hbind haff =>
    refine .written (view_target c.step.executionID false hv
      (p := fun es => leasedTo c.step.id workerID es && es.status.inFlight)
      (g := ambiguousRow s.now message) (f := ambiguousExecution s.now message) rfl rfl
      (fun _ => rfl) (fun _ => rfl) (fun r hr hp => ?_) (fun _ => rfl) fun _ => rfl)
      fun htarget => ?_
    · rw [Bool.and_eq_true] at hp
      exact hleased r hr hp.1
    · obtain ⟨r, hr, hp⟩ := exists_of_affected haff
      rw [Bool.and_eq_true] at hp
      exact .ambiguous hn ((mem_view hv).mpr ⟨hr, (hleased r hr hp.1).trans htarget⟩) hp.1

theorem refines_complete (hi : s.Inv) (hv : s.db.view id = some v) {status : StepStatus}
    {output : Option Json} {executionErr : Option String} (hn : s.issued[n]? = some (workerID, c)) :
    Refines s id (.complete n status output executionErr) v
      (after env.exclusive
        (completeExecutionStep env.platform s.now c workerID status output executionErr) s.db) := by
  have hc := hi.consistent
  obtain ⟨r, hr, hrid, hexec, hrem, tenantID, hfound⟩ := claim_row hi hn
  have hleased := fun x hx hl => (claim_of_leased (r := x) hi hn hx hl).1
  have hmem : c.step.executionID = id → r ∈ v.steps := fun htarget =>
    (mem_view hv).mpr ⟨hr, hexec.trans htarget⟩
  have hout := complete_outcome env.exclusive env.platform s.now workerID status output
    executionErr hfound hrem
  generalize after env.exclusive _ s.db = db' at hout ⊢
  cases hout with
  | refused => exact .unchanged hv rfl
  | success hin =>
    -- The completed step may belong to another execution.
    have hview : (s.db.updateSteps (leasedTo c.step.id workerID)
        (completeRow s.now (completionStatus status) output)).2.view id
        = some (if c.step.executionID = id then { v with
            steps := update (leasedTo c.step.id workerID)
              (completeRow s.now (completionStatus status) output) v.steps } else v) := by
      rw [view_updateSteps (g := completeRow s.now (completionStatus status) output) hv
        fun _ => rfl]
      split
      · rfl
      rename_i hother
      rw [update_eq_self fun x hx => ?_]
      obtain ⟨hxs, hxe⟩ := (mem_view hv).mp hx
      rw [← Bool.not_eq_true]
      exact fun hl => hother ((hleased x hxs hl).symm.trans hxe)
    refine .finalized hview (fun htarget => ?_) fun htarget => ?_
    · exact List.ne_nil_of_mem (mem_update_of_mem (hmem htarget))
    · exact .complete hn (hmem htarget) hrid hin
  | retry => exact ⟨_, view_updateSteps hv fun _ => rfl, .retryLater hn⟩
  | @fail err message hin hbind hmax =>
    exact .written (view_target c.step.executionID false hv (p := leasedTo c.step.id workerID)
      (g := failRow s.now message) (f := failExecution s.now message) rfl rfl (fun _ => rfl)
      (fun _ => rfl) hleased (fun _ => rfl) fun _ => rfl) fun htarget =>
        .fail hn (hmem htarget) hrid hin hmax

/-! ### Operator calls -/

theorem view_status (target : String) (hv : s.db.view id = some v) (hsteps : db'.steps = s.db.steps)
    (hexec : db'.executions = update (fun e => e.id = target) f s.db.executions)
    (hid : ∀ e, (f e).id = e.id) (hstatus : ∀ e, (f e).status = status)
    (hcancel : ∀ e, (f e).cancelRequestedAt.isSome = (false || e.cancelRequestedAt.isSome)) :
    db'.view id = some (if target = id then { v with status := status } else v) := by
  have hnone : ∀ t : List ExecutionStep, update (fun _ => false) (fun r => r) t = t :=
    fun t => update_eq_self fun _ _ => rfl
  have hview := view_target target false hv (p := fun _ => false) (g := fun r => r)
    (hsteps.trans (hnone _).symm) hexec (fun _ => rfl) hid (fun _ _ h => by cases h) hstatus hcancel
  rwa [hnone, Bool.false_or] at hview

theorem view_of_owned {db : DB} (hc : Consistent db) {e : Execution}
    (he : ownedExecution tenantID id db = some e) :
    db.view id = some ⟨e.status, e.cancelRequestedAt.isSome, db.own id⟩ := by
  obtain ⟨hmem, hid⟩ := ownedExecution_some he
  rw [DB.view, ← hid, hc.execution?_eq hmem]
  rfl

theorem refines_changeState (hc : Consistent s.db) (hv : s.db.view id = some v)
    (tenantID executionID : String) (action : ControlAction) (actor requestID traceID : String) :
    Refines s id (.changeState tenantID executionID action actor requestID traceID) v
      (after env.exclusive
        (changeExecutionState s.now tenantID executionID action actor requestID traceID) s.db) := by
  have hstatus : ∀ {e : Execution}, ownedExecution tenantID executionID s.db = some e →
      executionID = id → v.status = e.status := by
    rintro e he rfl
    rw [Option.some.inj (hv.symm.trans (view_of_owned hc he))]
  have hout := change_outcome env.exclusive s.now tenantID executionID action actor requestID
    traceID s.db
  generalize after env.exclusive _ s.db = db' at hout ⊢
  cases hout with
  | refused => exact .unchanged hv rfl
  | paused he hst =>
    refine .written (view_status executionID hv (f := pausedExecution s.now) rfl rfl (fun _ => rfl)
      (fun _ => rfl) fun _ => rfl) fun htarget => ?_
    subst htarget
    exact .pause he (hstatus he rfl) ((hstatus he rfl).trans hst)
  | resumed he hst =>
    refine .written (view_status executionID hv (f := resumedExecution s.now) rfl rfl (fun _ => rfl)
      (fun _ => rfl) fun _ => rfl) fun htarget => ?_
    subst htarget
    exact .resume he (hstatus he rfl) ((hstatus he rfl).trans hst)
  | canceled he hallowed =>
    refine .written (view_target executionID true hv
      (p := fun es => es.executionID = executionID && cancelable es) (g := canceledRow s.now)
      (f := canceledExecution s.now) rfl rfl (fun _ => rfl) (fun _ => rfl) (fun r hr hp => ?_)
      (fun _ => rfl) fun _ => rfl) fun htarget => ?_
    · simp only [Bool.and_eq_true, decide_eq_true_eq] at hp
      exact hp.1
    subst htarget
    have hown : update (fun es => decide (es.executionID = executionID) && cancelable es)
        (canceledRow s.now) v.steps = update cancelable (canceledRow s.now) v.steps := by
      refine List.map_congr_left fun r hr => ?_
      simp [patch, ((mem_view hv).mp hr).2]
    rw [hown, Bool.true_or]
    exact .cancel he (hstatus he rfl) (by rw [hstatus he rfl]; exact hallowed)

theorem view_decided (hc : Consistent s.db) (hv : s.db.view id = some v)
    {approvalID actor reason : String} {decision : Decision} {a : Approval} {es : ExecutionStep}
    (hwait : AwaitsDecision s.db tenantID approvalID decision reason a es)
    (hid : ∀ e, (f e).id = e.id) (hst : ∀ e, (f e).status = status)
    (hcancel : ∀ e, (f e).cancelRequestedAt.isSome = (false || e.cancelRequestedAt.isSome)) :
    ((decidedDB s.now decision approvalID actor reason es s.db).updateExecutions
      (fun e => e.id = es.executionID) f).2.view id
      = some (if es.executionID = id then { v with
          status := status
          steps := update (fun y => y.id = es.id)
            (decidedRow s.now decision approvalID actor reason) v.steps } else v) := by
  obtain ⟨-, -, hes, -⟩ := approvalWithStep_some hwait.found
  exact view_target es.executionID false hv (p := fun y => y.id = es.id)
    (g := decidedRow s.now decision approvalID actor reason) rfl rfl (fun _ => rfl) hid
    (fun r hr hp => owner_of_id hc hes hr (by simpa using hp)) hst hcancel

theorem refines_decide (hc : Consistent s.db) (hv : s.db.view id = some v)
    (tenantID approvalID : String) (decision : Decision) (actor reason requestID traceID : String) :
    Refines s id (.decide tenantID approvalID decision actor reason requestID traceID) v
      (after env.exclusive
        (decideApproval s.now tenantID approvalID decision actor reason requestID traceID)
        s.db) := by
  have hmem : ∀ {a : Approval} {es : ExecutionStep},
      approvalWithStep tenantID approvalID s.db = some (a, es) →
      es.executionID = id → es ∈ v.steps := fun hfound htarget =>
    (mem_view hv).mpr ⟨(approvalWithStep_some hfound).2.2.1, htarget⟩
  have hout := decide_outcome env.exclusive s.now tenantID approvalID decision actor reason
    requestID traceID hc.owner
  generalize after env.exclusive _ s.db = db' at hout ⊢
  cases hout with
  | refused => exact .unchanged hv rfl
  | approved hwait =>
    refine Refines.finalized (view_decided hc hv hwait (f := approvedExecution s.now)
      (fun _ => rfl) (fun _ => rfl) fun _ => rfl) (fun htarget => ?_)
      fun htarget => .approve hwait (hmem hwait.found htarget)
    exact List.ne_nil_of_mem (mem_update_of_mem (hmem hwait.found htarget))
  | rejected hwait =>
    exact .written (view_decided hc hv hwait (f := rejectedExecution s.now) (fun _ => rfl)
      (fun _ => rfl) fun _ => rfl) fun htarget => .reject hwait (hmem hwait.found htarget)

theorem view_retry (x : Bool) (hc : Consistent s.db) (hv : s.db.view id = some v)
    {executionID stepID : String} {es : ExecutionStep} {force : Bool}
    (hes : ownedStep tenantID executionID stepID s.db = some es)
    (hok : retryAllowed force es = true) (actor requestID traceID : String) :
    (after x (retryExecutionStep s.now tenantID executionID stepID actor requestID traceID force)
      s.db).view id
      = some (if executionID = id then { v with
          status := .running
          steps := update (fun y => y.id = stepID) (retryRow s.now) v.steps } else v) := by
  obtain ⟨hmem, hid, hown⟩ := ownedStep_some hes
  obtain ⟨entry, hafter⟩ := retry_ok x s.now actor requestID traceID hes hok
  rw [hafter]
  refine view_target executionID false hv (p := fun y => y.id = stepID) (g := retryRow s.now)
    (f := retriedExecution s.now) rfl rfl (fun _ => rfl) (fun _ => rfl) (fun r hr hp => ?_)
    (fun _ => rfl) fun _ => rfl
  rw [owner_of_id hc hmem hr ((by simpa using hp : r.id = stepID).trans hid.symm), hown]

theorem refines_retry (hc : Consistent s.db) (hv : s.db.view id = some v)
    (tenantID executionID stepID actor requestID traceID : String) (force : Bool) :
    Refines s id (.retry tenantID executionID stepID actor requestID traceID force) v
      (after env.exclusive
        (retryExecutionStep s.now tenantID executionID stepID actor requestID traceID force)
        s.db) := by
  by_cases hok : ∃ es, ownedStep tenantID executionID stepID s.db = some es
      ∧ retryAllowed force es = true
  swap
  · rw [retry_error fun es hes => ?_]
    · exact .unchanged hv rfl
    · rw [← Bool.not_eq_true]
      exact fun h => hok ⟨es, hes, h⟩
  obtain ⟨es, hes, hallowed⟩ := hok
  refine .written (view_retry env.exclusive hc hv hes hallowed actor requestID traceID)
    fun htarget => ?_
  subst htarget
  exact .retry hes hallowed

theorem view_rollback (hv : s.db.view id = some v) {executionID : String}
    {sources : List (ExecutionStep × Action)} {rows : List ExecutionStep}
    (hrows : RollbackRows s.now executionID 0 sources rows) (entry : AuditEntry) :
    (((DB.updateExecutions (fun y => y.id = executionID) (rollingBackExecution s.now)
      { s.db with steps := s.db.steps ++ rows }).2).audited entry).view id
      = some (if executionID = id then { v with
          status := .rollingBack, steps := v.steps ++ rows } else v) := by
  have hnew : ∀ r ∈ rows, r.executionID = executionID := by
    intro r hr
    obtain ⟨_, _, _, _, _, _, -, -, -, rfl⟩ := hrows.mem hr
    rfl
  obtain ⟨e, he, -, -, rfl⟩ := view_some hv
  set mid : DB := { s.db with steps := s.db.steps ++ rows } with hmid
  by_cases htarget : executionID = id
  · subst htarget
    have hown : mid.own executionID = s.db.own executionID ++ rows := by
      rw [DB.own, hmid, List.filter_append, DB.own]
      congr 1
      exact List.filter_eq_self.mpr fun r hr => by simpa using hnew r hr
    have hmidview : mid.view executionID
        = some ⟨e.status, e.cancelRequestedAt.isSome, s.db.own executionID ++ rows⟩ := by
      rw [DB.view, hown]
      show (s.db.execution? executionID).map _ = _
      rw [he]
      rfl
    have hview : (DB.updateExecutions (fun y => y.id = executionID) (rollingBackExecution s.now)
        mid).2.view executionID
        = some ⟨.rollingBack, false || e.cancelRequestedAt.isSome, mid.own executionID⟩ :=
      view_written (f := rollingBackExecution s.now) rfl (fun _ => rfl) false hmidview
        (fun _ => rfl) fun _ => rfl
    rw [if_pos rfl]
    rw [hown, Bool.false_or] at hview
    exact hview
  rw [if_neg htarget, ← hv]
  refine view_congr (execution?_other (f := rollingBackExecution s.now) rfl (fun _ => rfl)
    htarget) ?_
  show mid.own id = s.db.own id
  have hnil : rows.filter (fun es => es.executionID = id) = [] :=
    List.filter_eq_nil_iff.mpr fun r hr => by simpa [hnew r hr] using htarget
  rw [DB.own, hmid, List.filter_append, hnil, List.append_nil, DB.own]

theorem refines_rollback (hc : Consistent s.db) (hv : s.db.view id = some v) (ids : List String)
    (tenantID executionID actor requestID traceID : String) :
    Refines s id (.rollback ids tenantID executionID actor requestID traceID) v
      (after env.exclusive
        (startExecutionRollback s.now ids tenantID executionID actor requestID traceID) s.db) := by
  obtain h | ⟨e, rows, entry, he, hst, hnone, hrows, hne, -, hafter⟩ :=
    rollback_cases env.exclusive s.db s.now ids tenantID executionID actor requestID traceID
  · rw [h]
    exact .unchanged hv rfl
  rw [hafter]
  refine .written (view_rollback hv hrows entry) fun htarget => ?_
  subst htarget
  have hstatus : v.status = e.status := by
    rw [Option.some.inj (hv.symm.trans (view_of_owned hc he))]
  refine .rollback he hstatus (hstatus ▸ hst) (fun r hr => ?_) hrows hne
  obtain ⟨hmem, hown⟩ := (mem_view hv).mp hr
  exact hnone r hmem hown

theorem refines_start (hv : s.db.view id = some v) (executionID : String)
    (ids : List String) (input : StartExecutionInput) :
    Refines s id (.startExecution executionID ids input) v
      (after env.exclusive (startExecution env.platform s.now executionID ids input) s.db) := by
  obtain h | ⟨rv, doc, incident, rows, entry, -, -, hfresh, hrows, -, hafter⟩ :=
    start_cases env.exclusive s.db s.now env.platform executionID ids input
  · rw [h]
    exact .unchanged hv rfl
  obtain ⟨e, he, hmem, hid, -⟩ := view_some hv
  have hne : executionID ≠ id := fun heq => hfresh e hmem (hid.trans heq.symm)
  rw [hafter]
  refine .unchanged hv (view_congr ?_ ?_)
  · show (s.db.executions ++ [newExecution s.now executionID rv incident input]).find? _ = _
    rw [List.find?_append]
    rw [DB.execution?] at he ⊢
    rw [he]
    rfl
  have hnil : rows.filter (fun es => es.executionID = id) = [] := by
    refine List.filter_eq_nil_iff.mpr fun r hr => ?_
    obtain ⟨_, _, _, _, _, -, -, -, rfl⟩ := hrows.mem hr
    exact fun hid => hne (of_decide_eq_true hid)
  show (s.db.steps ++ rows).filter _ = _
  rw [List.filter_append, hnil, List.append_nil]
  rfl

/-- **Every operation is a turn of every stored execution.** -/
theorem turn_perform (env : Env) (hi : s.Inv) (hv : s.db.view id = some v) (op : Op) :
    ∃ v', (Sys.perform env op s).db.view id = some v' ∧ Turn s id op v v' := by
  have hc := hi.consistent
  cases op with
  | tick elapsed | catalog runbooks versions incidents => exact Refines.unchanged hv rfl
  | startExecution executionID ids input => exact refines_start hv executionID ids input
  | claim locked workerID limit lease lost =>
    rw [perform_claim_db]
    exact refines_claim hc hv locked workerID limit lease lost
  | recover locked order actor => exact refines_recover hc hv locked order actor
  | advance locked actor => exact refines_advance hi hv locked actor
  | scheduleWait n until_ => exact refines_commitFor hv fun _ _ hn => refines_scheduleWait hv hn
  | openApproval n approvalID prompt expiresAt =>
    exact refines_commitFor hv fun _ _ hn => refines_openApproval hi hv hn
  | complete n status output executionErr =>
    exact refines_commitFor hv fun _ _ hn => refines_complete hi hv hn
  | markAmbiguous n executionErr =>
    exact refines_commitFor hv fun _ _ hn => refines_markAmbiguous hi hv hn
  | changeState tenantID executionID action actor requestID traceID =>
    exact refines_changeState hc hv tenantID executionID action actor requestID traceID
  | decide tenantID approvalID decision actor reason requestID traceID =>
    exact refines_decide hc hv tenantID approvalID decision actor reason requestID traceID
  | retry tenantID executionID stepID actor requestID traceID force =>
    exact refines_retry hc hv tenantID executionID stepID actor requestID traceID force
  | rollback ids tenantID executionID actor requestID traceID =>
    exact refines_rollback hc hv ids tenantID executionID actor requestID traceID

end Refines

/-! ### The birth of an execution -/

section Births

variable {env : Env} {s : Sys} {op : Op} {id : String}

/-- An execution as `StartExecution` leaves it. -/
structure View.Born (v : View) : Prop where
  running : v.status = .running
  wanted : v.cancelRequested = false
  nonempty : v.steps ≠ []
  fresh : ∀ r ∈ v.steps, r.isRollback = false ∧ r.status = .pending ∧ r.attemptCount = 0

theorem ForwardRows.ne_nil {now : Time} {doc : Document} {executionID : String} {position : ℕ}
    {steps : List Step} {rows : List ExecutionStep}
    (h : ForwardRows now doc executionID position steps rows) (hne : steps ≠ []) : rows ≠ [] := by
  cases h with
  | nil => exact absurd rfl hne
  | cons => exact List.cons_ne_nil _ _

theorem view_born (hi : s.Inv) (hnone : s.db.view id = none) {v : View}
    (hv : (Sys.perform env op s).db.view id = some v) : v.Born := by
  have hfind : s.db.execution? id = none := Option.map_eq_none_iff.mp hnone
  have hfree : ∀ e ∈ s.db.executions, e.id ≠ id := by
    simpa [DB.execution?] using hfind
  obtain ⟨e, he, hmem, hid, rfl⟩ := view_some hv
  by_cases hop : ∀ executionID ids input, op ≠ .startExecution executionID ids input
  · -- Any other operation keeps the identifiers of the executions.
    have hold : e.id ∈ s.db.executions.map Execution.id := by
      rw [← (kept_perform env hi hop).kept.map_id]
      exact List.mem_map_of_mem hmem
    obtain ⟨e₀, he₀, hid₀⟩ := List.mem_map.mp hold
    exact absurd (hid₀.trans hid) (hfree e₀ he₀)
  simp only [not_forall, not_not] at hop
  obtain ⟨executionID, ids, input, rfl⟩ := hop
  simp only [Sys.perform, Sys.commit] at he hmem hv ⊢
  obtain h | ⟨rv, doc, incident, rows, entry, -, hdoc, hfresh, hrows, -, hafter⟩ :=
    start_cases env.exclusive s.db s.now env.platform executionID ids input
  · rw [h] at hmem
    exact absurd hid (hfree e hmem)
  rw [hafter] at he hmem ⊢
  rcases List.mem_append.mp hmem with hold | hnew
  · exact absurd hid (hfree e hold)
  obtain rfl := List.mem_singleton.mp hnew
  have hnil : s.db.own id = [] := by
    refine List.filter_eq_nil_iff.mpr fun r hr hown => ?_
    obtain ⟨e₀, he₀, hid₀⟩ := hi.consistent.owner r hr
    exact hfree e₀ he₀ (hid₀.trans (of_decide_eq_true hown))
  have hall : rows.filter (fun es => es.executionID = id) = rows := by
    refine List.filter_eq_self.mpr fun r hr => ?_
    obtain ⟨_, _, _, _, _, -, -, -, rfl⟩ := hrows.mem hr
    exact decide_eq_true hid
  have hown : (s.db.steps ++ rows).filter (fun es => es.executionID = id) = rows := by
    rw [List.filter_append, hall]
    show s.db.own id ++ rows = rows
    rw [hnil, List.nil_append]
  refine ⟨rfl, rfl, ?_, ?_⟩
  · show (s.db.steps ++ rows).filter (fun es => es.executionID = id) ≠ []
    rw [hown]
    exact hrows.ne_nil (parse_steps hdoc)
  show ∀ r ∈ (s.db.steps ++ rows).filter (fun es => es.executionID = id), _
  rw [hown]
  intro r hr
  obtain ⟨_, _, _, _, _, -, -, -, rfl⟩ := hrows.mem hr
  exact ⟨rfl, rfl, rfl⟩

end Births

end StormRelay
