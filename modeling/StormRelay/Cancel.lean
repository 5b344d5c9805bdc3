/-
Cancellation.

`ChangeExecutionState` with action `cancel` records the request and stops the
steps no worker holds; the steps in flight and the pending approvals stay, and
most operations that later touch them write the status of the execution without
looking at it.

* `cancel_final_iff` — **after a cancel has committed, the execution is canceled
  throughout a run if and only if no operation of the run overwrites it; and in
  every run none of its steps is claimed again**.
-/
import StormRelay.Invariant

namespace StormRelay

open Tx Table Transition

variable {env : Env} {s : Sys} {id : String} {t : List Execution}

/-! ### One status in the table of executions -/

/-- The execution `id` is canceled. -/
def Canceled (id : String) (s : Sys) : Prop :=
  ∃ e ∈ s.db.executions, e.id = id ∧ e.status = .canceled

def NotCanceled (id : String) (t : List Execution) : Prop :=
  ∀ e ∈ t, e.id = id → e.status ≠ .canceled

theorem NotCanceled.update (h : NotCanceled id t) (p : Execution → Bool)
    {f : Execution → Execution} (hf : ∀ e, (f e).status ≠ .canceled) :
    NotCanceled id (update p f t) := by
  intro e' he' hid'
  obtain ⟨e, he, rfl⟩ := mem_update.mp he'
  rw [patch] at hid' ⊢
  split
  · exact hf e
  · rename_i hp
    rw [if_neg hp] at hid'
    exact h e he hid'

theorem notCanceled_update {f : Execution → Execution} (hf : ∀ e, (f e).status ≠ .canceled)
    (t : List Execution) : NotCanceled id (Table.update (fun e => e.id = id) f t) := by
  intro e' he' hid'
  obtain ⟨e, he, rfl⟩ := mem_update.mp he'
  by_cases hp : e.id = id
  · rw [patch_pos (by simpa using hp)]
    exact hf e
  · rw [patch_neg (by simpa using hp)] at hid'
    exact absurd hid' hp

variable {e : Execution}

theorem mem_update_of_ne (he : e ∈ t) {id' : String} (hne : e.id ≠ id')
    (f : Execution → Execution) :
    e ∈ Table.update (fun e => e.id = id') f t := by
  have hmem := mem_update_of_mem (p := fun e : Execution => e.id = id') (f := f) he
  rwa [patch_neg (by simpa using hne)] at hmem

section Loop

variable {α : Type} {items : List α} {name : α → String} {f : α → Execution → Execution}

theorem mem_foldl_of_ne {e : Execution} (he : e ∈ t) (hne : ∀ a ∈ items, e.id ≠ name a) :
    e ∈ items.foldl (fun t a => Table.update (fun e => e.id = name a) (f a) t) t := by
  induction items generalizing t with
  | nil => exact he
  | cons a items ih =>
    exact ih (mem_update_of_ne he (hne a List.mem_cons_self) (f a))
      fun b hb => hne b (List.mem_cons_of_mem a hb)

theorem notCanceled_foldl (hf : ∀ a e, (f a e).status ≠ .canceled)
    (hmem : ∃ a ∈ items, name a = id) (t : List Execution) :
    NotCanceled id (items.foldl (fun t a => Table.update (fun e => e.id = name a) (f a) t) t) := by
  have hkeep : ∀ (items : List α) (t : List Execution), NotCanceled id t → NotCanceled id
      (items.foldl (fun t a => Table.update (fun e => e.id = name a) (f a) t) t) := by
    intro items
    induction items with
    | nil => exact fun _ h => h
    | cons a items ih => exact fun t h => ih _ (h.update _ (hf a))
  induction items generalizing t with
  | nil => simp at hmem
  | cons a items ih =>
    rw [List.foldl_cons]
    obtain ⟨b, hb, hname⟩ := hmem
    rcases List.mem_cons.mp hb with rfl | hb
    · subst hname
      exact hkeep items _ (notCanceled_update (hf b) t)
    · exact ih ⟨b, hb, hname⟩ _

end Loop

theorem NotCanceled.finalizedDB {db : DB} (h : NotCanceled id db.executions) (now : Time)
    (executionID : String) : NotCanceled id (finalizedDB now executionID db).executions := by
  obtain heq | ⟨_, final, -, -, hfinal, heq⟩ := finalizedDB_executions db now executionID
  · rw [heq]
    exact h
  · rw [heq]
    exact h.update _ fun _ => hfinal

theorem mem_finalizedDB (db : DB) (hk : Keyed Execution.id db.executions) (he : e ∈ db.executions)
    (hs : e.status = .canceled) (now : Time) (executionID : String) :
    e ∈ (finalizedDB now executionID db).executions := by
  obtain heq | ⟨e', final, hfind, hst, -, heq⟩ := finalizedDB_executions db now executionID
  · rw [heq]
    exact he
  rw [heq]
  refine mem_update_of_ne he (fun hid => ?_) _
  have hfound : db.execution? e.id = some e := hk.find?_eq he
  rw [hid, hfind] at hfound
  rw [Option.some.inj hfound, hs] at hst
  rcases hst with h | h <;> cases h

theorem mem_wokenDB {db : DB} (hk : Keyed Execution.id db.executions) (he : e ∈ db.executions)
    (hs : e.status = .canceled) (now : Time) :
    e ∈ (wokenDB now db).executions := by
  have h : ∀ (ids : List String) (db : DB), Keyed Execution.id db.executions →
      e ∈ db.executions → e ∈ (ids.foldl (fun db id => finalizedDB now id db) db).executions := by
    intro ids
    induction ids with
    | nil => exact fun _ _ he => he
    | cons id ids ih =>
      intro db hk he
      refine ih _ ?_ (mem_finalizedDB db hk he hs now id)
      rw [Keyed, (finalizedDB_kept now id).map_id]
      exact hk
  exact h _ (timersDB now db) hk he

/-! ### The operations that overwrite a canceled status -/

/-- **The operations that write another status over a canceled execution `id`**,
each with the guards under which it commits. -/
def Overwrites (env : Env) (id : String) : Op → Sys → Prop
  | .recover locked _ _, s =>
    ∃ r ∈ s.db.steps, r.executionID = id ∧ leaseExpired s.db s.now locked r = true
  | .advance locked _, s =>
    env.exclusive = false ∧ ∃ item ∈ expiredApprovals s.now locked s.db, item.2 = id
  | .openApproval n approvalID prompt _, s =>
    ∃ workerID c, s.issued[n]? = some (workerID, c) ∧ c.step.executionID = id
      ∧ textStorable prompt = true ∧ (∃ r ∈ s.db.steps, leasedTo c.step.id workerID r = true)
      ∧ ((∃ a ∈ s.db.approvals, a.executionStepID = c.step.id)
        ∨ ∀ a ∈ s.db.approvals, a.id ≠ approvalID)
  | .complete n _ output executionErr, s =>
    ∃ workerID c, s.issued[n]? = some (workerID, c) ∧ c.step.executionID = id
      ∧ executionErr ≠ none ∧ completionBindable output executionErr = true
      ∧ ∃ r ∈ s.db.steps, r.id = c.step.id ∧ r.status.inFlight = true
        ∧ r.retryPolicy.maxAttempts ≤ r.attemptCount
  | .markAmbiguous n executionErr, s =>
    ∃ workerID c, s.issued[n]? = some (workerID, c) ∧ c.step.executionID = id
      ∧ bindableText (ambiguousMessage executionErr) = true
      ∧ ∃ r ∈ s.db.steps, leasedTo c.step.id workerID r = true
  | .decide tenantID approvalID decision _ reason _ _, s =>
    ∃ a es, AwaitsDecision s.db tenantID approvalID decision reason a es ∧ es.executionID = id
  | .retry tenantID executionID stepID _ _ _ force, s =>
    executionID = id ∧ ∃ es, ownedStep tenantID executionID stepID s.db = some es
      ∧ retryAllowed force es = true
  | _, _ => False

/-- Both directions at once: overwriting operations leave no canceled row, the
others leave the row alone. -/
theorem canceled_iff_not {P : Prop} {db' : DB} (hid : e.id = id) (hs : e.status = .canceled)
    (hover : P → NotCanceled id db'.executions) (hkeep : ¬ P → e ∈ db'.executions) :
    (∃ e ∈ db'.executions, e.id = id ∧ e.status = .canceled) ↔ ¬ P := by
  constructor
  · rintro ⟨e', he', hid', hs'⟩ hP
    exact hover hP e' he' hid' hs'
  · exact fun hP => ⟨e, hkeep hP, hid, hs⟩

section Exact

variable {e : Execution} (he : e ∈ s.db.executions) (hid : e.id = id) (hs : e.status = .canceled)
include he hid hs

theorem canceled_kept_iff {P : Prop} {db' : DB} (hexec : db'.executions = s.db.executions)
    (hP : ¬ P) : (∃ e ∈ db'.executions, e.id = id ∧ e.status = .canceled) ↔ ¬ P :=
  canceled_iff_not hid hs (fun h => absurd h hP) fun _ => hexec ▸ he

theorem canceled_written_iff {P : Prop} {db' : DB} {target : String} {f : Execution → Execution}
    (hexec : db'.executions = Table.update (fun e => e.id = target) f s.db.executions)
    (hf : ∀ e, (f e).status ≠ .canceled) (hP : P ↔ target = id) :
    (∃ e ∈ db'.executions, e.id = id ∧ e.status = .canceled) ↔ ¬ P := by
  refine canceled_iff_not hid hs (fun h => ?_) fun h => ?_
  · rw [hexec, hP.mp h]
    exact notCanceled_update hf _
  · rw [hexec]
    exact mem_update_of_ne he (fun hown => h (hP.mpr (hown.symm.trans hid))) f

theorem canceled_commitFor_iff {α : Type} {n : ℕ} {body : String → ClaimedStep → Tx DB α}
    {P : String → ClaimedStep → Prop}
    (h : ∀ workerID c, s.issued[n]? = some (workerID, c) →
      ((∃ e ∈ (after env.exclusive (body workerID c) s.db).executions,
        e.id = id ∧ e.status = .canceled) ↔ ¬ P workerID c)) :
    Canceled id (s.commitFor env n body)
      ↔ ¬ ∃ workerID c, s.issued[n]? = some (workerID, c) ∧ P workerID c := by
  rcases hn : s.issued[n]? with _ | ⟨workerID, c⟩
  · rw [Sys.commitFor_none env hn]
    exact canceled_kept_iff he hid hs rfl fun ⟨_, _, hsome, _⟩ => by cases hsome
  rw [Sys.commitFor_some env hn]
  refine (h workerID c hn).trans (not_congr ⟨fun hP => ⟨workerID, c, rfl, hP⟩, ?_⟩)
  rintro ⟨w, c', hsome, hP⟩
  obtain ⟨rfl, rfl⟩ := Prod.mk.inj (Option.some.inj hsome)
  exact hP

theorem canceled_recover_iff (locked order : List String) (actor : String) :
    Canceled id (Sys.perform env (.recover locked order actor) s)
      ↔ ¬ Overwrites env id (.recover locked order actor) s := by
  refine canceled_iff_not hid hs ?_ ?_ <;> intro hP <;>
    simp only [Sys.perform, Sys.commit] <;>
    rw [recover_after, foldl_recoverPass_executions, expiredItems_fst]
  · obtain ⟨r, hr, hown, hexp⟩ := hP
    refine notCanceled_foldl (f := recoverExecution s.now) (fun y e => ?_)
      ⟨r, mem_arrange.mpr (List.mem_filter.mpr ⟨hr, hexp⟩), hown⟩ _
    simp only [recoverExecution]
    split <;> simp
  · refine mem_foldl_of_ne (f := recoverExecution s.now) he fun r hr hown => hP ?_
    obtain ⟨hmem, hexp⟩ := List.mem_filter.mp (mem_arrange.mp hr)
    exact ⟨r, hmem, hown.symm.trans hid, hexp⟩

theorem canceled_advance_iff (hc : Consistent s.db) (locked : List String) (actor : String) :
    Canceled id (Sys.perform env (.advance locked actor) s)
      ↔ ¬ Overwrites env id (.advance locked actor) s := by
  simp only [Canceled, Sys.perform, Sys.commit]
  have hout := advance_outcome env.exclusive s.now hc.waitsOwned locked actor
  generalize after env.exclusive _ s.db = db' at hout ⊢
  cases hout with
  | busy hx =>
    refine canceled_kept_iff he hid hs rfl ?_
    rintro ⟨hshared, -⟩
    rw [hx] at hshared
    cases hshared
  | advanced hok =>
    refine canceled_iff_not hid hs ?_ ?_ <;> intro hP <;> rw [foldl_expirePass_executions]
    · obtain ⟨-, item, hitem, hown⟩ := hP
      exact notCanceled_foldl (f := fun _ => expireExecution s.now)
        (fun _ _ => by simp [expireExecution]) ⟨item, hitem, hown⟩ _
    refine mem_foldl_of_ne (f := fun _ => expireExecution s.now)
      (mem_wokenDB hc.executions he hs s.now) fun item hitem hown => ?_
    rcases hok with hshared | hnone
    · exact hP ⟨hshared, item, hitem, hown.symm.trans hid⟩
    · rw [hnone] at hitem
      cases hitem

theorem canceled_openApproval_iff (hc : Consistent s.db) (n : ℕ) (approvalID prompt : String)
    (expiresAt : Option Time) :
    Canceled id (Sys.perform env (.openApproval n approvalID prompt expiresAt) s)
      ↔ ¬ Overwrites env id (.openApproval n approvalID prompt expiresAt) s := by
  refine canceled_commitFor_iff he hid hs fun workerID c hn => ?_
  have hcan : (c.step.executionID = id ∧ textStorable prompt = true
      ∧ (∃ r ∈ s.db.steps, leasedTo c.step.id workerID r = true)
      ∧ ((∃ a ∈ s.db.approvals, a.executionStepID = c.step.id)
        ∨ ∀ a ∈ s.db.approvals, a.id ≠ approvalID))
      ↔ CanRequest approvalID workerID prompt c s.db ∧ c.step.executionID = id := by
    rw [← hc.affected_leased_iff]
    exact ⟨fun h => ⟨⟨h.2.1, h.2.2.1, h.2.2.2⟩, h.1⟩,
      fun h => ⟨h.2, h.1.prompt, h.1.leased, h.1.free⟩⟩
  rw [hcan]
  have hout := open_outcome env.exclusive s.now approvalID workerID prompt c expiresAt s.db
  generalize after env.exclusive _ s.db = db' at hout ⊢
  cases hout with
  | refused hno => exact canceled_kept_iff he hid hs rfl fun h => hno h.1
  | known hreq | requested hreq =>
    exact canceled_written_iff he hid hs (f := waitingApprovalExecution s.now) rfl
      (fun _ => by simp [waitingApprovalExecution]) ⟨And.right, fun h => ⟨hreq, h⟩⟩

theorem canceled_complete_iff (hi : s.Inv) (n : ℕ) (status : StepStatus) (output : Option Json)
    (executionErr : Option String) :
    Canceled id (Sys.perform env (.complete n status output executionErr) s)
      ↔ ¬ Overwrites env id (.complete n status output executionErr) s := by
  have hc := hi.consistent
  refine canceled_commitFor_iff he hid hs fun workerID c hn => ?_
  obtain ⟨r, hr, hrid, -, hrem, tenantID, hfound⟩ := claim_row hi hn
  have hrow : ∀ r' ∈ s.db.steps, r'.id = c.step.id → r' = r := fun r' hr' hid' =>
    hc.eq_of_id hr' hr (hid'.trans hrid.symm)
  have hout := complete_outcome env.exclusive env.platform s.now workerID status output
    executionErr hfound hrem
  generalize after env.exclusive _ s.db = db' at hout ⊢
  cases hout with
  | refused hno =>
    refine canceled_kept_iff he hid hs rfl ?_
    rintro ⟨-, -, hbind, r', hr', hrid', hin, -⟩
    exact hno ⟨hrow r' hr' hrid' ▸ hin, hbind⟩
  | success =>
    refine canceled_iff_not hid hs (fun h => absurd rfl h.2.1) fun _ => ?_
    exact mem_finalizedDB (s.db.updateSteps (leasedTo c.step.id workerID)
      (completeRow s.now (completionStatus status) output)).2 hc.executions he hs _ _
  | retry _ _ hlt =>
    refine canceled_kept_iff he hid hs rfl ?_
    rintro ⟨-, -, -, r', hr', hrid', -, hmax⟩
    rw [hrow r' hr' hrid'] at hmax
    exact absurd hlt (not_lt.mpr hmax)
  | @fail err message hin hbind hmax entry =>
    refine canceled_written_iff he hid hs (f := failExecution s.now message) rfl
      (fun _ => by simp [failExecution]) ⟨And.left, fun h => ?_⟩
    exact ⟨h, nofun, hbind, r, hr, hrid, hin, hmax⟩

theorem canceled_markAmbiguous_iff (hc : Consistent s.db) (n : ℕ) (executionErr : Option String) :
    Canceled id (Sys.perform env (.markAmbiguous n executionErr) s)
      ↔ ¬ Overwrites env id (.markAmbiguous n executionErr) s := by
  refine canceled_commitFor_iff he hid hs fun workerID c hn => ?_
  rw [← hc.affected_leased_iff]
  -- A leased step is in flight, so the two selections are the same.
  have hsel : affected (fun es => leasedTo c.step.id workerID es && es.status.inFlight) s.db.steps
      = affected (leasedTo c.step.id workerID) s.db.steps := by
    refine List.countP_congr fun r hr => ?_
    rw [Bool.and_eq_true]
    exact ⟨And.left, fun hl => ⟨hl, hc.inFlight_of_leased hr hl⟩⟩
  have hout := mark_outcome env.exclusive s.now c workerID executionErr s.db
  generalize after env.exclusive _ s.db = db' at hout ⊢
  cases hout with
  | refused hno =>
    rw [hsel] at hno
    exact canceled_kept_iff he hid hs rfl fun h => hno h.2
  | @marked message hbind haff entry =>
    rw [hsel] at haff
    exact canceled_written_iff he hid hs (f := ambiguousExecution s.now message) rfl
      (fun _ => by simp [ambiguousExecution]) ⟨And.left, fun h => ⟨h, hbind, haff⟩⟩

theorem canceled_decide_iff (hc : Consistent s.db) (tenantID approvalID : String)
    (decision : Decision) (actor reason requestID traceID : String) :
    Canceled id
        (Sys.perform env (.decide tenantID approvalID decision actor reason requestID traceID) s)
      ↔ ¬ Overwrites env id
          (.decide tenantID approvalID decision actor reason requestID traceID) s := by
  simp only [Canceled, Sys.perform, Sys.commit, Overwrites]
  have hout := decide_outcome env.exclusive s.now tenantID approvalID decision actor reason
    requestID traceID hc.owner
  generalize after env.exclusive _ s.db = db' at hout ⊢
  cases hout with
  | refused hno =>
    refine canceled_kept_iff he hid hs rfl ?_
    rintro ⟨a, es, hwait, -⟩
    exact hno a es hwait
  | @approved a es hwait =>
    refine canceled_iff_not hid hs ?_ fun hP => ?_
    · rintro ⟨a', es', hwait', hown⟩
      obtain ⟨-, rfl⟩ := hwait.unique hwait'
      rw [hown]
      exact (notCanceled_update (f := approvedExecution s.now)
        (fun _ => by simp [approvedExecution]) _).finalizedDB _ _
    rw [DB.audited_executions]
    refine mem_finalizedDB _ ?_ (mem_update_of_ne (t := s.db.executions) he
      (fun hown => hP ⟨a, es, hwait, hown.symm.trans hid⟩) _) hs _ _
    exact hc.executions.map fun y _ => patch_column Execution.id rfl
  | @rejected a es hwait =>
    refine canceled_written_iff he hid hs (f := rejectedExecution s.now) rfl
      (fun _ => by simp [rejectedExecution]) ⟨?_, fun h => ⟨a, es, hwait, h⟩⟩
    rintro ⟨a', es', hwait', hown⟩
    obtain ⟨-, rfl⟩ := hwait.unique hwait'
    exact hown

theorem canceled_retry_iff (tenantID executionID stepID actor requestID traceID : String)
    (force : Bool) :
    Canceled id (Sys.perform env
        (.retry tenantID executionID stepID actor requestID traceID force) s)
      ↔ ¬ Overwrites env id (.retry tenantID executionID stepID actor requestID traceID force)
        s := by
  simp only [Canceled, Sys.perform, Sys.commit, Overwrites]
  have hout := retry_outcome env.exclusive s.now tenantID executionID stepID actor requestID
    traceID force s.db
  generalize after env.exclusive _ s.db = db' at hout ⊢
  cases hout with
  | refused hno =>
    refine canceled_kept_iff he hid hs rfl ?_
    rintro ⟨-, es, hes, hallowed⟩
    rw [hno es hes] at hallowed
    cases hallowed
  | retried hes hallowed =>
    exact canceled_written_iff he hid hs (f := retriedExecution s.now) rfl
      (fun _ => by simp [retriedExecution]) ⟨And.left, fun h => ⟨h, _, hes, hallowed⟩⟩

theorem canceled_changeState_iff (hc : Consistent s.db) (tenantID executionID : String)
    (action : ControlAction) (actor requestID traceID : String) :
    Canceled id (Sys.perform env
        (.changeState tenantID executionID action actor requestID traceID) s)
      ↔ ¬ Overwrites env id (.changeState tenantID executionID action actor requestID traceID)
        s := by
  refine canceled_iff_not hid hs False.elim fun _ => ?_
  simp only [Sys.perform, Sys.commit]
  -- An execution whose status allows an action is not this one.
  have hother : ∀ {e' : Execution} (action : ControlAction),
      ownedExecution tenantID executionID s.db = some e' →
      actionAllowed action e'.status = true → e.id ≠ executionID := by
    intro e' action he' hallowed hown
    obtain ⟨hmem, hid'⟩ := ownedExecution_some he'
    obtain rfl := hc.executions.eq_of_key hmem he (hid'.trans hown.symm)
    cases action <;> simp [actionAllowed, hs] at hallowed
  have hout := change_outcome env.exclusive s.now tenantID executionID action actor requestID
    traceID s.db
  generalize after env.exclusive _ s.db = db' at hout ⊢
  cases hout with
  | refused => exact he
  | paused he' hst =>
    exact mem_update_of_ne (t := s.db.executions) he
      (hother .pause he' (by simp [actionAllowed, hst])) _
  | resumed he' hst =>
    exact mem_update_of_ne (t := s.db.executions) he
      (hother .resume he' (by simp [actionAllowed, hst])) _
  | canceled he' hallowed =>
    exact mem_update_of_ne (t := s.db.executions) he (hother .cancel he' hallowed) _

theorem canceled_rollback_iff (hc : Consistent s.db) (ids : List String)
    (tenantID executionID actor requestID traceID : String) :
    Canceled id (Sys.perform env (.rollback ids tenantID executionID actor requestID traceID) s)
      ↔ ¬ Overwrites env id (.rollback ids tenantID executionID actor requestID traceID) s := by
  refine canceled_iff_not hid hs False.elim fun _ => ?_
  simp only [Sys.perform, Sys.commit]
  obtain h | ⟨e', rows, entry, he', hst, -, -, -, -, hafter⟩ :=
    rollback_cases env.exclusive s.db s.now ids tenantID executionID actor requestID traceID
  · rw [h]
    exact he
  obtain ⟨hmem, hid'⟩ := ownedExecution_some he'
  rw [hafter]
  refine mem_update_of_ne (t := s.db.executions) he (fun hown => ?_) _
  obtain rfl := hc.executions.eq_of_key hmem he (hid'.trans hown.symm)
  rw [hs] at hst
  rcases hst with h | h | h <;> cases h

end Exact

/-- **One operation keeps a canceled execution canceled exactly when it does not
overwrite it.** -/
theorem canceled_perform_iff (hi : s.Inv) (hcan : Canceled id s) (op : Op) :
    Canceled id (Sys.perform env op s) ↔ ¬ Overwrites env id op s := by
  have hc := hi.consistent
  obtain ⟨e, he, hid, hs⟩ := hcan
  cases op with
  | recover locked order actor => exact canceled_recover_iff he hid hs locked order actor
  | advance locked actor => exact canceled_advance_iff he hid hs hc locked actor
  | openApproval n approvalID prompt expiresAt =>
    exact canceled_openApproval_iff he hid hs hc n approvalID prompt expiresAt
  | complete n status output executionErr =>
    exact canceled_complete_iff he hid hs hi n status output executionErr
  | markAmbiguous n executionErr => exact canceled_markAmbiguous_iff he hid hs hc n executionErr
  | decide tenantID approvalID decision actor reason requestID traceID =>
    exact canceled_decide_iff he hid hs hc tenantID approvalID decision actor reason requestID
      traceID
  | retry tenantID executionID stepID actor requestID traceID force =>
    exact canceled_retry_iff he hid hs tenantID executionID stepID actor requestID traceID force
  | changeState tenantID executionID action actor requestID traceID =>
    exact canceled_changeState_iff he hid hs hc tenantID executionID action actor requestID traceID
  | rollback ids tenantID executionID actor requestID traceID =>
    exact canceled_rollback_iff he hid hs hc ids tenantID executionID actor requestID traceID
  | tick elapsed
  | catalog runbooks versions incidents => exact canceled_iff_not hid hs False.elim fun _ => he
  | startExecution executionID ids input =>
    refine canceled_iff_not hid hs False.elim fun _ => ?_
    obtain h | ⟨_, _, _, _, _, -, -, -, -, -, hafter⟩ :=
      start_cases env.exclusive s.db s.now env.platform executionID ids input
    · simp only [Sys.perform, Sys.commit, h]
      exact he
    · simp only [Sys.perform, Sys.commit, hafter]
      exact List.mem_append_left _ he
  | claim locked workerID limit lease lost =>
    refine canceled_iff_not hid hs False.elim fun _ => ?_
    rw [perform_claim_db]
    exact he
  | scheduleWait n until_ =>
    refine canceled_iff_not hid hs False.elim fun _ => ?_
    rcases hn : s.issued[n]? with _ | ⟨workerID, c⟩
    · rw [Sys.perform, Sys.commitFor_none env hn]
      exact he
    rw [Sys.perform, Sys.commitFor_some env hn, Sys.commit]
    rcases scheduleWait_cases env.exclusive c until_ workerID s.db with h | h
    · rw [h]
      exact he
    · rw [h]
      exact he

/-! ### After a committed cancel -/

/-- A cancel of the execution has been recorded. -/
def CancelRequested (id : String) (s : Sys) : Prop :=
  ∃ e ∈ s.db.executions, e.id = id ∧ e.cancelRequestedAt.isSome

theorem CancelRequested.perform (hi : s.Inv) (h : CancelRequested id s) (op : Op) :
    CancelRequested id (Sys.perform env op s) := by
  obtain ⟨e, he, hid, hreq⟩ := h
  obtain ⟨kept, new, heq, hkept, -⟩ := (effect_perform env hi op).executions
  obtain ⟨e', he', hk⟩ := hkept.exists_mem he
  exact ⟨e', heq ▸ List.mem_append_left _ he', hk.id.trans hid, hk.cancel hreq⟩

/-- The steps an operation claims. -/
def claimedBy : Op → Sys → List ClaimedStep
  | .claim locked workerID limit lease _, s => s.claims locked workerID limit lease
  | _, _ => []

theorem not_claimed_of_requested (hi : s.Inv) (h : CancelRequested id s) (op : Op) :
    ∀ c ∈ claimedBy op s, c.step.executionID ≠ id := by
  intro c hc hown
  cases op with
  | claim locked workerID limit lease lost =>
    obtain ⟨r, hr, e, hin, he, rfl⟩ := mem_claims hc
    obtain ⟨e', he', hcl⟩ := claimable_of_candidate hi.consistent hr hin
    obtain ⟨e₀, he₀, hid, hreq⟩ := h
    have hfound := hi.consistent.execution?_eq he₀
    rw [hid, ← hown] at hfound
    obtain rfl := Option.some.inj (hfound.symm.trans he')
    simp only [claimable, Bool.and_eq_true, Option.isNone_iff_eq_none] at hcl
    rw [hcl.1.1.1.1.2] at hreq
    cases hreq
  | _ => cases hc

/-- The request finds an execution of the tenant that is not terminal yet. -/
def CancelCommits (tenantID id : String) (s : Sys) : Prop :=
  ∃ e, ownedExecution tenantID id s.db = some e ∧ actionAllowed .cancel e.status = true

theorem canceled_of_commit (env : Env) {tenantID : String} (h : CancelCommits tenantID id s)
    (actor requestID traceID : String) :
    Canceled id (Sys.perform env (.changeState tenantID id .cancel actor requestID traceID) s)
      ∧ CancelRequested id
        (Sys.perform env (.changeState tenantID id .cancel actor requestID traceID) s) := by
  obtain ⟨e, he, hallowed⟩ := h
  obtain ⟨hmem, hid⟩ := ownedExecution_some he
  obtain ⟨entry, hafter⟩ := cancel_ok env.exclusive s.now actor requestID traceID he hallowed
  have hrow : canceledExecution s.now e ∈ (Sys.perform env
      (.changeState tenantID id .cancel actor requestID traceID) s).db.executions := by
    simp only [Sys.perform, Sys.commit]
    rw [hafter]
    have h := mem_update_of_mem (p := fun y : Execution => y.id = id)
      (f := canceledExecution s.now) hmem
    rwa [patch_pos (by simpa using hid)] at h
  exact ⟨⟨_, hrow, hid, rfl⟩, ⟨_, hrow, hid, rfl⟩⟩

/-- **Cancel, exactly.**  In every reachable state, once a cancel of the
execution `id` has committed, and for every continuation `ops`: the execution
is canceled in every later state if and only if no operation of the
continuation overwrites its status; and whatever the continuation is, none of
its operations claims a step of the execution. -/
theorem cancel_final_iff (hs : Sys.Reachable env s) {tenantID : String}
    (hcommit : CancelCommits tenantID id s) (actor requestID traceID : String) (ops : List Op) :
    (Throughout (Sys.perform env) (Canceled id) ops
        (Sys.perform env (.changeState tenantID id .cancel actor requestID traceID) s)
      ↔ Along (Sys.perform env) (fun op s => ¬ Overwrites env id op s) ops
        (Sys.perform env (.changeState tenantID id .cancel actor requestID traceID) s))
    ∧ Along (Sys.perform env)
        (fun op s => ∀ c ∈ claimedBy op s, c.step.executionID ≠ id) ops
        (Sys.perform env (.changeState tenantID id .cancel actor requestID traceID) s) := by
  have hi := inv_perform env (inv_of_reachable hs)
    (.changeState tenantID id .cancel actor requestID traceID)
  obtain ⟨hcan, hreq⟩ := canceled_of_commit env hcommit actor requestID traceID
  constructor
  · exact along_iff_of_exact (J := Sys.Inv) (fun op s hi => inv_perform env hi op)
      (fun op s hi hcan => canceled_perform_iff hi hcan op) ops hi hcan
  · exact along_of_invariant (J := fun s => s.Inv ∧ CancelRequested id s)
      (fun op s h => ⟨inv_perform env h.1 op, h.2.perform h.1 op⟩)
      (fun op s h => not_claimed_of_requested h.1 h.2 op) ops ⟨hi, hreq⟩

def inFlightRun : List Op :=
  [starting ["s"], claiming]

def inFlightState : Sys :=
  run (Sys.perform idempotentEnv) inFlightRun oneRunbook

/-- Canceled while its step is in flight, the execution of `inFlightState`
stays canceled when the worker reports success. -/
theorem cancel_final_success :
    Throughout (Sys.perform idempotentEnv) (Canceled "e")
      [.complete 0 .completed none none]
      (Sys.perform idempotentEnv (.changeState "t" "e" .cancel "op" "" "") inFlightState) := by
  have hcommit : CancelCommits "t" "e" inFlightState := by
    have hfound : ((ownedExecution "t" "e" inFlightState.db).map fun e =>
        actionAllowed .cancel e.status) = some true := by decide +kernel
    exact Option.map_eq_some_iff.mp hfound
  have hreach : Sys.Reachable idempotentEnv inFlightState :=
    ⟨oneRunbook, inFlightRun, ⟨rfl, rfl, rfl, rfl⟩, rfl⟩
  refine (cancel_final_iff hreach hcommit "op" "" "" _).1.mpr ⟨?_, trivial⟩
  rintro ⟨_, _, -, -, herr, -⟩
  exact herr rfl

/-- **A canceled execution runs again.**  The execution is canceled while its
step is in flight; when the lease expires, recovery sets it to running. -/
theorem recovery_revives_canceled :
    Sys.Reachable idempotentEnv inFlightState
      ∧ ((Sys.perform idempotentEnv (.changeState "t" "e" .cancel "op" "" "")
          inFlightState).db.executions.map fun e => e.status) = [.canceled]
      ∧ ((run (Sys.perform idempotentEnv)
          [.changeState "t" "e" .cancel "op" "" "", .tick 30000000000, .recover [] [] "A"]
          inFlightState).db.executions.map fun e => e.status) = [.running] := by
  refine ⟨⟨oneRunbook, inFlightRun, ⟨rfl, rfl, rfl, rfl⟩, rfl⟩, ?_⟩
  decide +kernel

end StormRelay
