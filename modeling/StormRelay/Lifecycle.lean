/-
Consistency of the runbook store.

From the outcome of each transaction: which rows an operation changes
(`perform_rows`), that executions keep their identity (`perform_executions`),
and the invariant that every reachable state satisfies.

* `Sys.Inv`, `inv_perform`, `inv_of_reachable` — the invariant and its proof.
-/
import StormRelay.System

namespace StormRelay

open Tx Table

/-! ### Executions keep their identity -/

def Execution.definition (e : Execution) : Execution :=
  { e with
    status := .running, finishedAt := none, pausedAt := none, cancelRequestedAt := none
    lastError := none, updatedAt := 0, version := 0 }

/-- `e'` is a later version of `e`: the same execution, and a cancel request is
not withdrawn. -/
structure ExecutionKept (e e' : Execution) : Prop where
  definition : e'.definition = e.definition
  cancel : e.cancelRequestedAt.isSome → e'.cancelRequestedAt.isSome

theorem ExecutionKept.refl (e : Execution) : ExecutionKept e e := ⟨rfl, id⟩

theorem ExecutionKept.id {e e' : Execution} (h : ExecutionKept e e') : e'.id = e.id := by
  have hid := congrArg Execution.id h.definition
  exact hid

theorem ExecutionKept.dryRun {e e' : Execution} (h : ExecutionKept e e') :
    e'.dryRun = e.dryRun := by
  have hdry := congrArg Execution.dryRun h.definition
  exact hdry

def ExecutionsKept (t t' : List Execution) : Prop :=
  ∃ h, t' = t.map h ∧ ∀ e, ExecutionKept e (h e)

namespace ExecutionsKept

variable {t t' t'' : List Execution}

theorem refl (t : List Execution) : ExecutionsKept t t :=
  ⟨fun e => e, (List.map_id t).symm, ExecutionKept.refl⟩

theorem trans : ExecutionsKept t t' → ExecutionsKept t' t'' → ExecutionsKept t t'' := by
  rintro ⟨h, rfl, hh⟩ ⟨k, rfl, hk⟩
  refine ⟨k ∘ h, List.map_map, fun e => ⟨?_, fun hc => ?_⟩⟩
  · exact (hk (h e)).definition.trans (hh e).definition
  · exact (hk (h e)).cancel ((hh e).cancel hc)

theorem update (p : Execution → Bool) {f : Execution → Execution}
    (hf : ∀ e, ExecutionKept e (f e)) : ExecutionsKept t (Table.update p f t) := by
  refine ⟨patch p f, rfl, fun e => ?_⟩
  rw [patch]
  split
  · exact hf e
  · exact .refl e

theorem foldl {α : Type} (items : List α) {p : α → Execution → Bool}
    {f : α → Execution → Execution} (hf : ∀ a e, ExecutionKept e (f a e)) (t : List Execution) :
    ExecutionsKept t (items.foldl (fun t a => Table.update (p a) (f a) t) t) := by
  induction items generalizing t with
  | nil => exact refl t
  | cons a items ih => exact (update (p a) (hf a)).trans (ih _)

theorem exists_mem (h : ExecutionsKept t t') {e : Execution} (he : e ∈ t) :
    ∃ e' ∈ t', ExecutionKept e e' := by
  obtain ⟨k, rfl, hk⟩ := h
  exact ⟨k e, List.mem_map_of_mem he, hk e⟩

theorem map_id (h : ExecutionsKept t t') :
    t'.map Execution.id = t.map Execution.id := by
  obtain ⟨k, rfl, hk⟩ := h
  rw [List.map_map]
  exact List.map_congr_left fun e _ => (hk e).id

end ExecutionsKept

variable {db : DB}

theorem finalizedDB_kept (now : Time) (executionID : String) :
    ExecutionsKept db.executions (finalizedDB now executionID db).executions := by
  obtain h | ⟨_, final, -, -, -, h⟩ := finalizedDB_executions db now executionID
  · rw [h]
    exact .refl _
  · rw [h]
    exact .update _ fun e => ⟨rfl, id⟩

theorem wokenDB_kept (now : Time) (db : DB) :
    ExecutionsKept db.executions (wokenDB now db).executions := by
  have h : ∀ (ids : List String) (db : DB), ExecutionsKept db.executions
      (ids.foldl (fun db id => finalizedDB now id db) db).executions := by
    intro ids
    induction ids with
    | nil => exact fun db => .refl _
    | cons id ids ih => exact fun db => (finalizedDB_kept now id).trans (ih _)
  exact h _ (timersDB now db)

/-! ### Which rows an operation changes -/

/-- The rows after an operation: the old rows, each kept or changed by the life
cycle, then new rows. -/
def Rows (s : Sys) (op : Op) (steps : List ExecutionStep) : Prop :=
  ∃ g new, steps = s.db.steps.map g ++ new
    ∧ (∀ r ∈ s.db.steps, g r = r ∨ StepChange s op r (g r)) ∧ ∀ r ∈ new, NewRow s op r

namespace Rows

variable {s : Sys} {op : Op} {steps : List ExecutionStep}

theorem mapped {g : ExecutionStep → ExecutionStep} (h : steps = s.db.steps.map g)
    (hg : ∀ r ∈ s.db.steps, g r = r ∨ StepChange s op r (g r)) : Rows s op steps :=
  ⟨g, [], by simp [h], hg, fun _ hr => by cases hr⟩

theorem appended {new : List ExecutionStep} (h : steps = s.db.steps ++ new)
    (hnew : ∀ r ∈ new, NewRow s op r) : Rows s op steps :=
  ⟨fun r => r, new, by simp [h], fun _ _ => .inl rfl, hnew⟩

theorem next (h : Rows s op steps) {r : ExecutionStep} (hr : r ∈ s.db.steps) :
    ∃ r' ∈ steps, r' = r ∨ StepChange s op r r' := by
  obtain ⟨g, new, rfl, hg, -⟩ := h
  exact ⟨g r, List.mem_append_left _ (List.mem_map_of_mem hr), hg r hr⟩

theorem prev (h : Rows s op steps) {r' : ExecutionStep} (hr' : r' ∈ steps) :
    (∃ r ∈ s.db.steps, r' = r ∨ StepChange s op r r') ∨ NewRow s op r' := by
  obtain ⟨g, new, rfl, hg, hnew⟩ := h
  rcases List.mem_append.mp hr' with hold | hin
  · obtain ⟨r, hr, rfl⟩ := List.mem_map.mp hold
    exact .inl ⟨r, hr, hg r hr⟩
  · exact .inr (hnew r' hin)

end Rows

def ApprovalRows (s : Sys) (op : Op) (approvals : List Approval) : Prop :=
  ∃ k new, approvals = s.db.approvals.map k ++ new
    ∧ (∀ a ∈ s.db.approvals, k a = a ∨ ApprovalChange s op a (k a)) ∧ ∀ a ∈ new, NewApproval s op a

namespace ApprovalRows

variable {s : Sys} {op : Op} {approvals : List Approval}

theorem prev (h : ApprovalRows s op approvals) {a' : Approval} (ha' : a' ∈ approvals) :
    (∃ a ∈ s.db.approvals, a' = a ∨ ApprovalChange s op a a') ∨ NewApproval s op a' := by
  obtain ⟨k, new, rfl, hk, hnew⟩ := h
  rcases List.mem_append.mp ha' with hold | hin
  · obtain ⟨a, ha, rfl⟩ := List.mem_map.mp hold
    exact .inl ⟨a, ha, hk a ha⟩
  · exact .inr (hnew a' hin)

theorem keep (h : ApprovalRows s op approvals) {a : Approval} (ha : a ∈ s.db.approvals)
    (hd : a.status ≠ .pending) : a ∈ approvals := by
  obtain ⟨k, new, rfl, hk, -⟩ := h
  have hsame : k a = a := (hk a ha).resolve_right fun hch => hd hch.pending
  exact List.mem_append_left _ (hsame ▸ List.mem_map_of_mem ha)

end ApprovalRows

/-! ### The invariant -/

def LeaseCoherent (r : ExecutionStep) : Prop :=
  r.leaseOwner.isSome = r.status.inFlight ∧ r.leaseExpiresAt.isSome = r.status.inFlight

/-- `p` is an earlier step of the same phase of the same execution as `r`. -/
structure Precedes (p r : ExecutionStep) : Prop where
  execution : p.executionID = r.executionID
  phase : p.isRollback = r.isRollback
  position : p.position < r.position

/-- Statuses of a step no worker has ever started, or whose cancellation left
its approval open. -/
def StepStatus.resting (status : StepStatus) : Prop :=
  status = .pending ∨ status = .canceled

structure Consistent (db : DB) : Prop where
  steps : NoConflict db.steps
  executions : Keyed Execution.id db.executions
  approvals : Keyed Approval.id db.approvals
  approvalSteps : Keyed Approval.executionStepID db.approvals
  owner : ∀ r ∈ db.steps, ∃ e ∈ db.executions, e.id = r.executionID
  lease : ∀ r ∈ db.steps, LeaseCoherent r
  /-- An approval belongs to a started step, which waits for it or was canceled
  while the approval is pending. -/
  requested : ∀ a ∈ db.approvals, ∃ r ∈ db.steps, r.id = a.executionStepID ∧ 0 < r.attemptCount
    ∧ (a.status = .pending → r.status = .waitingApproval ∨ r.status = .canceled)
  started : ∀ r ∈ db.steps, r.attemptCount = 0 → r.status.resting
  /-- A step that was ever started comes after finished steps only. -/
  ordered : ∀ r ∈ db.steps, 0 < r.attemptCount →
    ∀ p ∈ db.steps, Precedes p r → p.status.finished = true

namespace Consistent

variable {r : ExecutionStep} {a : Approval}

theorem keyed (h : Consistent db) : Keyed ExecutionStep.id db.steps := by
  rw [Keyed, List.Nodup, List.pairwise_map]
  refine h.steps.imp fun {y z} hyz he => ?_
  simp [DB.stepsConflict, he] at hyz

theorem eq_of_id (h : Consistent db) {r' : ExecutionStep} (hr : r ∈ db.steps)
    (hr' : r' ∈ db.steps) (hid : r.id = r'.id) : r = r' :=
  h.keyed.eq_of_key hr hr' hid

theorem step?_eq (h : Consistent db) (hr : r ∈ db.steps) : db.step? r.id = some r :=
  h.keyed.find?_eq hr

theorem execution?_eq (h : Consistent db) {e : Execution} (he : e ∈ db.executions) :
    db.execution? e.id = some e :=
  h.executions.find?_eq he

theorem waitsOwned (h : Consistent db) {now : Time} : WaitsOwned now db :=
  fun r hr _ => h.owner r hr

theorem inFlight_of_leased (h : Consistent db) (hr : r ∈ db.steps) {stepID workerID : String}
    (hl : leasedTo stepID workerID r = true) : r.status.inFlight = true := by
  simp only [leasedTo, Bool.and_eq_true, decide_eq_true_eq] at hl
  rw [← (h.lease r hr).1, hl.2]
  rfl

theorem attempts_of_inFlight (h : Consistent db) (hr : r ∈ db.steps)
    (hs : r.status.inFlight = true) : 0 < r.attemptCount := by
  refine Nat.pos_of_ne_zero fun hzero => ?_
  rcases h.started r hr hzero with hst | hst <;> rw [hst] at hs <;> cases hs

theorem of_pending (h : Consistent db) (hr : r ∈ db.steps) (ha : a ∈ db.approvals)
    (hp : a.status = .pending) (hid : r.id = a.executionStepID) :
    0 < r.attemptCount ∧ (r.status = .waitingApproval ∨ r.status = .canceled) := by
  obtain ⟨r', hr', hid', hpos, hstatus⟩ := h.requested a ha
  obtain rfl := h.eq_of_id hr hr' (hid.trans hid'.symm)
  exact ⟨hpos, hstatus hp⟩

end Consistent

/-- What a claim says about the stored row: the same step, not behind the
claim; and while the row is in flight at the claim's own attempt, it is exactly
the claimed row. -/
structure ClaimValid (db : DB) (workerID : String) (c : ClaimedStep) : Prop where
  owner : c.step.leaseOwner = some workerID
  row : ∃ r ∈ db.steps, r.definition = c.step.definition
    ∧ c.step.attemptCount ≤ r.attemptCount
    ∧ (r.attemptCount = c.step.attemptCount → r.status.inFlight = true → r = c.step)
  execution : ∃ e ∈ db.executions, e.id = c.step.executionID ∧ e.dryRun = c.dryRun

structure Sys.Inv (s : Sys) : Prop where
  consistent : Consistent s.db
  claims : ∀ w ∈ s.issued, ClaimValid s.db w.1 w.2

/-! ### The effect of an operation -/

theorem StepChange.attempts {s : Sys} {op : Op} {r r' : ExecutionStep}
    (h : StepChange s op r r') : r.attemptCount ≤ r'.attemptCount := by
  cases h <;> first | exact Nat.le_refl _ | exact Nat.le_succ _

theorem NoConflict.mapped {t : List ExecutionStep} (h : NoConflict t)
    {g : ExecutionStep → ExecutionStep} (hg : ∀ r ∈ t, (g r).definition = r.definition) :
    NoConflict (t.map g) := by
  rw [NoConflict, List.pairwise_map]
  refine List.Pairwise.imp_of_mem (fun {y z} hy hz hyz => ?_) h
  -- `stepsConflict` reads defining columns only.
  have hdef : ∀ u v : ExecutionStep,
      DB.stepsConflict u v = DB.stepsConflict u.definition v.definition := fun _ _ => rfl
  rw [hdef, hg y hy, hg z hz, ← hdef]
  exact hyz

/-- What an operation does to the tables, beyond the life cycle of the single
rows. -/
structure Effect (s : Sys) (op : Op) (db' : DB) : Prop where
  rows : Rows s op db'.steps
  steps : NoConflict db'.steps
  executions : ∃ kept new, db'.executions = kept ++ new ∧ ExecutionsKept s.db.executions kept
    ∧ (new = [] ∨ ∃ e, new = [e] ∧ ∀ e₀ ∈ s.db.executions, e₀.id ≠ e.id)
  owner : ∀ r ∈ db'.steps, ∃ e ∈ db'.executions, e.id = r.executionID
  approvalRows : ApprovalRows s op db'.approvals
  approvals : Keyed Approval.id db'.approvals
  approvalSteps : Keyed Approval.executionStepID db'.approvals
  requested : ∀ a ∈ db'.approvals, ∃ r ∈ db'.steps, r.id = a.executionStepID
    ∧ 0 < r.attemptCount
    ∧ (a.status = .pending → r.status = .waitingApproval ∨ r.status = .canceled)

structure KeptEffect (s : Sys) (op : Op) (db' : DB) : Prop extends Effect s op db' where
  kept : ExecutionsKept s.db.executions db'.executions

namespace KeptEffect

variable {s : Sys} {op : Op} {db' : DB} {g : ExecutionStep → ExecutionStep}

/-- An operation that adds no row to any table.  `hopen` is the part that
depends on what it does to approvals: an approval that is pending afterwards
was pending before, and its step has not moved on. -/
theorem of_mapped (hc : Consistent s.db) (hsteps : db'.steps = s.db.steps.map g)
    (hg : ∀ r ∈ s.db.steps, g r = r ∨ StepChange s op r (g r))
    (hexec : ExecutionsKept s.db.executions db'.executions) {k : Approval → Approval}
    (happr : db'.approvals = s.db.approvals.map k)
    (hk : ∀ a ∈ s.db.approvals, k a = a ∨ ApprovalChange s op a (k a))
    (hopen : ∀ a ∈ s.db.approvals, ∀ r ∈ s.db.steps, r.id = a.executionStepID →
      (k a).status = .pending → (g r).status = .waitingApproval ∨ (g r).status = .canceled) :
    KeptEffect s op db' := by
  have hdef : ∀ r ∈ s.db.steps, (g r).definition = r.definition := fun r hr =>
    (hg r hr).elim (fun h => by rw [h]) StepChange.definition
  have hkeys : ∀ a ∈ s.db.approvals,
      (k a).id = a.id ∧ (k a).executionStepID = a.executionStepID := fun a ha =>
    (hk a ha).elim (fun h => by rw [h]; exact ⟨rfl, rfl⟩) ApprovalChange.keys
  refine ⟨⟨.mapped hsteps hg, ?_, ⟨db'.executions, [], by simp, hexec, .inl rfl⟩, ?_,
    ⟨k, [], by simp [happr], hk, fun _ h => by cases h⟩, ?_, ?_, ?_⟩, hexec⟩
  · rw [hsteps]
    exact hc.steps.mapped hdef
  · intro r' hr'
    rw [hsteps] at hr'
    obtain ⟨r, hr, rfl⟩ := List.mem_map.mp hr'
    obtain ⟨e, he, hid⟩ := hc.owner r hr
    obtain ⟨e', he', hkept⟩ := hexec.exists_mem he
    have hown := congrArg ExecutionStep.executionID (hdef r hr)
    exact ⟨e', he', (hkept.id.trans hid).trans hown.symm⟩
  · rw [happr]
    exact hc.approvals.map fun a ha => (hkeys a ha).1
  · rw [happr]
    exact hc.approvalSteps.map fun a ha => (hkeys a ha).2
  intro a' ha'
  rw [happr] at ha'
  obtain ⟨a, ha, rfl⟩ := List.mem_map.mp ha'
  obtain ⟨r, hr, hid, hpos, -⟩ := hc.requested a ha
  refine ⟨g r, hsteps ▸ List.mem_map_of_mem hr, ?_, ?_, hopen a ha r hr hid⟩
  · have hown := congrArg ExecutionStep.id (hdef r hr)
    exact (hown.trans hid).trans (hkeys a ha).2.symm
  · exact (hg r hr).elim (fun h => by rw [h]; exact hpos) fun h => lt_of_lt_of_le hpos h.attempts

/-- An operation that leaves approvals alone; `hkeep`: it moves no step out of
the statuses a pending approval allows. -/
theorem of_steps (hc : Consistent s.db) (hsteps : db'.steps = s.db.steps.map g)
    (hg : ∀ r ∈ s.db.steps, g r = r ∨ StepChange s op r (g r))
    (hexec : ExecutionsKept s.db.executions db'.executions)
    (happr : db'.approvals = s.db.approvals)
    (hkeep : ∀ r ∈ s.db.steps, (r.status = .waitingApproval ∨ r.status = .canceled) →
      (g r).status = .waitingApproval ∨ (g r).status = .canceled) :
    KeptEffect s op db' := by
  refine of_mapped hc hsteps hg hexec (k := fun a => a) (by simp [happr])
    (fun _ _ => .inl rfl) ?_
  intro a ha r hr hid hp
  exact hkeep r hr (hc.of_pending hr ha hp hid).2

theorem of_update (hc : Consistent s.db) {p : ExecutionStep → Bool}
    {f : ExecutionStep → ExecutionStep} (hsteps : db'.steps = update p f s.db.steps)
    (hf : ∀ r ∈ s.db.steps, p r = true → StepChange s op r (f r)
      ∧ (r.status ≠ .waitingApproval ∧ r.status ≠ .canceled ∨ (f r).status = .canceled))
    (hexec : ExecutionsKept s.db.executions db'.executions)
    (happr : db'.approvals = s.db.approvals) : KeptEffect s op db' := by
  refine of_steps hc hsteps (fun r hr => ?_) hexec happr fun r hr hst => ?_
  · by_cases hp : p r = true
    · rw [patch_pos hp]
      exact .inr (hf r hr hp).1
    · exact .inl (patch_neg (by simpa using hp))
  by_cases hp : p r = true
  · rw [patch_pos hp]
    exact (hf r hr hp).2.elim (fun h => absurd hst (by tauto)) .inr
  · rw [patch_neg (by simpa using hp)]
    exact hst

theorem of_executions (hc : Consistent s.db) (hsteps : db'.steps = s.db.steps)
    (hexec : ExecutionsKept s.db.executions db'.executions)
    (happr : db'.approvals = s.db.approvals) : KeptEffect s op db' :=
  of_steps (g := fun r => r) hc (by simp [hsteps]) (fun _ _ => .inl rfl) hexec happr
    fun _ _ h => h

theorem add_approval (h : KeptEffect s op db') {a : Approval}
    (happr : db'.approvals = s.db.approvals)
    (hnew : NewApproval s op a)
    (hfree : ∀ y ∈ db'.approvals, y.executionStepID ≠ a.executionStepID ∧ y.id ≠ a.id)
    (hstep : ∃ r ∈ db'.steps, r.id = a.executionStepID ∧ 0 < r.attemptCount
      ∧ (r.status = .waitingApproval ∨ r.status = .canceled)) :
    KeptEffect s op { db' with approvals := db'.approvals ++ [a] } := by
  refine ⟨⟨h.rows, h.steps, h.executions, h.owner, ⟨fun a => a, [a], by simp [happr],
    fun _ _ => .inl rfl, fun y hy => ?_⟩, ?_, ?_, ?_⟩, h.kept⟩
  · rw [List.mem_singleton.mp hy]
    exact hnew
  · exact h.approvals.append_singleton fun y hy => (hfree y hy).2
  · exact h.approvalSteps.append_singleton fun y hy => (hfree y hy).1
  intro y hy
  rcases List.mem_append.mp hy with hold | hin
  · exact h.requested y hold
  · rw [List.mem_singleton.mp hin]
    obtain ⟨r, hr, hid, hpos, hst⟩ := hstep
    exact ⟨r, hr, hid, hpos, fun _ => hst⟩

theorem unchanged (hc : Consistent s.db) (h : db' = s.db) : KeptEffect s op db' := by
  subst h
  exact of_executions hc rfl (.refl _) rfl

end KeptEffect

end StormRelay
