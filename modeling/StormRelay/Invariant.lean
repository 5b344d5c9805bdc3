/-
The invariant of the runbook store.

* `inv_perform`, `inv_of_reachable` — **every reachable state is consistent and
  every claim handed out is valid**.
-/
import StormRelay.Effects

namespace StormRelay

open Tx Table

variable {env : Env} {s : Sys} {op : Op} {r r' : ExecutionStep}

/-! ### The life cycle of one row -/

theorem StepStatus.not_finished_of_inFlight {status : StepStatus} (h : status.inFlight = true) :
    status.finished = false := by
  cases status <;> first | rfl | cases h

theorem completionStatus_finished (status : StepStatus) :
    (completionStatus status).finished = true := by
  cases status <;> rfl

theorem StepStatus.not_inFlight_of_finished {status : StepStatus} (h : status.finished = true) :
    status.inFlight = false := by
  cases status <;> first | rfl | cases h

/-- **A finished step is never changed again.** -/
theorem StepChange.unfinished (hc : Consistent s.db) (hr : r ∈ s.db.steps)
    (h : StepChange s op r r') : r.status.finished = false := by
  have hleased : ∀ {stepID workerID : String}, leasedTo stepID workerID r = true →
      r.status.finished = false := fun hl =>
    StepStatus.not_finished_of_inFlight (hc.inFlight_of_leased hr hl)
  have hpending : ∀ {a : Approval}, a ∈ s.db.approvals → a.status = .pending →
      r.id = a.executionStepID → r.status.finished = false := by
    intro a ha hp hid
    rcases (hc.of_pending hr ha hp hid).2 with h | h <;> rw [h] <;> rfl
  cases h with
  | claim he hcl => rcases claimable_status hcl with h | h <;> rw [h] <;> rfl
  | recover hexp =>
    exact StepStatus.not_finished_of_inFlight (inFlight_of_leaseExpired hexp)
  | timer hdue =>
    rw [waiting_of_waitDue hdue]
    rfl
  | expire ha hp hid => exact hpending ha hp hid
  | wait hn hl hs | openApproval hn hl | complete hn hl | retryLater hn hl hlt | fail hn hl
  | ambiguous hn hl => exact hleased hl
  | cancel hid hcan =>
    simp only [cancelable, Bool.or_eq_true, decide_eq_true_eq] at hcan
    rcases hcan with ((h | h) | h) | h <;> rw [h] <;> rfl
  | decide ha hid hp hstep hd => exact hpending ha hp hstep
  | retry hid hok =>
    simp only [retryAllowed, Bool.or_eq_true, Bool.and_eq_true, decide_eq_true_eq] at hok
    rcases hok with h | ⟨h, -⟩ <;> rw [h] <;> rfl

/-- **Only a claim puts a step in flight**, and a claim counts an attempt. -/
theorem StepChange.idle_of_attempts (h : StepChange s op r r')
    (hatt : r'.attemptCount = r.attemptCount) : r'.status.inFlight = false := by
  cases h with
  | claim he hcl => exact absurd hatt (Nat.succ_ne_self _)
  | recover hexp =>
    simp only [recoverRow]
    split <;> rfl
  | complete hn hl => exact StepStatus.not_inFlight_of_finished (completionStatus_finished _)
  | decide ha hid hp hstep hd =>
    simp only [decidedRow]
    split <;> rfl
  | _ => rfl

theorem StepChange.leaseCoherent (hc : Consistent s.db) (hr : r ∈ s.db.steps)
    (h : StepChange s op r r') : LeaseCoherent r' := by
  have hrow := hc.lease r hr
  have hpending : ∀ {a : Approval}, a ∈ s.db.approvals → a.status = .pending →
      r.id = a.executionStepID → r.leaseOwner.isSome = false ∧ r.leaseExpiresAt.isSome = false := by
    intro a ha hp hid
    rw [hrow.1, hrow.2]
    rcases (hc.of_pending hr ha hp hid).2 with h | h <;> rw [h] <;> exact ⟨rfl, rfl⟩
  cases h with
  | claim he hcl =>
    simp only [LeaseCoherent, claimRow]
    split <;> exact ⟨rfl, rfl⟩
  | recover hexp =>
    simp only [LeaseCoherent, recoverRow]
    split <;> exact ⟨rfl, rfl⟩
  | timer hdue =>
    rw [LeaseCoherent, waiting_of_waitDue hdue] at hrow
    exact hrow
  | expire ha hp hid => exact hpending ha hp hid
  | complete hn hl =>
    have hidle := StepStatus.not_inFlight_of_finished (completionStatus_finished ‹StepStatus›)
    exact ⟨hidle.symm, hidle.symm⟩
  | decide ha hid hp hstep hd =>
    obtain ⟨ho, hx⟩ := hpending ha hp hstep
    simp only [LeaseCoherent, decidedRow, ho, hx]
    split <;> exact ⟨rfl, rfl⟩
  | _ => exact ⟨rfl, rfl⟩

/-- A row no worker ever started stays pending until it is canceled. -/
theorem StepChange.resting (hc : Consistent s.db) (hr : r ∈ s.db.steps)
    (h : StepChange s op r r') (hzero : r'.attemptCount = 0) : r'.status.resting := by
  have hstart : r.status.resting := hc.started r hr (Nat.le_zero.mp (hzero ▸ h.attempts))
  have hleased : ∀ {stepID workerID : String} {P : Prop},
      leasedTo stepID workerID r = true → P := by
    intro stepID workerID P hl
    have hin := hc.inFlight_of_leased hr hl
    rcases hstart with h | h <;> rw [h] at hin <;> cases hin
  have hpending : ∀ {a : Approval} {P : Prop}, a ∈ s.db.approvals → a.status = .pending →
      r.id = a.executionStepID → P := by
    intro a P ha hp hid
    have hpos := (hc.of_pending hr ha hp hid).1
    have hle := h.attempts
    omega
  cases h with
  | claim he hcl => exact absurd hzero (Nat.succ_ne_zero _)
  | recover hexp =>
    have hin := inFlight_of_leaseExpired hexp
    rcases hstart with h | h <;> rw [h] at hin <;> cases hin
  | timer hdue =>
    rcases hstart with h | h <;> cases h.symm.trans (waiting_of_waitDue hdue)
  | expire ha hp hid => exact hpending ha hp hid
  | wait hn hl hs | openApproval hn hl | complete hn hl | retryLater hn hl hlt | fail hn hl
  | ambiguous hn hl => exact hleased hl
  | cancel hid hcan => exact .inr rfl
  | decide ha hid hp hstep hd => exact hpending ha hp hstep
  | retry hid hok =>
    rcases hstart with h | h <;> simp [retryAllowed, h] at hok

theorem StepChange.first_attempt (h : StepChange s op r r') (hr : r.attemptCount = 0)
    (hr' : 0 < r'.attemptCount) : earlierUnfinished s.db r = false := by
  cases h with
  | claim he hcl =>
    simp only [claimable, Bool.and_eq_true, Bool.not_eq_true'] at hcl
    exact hcl.2
  | _ => exact absurd hr (Nat.pos_iff_ne_zero.mp hr')

theorem NewRow.attempts (h : NewRow s op r) : r.attemptCount = 0 := by
  cases h <;> rfl

theorem NewRow.status (h : NewRow s op r) : r.status = .pending := by
  cases h <;> rfl

theorem NewRow.leaseCoherent (h : NewRow s op r) : LeaseCoherent r := by
  cases h <;> exact ⟨rfl, rfl⟩

theorem NewRow.phase (hc : Consistent s.db) (h : NewRow s op r) {p : ExecutionStep}
    (hp : p ∈ s.db.steps) (hexec : r.executionID = p.executionID) :
    r.isRollback ≠ p.isRollback := by
  cases h with
  | forward hnew hstep ht =>
    obtain ⟨e, he, hid⟩ := hc.owner p hp
    exact absurd (hid.trans hexec.symm) (hnew e he)
  | rollback hnew _ hsource ht =>
    rw [hnew p hp hexec.symm]
    exact Bool.noConfusion

/-! ### Consistency is kept -/

theorem Effect.consistent (hc : Consistent s.db) {db' : DB} (h : Effect s op db') :
    Consistent db' := by
  have hrow : ∀ r' ∈ db'.steps, (∃ r ∈ s.db.steps, r' = r ∨ StepChange s op r r')
      ∨ NewRow s op r' :=
    fun r' hr' => h.rows.prev hr'
  have hdef : ∀ {r r' : ExecutionStep}, (r' = r ∨ StepChange s op r r') →
      r'.definition = r.definition := fun hch => hch.elim (fun he => he ▸ rfl) StepChange.definition
  refine ⟨h.steps, ?_, h.approvals, h.approvalSteps, h.owner, ?_, h.requested, ?_, ?_⟩
  · obtain ⟨kept, new, heq, hkept, hnew⟩ := h.executions
    have hkey : Keyed Execution.id kept := by
      rw [Keyed, hkept.map_id]
      exact hc.executions
    rw [heq]
    rcases hnew with rfl | ⟨e, rfl, hfresh⟩
    · rw [List.append_nil]
      exact hkey
    refine hkey.append_singleton fun e' he' hid => ?_
    have hmem : e.id ∈ kept.map Execution.id := hid ▸ List.mem_map_of_mem he'
    rw [hkept.map_id] at hmem
    obtain ⟨e₀, he₀, hid₀⟩ := List.mem_map.mp hmem
    exact hfresh e₀ he₀ hid₀
  · intro r' hr'
    rcases hrow r' hr' with ⟨r, hr, rfl | hch⟩ | hnew
    · exact hc.lease r' hr
    · exact hch.leaseCoherent hc hr
    · exact hnew.leaseCoherent
  · intro r' hr' hzero
    rcases hrow r' hr' with ⟨r, hr, rfl | hch⟩ | hnew
    · exact hc.started r' hr hzero
    · exact hch.resting hc hr hzero
    · exact .inl hnew.status
  intro r' hr' hpos p' hp' hbefore
  rcases hrow r' hr' with ⟨r, hr, hch⟩ | hnew
  swap
  · exact absurd hnew.attempts (Nat.pos_iff_ne_zero.mp hpos)
  have hrexec : r'.executionID = r.executionID :=
    column_of_definition ExecutionStep.executionID (fun _ => rfl) (hdef hch)
  have hrphase : r'.isRollback = r.isRollback :=
    column_of_definition ExecutionStep.isRollback (fun _ => rfl) (hdef hch)
  have hrpos : r'.position = r.position :=
    column_of_definition ExecutionStep.position (fun _ => rfl) (hdef hch)
  rcases hrow p' hp' with ⟨p, hp, hpch⟩ | hnew
  swap
  · -- A new step never precedes a stored one of its phase.
    exact absurd (hbefore.phase.trans hrphase)
      (hnew.phase hc hr (hbefore.execution.trans hrexec))
  have hpexec : p'.executionID = p.executionID :=
    column_of_definition ExecutionStep.executionID (fun _ => rfl) (hdef hpch)
  have hpphase : p'.isRollback = p.isRollback :=
    column_of_definition ExecutionStep.isRollback (fun _ => rfl) (hdef hpch)
  have hppos : p'.position = p.position :=
    column_of_definition ExecutionStep.position (fun _ => rfl) (hdef hpch)
  have hold : Precedes p r :=
    ⟨hpexec.symm.trans (hbefore.execution.trans hrexec),
      hpphase.symm.trans (hbefore.phase.trans hrphase),
      hppos ▸ hrpos ▸ hbefore.position⟩
  -- The earlier step was finished before the operation, so it still is.
  have hfin : p.status.finished = true := by
    rcases Nat.eq_zero_or_pos r.attemptCount with hzero | hstarted
    · rcases hch with rfl | hch
      · exact absurd hzero (Nat.pos_iff_ne_zero.mp hpos)
      · have hnone := hch.first_attempt hzero hpos
        rw [earlierUnfinished, List.any_eq_false] at hnone
        simpa [hold.execution, hold.phase, hold.position] using hnone p hp
    · exact hc.ordered r hr hstarted p hp hold
  rcases hpch with rfl | hpch
  · exact hfin
  · rw [hpch.unfinished hc hp] at hfin
    cases hfin

/-! ### Claims stay valid -/

variable {workerID : String} {c : ClaimedStep}

theorem ClaimValid.step {db' : DB} (h : Effect s op db') (hv : ClaimValid s.db workerID c) :
    ClaimValid db' workerID c := by
  refine ⟨hv.owner, ?_, ?_⟩
  · obtain ⟨r, hr, hdef, hle, heq⟩ := hv.row
    obtain ⟨r', hr', rfl | hch⟩ := h.rows.next hr
    · exact ⟨r', hr', hdef, hle, heq⟩
    refine ⟨r', hr', hch.definition.trans hdef, hle.trans hch.attempts, fun hatt hin => ?_⟩
    -- In flight at the old attempt: then the row has not changed at all.
    have hsame : r'.attemptCount = r.attemptCount :=
      le_antisymm (hatt ▸ hle) hch.attempts
    rw [hch.idle_of_attempts hsame] at hin
    cases hin
  obtain ⟨e, he, hid, hdry⟩ := hv.execution
  obtain ⟨kept, new, heq, hkept, -⟩ := h.executions
  obtain ⟨e', he', hk⟩ := hkept.exists_mem he
  exact ⟨e', heq ▸ List.mem_append_left _ he', hk.id.trans hid, hk.dryRun.trans hdry⟩

theorem mem_claims {locked : List String} {limit lease : ℤ}
    (h : c ∈ s.claims locked workerID limit lease) :
    ∃ r ∈ s.db.steps, ∃ e, r.id ∈ candidates s.db s.now locked (claimLimit limit)
      ∧ s.db.execution? r.executionID = some e
      ∧ c = claimedStep e (claimRow s.now workerID (claimLease lease) r) := by
  simp only [Sys.claims, claimUpdate] at h
  obtain ⟨r, hr, hsel⟩ := List.mem_filterMap.mp h
  split at hsel
  · rename_i hin
    obtain ⟨e, he, rfl⟩ := Option.map_eq_some_iff.mp hsel
    exact ⟨r, hr, e, hin, he, rfl⟩
  · cases hsel

theorem claimValid_of_claims {locked : List String} {limit lease : ℤ}
    (h : c ∈ s.claims locked workerID limit lease) :
    ClaimValid (claimUpdate s.now locked workerID (claimLimit limit) (claimLease lease) s.db).2
      workerID c := by
  obtain ⟨r, hr, e, hin, he, rfl⟩ := mem_claims h
  refine ⟨rfl, ⟨claimRow s.now workerID (claimLease lease) r, ?_, rfl, le_rfl, fun _ _ => rfl⟩, ?_⟩
  · have hmem := mem_update_of_mem
      (p := fun es : ExecutionStep => es.id ∈ candidates s.db s.now locked (claimLimit limit))
      (f := claimRow s.now workerID (claimLease lease)) hr
    rwa [patch_pos (by simpa using hin)] at hmem
  · have hid : e.id = r.executionID := by simpa [DB.execution?] using List.find?_some he
    exact ⟨e, List.mem_of_find?_eq_some he, hid, rfl⟩

theorem commitFor_issued {α : Type} (n : ℕ) (body : String → ClaimedStep → Tx DB α) :
    (s.commitFor env n body).issued = s.issued := by
  rw [Sys.commitFor]
  split <;> rfl

theorem perform_issued (env : Env) (s : Sys) (op : Op) :
    (Sys.perform env op s).issued = s.issued
      ∨ ∃ locked workerID limit lease, op = .claim locked workerID limit lease false
        ∧ (Sys.perform env op s).issued = s.issued
          ++ (s.claims locked workerID limit lease).map fun c => (workerID, c) := by
  cases op with
  | claim locked workerID limit lease lost =>
    cases lost
    · exact .inr ⟨locked, workerID, limit, lease, rfl, rfl⟩
    · exact .inl rfl
  | scheduleWait n until_ | openApproval n approvalID prompt expiresAt
  | complete n status output executionErr
  | markAmbiguous n executionErr => exact .inl (commitFor_issued _ _)
  | _ => exact .inl rfl

/-! ### The invariant -/

theorem inv_perform (env : Env) (hi : s.Inv) (op : Op) : (Sys.perform env op s).Inv := by
  have heff := effect_perform env hi op
  refine ⟨heff.consistent hi.consistent, fun w hw => ?_⟩
  obtain hsame | ⟨locked, workerID, limit, lease, rfl, hissued⟩ := perform_issued env s op
  · rw [hsame] at hw
    exact (hi.claims w hw).step heff
  rw [hissued] at hw
  rcases List.mem_append.mp hw with hold | hnew
  · exact (hi.claims w hold).step heff
  · obtain ⟨c, hcl, rfl⟩ := List.mem_map.mp hnew
    rw [perform_claim_db]
    exact claimValid_of_claims hcl

theorem inv_init (h : s.Init) : s.Inv := by
  obtain ⟨hexec, hsteps, happr, hissued⟩ := h
  refine ⟨⟨?_, ?_, ?_, ?_, ?_, ?_, ?_, ?_, ?_⟩, ?_⟩ <;>
    simp [hexec, hsteps, happr, hissued, NoConflict, Keyed]

/-- **Every reachable state is consistent, and every claim handed out is
valid.** -/
theorem inv_of_reachable (h : Sys.Reachable env s) : s.Inv :=
  Transition.Reachable.invariant (I := Sys.Inv) (fun _ h₀ => inv_init h₀)
    (fun op _ hi => inv_perform env hi op) h

end StormRelay
