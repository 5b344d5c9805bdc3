/-
Approvals and the steps that wait for them.

An approval and its step are two rows in two tables.  Opening, deciding and
expiring an approval write both; canceling an execution writes the step only, and
opening an approval for a step that already has one leaves the old row as it is.

* `paired_iff` — **the tables are paired throughout a run if and only if no
  operation of the run unpairs them**;
* `approvals_in_time` — **no approval is given after its expiry, in every run in
  which the clock does not pass the expiry of a pending approval**.
-/
import StormRelay.Completion
import StormRelay.Lease

namespace StormRelay

open Tx Table Transition

variable {env : Env} {s : Sys} {op : Op}

/-! ### Pairing -/

structure Paired (db : DB) : Prop where
  pending : ∀ a ∈ db.approvals, ∀ r ∈ db.steps, r.id = a.executionStepID →
    (a.status = .pending ↔ r.status = .waitingApproval)
  requested : ∀ r ∈ db.steps, r.status = .waitingApproval →
    ∃ a ∈ db.approvals, a.executionStepID = r.id

/-- What the operators see of it: both decisions on the approval of a waiting
step are accepted, and no decision on the approval of another step is. -/
structure ApprovalsDecidable (env : Env) (s : Sys) : Prop where
  paired : Paired s.db
  accepted : ∀ r ∈ s.db.steps, r.status = .waitingApproval →
    ∃ a ∈ s.db.approvals, a.executionStepID = r.id ∧
      ∀ decision reason, (decision = .approved ∨ decision = .rejected) →
        textStorable reason = true → ∀ actor requestID traceID,
          succeeds env.exclusive (decideApproval s.now a.tenantID a.id decision actor reason
            requestID traceID) s.db = true
  refused : ∀ a ∈ s.db.approvals, ∀ r ∈ s.db.steps, r.id = a.executionStepID →
    r.status ≠ .waitingApproval → ∀ tenantID decision actor reason requestID traceID,
      succeeds env.exclusive (decideApproval s.now tenantID a.id decision actor reason
        requestID traceID) s.db = false

theorem Consistent.approvalWithStep_eq {db : DB} (hc : Consistent db) {a : Approval}
    {r : ExecutionStep} (ha : a ∈ db.approvals) (hr : r ∈ db.steps)
    (hid : r.id = a.executionStepID) : approvalWithStep a.tenantID a.id db = some (a, r) := by
  have hkey : db.approvals.find? (fun y => y.tenantID = a.tenantID && y.id = a.id) = some a := by
    obtain ⟨b, hb⟩ : ∃ b, db.approvals.find? (fun y => y.tenantID = a.tenantID && y.id = a.id)
        = some b :=
      Option.isSome_iff_exists.mp (List.find?_isSome.mpr ⟨a, ha, by simp⟩)
    have hbid := List.find?_some hb
    simp only [Bool.and_eq_true, decide_eq_true_eq] at hbid
    rw [hb, hc.approvals.eq_of_key (List.mem_of_find?_eq_some hb) ha hbid.2]
  simp only [approvalWithStep, hkey, Option.bind_eq_bind, Option.bind_some, ← hid,
    hc.step?_eq hr]
  rfl

theorem Paired.decidable (hp : Paired s.db) (hi : s.Inv) (env : Env) :
    ApprovalsDecidable env s := by
  have hc := hi.consistent
  refine ⟨hp, fun r hr hst => ?_, ?_⟩
  · obtain ⟨a, ha, hid⟩ := hp.requested r hr hst
    refine ⟨a, ha, hid, fun decision reason hd hreason actor requestID traceID => ?_⟩
    exact (decide_succeeds_iff hc.owner).mpr ⟨a, r, hd, hc.approvalWithStep_eq ha hr hid.symm,
      (hp.pending a ha r hr hid.symm).mpr hst, hreason⟩
  intro a ha r hr hid hst tenantID decision actor reason requestID traceID
  rw [← Bool.not_eq_true, decide_succeeds_iff hc.owner]
  rintro ⟨b, q, h⟩
  obtain ⟨hb, hbid, -, -⟩ := approvalWithStep_some h.found
  obtain rfl := hc.approvals.eq_of_key hb ha hbid
  exact hst ((hp.pending b hb r hr hid).mp h.pending)

/-- **The operations that unpair the tables**: a cancel of an execution with a
waiting step, and a request for an approval of a step that already has one. -/
def Unpairs : Op → Sys → Prop
  | .changeState tenantID executionID .cancel _ _ _, s =>
    CancelCommits tenantID executionID s
      ∧ ∃ r ∈ s.db.own executionID, r.status = .waitingApproval
  | .openApproval n _ prompt _, s =>
    ∃ workerID c, s.issued[n]? = some (workerID, c) ∧ textStorable prompt = true
      ∧ (∃ r ∈ s.db.steps, leasedTo c.step.id workerID r = true)
      ∧ ∃ a ∈ s.db.approvals, a.executionStepID = c.step.id
  | _, _ => False

section Pairing

variable {db' : DB} {r r' : ExecutionStep}

theorem Effect.approvalStep (heff : Effect s op db') (hi : s.Inv) {a : Approval}
    (ha : a ∈ s.db.approvals) (hr' : r' ∈ db'.steps) (hid : r'.id = a.executionStepID) :
    ∃ r ∈ s.db.steps, r.id = a.executionStepID ∧ (r' = r ∨ StepChange s op r r') := by
  obtain ⟨r, hr, hrid, -, -⟩ := hi.consistent.requested a ha
  obtain ⟨q, hq, hch⟩ := heff.rows.next hr
  have hqid : q.id = r.id := hch.elim (fun h => by rw [h]) StepChange.id
  have hc' := heff.consistent hi.consistent
  obtain rfl := hc'.eq_of_id hr' hq (hid.trans (hrid.symm.trans hqid.symm))
  exact ⟨r, hr, hrid, hch⟩

theorem Paired.of_quiet (hp : Paired s.db) (hi : s.Inv) (heff : Effect s op db')
    (happr : db'.approvals = s.db.approvals)
    (hquiet : ∀ r r', r ∈ s.db.steps → StepChange s op r r' →
      r.status ≠ .waitingApproval ∧ r'.status ≠ .waitingApproval) : Paired db' := by
  refine ⟨fun a ha r' hr' hid => ?_, fun r' hr' hst => ?_⟩
  · rw [happr] at ha
    obtain ⟨r, hr, hrid, rfl | hch⟩ := heff.approvalStep hi ha hr' hid
    · exact hp.pending a ha r' hr hrid
    · have hq := hquiet r r' hr hch
      have hold := hp.pending a ha r hr hrid
      exact ⟨fun h => absurd (hold.mp h) hq.1, fun h => absurd h hq.2⟩
  rw [happr]
  rcases heff.rows.prev hr' with ⟨r, hr, rfl | hch⟩ | hnew
  · exact hp.requested r' hr hst
  · exact absurd hst (hquiet r r' hr hch).2
  · rw [hnew.status] at hst
    cases hst

theorem Effect.approvals_eq (heff : Effect s op db')
    (hadvance : ∀ locked actor, op ≠ .advance locked actor)
    (hdecide : ∀ tenantID approvalID decision actor reason requestID traceID,
      op ≠ .decide tenantID approvalID decision actor reason requestID traceID)
    (hopen : ∀ n approvalID prompt expiresAt, op ≠ .openApproval n approvalID prompt expiresAt) :
    db'.approvals = s.db.approvals := by
  obtain ⟨k, new, heq, hk, hnew⟩ := heff.approvalRows
  have hsame : ∀ a ∈ s.db.approvals, k a = a := by
    intro a ha
    refine (hk a ha).resolve_right fun hch => ?_
    generalize k a = a' at hch
    cases hch with
    | expire hp => exact hadvance _ _ rfl
    | decide hp => exact hdecide _ _ _ _ _ _ _ rfl
  obtain rfl : new = [] := by
    refine List.eq_nil_iff_forall_not_mem.mpr fun a ha => ?_
    cases hnew a ha with
    | requested hn => exact hopen _ _ _ _ rfl
  rw [heq, List.append_nil]
  exact (List.map_congr_left hsame).trans (List.map_id' _)

theorem StepChange.from_waiting (h : StepChange s op r r') (hi : s.Inv) (hr : r ∈ s.db.steps)
    (hst : r.status = .waitingApproval) :
    (∃ locked actor, op = .advance locked actor)
      ∨ (∃ tenantID approvalID decision actor reason requestID traceID,
        op = .decide tenantID approvalID decision actor reason requestID traceID)
      ∨ ∃ tenantID actor requestID traceID,
        op = .changeState tenantID r.executionID .cancel actor requestID traceID := by
  have hleased : ∀ {P : Prop} {stepID workerID : String},
      leasedTo stepID workerID r = true → P := by
    intro P stepID workerID hl
    have hin := hi.consistent.inFlight_of_leased hr hl
    rw [hst] at hin
    cases hin
  cases h with
  | claim he hcl => rcases claimable_status hcl with h | h <;> rw [hst] at h <;> cases h
  | recover hexp =>
    have hin := inFlight_of_leaseExpired hexp
    rw [hst] at hin
    cases hin
  | timer hdue | expire ha hp hid => exact .inl ⟨_, _, rfl⟩
  | wait hn hl hs | openApproval hn hl | complete hn hl | retryLater hn hl hlt | fail hn hl
  | ambiguous hn hl => exact hleased hl
  | cancel hid hcan => exact .inr (.inr ⟨_, _, _, _, by rw [hid]⟩)
  | decide ha hid hp hstep hd => exact .inr (.inl ⟨_, _, _, _, _, _, _, rfl⟩)
  | retry hid hok => simp [retryAllowed, hst] at hok

theorem paired_other (hp : Paired s.db) (hi : s.Inv) (env : Env)
    (hadvance : ∀ locked actor, op ≠ .advance locked actor)
    (hdecide : ∀ tenantID approvalID decision actor reason requestID traceID,
      op ≠ .decide tenantID approvalID decision actor reason requestID traceID)
    (hopen : ∀ n approvalID prompt expiresAt, op ≠ .openApproval n approvalID prompt expiresAt)
    (hcancel : ∀ tenantID executionID actor requestID traceID,
      op ≠ .changeState tenantID executionID .cancel actor requestID traceID) :
    Paired (Sys.perform env op s).db := by
  have heff := effect_perform env hi op
  refine hp.of_quiet hi heff (heff.approvals_eq hadvance hdecide hopen) fun r r' hr hch => ?_
  constructor
  · intro hst
    rcases hch.from_waiting hi hr hst with ⟨_, _, h⟩ | ⟨_, _, _, _, _, _, _, h⟩ | ⟨_, _, _, _, h⟩
    · exact hadvance _ _ h
    · exact hdecide _ _ _ _ _ _ _ h
    · exact hcancel _ _ _ _ _ h
  · intro hst
    obtain ⟨n, approvalID, prompt, expiresAt, -, -, h, -⟩ := hch.waitingApproval hst
    exact hopen _ _ _ _ h

theorem paired_cancel_iff (hp : Paired s.db) (hi : s.Inv)
    (tenantID executionID actor requestID traceID : String) :
    Paired (Sys.perform env
        (.changeState tenantID executionID .cancel actor requestID traceID) s).db
      ↔ ¬ Unpairs (.changeState tenantID executionID .cancel actor requestID traceID) s := by
  have heff := effect_perform env hi
    (.changeState tenantID executionID .cancel actor requestID traceID)
  have happr := heff.approvals_eq (fun _ _ => nofun) (fun _ _ _ _ _ _ _ => nofun)
    fun _ _ _ _ => nofun
  constructor
  · rintro hp' ⟨⟨e, he, hallowed⟩, r, hr, hst⟩
    obtain ⟨hmem, hown⟩ := DB.mem_own.mp hr
    obtain ⟨a, ha, hid⟩ := hp.requested r hmem hst
    have hpending := (hp.pending a ha r hmem hid.symm).mpr hst
    -- The step is canceled, its approval is still pending.
    obtain ⟨entry, hafter⟩ := cancel_ok env.exclusive s.now actor requestID traceID he hallowed
    have hrow : canceledRow s.now r ∈ (Sys.perform env
        (.changeState tenantID executionID .cancel actor requestID traceID) s).db.steps := by
      simp only [Sys.perform, Sys.commit]
      rw [hafter]
      exact mem_update_pos (p := fun es : ExecutionStep => es.executionID = executionID
        && cancelable es) hmem (by simp [hown, cancelable, hst])
    have hcanceled := (hp'.pending a (happr ▸ ha) _ hrow hid.symm).mp hpending
    cases hcanceled
  intro hun
  by_cases hcommit : CancelCommits tenantID executionID s
  · refine hp.of_quiet hi heff happr fun r r' hr hch => ⟨fun hst => ?_, fun hst => ?_⟩
    · rcases hch.from_waiting hi hr hst with ⟨_, _, h⟩ | ⟨_, _, _, _, _, _, _, h⟩ |
        ⟨_, _, _, _, h⟩
      · cases h
      · cases h
      · obtain ⟨-, rfl, -⟩ := Op.changeState.inj h
        exact hun ⟨hcommit, r, DB.mem_own.mpr ⟨hr, rfl⟩, hst⟩
    · obtain ⟨_, _, _, _, _, _, h, -⟩ := hch.waitingApproval hst
      cases h
  have hsame : (Sys.perform env
      (.changeState tenantID executionID .cancel actor requestID traceID) s).db = s.db := by
    refine change_error fun e he => ?_
    rw [← Bool.not_eq_true]
    exact fun h => hcommit ⟨e, he, h⟩
  rw [hsame]
  exact hp

theorem Paired.decided (hp : Paired s.db) (hc : Consistent s.db)
    {tenantID approvalID actor reason : String} {decision : Decision} {a : Approval}
    {es : ExecutionStep} (hwait : AwaitsDecision s.db tenantID approvalID decision reason a es)
    {db' : DB}
    (hsteps : db'.steps = update (fun y => y.id = es.id)
      (decidedRow s.now decision approvalID actor reason) s.db.steps)
    (happr : db'.approvals = update (fun y => y.id = approvalID)
      (decideApprovalRow s.now decision actor reason) s.db.approvals) : Paired db' := by
  obtain ⟨ha, hid, -, hstep⟩ := approvalWithStep_some hwait.found
  have hdecided : ∀ y : ExecutionStep,
      (decidedRow s.now decision approvalID actor reason y).status ≠ .waitingApproval := by
    intro y
    simp only [decidedRow]
    split <;> (intro h; cases h)
  refine ⟨fun b' hb' r' hr' hbr => ?_, fun r' hr' hst => ?_⟩
  · rw [happr] at hb'
    rw [hsteps] at hr'
    rcases mem_update_cases hb' with ⟨b, hb, hbid, rfl⟩ | ⟨hb, hbid⟩
    · -- The decided approval: its step has been decided, too.
      obtain rfl := hc.approvals.eq_of_key hb ha ((of_decide_eq_true hbid).trans hid.symm)
      have hnot : (decideApprovalRow s.now decision actor reason b).status ≠ .pending := by
        simp only [decideApprovalRow]
        cases decision <;> (intro h; cases h)
      rcases mem_update_cases hr' with ⟨r, -, -, rfl⟩ | ⟨hr, hne⟩
      · exact ⟨fun h => absurd h hnot, fun h => absurd h (hdecided r)⟩
      · exact absurd (hbr.trans hstep.symm) (of_decide_eq_false hne)
    rcases mem_update_cases hr' with ⟨r, hr, hrid, rfl⟩ | ⟨hr, -⟩
    · -- Another approval of the same step would have the same row.
      have hsame : b'.executionStepID = a.executionStepID :=
        hbr.symm.trans ((of_decide_eq_true hrid).trans hstep)
      rw [hc.approvalSteps.eq_of_key hb ha hsame] at hbid
      exact absurd hid (of_decide_eq_false hbid)
    · exact hp.pending b' hb r' hr hbr
  rw [hsteps] at hr'
  rcases mem_update_cases hr' with ⟨r, -, -, rfl⟩ | ⟨hr, -⟩
  · exact absurd hst (hdecided r)
  · obtain ⟨b, hb, hbid⟩ := hp.requested r' hr hst
    rw [happr]
    exact ⟨_, mem_update_of_mem hb, (patch_column Approval.executionStepID rfl).trans hbid⟩

theorem paired_decide (hp : Paired s.db) (hi : s.Inv) (env : Env)
    (tenantID approvalID : String) (decision : Decision) (actor reason requestID traceID : String) :
    Paired (Sys.perform env
      (.decide tenantID approvalID decision actor reason requestID traceID) s).db := by
  have hc := hi.consistent
  simp only [Sys.perform, Sys.commit]
  have hout := decide_outcome env.exclusive s.now tenantID approvalID decision actor reason
    requestID traceID hc.owner
  generalize after env.exclusive _ s.db = db' at hout ⊢
  cases hout with
  | refused => exact hp
  | approved hwait => exact hp.decided hc hwait (finalizedDB_steps _ _) (finalizedDB_approvals _ _)
  | rejected hwait => exact hp.decided hc hwait rfl rfl

theorem paired_advance (hp : Paired s.db) (hi : s.Inv) (env : Env) (locked : List String)
    (actor : String) : Paired (Sys.perform env (.advance locked actor) s).db := by
  have hc := hi.consistent
  simp only [Sys.perform, Sys.commit]
  have hout := advance_outcome env.exclusive s.now hc.waitsOwned locked actor
  generalize after env.exclusive _ s.db = db' at hout ⊢
  rcases hout with - | -
  · exact hp
  set items := expiredApprovals s.now locked s.db
  have hkeys : Keyed (fun item : Approval × String => item.1.executionStepID) items :=
    keyed_expiredApprovals hc.approvalSteps
  have hids : Keyed (fun item : Approval × String => item.1.id) items :=
    keyed_expiredApprovals hc.approvals
  have hrowID : ∀ r : ExecutionStep, (advanceRow s.now items r).id = r.id := fun r =>
    (expireRows_column ExecutionStep.id (fun _ => rfl) items _).trans
      (patch_column ExecutionStep.id rfl)
  have happrID : ∀ a : Approval,
      (expireApprovals s.now items a).executionStepID = a.executionStepID := by
    intro a
    by_cases hexp : ∃ item ∈ items, a.id = item.1.id
    · obtain ⟨item, hitem, haid⟩ := hexp
      rw [expireApprovals_named hids hitem haid]
      rfl
    · rw [expireApprovals_free fun item hitem h => hexp ⟨item, hitem, h⟩]
  -- A step no item names: only its timer may have run.
  have hfree : ∀ r : ExecutionStep, (∀ item ∈ items, r.id ≠ item.1.executionStepID) →
      ((advanceRow s.now items r).status = .waitingApproval ↔ r.status = .waitingApproval) := by
    intro r hr
    rw [advanceRow_free hr]
    by_cases hdue : waitDue s.now r = true
    · rw [patch_pos hdue]
      rw [waiting_of_waitDue hdue]
      constructor <;> intro h <;> cases h
    · rw [patch_neg (by simpa using hdue)]
  -- A step an item names has failed.
  have hnamed : ∀ (r : ExecutionStep) (item : Approval × String), item ∈ items →
      r.id = item.1.executionStepID → (advanceRow s.now items r).status = .failed := by
    intro r item hitem hid
    rw [advanceRow_named hkeys hitem hid]
    rfl
  refine ⟨fun a' ha' r' hr' hid => ?_, fun r' hr' hst => ?_⟩
  · rw [advanced_approvals] at ha'
    rw [advanced_steps] at hr'
    obtain ⟨a, ha, rfl⟩ := List.mem_map.mp ha'
    obtain ⟨r, hr, rfl⟩ := List.mem_map.mp hr'
    rw [hrowID, happrID] at hid
    by_cases hexp : ∃ item ∈ items, a.id = item.1.id
    · obtain ⟨item, hitem, haid⟩ := hexp
      obtain rfl := hc.approvals.eq_of_key ha (mem_expiredApprovals hitem).1 haid
      rw [expireApprovals_named hids hitem rfl, hnamed r item hitem hid]
      constructor <;> intro h <;> cases h
    have hkept : ∀ item ∈ items, a.id ≠ item.1.id := fun item hitem h => hexp ⟨item, hitem, h⟩
    rw [expireApprovals_free hkept, hfree r fun item hitem h => hkept item hitem ?_]
    · exact hp.pending a ha r hr hid
    · rw [hc.approvalSteps.eq_of_key ha (mem_expiredApprovals hitem).1 (hid.symm.trans h)]
  rw [advanced_steps] at hr'
  obtain ⟨r, hr, rfl⟩ := List.mem_map.mp hr'
  have hkept : ∀ item ∈ items, r.id ≠ item.1.executionStepID := by
    intro item hitem hid
    rw [hnamed r item hitem hid] at hst
    cases hst
  obtain ⟨a, ha, haid⟩ := hp.requested r hr ((hfree r hkept).mp hst)
  rw [advanced_approvals, hrowID]
  exact ⟨_, List.mem_map_of_mem ha, (happrID a).trans haid⟩

theorem paired_openApproval_iff (hp : Paired s.db) (hi : s.Inv) (n : ℕ)
    (approvalID prompt : String) (expiresAt : Option Time) :
    Paired (Sys.perform env (.openApproval n approvalID prompt expiresAt) s).db
      ↔ ¬ Unpairs (.openApproval n approvalID prompt expiresAt) s := by
  have hc := hi.consistent
  rcases hn : s.issued[n]? with _ | ⟨workerID, c⟩
  · rw [Sys.perform, Sys.commitFor_none env hn]
    refine ⟨fun _ => ?_, fun _ => hp⟩
    rintro ⟨workerID, c, hn', -⟩
    rw [hn] at hn'
    cases hn'
  rw [Sys.perform, Sys.commitFor_some env hn, Sys.commit]
  simp only
  have hun : Unpairs (.openApproval n approvalID prompt expiresAt) s
      ↔ CanRequest approvalID workerID prompt c s.db
        ∧ ∃ a ∈ s.db.approvals, a.executionStepID = c.step.id := by
    constructor
    · rintro ⟨w, c', hn', hprompt, hleased, hknown⟩
      obtain ⟨rfl, rfl⟩ := Prod.mk.inj (Option.some.inj (hn.symm.trans hn'))
      exact ⟨⟨hprompt, hc.affected_leased_iff.mpr hleased, .inl hknown⟩, hknown⟩
    · exact fun h => ⟨workerID, c, hn, h.1.prompt, hc.affected_leased_iff.mp h.1.leased, h.2⟩
  have hout := open_outcome env.exclusive s.now approvalID workerID prompt c expiresAt s.db
  generalize after env.exclusive _ s.db = db' at hout ⊢
  cases hout with
  | refused hno => exact ⟨fun _ h => hno (hun.mp h).1, fun _ => hp⟩
  | @known out hcan hout hstep =>
    -- The step keeps its old approval, which is not pending.
    refine ⟨fun hp' => ?_, fun h => absurd (hun.mpr ⟨hcan, out, hout, hstep⟩) h⟩
    obtain ⟨r, hr, hl⟩ := exists_of_affected hcan.leased
    have hid : r.id = out.executionStepID := (leasedTo_id hl).trans hstep.symm
    have hold : out.status ≠ .pending := by
      intro h
      have hin := hc.inFlight_of_leased hr hl
      rw [(hp.pending out hout r hr hid).mp h] at hin
      cases hin
    have hnew := (hp'.pending out hout _ (mem_update_pos (p := leasedTo c.step.id workerID)
      (f := waitingApprovalRow out.id prompt) hr hl) hid).mpr rfl
    exact absurd hnew hold
  | requested hcan hfree =>
    have hnot : ¬ Unpairs (.openApproval n approvalID prompt expiresAt) s := by
      intro h
      obtain ⟨-, a, ha, haid⟩ := hun.mp h
      exact (hfree a ha).1 haid
    obtain ⟨r, hr, hl⟩ := exists_of_affected hcan.leased
    refine ⟨fun _ => hnot, fun _ => ⟨fun a ha r' hr' hid => ?_, fun r' hr' hst => ?_⟩⟩
    · rcases List.mem_append.mp ha with hold | hnew
      · rcases mem_update_cases hr' with ⟨q, -, hql, rfl⟩ | ⟨hq, -⟩
        · have hqid : q.id = a.executionStepID := hid
          exact absurd (hqid.symm.trans (leasedTo_id hql)) (hfree a hold).1
        · exact hp.pending a hold r' hq hid
      obtain rfl := List.mem_singleton.mp hnew
      rcases mem_update_cases hr' with ⟨q, -, -, rfl⟩ | ⟨hq, hql⟩
      · exact ⟨fun _ => rfl, fun _ => rfl⟩
      · rw [hc.eq_of_id hq hr (hid.trans (leasedTo_id hl).symm), hl] at hql
        cases hql
    rcases mem_update_cases hr' with ⟨q, -, hql, rfl⟩ | ⟨hq, -⟩
    · exact ⟨_, List.mem_append_right _ (List.mem_singleton.mpr rfl), (leasedTo_id hql).symm⟩
    · obtain ⟨a, ha, haid⟩ := hp.requested r' hq hst
      exact ⟨a, List.mem_append_left _ ha, haid⟩

/-- **One operation keeps the tables paired exactly when it does not unpair
them.** -/
theorem paired_perform_iff (hp : Paired s.db) (hi : s.Inv) (op : Op) :
    Paired (Sys.perform env op s).db ↔ ¬ Unpairs op s := by
  cases op with
  | advance locked actor => exact iff_of_true (paired_advance hp hi env locked actor) id
  | decide tenantID approvalID decision actor reason requestID traceID =>
    exact iff_of_true
      (paired_decide hp hi env tenantID approvalID decision actor reason requestID traceID) id
  | openApproval n approvalID prompt expiresAt =>
    exact paired_openApproval_iff hp hi n approvalID prompt expiresAt
  | changeState tenantID executionID action actor requestID traceID =>
    cases action with
    | cancel => exact paired_cancel_iff hp hi tenantID executionID actor requestID traceID
    | _ =>
      refine iff_of_true (paired_other hp hi env ?_ ?_ ?_ ?_) id
      all_goals intros; exact nofun
  | _ =>
    refine iff_of_true (paired_other hp hi env ?_ ?_ ?_ ?_) id
    all_goals intros; exact nofun

end Pairing

/-- **Approvals and steps, exactly.**  From an empty store and for every run: in
every state an approval is pending if and only if its step waits for it, both
decisions are open for every waiting step and none for any other, if and only if
no operation of the run cancels an execution with a waiting step or requests an
approval for a step that already has one. -/
theorem paired_iff (hs : s.Init) (ops : List Op) :
    Throughout (Sys.perform env) (ApprovalsDecidable env) ops s
      ↔ Along (Sys.perform env) (fun op s => ¬ Unpairs op s) ops s := by
  have hempty : Paired s.db := by
    refine ⟨fun a ha => ?_, fun r hr => ?_⟩
    · rw [hs.2.2.1] at ha
      cases ha
    · rw [hs.2.1] at hr
      cases hr
  refine along_iff_of_exact (J := Sys.Inv) (fun op s hi => inv_perform env hi op)
    (fun op s hi hd => ?_) ops (inv_init hs) (hempty.decidable (inv_init hs) env)
  exact ⟨fun hd' => (paired_perform_iff hd.paired hi op).mp hd'.paired, fun hop =>
    ((paired_perform_iff hd.paired hi op).mpr hop).decidable (inv_perform env hi op) env⟩

/-- An approval is requested and given. -/
theorem paired_given :
    Throughout (Sys.perform gatedEnv) (ApprovalsDecidable gatedEnv)
      [starting ["s1", "s2"], claiming, .openApproval 0 "ap" "restart?" none,
        .decide "t" "ap" .approved "op" "" "" ""] oneRunbook := by
  refine (paired_iff ⟨rfl, rfl, rfl, rfl⟩ _).mpr ⟨id, id, ?_, id, trivial⟩
  rintro ⟨workerID, c, -, -, -, a, ha, -⟩
  have hnone : (run (Sys.perform gatedEnv)
      [starting ["s1", "s2"], claiming] oneRunbook).db.approvals.length = 0 := by
    decide +kernel
  rw [List.length_eq_zero_iff] at hnone
  exact List.not_mem_nil (hnone ▸ ha)

def canceledGateRun : List Op :=
  [starting ["s1", "s2"], claiming, .openApproval 0 "ap" "restart?" none,
    .changeState "t" "e" .cancel "op" "" ""]

def canceledGateState : Sys :=
  run (Sys.perform gatedEnv) canceledGateRun oneRunbook

/-- **A pending approval of a canceled step.**  The step is canceled and its
approval can still be given. -/
theorem canceled_step_still_decidable :
    Sys.Reachable gatedEnv canceledGateState ∧ ¬ Paired canceledGateState.db
      ∧ succeeds gatedEnv.exclusive (decideApproval canceledGateState.now "t" "ap" .approved "op" ""
        "" "") canceledGateState.db = true := by
  refine ⟨⟨oneRunbook, canceledGateRun, ⟨rfl, rfl, rfl, rfl⟩, rfl⟩, fun h => ?_,
    by decide +kernel⟩
  have happr : (canceledGateState.db.approvals.map fun a => (a.executionStepID, a.status))
      = [("s1", .pending)] := by decide +kernel
  have hsteps : (canceledGateState.db.steps.map fun r => (r.id, r.status))
      = [("s1", .canceled), ("s2", .canceled)] := by decide +kernel
  obtain ⟨a, ha, harow⟩ := exists_row happr List.mem_cons_self
  obtain ⟨r, hr, hrow⟩ := exists_row hsteps List.mem_cons_self
  obtain ⟨haid, hast⟩ := Prod.mk.inj harow
  obtain ⟨hrid, hrst⟩ := Prod.mk.inj hrow
  have hwait := (h.pending a ha r hr (hrid.trans haid.symm)).mp hast
  rw [hrst] at hwait
  cases hwait

/-! ### Expiry -/

def DecidedInTime (a : Approval) : Prop :=
  ∀ t, a.expiresAt = some t → ∃ d, a.decidedAt = some d ∧ d ≤ t

/-- **The ways an approval becomes overdue**: the clock passes the expiry of an
approval that is still pending, or an approval is requested whose expiry has
passed. -/
def Overruns : Op → Sys → Prop
  | .tick elapsed, s =>
    ∃ a ∈ s.db.approvals, a.status = .pending ∧ ∃ t, a.expiresAt = some t ∧ t < s.now + elapsed
  | .openApproval _ _ _ expiresAt, s => ∃ t, expiresAt = some t ∧ t < s.now
  | _, _ => False

structure Punctual (s : Sys) : Prop where
  pending : ∀ a ∈ s.db.approvals, a.status = .pending → ∀ t, a.expiresAt = some t → s.now ≤ t
  approved : ∀ a ∈ s.db.approvals, a.status = .approved → DecidedInTime a

theorem Punctual.tick (h : Punctual s) {elapsed : ℕ} (hop : ¬ Overruns (.tick elapsed) s) :
    Punctual (Sys.perform env (.tick elapsed) s) := by
  refine ⟨fun a ha hp t ht => ?_, h.approved⟩
  by_contra hlt
  exact hop ⟨a, ha, hp, t, ht, not_le.mp hlt⟩

theorem Punctual.change (h : Punctual s) {a a' : Approval} (ha : a ∈ s.db.approvals)
    (hch : ApprovalChange s op a a') :
    a'.status ≠ .pending ∧ (a'.status = .approved → DecidedInTime a') := by
  cases hch with
  | expire hp => exact ⟨nofun, nofun⟩
  | @decide tenantID actor reason requestID traceID decision a hp =>
    refine ⟨?_, fun _ t ht => ⟨s.now, rfl, h.pending a ha hp t ht⟩⟩
    cases decision <;> exact nofun

theorem punctual_perform (hi : s.Inv) (h : Punctual s) (op : Op) (hop : ¬ Overruns op s) :
    Punctual (Sys.perform env op s) := by
  have heff := effect_perform env hi op
  by_cases htick : ∃ elapsed, op = .tick elapsed
  · obtain ⟨elapsed, rfl⟩ := htick
    exact h.tick hop
  have hnow : (Sys.perform env op s).now = s.now := by
    rw [perform_now]
    cases op with
    | tick elapsed => exact absurd ⟨elapsed, rfl⟩ htick
    | _ => exact Int.add_zero _
  refine ⟨fun a' ha' hp t ht => ?_, fun a' ha' happr => ?_⟩
  · rw [hnow]
    rcases heff.approvalRows.prev ha' with ⟨a, ha, rfl | hch⟩ | hnew
    · exact h.pending a' ha hp t ht
    · exact absurd hp (h.change ha hch).1
    cases hnew with
    | requested hn =>
      by_contra hlt
      exact hop ⟨t, ht, not_le.mp hlt⟩
  rcases heff.approvalRows.prev ha' with ⟨a, ha, rfl | hch⟩ | hnew
  · exact h.approved a' ha happr
  · exact (h.change ha hch).2 happr
  · cases hnew
    cases happr

/-- An approving decision that commits does so by the expiry of the approval. -/
def ApprovesInTime (env : Env) : Op → Sys → Prop
  | .decide tenantID approvalID .approved actor reason requestID traceID, s =>
    succeeds env.exclusive (decideApproval s.now tenantID approvalID .approved actor reason
        requestID traceID) s.db = true →
      ∀ a ∈ s.db.approvals, a.id = approvalID → ∀ t, a.expiresAt = some t → s.now ≤ t
  | _, _ => True

/-- The approvals before every step that was ever claimed were given in time. -/
def ClaimsOnTime (s : Sys) : Prop :=
  ∀ r ∈ s.db.steps, 0 < r.attemptCount → ∀ p ∈ s.db.steps, Precedes p r →
    ∀ a ∈ s.db.approvals, a.executionStepID = p.id → a.status = .approved → DecidedInTime a

theorem Punctual.approvesInTime (h : Punctual s) (hi : s.Inv) (op : Op) :
    ApprovesInTime env op s := by
  unfold ApprovesInTime
  split
  · intro hok a ha hid t ht
    obtain ⟨b, es, hb⟩ := (decide_succeeds_iff hi.consistent.owner).mp hok
    obtain ⟨hmem, hbid, -, -⟩ := approvalWithStep_some hb.found
    obtain rfl := hi.consistent.approvals.eq_of_key hmem ha (hbid.trans hid.symm)
    exact h.pending b hmem hb.pending t ht
  · trivial

/-- **Approvals are given in time.**  From an empty store, in every run in which
the clock never passes the expiry of an approval that is still pending and no
approval is requested with a past expiry: every approval that is given is given
by its expiry, and in every state no step was claimed on an approval given
later. -/
theorem approvals_in_time (hs : s.Init) (ops : List Op)
    (hops : Along (Sys.perform env) (fun op s => ¬ Overruns op s) ops s) :
    Along (Sys.perform env) (ApprovesInTime env) ops s
      ∧ Throughout (Sys.perform env) ClaimsOnTime ops s := by
  have hstep : ∀ op s, (s.Inv ∧ Punctual s) → ¬ Overruns op s →
      (Sys.perform env op s).Inv ∧ Punctual (Sys.perform env op s) := fun op s h hop =>
    ⟨inv_perform env h.1 op, punctual_perform h.1 h.2 op hop⟩
  have hempty : Punctual s := by
    refine ⟨fun a ha => ?_, fun a ha => ?_⟩ <;>
    · rw [hs.2.2.1] at ha
      cases ha
  have hinit : s.Inv ∧ Punctual s := ⟨inv_init hs, hempty⟩
  constructor
  · exact Along.along hstep (fun op s h _ => h.2.approvesInTime h.1 op) ops hinit hops
  · refine Throughout.imp ?_ ops (Along.throughout hstep ops hinit hops)
    exact fun s h r _ _ p _ _ a ha _ => h.2.approved a ha

def promptRun : List Op :=
  [starting ["s1", "s2"], claiming, .openApproval 0 "ap" "restart?" (some 10), .tick 5,
    .decide "t" "ap" .approved "op" "" "" "", claiming]

/-- The next step is claimed on an approval given in time. -/
theorem approvals_in_time_prompt :
    ClaimsOnTime (run (Sys.perform gatedEnv) promptRun oneRunbook) := by
  have hlater : (run (Sys.perform gatedEnv) (promptRun.take 3)
      oneRunbook).db.approvals.all (fun a => a.expiresAt.all fun t => decide ((5 : ℤ) ≤ t))
      = true := by decide +kernel
  suffices hrun :
      Throughout (Sys.perform gatedEnv) ClaimsOnTime promptRun oneRunbook from
    throughout_iff.mp hrun promptRun List.prefix_rfl
  refine (approvals_in_time ⟨rfl, rfl, rfl, rfl⟩ promptRun ⟨id, id, ?_, ?_, id, id, trivial⟩).2
  · rintro ⟨t, ht, hlt⟩
    obtain rfl := Option.some.inj ht
    exact absurd hlt (by decide +kernel)
  rintro ⟨a, ha, -, t, ht, hlt⟩
  have ht5 := List.all_eq_true.mp hlater a ha
  rw [ht] at ht5
  exact absurd hlt (not_lt.mpr (of_decide_eq_true ht5))

def overdueRun : List Op :=
  [starting ["s1", "s2"], claiming, .openApproval 0 "ap" "restart?" (some 10), .tick 20]

def overdueState : Sys :=
  run (Sys.perform gatedEnv) overdueRun oneRunbook

/-- **An approval given after its expiry.**  Ten nanoseconds late, the decision is
accepted and the next step is claimed on it. -/
theorem approved_after_expiry :
    Sys.Reachable gatedEnv overdueState
      ∧ ¬ ApprovesInTime gatedEnv (.decide "t" "ap" .approved "op" "" "" "") overdueState
      ∧ ¬ ClaimsOnTime (run (Sys.perform gatedEnv)
        [.decide "t" "ap" .approved "op" "" "" "", claiming]
        overdueState) := by
  have happr : (overdueState.db.approvals.map fun a => (a.id, a.expiresAt))
      = [("ap", some 10)] := by
    decide +kernel
  refine ⟨⟨oneRunbook, overdueRun, ⟨rfl, rfl, rfl, rfl⟩, rfl⟩, fun h => ?_, fun h => ?_⟩
  · obtain ⟨a, ha, harow⟩ := exists_row happr List.mem_cons_self
    obtain ⟨haid, haexp⟩ := Prod.mk.inj harow
    exact absurd (h (by decide +kernel) a ha haid 10 haexp) (by decide +kernel)
  set later := run (Sys.perform gatedEnv)
    [.decide "t" "ap" .approved "op" "" "" "", claiming] overdueState
  have hdecided : (later.db.approvals.map fun a =>
      (a.executionStepID, a.status, a.expiresAt, a.decidedAt))
      = [("s1", .approved, some 10, some 20)] := by decide +kernel
  have hsteps : (later.db.steps.map fun r =>
      (r.id, r.executionID, r.isRollback, r.position, r.attemptCount))
      = [("s1", "e", false, 0, 1), ("s2", "e", false, 1, 1)] := by decide +kernel
  obtain ⟨a, ha, harow⟩ := exists_row hdecided List.mem_cons_self
  obtain ⟨p, hp, hprow⟩ := exists_row hsteps List.mem_cons_self
  obtain ⟨r, hr, hrrow⟩ := exists_row hsteps (List.mem_cons_of_mem _ List.mem_cons_self)
  simp only [Prod.mk.injEq] at harow hprow hrrow
  obtain ⟨haid, hast, haexp, hadec⟩ := harow
  obtain ⟨hpid, hpe, hpf, hpp, -⟩ := hprow
  obtain ⟨-, hre, hrf, hrp, hra⟩ := hrrow
  obtain ⟨d, hd, hle⟩ := h r hr (by omega) p hp
    ⟨hpe.trans hre.symm, hpf.trans hrf.symm, by omega⟩ a ha (haid.trans hpid.symm) hast 10 haexp
  obtain rfl := Option.some.inj (hadec.symm.trans hd)
  exact absurd hle (by decide)

end StormRelay
