/-
What sets an execution going again.

A step is claimed only while its execution is running or rolling back, and the
status of an execution is written by almost every operation.  This module reads
off the relation `Turn` which operations give an execution one of these statuses,
and turns facts about single executions into facts about runs.

* `Consistent.sibling` — **an execution has at most one open forward step**.
-/
import StormRelay.Cancel
import StormRelay.Turn

namespace StormRelay

open Tx Table

/-! ### The operations that set an execution going -/

/-- A recovery that ends, for the execution `id`, with a step it schedules again:
the last of its expired steps that the query returns. -/
def Recovers (id : String) : Op → Sys → Prop
  | .recover locked order _, s =>
    ∃ last, (s.expiredOf locked order id).getLast? = some last ∧ recoverable last = true
  | _, _ => False

/-- An approval of a step of the execution `id`. -/
def Approves (id : String) : Op → Sys → Prop
  | .decide tenantID approvalID .approved _ reason _ _, s =>
    ∃ a es, AwaitsDecision s.db tenantID approvalID .approved reason a es ∧ es.executionID = id
  | _, _ => False

/-- A retry of a step of the execution `id`. -/
def Retries (id : String) : Op → Sys → Prop
  | .retry tenantID executionID stepID _ _ _ force, s =>
    executionID = id
      ∧ ∃ es, ownedStep tenantID id stepID s.db = some es ∧ retryAllowed force es = true
  | _, _ => False

/-- A resume of the execution `id`. -/
def Resumes (id : String) : Op → Sys → Prop
  | .changeState tenantID executionID .resume _ _ _, s =>
    executionID = id ∧ ∃ e, ownedExecution tenantID id s.db = some e ∧ e.status = .paused
  | _, _ => False

/-- A rollback of the execution `id`: it has come to an end, and has no rollback
steps yet. -/
def StartsRollback (id : String) : Op → Sys → Prop
  | .rollback _ tenantID executionID _ _ _, s =>
    executionID = id ∧ ∃ e, ownedExecution tenantID id s.db = some e
      ∧ (e.status = .completed ∨ e.status = .failed ∨ e.status = .ambiguous)
      ∧ ∀ r ∈ s.db.own id, r.isRollback = false
  | _, _ => False

theorem Approves.inv {id : String} {op : Op} {s : Sys} (h : Approves id op s) :
    ∃ tenantID approvalID actor reason requestID traceID a es,
      op = .decide tenantID approvalID .approved actor reason requestID traceID
        ∧ AwaitsDecision s.db tenantID approvalID .approved reason a es ∧ es.executionID = id := by
  cases op with
  | decide tenantID approvalID decision actor reason requestID traceID =>
    cases decision with
    | approved =>
      obtain ⟨a, es, h⟩ := h
      exact ⟨_, _, _, _, _, _, a, es, rfl, h⟩
    | _ => cases h
  | _ => cases h

/-- A resumed execution was paused. -/
theorem Resumes.paused {id : String} {op : Op} {s : Sys} {v : View} (h : Resumes id op s)
    (hc : Consistent s.db) (hv : s.db.view id = some v) : v.status = .paused := by
  cases op with
  | changeState tenantID executionID action actor requestID traceID =>
    cases action with
    | resume =>
      obtain ⟨-, e, he, hst⟩ := h
      obtain rfl := Option.some.inj (hv.symm.trans (view_of_owned hc he))
      exact hst
    | _ => cases h
  | _ => cases h

theorem View.status_of_settle {v : View} {t : List ExecutionStep} {status : ExecutionStatus}
    (h : (View.settle { v with steps := t }).status = status) (hc : status ≠ .completed)
    (hr : status ≠ .rolledBack) : v.status = status := by
  rw [View.settle_status] at h
  split at h
  · exact absurd h.symm hc
  · split at h
    · exact absurd h.symm hr
    · exact h

section Status

variable {s : Sys} {id : String} {op : Op} {v v' : View}

/-- **Every way for an execution to be running.** -/
theorem Turn.running (h : Turn s id op v v') (hv : s.db.view id = some v)
    (hrun : v'.status = .running) :
    v.status = .running ∨ Recovers id op s ∨ Approves id op s ∨ Retries id op s
      ∨ Resumes id op s := by
  cases h with
  | idle | claim hp | wait hn | retryLater hn => exact .inl hrun
  | recover hlast =>
    rename_i last
    have hrec : recoverable last = true := by
      rw [← Bool.not_eq_false]
      intro hno
      simp only [hno, Bool.false_eq_true, if_false] at hrun
      cases hrun
    exact .inr (.inl ⟨_, hlast, hrec⟩)
  | wake hr hdue | complete hn hr hid hin => exact .inl (View.status_of_settle hrun nofun nofun)
  | resume he heq hs => exact .inr (.inr (.inr (.inr ⟨rfl, _, he, heq.symm.trans hs⟩)))
  | approve h hes => exact .inr (.inr (.inl ⟨_, _, h, ((mem_view hv).mp hes).2⟩))
  | retry hes hok => exact .inr (.inr (.inr (.inl ⟨rfl, _, hes, hok⟩)))
  | _ => cases hrun

theorem Turn.paused (h : Turn s id op v v') (hp : v'.status = .paused) :
    v.status = .paused ∨ v.status = .running := by
  cases h with
  | idle | claim hp' | wait hn | retryLater hn => exact .inl hp
  | recover hlast =>
    simp only at hp
    split at hp <;> cases hp
  | wake hr hdue | complete hn hr hid hin => exact .inl (View.status_of_settle hp nofun nofun)
  | pause he heq hs => exact .inr hs
  | approve h hes => cases View.status_of_settle (v := { v with status := .running }) hp nofun nofun
  | _ => cases hp

theorem Turn.rollingBack (h : Turn s id op v v') (hv : s.db.view id = some v)
    (hrb : v'.status = .rollingBack) : v.status = .rollingBack ∨ StartsRollback id op s := by
  cases h with
  | idle | claim hp | wait hn | retryLater hn => exact .inl hrb
  | recover hlast =>
    simp only at hrb
    split at hrb <;> cases hrb
  | wake hr hdue | complete hn hr hid hin => exact .inl (View.status_of_settle hrb nofun nofun)
  | approve h hes =>
    cases View.status_of_settle (v := { v with status := .running }) hrb nofun nofun
  | rollback he heq hs hnone hrows hne =>
    refine .inr ⟨rfl, _, he, heq ▸ hs, fun r hr => hnone r ?_⟩
    rwa [view_steps hv]
  | _ => cases hrb

theorem Turn.requested (h : Turn s id op v v') (hr : v.cancelRequested = true) :
    v'.cancelRequested = true := by
  cases h with
  | wake hr' hdue | complete hn hr' hid hin | approve h hes => rwa [View.settle_cancelRequested]
  | cancel he heq hs => rfl
  | _ => exact hr

end Status

/-! ### An operation seen from one execution -/

/-- Operation `op` takes the execution `id` from `v` to `v'`: the turn it makes,
and where the rows come from and go to. -/
structure Moves (env : Env) (s : Sys) (id : String) (op : Op) (v v' : View) : Prop where
  before : s.db.view id = some v
  after : (Sys.perform env op s).db.view id = some v'
  turn : Turn s id op v v'
  prev : ∀ r' ∈ v'.steps, (∃ r ∈ v.steps, r' = r ∨ StepChange s op r r')
    ∨ NewRow s op r' ∧ r'.isRollback = true
  next : ∀ r ∈ v.steps, ∃ r' ∈ v'.steps, r' = r ∨ StepChange s op r r'

section Moves

variable {env : Env} {s : Sys} {id : String} {op : Op} {v v' : View} {r r' : ExecutionStep}

theorem StepChange.executionID (h : StepChange s op r r') : r'.executionID = r.executionID :=
  column_of_definition ExecutionStep.executionID (fun _ => rfl) h.definition

theorem StepChange.isRollback (h : StepChange s op r r') : r'.isRollback = r.isRollback :=
  column_of_definition ExecutionStep.isRollback (fun _ => rfl) h.definition

theorem moves_perform (env : Env) (hi : s.Inv) (hv : s.db.view id = some v) (op : Op) :
    ∃ v', Moves env s id op v v' := by
  obtain ⟨v', hv', hturn⟩ := turn_perform env hi hv op
  have hrows := (effect_perform env hi op).rows
  refine ⟨v', hv, hv', hturn, fun r' hr' => ?_, fun r hr => ?_⟩
  · obtain ⟨hmem, hown⟩ := (mem_view hv').mp hr'
    rcases hrows.prev hmem with ⟨r, hr, hch⟩ | hnew
    · have hexec : r'.executionID = r.executionID :=
        hch.elim (fun he => by rw [he]) StepChange.executionID
      exact .inl ⟨r, (mem_view hv).mpr ⟨hr, hexec.symm.trans hown⟩, hch⟩
    refine .inr ⟨hnew, ?_⟩
    cases hnew with
    | forward hfresh _ _ =>
      -- A forward row belongs to an execution that was not stored.
      obtain ⟨e, -, he, hid, -⟩ := view_some hv
      exact absurd (hid.trans hown.symm) (hfresh e he)
    | rollback => rfl
  obtain ⟨hmem, hown⟩ := (mem_view hv).mp hr
  obtain ⟨r', hr', hch⟩ := hrows.next hmem
  have hexec : r'.executionID = r.executionID :=
    hch.elim (fun he => by rw [he]) StepChange.executionID
  exact ⟨r', (mem_view hv').mpr ⟨hr', hexec.trans hown⟩, hch⟩

def View.ForwardFinished (v : View) : Prop :=
  ∀ r ∈ v.steps, r.isRollback = false → r.status.finished = true

theorem Moves.forwardFinished (h : Moves env s id op v v') (hi : s.Inv)
    (hfin : v.ForwardFinished) : v'.ForwardFinished := by
  intro r' hr' hfwd
  rcases h.prev r' hr' with ⟨r, hr, rfl | hch⟩ | ⟨-, hrb⟩
  · exact hfin r' hr hfwd
  · have hun := hch.unfinished hi.consistent ((mem_view h.before).mp hr).1
    rw [hfin r hr (hch.isRollback.symm.trans hfwd)] at hun
    cases hun
  · rw [hfwd] at hrb
    cases hrb

theorem claimed_view (hi : s.Inv) {c : ClaimedStep} (hc : c ∈ claimedBy op s) :
    ∃ v, s.db.view c.step.executionID = some v ∧ ∃ r ∈ v.steps, v.Claimable s.now r
      ∧ c.step.id = r.id ∧ c.step.isRollback = r.isRollback := by
  cases op with
  | claim locked workerID limit lease lost =>
    obtain ⟨r, hr, e, hin, he, rfl⟩ := mem_claims hc
    obtain ⟨e', he', hcl⟩ := claimable_of_candidate hi.consistent hr hin
    have hv : s.db.view r.executionID
        = some ⟨e'.status, e'.cancelRequestedAt.isSome, s.db.own r.executionID⟩ := by
      rw [DB.view, he']
      rfl
    have hmem := (mem_view hv).mpr ⟨hr, rfl⟩
    exact ⟨_, hv, r, hmem, claimable_view hv hmem he' hcl, rfl, rfl⟩
  | _ => cases hc

end Moves

/-! ### One open step -/

theorem stepsConflict_symm (y z : ExecutionStep) :
    DB.stepsConflict y z = DB.stepsConflict z y := by
  rw [Bool.eq_iff_iff]
  simp only [DB.stepsConflict, Bool.or_eq_true, Bool.and_eq_true, decide_eq_true_eq,
    Bool.not_eq_true']
  grind

/-- **An execution has at most one open forward step**: beside a started and
unfinished forward step, the other forward steps are finished or were never
started. -/
theorem Consistent.sibling {db : DB} (hc : Consistent db) {r q : ExecutionStep}
    (hr : r ∈ db.steps) (hpos : 0 < r.attemptCount) (hopen : r.status.finished = false)
    (hfwd : r.isRollback = false) (hq : q ∈ db.steps) (hexec : q.executionID = r.executionID)
    (hphase : q.isRollback = false) :
    q = r ∨ q.status.finished = true ∨ q.status.resting := by
  rcases lt_trichotomy q.position r.position with hlt | heq | hgt
  · exact .inr (.inl (hc.ordered r hr hpos q hq ⟨hexec, hphase.trans hfwd.symm, hlt⟩))
  · -- The index on forward positions allows one row.
    by_contra hne
    have hne' : q ≠ r := fun he => hne (.inl he)
    have hfree : DB.stepsConflict q r = false := by
      refine List.Pairwise.forall_of_forall_of_flip
        (R := fun y z => y ≠ z → DB.stepsConflict y z = false) (fun y _ hyy => absurd rfl hyy)
        ?_ ?_ hq hr hne'
      · exact hc.steps.imp (S := fun y z => y ≠ z → DB.stepsConflict y z = false) fun h _ => h
      · exact hc.steps.imp (S := flip fun y z => y ≠ z → DB.stepsConflict y z = false)
          fun h _ => (stepsConflict_symm _ _).trans h
    simp [DB.stepsConflict, hexec, heq, hphase, hfwd] at hfree
  · refine .inr (.inr (hc.started q hq (Nat.eq_zero_of_not_pos fun hstarted => ?_)))
    rw [hc.ordered q hq hstarted r hr ⟨hexec.symm, hfwd.trans hphase.symm, hgt⟩] at hopen
    cases hopen

/-! ### All executions at once -/

/-- `I` holds of every stored execution. -/
def EveryView (I : View → Prop) (s : Sys) : Prop :=
  ∀ id v, s.db.view id = some v → I v

section Every

variable {env : Env} {s : Sys} {op : Op} {I : View → Prop}

theorem EveryView.init (h : s.Init) : EveryView I s := by
  intro id v hv
  obtain ⟨e, -, he, -⟩ := view_some hv
  rw [h.1] at he
  cases he

/-- **The invariant rule**: what a new execution satisfies and every turn keeps,
every operation keeps for all executions. -/
theorem EveryView.perform (hi : s.Inv) (h : EveryView I s) (hborn : ∀ v : View, v.Born → I v)
    (hstep : ∀ id v v', I v → Moves env s id op v v' → I v') :
    EveryView I (Sys.perform env op s) := by
  intro id v' hv'
  rcases hv : s.db.view id with _ | v
  · exact hborn v' (view_born hi hv hv')
  · obtain ⟨w, hmoves⟩ := moves_perform env hi hv op
    obtain rfl : w = v' := Option.some.inj (hmoves.after.symm.trans hv')
    exact hstep id v w (h id v hv) hmoves

end Every

/-! ### Statuses that tell the phase -/

/-- What the status of a step says: only forward steps are `running` or
`waiting`, only rollback steps are `rolling_back`, and only a cancel request
cancels. -/
structure View.Orderly (v : View) : Prop where
  forward : ∀ r ∈ v.steps, r.status = .running ∨ r.status = .waiting → r.isRollback = false
  rollback : ∀ r ∈ v.steps, r.status = .rollingBack → r.isRollback = true
  canceled : ∀ r ∈ v.steps, r.status = .canceled → v.cancelRequested = true

section Orderly

variable {env : Env} {s : Sys} {id : String} {op : Op} {v v' : View} {r r' : ExecutionStep}

theorem StepChange.phase (h : StepChange s op r r')
    (hf : r.status = .running ∨ r.status = .waiting → r.isRollback = false) :
    (r'.status = .running ∨ r'.status = .waiting → r'.isRollback = false)
      ∧ (r'.status = .rollingBack → r'.isRollback = true) := by
  cases h with
  | claim he hcl =>
    simp only [claimRow]
    rcases hrb : r.isRollback with _ | _ <;> simp
  | recover hexp =>
    simp only [recoverRow]
    split <;> simp
  | wait hn hl hs => exact ⟨fun _ => hf (.inl hs), (fun h => by cases h)⟩
  | complete hn hl =>
    have hfin := completionStatus_finished ‹StepStatus›
    simp only [completeRow]
    constructor
    · rintro (h | h) <;> rw [h] at hfin <;> cases hfin
    · intro h
      rw [h] at hfin
      cases hfin
  | decide ha hid hp hr hd =>
    simp only [decidedRow]
    split <;> simp
  | _ =>
    constructor
    · rintro (h | h) <;> cases h
    · intro h
      cases h

theorem StepChange.canceled (h : StepChange s op r r') (hs : r'.status = .canceled) :
    ∃ tenantID actor requestID traceID,
      op = .changeState tenantID r.executionID .cancel actor requestID traceID := by
  cases h with
  | claim he hcl =>
    simp only [claimRow] at hs
    split at hs <;> cases hs
  | recover hexp =>
    simp only [recoverRow] at hs
    split at hs <;> cases hs
  | complete hn hl =>
    have hfin := completionStatus_finished ‹StepStatus›
    simp only [completeRow] at hs
    rw [hs] at hfin
    cases hfin
  | cancel hr hcan => exact ⟨_, _, _, _, by rw [hr]⟩
  | decide ha hid hp hr hd =>
    simp only [decidedRow] at hs
    split at hs <;> cases hs
  | _ => cases hs

theorem View.Born.orderly (h : v.Born) : v.Orderly := by
  refine ⟨fun r hr _ => (h.fresh r hr).1, fun r hr hs => ?_, fun r hr hs => ?_⟩
  · rw [(h.fresh r hr).2.1] at hs
    cases hs
  · rw [(h.fresh r hr).2.1] at hs
    cases hs

theorem Moves.orderly (h : Moves env s id op v v') (ho : v.Orderly) : v'.Orderly := by
  refine ⟨fun r' hr' hs => ?_, fun r' hr' hs => ?_, fun r' hr' hs => ?_⟩
  · rcases h.prev r' hr' with ⟨r, hr, rfl | hch⟩ | ⟨hnew, -⟩
    · exact ho.forward r' hr hs
    · exact (hch.phase (ho.forward r hr)).1 hs
    · rw [hnew.status] at hs
      rcases hs with hs | hs <;> cases hs
  · rcases h.prev r' hr' with ⟨r, hr, rfl | hch⟩ | ⟨hnew, -⟩
    · exact ho.rollback r' hr hs
    · exact (hch.phase (ho.forward r hr)).2 hs
    · rw [hnew.status] at hs
      cases hs
  rcases h.prev r' hr' with ⟨r, hr, rfl | hch⟩ | ⟨hnew, -⟩
  · exact h.turn.requested (ho.canceled r' hr hs)
  · obtain ⟨tenantID, actor, requestID, traceID, rfl⟩ := hch.canceled hs
    obtain ⟨-, hown⟩ := (mem_view h.before).mp hr
    have hturn := h.turn
    rw [hown] at hturn
    cases hturn with
    | idle => exact ho.canceled r' hr' hs
    | cancel he heq hs => rfl
  · rw [hnew.status] at hs
    cases hs

theorem orderly_perform (hi : s.Inv) (h : EveryView View.Orderly s) :
    EveryView View.Orderly (Sys.perform env op s) :=
  h.perform hi (fun _ hb => hb.orderly) fun _ _ _ ho hm => hm.orderly ho

/-- **Every execution of a reachable state is orderly.** -/
theorem orderly_of_reachable (hs : Sys.Reachable env s) : EveryView View.Orderly s := by
  have h : s.Inv ∧ EveryView View.Orderly s :=
    Transition.Reachable.invariant (I := fun s => s.Inv ∧ EveryView View.Orderly s)
      (fun s hinit => ⟨inv_init hinit, .init hinit⟩)
      (fun op s h => ⟨inv_perform env h.1 op, orderly_perform h.1 h.2⟩) hs
  exact h.2

end Orderly

end StormRelay
