/-
When an execution is finished.

`finalizeExecutionIfDone` runs when a step finishes, looks at the status of the
execution at that moment, and counts the steps of both phases; a canceled step
counts as done.  What it promises therefore depends on what set the execution
running.

* `running_has_work` — **a running execution has work left, in every run without
  a resume after the last step and without a restart of a rolled back
  execution**;
* `completed_means_completed` — **the forward steps of a completed execution are
  completed or skipped, in every run that restarts no execution with canceled
  steps**;
* `rollback_finishes` — **a rollback of an execution without open forward steps
  ends in `rolled_back`**.
-/
import StormRelay.Scheduling

namespace StormRelay

open Tx Table Transition

variable {env : Env} {s : Sys} {id : String} {op : Op} {v v' : View}

/-! ### Work left -/

def StepStatus.workable : StepStatus → Bool
  | .pending | .retrying | .running | .waiting => true
  | _ => false

/-- A running execution that nobody canceled has a forward step to do. -/
def View.HasWork (v : View) : Prop :=
  v.status = .running → v.cancelRequested = false →
    ∃ r ∈ v.steps, r.isRollback = false ∧ r.status.workable = true

/-- A resume of an execution whose forward steps are all finished. -/
def ResumesFinished (id : String) (op : Op) (s : Sys) : Prop :=
  Resumes id op s ∧ ∀ r ∈ s.db.own id, r.isRollback = false → r.status.finished = true

/-- A recovery, approval or retry that sets an execution with rollback steps
running. -/
def RestartsRollback (id : String) (op : Op) (s : Sys) : Prop :=
  (Recovers id op s ∨ Approves id op s ∨ Retries id op s)
    ∧ ∃ r ∈ s.db.own id, r.isRollback = true

/-- The invariant behind `HasWork`: a running or paused execution has forward
steps only, each active or finished, and a running one is not through. -/
structure View.Live (v : View) : Prop where
  orderly : v.Orderly
  working : v.status = .running ∨ v.status = .paused → v.cancelRequested = false →
    ∀ r ∈ v.steps, r.isRollback = false ∧ (r.status.workable = true ∨ r.status.finished = true)
  ongoing : v.status = .running → v.cancelRequested = false → ¬ v.AllSettled

theorem StepStatus.settled_of_finished {status : StepStatus} (h : status.finished = true) :
    status.settled = true := by
  cases status <;> first | rfl | cases h

theorem StepStatus.finished_of_settled {status : StepStatus} (h : status.settled = true)
    (hc : status ≠ .canceled) : status.finished = true := by
  cases status <;> first | rfl | exact absurd rfl hc | cases h

theorem View.Live.hasWork (h : v.Live) : v.HasWork := by
  intro hrun hcancel
  obtain ⟨r, hr, hopen⟩ : ∃ r ∈ v.steps, r.status.settled ≠ true := by
    by_contra hno
    refine h.ongoing hrun hcancel fun r hr => ?_
    by_contra hopen
    exact hno ⟨r, hr, hopen⟩
  obtain ⟨hfwd, hact | hfin⟩ := h.working (.inl hrun) hcancel r hr
  · exact ⟨r, hr, hfwd, hact⟩
  · exact absurd (StepStatus.settled_of_finished hfin) hopen

theorem View.Born.live (h : v.Born) : v.Live := by
  refine ⟨h.orderly, fun _ _ r hr => ?_, fun _ _ hall => ?_⟩
  · obtain ⟨hfwd, hst, -⟩ := h.fresh r hr
    exact ⟨hfwd, .inl (by rw [hst]; rfl)⟩
  obtain ⟨r, hr⟩ := List.exists_mem_of_ne_nil _ h.nonempty
  have hset := hall r hr
  rw [(h.fresh r hr).2.1] at hset
  cases hset

theorem allSettled_of_update {p : ExecutionStep → Bool} {f : ExecutionStep → ExecutionStep}
    {t : List ExecutionStep} (hf : ∀ r ∈ t, p r = true → (f r).status.settled = false)
    (h : ∀ r ∈ update p f t, r.status.settled = true) : ∀ r ∈ t, r.status.settled = true := by
  intro r hr
  by_cases hp : p r = true
  · have hset := h _ (mem_update_pos hr hp)
    rw [hf r hr hp] at hset
    cases hset
  · exact h _ (mem_update_neg hr (by simpa using hp))

theorem View.settle_ongoing (h : v.settle.status = .running) : ¬ v.settle.AllSettled := by
  intro hall
  have hset : v.AllSettled := by simpa [View.AllSettled] using hall
  rw [View.settle_status] at h
  by_cases hrun : v.status = .running
  · rw [if_pos ⟨hrun, hset⟩] at h
    cases h
  rw [if_neg fun hc => hrun hc.1] at h
  split at h
  · cases h
  · exact hrun h

theorem View.Orderly.beside (ho : v.Orderly) (hc : Consistent s.db) (hv : s.db.view id = some v)
    (hcancel : v.cancelRequested = false) (hnone : ∀ r ∈ v.steps, r.isRollback = false)
    {q r : ExecutionStep} (hq : q ∈ v.steps) (hpos : 0 < q.attemptCount)
    (hopen : q.status.finished = false) (hr : r ∈ v.steps) :
    r = q ∨ r.status = .pending ∨ r.status.finished = true := by
  obtain ⟨hqmem, hqown⟩ := (mem_view hv).mp hq
  obtain ⟨hrmem, hrown⟩ := (mem_view hv).mp hr
  rcases hc.sibling hqmem hpos hopen (hnone q hq) hrmem (hrown.trans hqown.symm) (hnone r hr) with
    h | h | h | h
  · exact .inl h
  · exact .inr (.inr h)
  · exact .inr (.inl h)
  · rw [ho.canceled r hr h] at hcancel
    cases hcancel

theorem AwaitsDecision.started (hc : Consistent s.db) {tenantID approvalID reason : String}
    {decision : Decision} {a : Approval} {es : ExecutionStep}
    (h : AwaitsDecision s.db tenantID approvalID decision reason a es) :
    es ∈ s.db.steps ∧ 0 < es.attemptCount
      ∧ (es.status = .waitingApproval ∨ es.status = .canceled) := by
  obtain ⟨ha, -, hes, hid⟩ := approvalWithStep_some h.found
  exact ⟨hes, hc.of_pending hes ha h.pending hid⟩

theorem retryAllowed_started (hc : Consistent s.db) {force : Bool} {es : ExecutionStep}
    (hes : es ∈ s.db.steps) (h : retryAllowed force es = true) :
    0 < es.attemptCount ∧ es.status.finished = false := by
  have hst : es.status = .failed ∨ es.status = .ambiguous := by
    simp only [retryAllowed, Bool.or_eq_true, Bool.and_eq_true, decide_eq_true_eq] at h
    exact h.imp_right fun h => h.1
  refine ⟨Nat.pos_of_ne_zero fun hzero => ?_, by rcases hst with h | h <;> rw [h] <;> rfl⟩
  rcases hc.started es hes hzero with h | h <;> rw [h] at hst <;> rcases hst with h | h <;> cases h

theorem expired_last (hv : s.db.view id = some v) {locked order : List String}
    {last : ExecutionStep} (h : (s.expiredOf locked order id).getLast? = some last) :
    last ∈ v.steps ∧ leaseExpired s.db s.now locked last = true ∧ last.status.inFlight = true := by
  obtain ⟨hmem, hexp⟩ := (mem_expiredOf hv).mp (List.mem_of_getLast? h)
  exact ⟨hmem, hexp, inFlight_of_leaseExpired hexp⟩

def GoesOn (r : ExecutionStep) : Prop :=
  r.isRollback = false ∧ (r.status.workable = true ∨ r.status.finished = true)

theorem goesOn_update {p : ExecutionStep → Bool} {f : ExecutionStep → ExecutionStep}
    {t : List ExecutionStep} (hf : ∀ r ∈ t, p r = true → GoesOn (f r))
    (hrest : ∀ r ∈ t, p r = false → GoesOn r) : ∀ r ∈ update p f t, GoesOn r := by
  intro r' hr'
  rcases mem_update_cases hr' with ⟨r, hr, hp, rfl⟩ | ⟨hr, hp⟩
  · exact hf r hr hp
  · exact hrest r' hr hp

theorem Moves.goesOn (hm : Moves env s id op v v') (hi : s.Inv) (hl : v.Live)
    (hop : ¬ RestartsRollback id op s) (hst : v'.status = .running ∨ v'.status = .paused)
    (hcancel : v'.cancelRequested = false) : ∀ r ∈ v'.steps, GoesOn r := by
  have hc := hi.consistent
  have hv := hm.before
  have hcancel₀ : v.cancelRequested = false := by
    rw [← Bool.not_eq_true] at hcancel ⊢
    exact fun h => hcancel (hm.turn.requested h)
  -- An operation that restarts the execution finds no rollback step …
  have hforward : Recovers id op s ∨ Approves id op s ∨ Retries id op s →
      ∀ r ∈ v.steps, r.isRollback = false := by
    intro h r hr
    rw [← Bool.not_eq_true]
    exact fun hrb => hop ⟨h, r, view_steps hv ▸ hr, hrb⟩
  -- … and beside the step it names, steps that are finished or to come.
  have hrest : ∀ {q r : ExecutionStep}, (∀ r ∈ v.steps, r.isRollback = false) → q ∈ v.steps →
      0 < q.attemptCount → q.status.finished = false → r ∈ v.steps → r ≠ q → GoesOn r := by
    intro q r hfwd hq hpos hopen hr hne
    rcases hl.orderly.beside hc hv hcancel₀ hfwd hq hpos hopen hr with h | h | h
    · exact absurd h hne
    · exact ⟨hfwd r hr, .inl (by rw [h]; rfl)⟩
    · exact ⟨hfwd r hr, .inr h⟩
  -- Finalisation does not set an execution running or paused.
  have hsettled : ∀ {t : List ExecutionStep},
      ((View.settle { v with steps := t }).status = .running
        ∨ (View.settle { v with steps := t }).status = .paused) →
      v.status = .running ∨ v.status = .paused :=
    fun h => h.imp (fun h => View.status_of_settle h nofun nofun)
      fun h => View.status_of_settle h nofun nofun
  have hwork := fun hst => hl.working hst hcancel₀
  have hturn := hm.turn
  cases hturn with
  | idle => exact hwork hst
  | claim hp =>
    refine goesOn_update (fun r hr _ => ?_) fun r hr _ => hwork hst r hr
    have hfwd := (hwork hst r hr).1
    exact ⟨hfwd, .inl (by simp [claimRow, hfwd, StepStatus.workable])⟩
  | recover hlast =>
    rename_i locked order actor last
    obtain ⟨hmem, hexp, hin⟩ := expired_last hv hlast
    have hrec : recoverable last = true := by
      rw [← Bool.not_eq_false]
      intro hno
      simp [hno] at hst
    have hfwd := hforward (.inl ⟨last, hlast, hrec⟩)
    have hpos := hc.attempts_of_inFlight ((mem_view hv).mp hmem).1 hin
    have hopen := StepStatus.not_finished_of_inFlight hin
    refine goesOn_update (fun r hr hp => ⟨hfwd r hr, .inl ?_⟩) fun r hr hp => ?_
    · -- The only step in flight is the last one.
      have hrin : r.status.inFlight = true := inFlight_of_leaseExpired hp
      rcases hl.orderly.beside hc hv hcancel₀ hfwd hmem hpos hopen hr with rfl | h | h
      · simp [recoverRow, hrec, StepStatus.workable]
      · rw [h] at hrin
        cases hrin
      · rw [StepStatus.not_finished_of_inFlight hrin] at h
        cases h
    refine hrest hfwd hmem hpos hopen hr ?_
    rintro rfl
    rw [hexp] at hp
    cases hp
  | wake hr hdue =>
    rw [View.settle_steps]
    have hgo := hwork (hsettled hst)
    exact goesOn_update (fun r hr _ => ⟨(hgo r hr).1, .inr rfl⟩) fun r hr _ => hgo r hr
  | wait hn | retryLater hn =>
    have hgo := hwork hst
    exact goesOn_update (fun r hr _ => ⟨(hgo r hr).1, .inl rfl⟩) fun r hr _ => hgo r hr
  | complete hn hr hid hin =>
    rw [View.settle_steps]
    have hgo := hwork (hsettled hst)
    exact goesOn_update (fun r hr _ => ⟨(hgo r hr).1, .inr (completionStatus_finished _)⟩)
      fun r hr _ => hgo r hr
  | pause he heq hs => exact hwork (.inl hs)
  | resume he heq hs => exact hwork (.inr hs)
  | approve h hes =>
    rename_i es
    rw [View.settle_steps]
    have hfwd := hforward (.inr (.inl ⟨_, _, h, ((mem_view hv).mp hes).2⟩))
    obtain ⟨hmem, hpos, hstatus⟩ := h.started hc
    have hopen : es.status.finished = false := by rcases hstatus with h | h <;> rw [h] <;> rfl
    refine goesOn_update (fun r hr _ => ⟨hfwd r hr, .inr rfl⟩) fun r hr hp => ?_
    refine hrest hfwd hes hpos hopen hr ?_
    rintro rfl
    simp at hp
  | retry hes hok =>
    rename_i es
    have hfwd := hforward (.inr (.inr ⟨rfl, _, hes, hok⟩))
    obtain ⟨hmem, hid, hown⟩ := ownedStep_some hes
    obtain ⟨hpos, hopen⟩ := retryAllowed_started hc hmem hok
    refine goesOn_update (fun r hr _ => ⟨hfwd r hr, .inl rfl⟩) fun r hr hp => ?_
    refine hrest hfwd ((mem_view hv).mpr ⟨hmem, hown⟩) hpos hopen hr ?_
    rintro rfl
    simp [hid] at hp
  | _ => rcases hst with h | h <;> cases h

theorem Moves.ongoing (hm : Moves env s id op v v') (hl : v.Live)
    (hop : ¬ ResumesFinished id op s) (hst : v'.status = .running)
    (hcancel : v'.cancelRequested = false) : ¬ v'.AllSettled := by
  have hv := hm.before
  have hcancel₀ : v.cancelRequested = false := by
    rw [← Bool.not_eq_true] at hcancel ⊢
    exact fun h => hcancel (hm.turn.requested h)
  have hturn := hm.turn
  cases hturn with
  | idle => exact hl.ongoing hst hcancel₀
  | claim hp =>
    refine fun hall => hl.ongoing hst hcancel₀ (allSettled_of_update (fun r hr _ => ?_) hall)
    simp only [claimRow]
    split <;> rfl
  | recover hlast =>
    rename_i locked order actor last
    obtain ⟨hmem, hexp, -⟩ := expired_last hv hlast
    have hrec : recoverable last = true := by
      rw [← Bool.not_eq_false]
      intro hno
      simp [hno] at hst
    intro hall
    have hset := hall _ (mem_update_pos hmem hexp)
    simp [recoverRow, hrec, StepStatus.settled] at hset
  | wake hr hdue | complete hn hr hid hin | approve h hes => exact View.settle_ongoing hst
  | wait hn | retryLater hn =>
    exact fun hall => hl.ongoing hst hcancel₀ (allSettled_of_update (fun _ _ _ => rfl) hall)
  | resume he heq hs =>
    -- A paused execution with nothing left is the case the condition excludes.
    refine fun hall => hop ⟨⟨rfl, _, he, heq.symm.trans hs⟩, fun r hr _ => ?_⟩
    rw [← view_steps hv] at hr
    refine StepStatus.finished_of_settled (hall r hr) fun hcan => ?_
    rw [hl.orderly.canceled r hr hcan] at hcancel₀
    cases hcancel₀
  | retry hes hok =>
    obtain ⟨hmem, hid, hown⟩ := ownedStep_some hes
    intro hall
    have hset := hall _ (mem_update_pos ((mem_view hv).mpr ⟨hmem, hown⟩) (by simpa using hid))
    cases hset
  | _ => cases hst

/-- **A running execution has work left.**  Along every run from an empty store
in which no execution is resumed after its last forward step, and no execution
with rollback steps is set running by a recovery, an approval or a retry: in
every state, an execution that is running and not canceled has a forward step
that is pending, retrying, running or waiting. -/
theorem running_has_work (hs : s.Init) (ops : List Op)
    (hops : Along (Sys.perform env)
      (fun op s => ∀ id, ¬ ResumesFinished id op s ∧ ¬ RestartsRollback id op s) ops s) :
    Throughout (Sys.perform env) (EveryView View.HasWork) ops s := by
  have hlive : Throughout (Sys.perform env)
      (fun s => s.Inv ∧ EveryView View.Live s) ops s := by
    refine Along.throughout (fun op s h hop => ?_) ops ⟨inv_init hs, .init hs⟩ hops
    refine ⟨inv_perform env h.1 op, h.2.perform h.1 (fun _ hb => hb.live) fun id v v' hl hm => ?_⟩
    exact ⟨hm.orderly hl.orderly, hm.goesOn h.1 hl (hop id).2, hm.ongoing hl (hop id).1⟩
  exact hlive.imp (fun s h id v hv => (h.2 id v hv).hasWork) ops

/-- An execution that is paused while its first step finishes. -/
theorem running_has_work_paused :
    Throughout (Sys.perform reversibleEnv) (EveryView View.HasWork)
      (firstStepRun ++ [.changeState "t" "e" .pause "op" "" "", .complete 0 .completed none none])
      oneRunbook := by
  refine running_has_work ⟨rfl, rfl, rfl, rfl⟩ _ ⟨?_, ?_, ?_, ?_, trivial⟩
  all_goals exact fun _ => ⟨fun h => h.1, fun h => h.1.elim id fun h => h.elim id id⟩

/-- **A finished execution keeps running.**  It is paused while its only step is
in flight, the step is completed, and the execution is resumed: nothing finalises
it any more. -/
theorem resumed_after_last_step :
    Sys.Reachable idempotentEnv inFlightState
      ∧ ¬ EveryView View.HasWork (run (Sys.perform idempotentEnv)
        [.changeState "t" "e" .pause "op" "" "", .complete 0 .completed none none,
          .changeState "t" "e" .resume "op" "" ""] inFlightState) := by
  refine ⟨⟨oneRunbook, inFlightRun, ⟨rfl, rfl, rfl, rfl⟩, rfl⟩, fun h => ?_⟩
  have hstate : ((run (Sys.perform idempotentEnv)
      [.changeState "t" "e" .pause "op" "" "", .complete 0 .completed none none,
        .changeState "t" "e" .resume "op" "" ""] inFlightState).db.view "e").map
      (fun v => (v.status, v.cancelRequested, v.steps.all fun r => r.status = .completed))
      = some (.running, false, true) := by decide +kernel
  obtain ⟨v, hv, heq⟩ := Option.map_eq_some_iff.mp hstate
  obtain ⟨hrun, hrest⟩ := Prod.mk.inj heq
  obtain ⟨hcancel, hall⟩ := Prod.mk.inj hrest
  obtain ⟨r, hr, -, hwork⟩ := h "e" v hv hrun hcancel
  have hdone : r.status = .completed := by simpa using List.all_eq_true.mp hall r hr
  rw [hdone] at hwork
  cases hwork

/-! ### Completed means completed -/

/-- The forward steps of a completed execution are completed or skipped. -/
def View.CompletedInFull (v : View) : Prop :=
  v.status = .completed → ∀ r ∈ v.steps, r.isRollback = false →
    r.status = .completed ∨ r.status = .skipped

/-- A recovery, retry or approval that sets an execution running although a
forward step of it is canceled (for an approval: one it does not itself
complete). -/
def RevivesCanceled (id : String) (op : Op) (s : Sys) : Prop :=
  (Recovers id op s ∨ Retries id op s)
      ∧ (∃ r ∈ s.db.own id, r.isRollback = false ∧ r.status = .canceled)
    ∨ match op with
      | .decide tenantID approvalID .approved _ reason _ _ =>
        ∃ a es, AwaitsDecision s.db tenantID approvalID .approved reason a es
          ∧ es.executionID = id
          ∧ ∃ r ∈ s.db.own id, r ≠ es ∧ r.isRollback = false ∧ r.status = .canceled
      | _ => False

/-- A worker reports a forward step as rolled back. -/
def ReportsRolledBack : Op → Sys → Prop
  | .complete n .rolledBack _ none, s =>
    ∃ workerID c, s.issued[n]? = some (workerID, c) ∧ c.step.isRollback = false
  | _, _ => False

/-- The invariant behind `CompletedInFull`. -/
structure View.Untainted (v : View) : Prop where
  /-- An execution that may be finalised has no canceled forward step. -/
  clean : v.status = .running ∨ v.status = .paused →
    ∀ r ∈ v.steps, r.isRollback = false → r.status ≠ .canceled
  reported : ∀ r ∈ v.steps, r.isRollback = false → r.status ≠ .rolledBack
  done : v.status = .completed → v.ForwardFinished

theorem View.Untainted.completedInFull (h : v.Untainted) : v.CompletedInFull := by
  intro hst r hr hfwd
  have hfin := h.done hst r hr hfwd
  have hrb := h.reported r hr hfwd
  revert hfin hrb
  cases r.status <;> simp [StepStatus.finished]

theorem View.Born.untainted (h : v.Born) : v.Untainted := by
  refine ⟨fun _ r hr _ hs => ?_, fun r hr _ hs => ?_, fun hst => ?_⟩
  · rw [(h.fresh r hr).2.1] at hs
    cases hs
  · rw [(h.fresh r hr).2.1] at hs
    cases hs
  · rw [h.running] at hst
    cases hst

theorem Turn.completed (h : Turn s id op v v') (hv : s.db.view id = some v)
    (hst : v'.status = .completed) :
    v.status = .completed
      ∨ v'.AllSettled ∧ (v.status = .running ∨ Approves id op s) := by
  -- Finalisation completes a running execution whose steps are settled.
  have hsettle : ∀ {w : View}, w.settle.status = .completed →
      w.status = .completed ∨ w.settle.AllSettled ∧ w.status = .running := by
    intro w hw
    rw [View.settle_status] at hw
    by_cases hdone : w.status = .running ∧ w.AllSettled
    · exact .inr ⟨by simpa [View.AllSettled] using hdone.2, hdone.1⟩
    rw [if_neg hdone] at hw
    split at hw
    · cases hw
    · exact .inl hw
  cases h with
  | idle | claim hp | wait hn | retryLater hn => exact .inl hst
  | recover hlast =>
    simp only at hst
    split at hst <;> cases hst
  | wake hr hdue | complete hn hr hid hin => exact (hsettle hst).imp_right fun h => ⟨h.1, .inl h.2⟩
  | approve h hes =>
    rcases hsettle hst with h' | h'
    · cases h'
    · exact .inr ⟨h'.1, .inr ⟨_, _, h, ((mem_view hv).mp hes).2⟩⟩
  | _ => cases hst

theorem Moves.clean (hm : Moves env s id op v v') (hi : s.Inv) (hu : v.Untainted)
    (hop : ¬ RevivesCanceled id op s)
    (hst : (v'.status = .running ∨ v'.status = .paused)
      ∨ v'.status = .completed ∧ v.status ≠ .completed) :
    ∀ r ∈ v'.steps, r.isRollback = false → r.status ≠ .canceled := by
  intro r' hr' hfwd hcan
  have hv := hm.before
  -- The canceled row was there before.
  have hold : r' ∈ v.steps := by
    rcases hm.prev r' hr' with ⟨r, hr, rfl | hch⟩ | ⟨hnew, -⟩
    · exact hr
    · obtain ⟨tenantID, actor, requestID, traceID, rfl⟩ := hch.canceled hcan
      have hturn := hm.turn
      rw [((mem_view hv).mp hr).2] at hturn
      cases hturn with
      | idle => exact hr'
      | cancel he heq hs => rcases hst with (h | h) | ⟨h, -⟩ <;> cases h
    · rw [hnew.status] at hcan
      cases hcan
  have hown : r' ∈ s.db.own id := view_steps hv ▸ hold
  have hfrom : (v.status = .running ∨ v.status = .paused) ∨ Recovers id op s ∨ Approves id op s
      ∨ Retries id op s := by
    rcases hst with (h | h) | ⟨h, hnew⟩
    · rcases hm.turn.running hv h with h | h | h | h | h
      · exact .inl (.inl h)
      · exact .inr (.inl h)
      · exact .inr (.inr (.inl h))
      · exact .inr (.inr (.inr h))
      · exact .inl (.inr (h.paused hi.consistent hv))
    · exact .inl (hm.turn.paused h).symm
    rcases hm.turn.completed hv h with h | ⟨-, h | h⟩
    · exact absurd h hnew
    · exact .inl (.inl h)
    · exact .inr (.inr (.inl h))
  rcases hfrom with h | h | h | h
  · exact hu.clean h r' hold hfwd hcan
  · exact hop (.inl ⟨.inl h, r', hown, hfwd, hcan⟩)
  · -- The approved step itself is completed, so the canceled one is another.
    obtain ⟨tenantID, approvalID, actor, reason, requestID, traceID, a, es, rfl, hwait, hes⟩ :=
      h.inv
    refine hop (.inr ⟨a, es, hwait, hes, r', hown, ?_, hfwd, hcan⟩)
    rintro rfl
    have hturn := hm.turn
    cases hturn with
    | idle =>
      rcases hst with h | ⟨h, hnew⟩
      · exact hu.clean h r' hold hfwd hcan
      · exact hnew h
    | approve hwait' hes' =>
      obtain ⟨rfl, rfl⟩ := Prod.mk.inj (Option.some.inj (hwait.found.symm.trans hwait'.found))
      rw [View.settle_steps] at hr'
      rcases mem_update_cases hr' with ⟨q, -, -, rfl⟩ | ⟨-, hne⟩
      · cases hcan
      · simp at hne
  · exact hop (.inl ⟨.inr h, r', hown, hfwd, hcan⟩)

theorem Moves.reported (hm : Moves env s id op v v') (hi : s.Inv) (hu : v.Untainted)
    (hop : ¬ ReportsRolledBack op s) :
    ∀ r ∈ v'.steps, r.isRollback = false → r.status ≠ .rolledBack := by
  intro r' hr' hfwd hst
  rcases hm.prev r' hr' with ⟨r, hr, rfl | hch⟩ | ⟨-, hrb⟩
  · exact hu.reported r' hr hfwd hst
  · have hsame := hch.isRollback
    cases hch with
    | claim he hcl =>
      simp only [claimRow] at hst
      split at hst <;> cases hst
    | recover hexp =>
      simp only [recoverRow] at hst
      split at hst <;> cases hst
    | complete hn hl =>
      rename_i n status output workerID c
      -- The claim is for this row, so it is a claim of a forward step.
      have hstatus : status = .rolledBack := by
        simp only [completeRow, completionStatus] at hst
        split at hst
        · cases hst
        · exact hst
      subst hstatus
      refine hop ⟨workerID, c, hn, ?_⟩
      rw [← (claim_of_leased hi hn ((mem_view hm.before).mp hr).1 hl).2, ← hsame]
      exact hfwd
    | decide ha hid hp hr hd =>
      simp only [decidedRow] at hst
      split at hst <;> cases hst
    | _ => cases hst
  · rw [hfwd] at hrb
    cases hrb

theorem Moves.untainted (hm : Moves env s id op v v') (hi : s.Inv) (hu : v.Untainted)
    (hcan : ¬ RevivesCanceled id op s) (hrb : ¬ ReportsRolledBack op s) : v'.Untainted := by
  refine ⟨fun hst => hm.clean hi hu hcan (.inl hst), hm.reported hi hu hrb, fun hst => ?_⟩
  by_cases hwas : v.status = .completed
  · exact hm.forwardFinished hi (hu.done hwas)
  rcases hm.turn.completed hm.before hst with h | ⟨hall, -⟩
  · exact absurd h hwas
  · intro r hr hfwd
    exact StepStatus.finished_of_settled (hall r hr)
      (hm.clean hi hu hcan (.inr ⟨hst, hwas⟩) r hr hfwd)

/-- **Completed means completed.**  Along every run from an empty store in which
no recovery, retry or approval sets an execution with canceled forward steps
running, and no worker reports a forward step as rolled back: in every state, the
forward steps of a completed execution are completed or skipped. -/
theorem completed_means_completed (hs : s.Init) (ops : List Op)
    (hops : Along (Sys.perform env)
      (fun op s => (∀ id, ¬ RevivesCanceled id op s) ∧ ¬ ReportsRolledBack op s) ops s) :
    Throughout (Sys.perform env) (EveryView View.CompletedInFull) ops s := by
  have huntainted : Throughout (Sys.perform env)
      (fun s => s.Inv ∧ EveryView View.Untainted s) ops s := by
    refine Along.throughout (fun op s h hop => ?_) ops ⟨inv_init hs, .init hs⟩ hops
    refine ⟨inv_perform env h.1 op, h.2.perform h.1 (fun _ hb => hb.untainted) ?_⟩
    exact fun id v v' hu hm => hm.untainted h.1 hu (hop.1 id) hop.2
  exact huntainted.imp (fun s h id v hv => (h.2 id v hv).completedInFull) ops

/-- Both steps of an execution are done. -/
theorem completed_means_completed_both :
    Throughout (Sys.perform reversibleEnv) (EveryView View.CompletedInFull)
      (firstStepRun ++ [.complete 0 .completed none none, claiming,
        .complete 1 .completed none none]) oneRunbook := by
  refine completed_means_completed ⟨rfl, rfl, rfl, rfl⟩ _ ⟨?_, ?_, ?_, ?_, ?_, trivial⟩
  all_goals exact ⟨fun _ h => h.elim (fun h => h.1.elim id id) id, id⟩

/-- The execution is canceled while its first step waits for an approval, which
is given afterwards. -/
def approvedLateRun : List Op :=
  [starting ["s1", "s2"], claiming, .openApproval 0 "ap" "restart?" none,
    .changeState "t" "e" .cancel "op" "" "", .decide "t" "ap" .approved "op" "" "" ""]

def approvedLateState : Sys :=
  run (Sys.perform gatedEnv) approvedLateRun oneRunbook

/-- **A completed execution with a canceled step.**  The approval of a canceled
execution sets it running; finalisation counts the canceled second step as
done. -/
theorem completed_with_canceled_step :
    Sys.Reachable gatedEnv approvedLateState
      ∧ ¬ EveryView View.CompletedInFull approvedLateState := by
  refine ⟨⟨oneRunbook, approvedLateRun, ⟨rfl, rfl, rfl, rfl⟩, rfl⟩, fun h => ?_⟩
  have hstate : (approvedLateState.db.view "e").map
      (fun v => (v.status, v.steps.any fun r => !r.isRollback && r.status = .canceled))
      = some (.completed, true) := by decide +kernel
  obtain ⟨v, hv, heq⟩ := Option.map_eq_some_iff.mp hstate
  obtain ⟨hst, hany⟩ := Prod.mk.inj heq
  obtain ⟨r, hr, hp⟩ := List.any_eq_true.mp hany
  simp only [Bool.and_eq_true, Bool.not_eq_true', decide_eq_true_eq] at hp
  rcases h "e" v hv hst r hr hp.1 with h | h <;> rw [hp.2] at h <;> cases h

/-! ### The end of a rollback -/

/-- When all rollback steps of the execution are done, it is rolled back. -/
def RollbackFinishes (id : String) (s : Sys) : Prop :=
  ∀ v, s.db.view id = some v → (∀ r ∈ v.steps, r.isRollback = true → r.status.finished = true) →
    v.status = .rolledBack

def Cancels (id : String) : Op → Sys → Prop
  | .changeState tenantID executionID .cancel _ _ _, s =>
    executionID = id ∧ CancelCommits tenantID id s
  | _, _ => False

def FailsStale (id : String) : Op → Sys → Prop
  | .complete n _ _ (some _), s =>
    ∃ workerID c, s.issued[n]? = some (workerID, c) ∧ ∃ r ∈ s.db.own id, r.id = c.step.id
      ∧ r.status.inFlight = true ∧ leasedTo c.step.id workerID r = false
      ∧ r.retryPolicy.maxAttempts ≤ r.attemptCount
  | _, _ => False

def AsksForRollback (id : String) : Op → Sys → Prop
  | .openApproval n _ _ _, s =>
    ∃ workerID c, s.issued[n]? = some (workerID, c) ∧ c.step.executionID = id
      ∧ c.step.isRollback = true
  | _, _ => False

/-- Three stages of an execution after `StartExecutionRollback`: rollback steps
are left to do and can be done; all is done; or a rollback step is left and
cannot be claimed. -/
inductive View.UndoStage (v : View) : Prop
  | rolling (hst : v.status = .rollingBack) (hcancel : v.cancelRequested = false)
      (hfwd : v.ForwardFinished) {r : ExecutionStep} (hr : r ∈ v.steps)
      (hrb : r.isRollback = true) (hopen : r.status.finished = false)
  | undone (hst : v.status = .rolledBack) (hall : ∀ r ∈ v.steps, r.status.finished = true)
  | stuck (hst : v.status ≠ .rollingBack ∨ v.cancelRequested = true) {r : ExecutionStep}
      (hr : r ∈ v.steps) (hrb : r.isRollback = true) (hopen : r.status.finished = false)
      (hidle : r.status.inFlight = false)

/-- The invariant behind `RollbackFinishes`. -/
structure View.Undoing (v : View) : Prop where
  orderly : v.Orderly
  begun : ∃ r ∈ v.steps, r.isRollback = true
  /-- No rollback step waits for an approval, and none is canceled. -/
  plain : ∀ r ∈ v.steps, r.isRollback = true →
    r.status ≠ .waitingApproval ∧ r.status ≠ .canceled
  stage : v.UndoStage

theorem View.Undoing.finishes (h : v.Undoing)
    (hall : ∀ r ∈ v.steps, r.isRollback = true → r.status.finished = true) :
    v.status = .rolledBack := by
  rcases h.stage with ⟨-, -, -, hr, hrb, hopen⟩ | ⟨hst, -⟩ | ⟨-, hr, hrb, hopen, -⟩
  · rw [hall _ hr hrb] at hopen
    cases hopen
  · exact hst
  · rw [hall _ hr hrb] at hopen
    cases hopen

/-- The conditions on one operation: the execution is not canceled and none of
its steps retried, no stale worker fails it, and no rollback step is put up for
approval. -/
structure UndisturbedBy (id : String) (op : Op) (s : Sys) : Prop where
  cancel : ¬ Cancels id op s
  retry : ¬ Retries id op s
  stale : ¬ FailsStale id op s
  approval : ¬ AsksForRollback id op s

section Undo

variable {r r' : ExecutionStep}

theorem StepChange.waitingApproval (h : StepChange s op r r') (hst : r'.status = .waitingApproval) :
    ∃ n approvalID prompt expiresAt workerID c, op = .openApproval n approvalID prompt expiresAt
      ∧ s.issued[n]? = some (workerID, c) ∧ leasedTo c.step.id workerID r = true := by
  cases h with
  | claim he hcl =>
    simp only [claimRow] at hst
    split at hst <;> cases hst
  | recover hexp =>
    simp only [recoverRow] at hst
    split at hst <;> cases hst
  | openApproval hn hl => exact ⟨_, _, _, _, _, _, rfl, hn, hl⟩
  | complete hn hl =>
    have hfin := completionStatus_finished ‹StepStatus›
    simp only [completeRow] at hst
    rw [hst] at hfin
    cases hfin
  | decide ha hid hp hr hd =>
    simp only [decidedRow] at hst
    split at hst <;> cases hst
  | _ => cases hst

theorem Moves.plain (hm : Moves env s id op v v') (hi : s.Inv) (hu : v.Undoing)
    (hop : UndisturbedBy id op s) : ∀ r ∈ v'.steps, r.isRollback = true →
      r.status ≠ .waitingApproval ∧ r.status ≠ .canceled := by
  intro r' hr' hrb
  rcases hm.prev r' hr' with ⟨r, hr, rfl | hch⟩ | ⟨hnew, -⟩
  · exact hu.plain r' hr hrb
  · obtain ⟨hmem, hown⟩ := (mem_view hm.before).mp hr
    constructor
    · intro hst
      obtain ⟨n, _, _, _, workerID, c, rfl, hn, hl⟩ := hch.waitingApproval hst
      obtain ⟨hexec, hphase⟩ := claim_of_leased hi hn hmem hl
      exact hop.approval ⟨workerID, c, hn, hexec.symm.trans hown,
        hphase.symm.trans (hch.isRollback.symm.trans hrb)⟩
    intro hst
    obtain ⟨tenantID, actor, requestID, traceID, rfl⟩ := hch.canceled hst
    have hturn := hm.turn
    rw [hown] at hturn
    cases hturn with
    | idle => exact (hu.plain r' hr' hrb).2 hst
    | cancel he heq hs =>
      exact hop.cancel ⟨hown, _, he, heq ▸ hs⟩
  · rw [hnew.status]
    exact ⟨nofun, nofun⟩

theorem Moves.stuck (hm : Moves env s id op v v') (hi : s.Inv) (hu : v.Undoing)
    (hop : UndisturbedBy id op s) (hst : v.status ≠ .rollingBack ∨ v.cancelRequested = true)
    (hr : r ∈ v.steps) (hrb : r.isRollback = true) (hidle : r.status.inFlight = false) :
    r ∈ v'.steps := by
  have hc := hi.consistent
  obtain ⟨hmem, hown⟩ := (mem_view hm.before).mp hr
  have hleased : ∀ {P : Prop} {stepID workerID : String},
      leasedTo stepID workerID r = true → P := by
    intro P stepID workerID hl
    rw [hc.inFlight_of_leased hmem hl] at hidle
    cases hidle
  have happroval : ∀ {P : Prop} {a : Approval}, a ∈ s.db.approvals → a.status = .pending →
      r.id = a.executionStepID → P := by
    intro P a ha hp hid
    rcases (hc.of_pending hmem ha hp hid).2 with h | h
    · exact absurd h (hu.plain r hr hrb).1
    · exact absurd h (hu.plain r hr hrb).2
  obtain ⟨r', hr', rfl | hch⟩ := hm.next r hr
  · exact hr'
  have hturn := hm.turn
  cases hch with
  | claim he hcl =>
    have hclaim := claimable_view hm.before hr he hcl
    rcases hclaim.phase with ⟨-, h⟩ | ⟨h, -⟩
    · rw [hrb] at h
      cases h
    rcases hst with h' | h'
    · exact absurd h h'
    · rw [hclaim.cancel] at h'
      cases h'
  | recover hexp =>
    rw [inFlight_of_leaseExpired hexp] at hidle
    cases hidle
  | timer hdue =>
    rw [hu.orderly.forward r hr (.inr (waiting_of_waitDue hdue))] at hrb
    cases hrb
  | expire ha hp hid => exact happroval ha hp hid
  | wait hn hl hs | openApproval hn hl | complete hn hl | retryLater hn hl hlt | fail hn hl
  | ambiguous hn hl => exact hleased hl
  | cancel hid hcan =>
    rw [← hid, hown] at hturn
    cases hturn with
    | idle => exact hr
    | cancel he heq hs => exact absurd ⟨hid.symm.trans hown, _, he, heq ▸ hs⟩ hop.cancel
  | decide ha hid hp hstep hd => exact happroval ha hp hstep
  | retry hid hok =>
    cases hturn with
    | idle => exact hr
    | retry hes hok' => exact absurd ⟨rfl, _, hes, hok'⟩ hop.retry

theorem View.Undoing.no_approval (hu : v.Undoing) (hc : Consistent s.db)
    (hv : s.db.view id = some v) (hfwd : v.ForwardFinished) (hr : r ∈ v.steps)
    {a : Approval} (ha : a ∈ s.db.approvals) (hp : a.status = .pending)
    (hid : r.id = a.executionStepID) : False := by
  have hst := (hc.of_pending ((mem_view hv).mp hr).1 ha hp hid).2
  rcases hrb : r.isRollback with _ | _
  · have hfin := hfwd r hr hrb
    rcases hst with h | h <;> rw [h] at hfin <;> cases hfin
  · rcases hst with h | h
    · exact (hu.plain r hr hrb).1 h
    · exact (hu.plain r hr hrb).2 h

theorem expired_step (hc : Consistent s.db) {locked : List String} {item : Approval × String}
    (hitem : item ∈ expiredApprovals s.now locked s.db) (hid : item.2 = id)
    (hv : s.db.view id = some v) :
    ∃ r ∈ v.steps, item.1 ∈ s.db.approvals ∧ item.1.status = .pending
      ∧ r.id = item.1.executionStepID := by
  obtain ⟨ha, hp⟩ := mem_expiredApprovals hitem
  obtain ⟨r, hr, hrid, -, -⟩ := hc.requested item.1 ha
  have hown := expired_owner hc hitem hr hrid
  exact ⟨r, (mem_view hv).mpr ⟨hr, hown.symm.trans hid⟩, ha, hp, hrid⟩

theorem open_of_update {p : ExecutionStep → Bool} {f : ExecutionStep → ExecutionStep}
    {t : List ExecutionStep} (hphase : ∀ q, (f q).isRollback = q.isRollback)
    (hf : ∀ q, (f q).status.finished = false) (hr : r ∈ t) (hrb : r.isRollback = true)
    (hopen : r.status.finished = false) :
    ∃ q ∈ update p f t, q.isRollback = true ∧ q.status.finished = false := by
  by_cases hp : p r = true
  · exact ⟨f r, mem_update_pos hr hp, (hphase r).trans hrb, hf r⟩
  · exact ⟨r, mem_update_neg hr (by simpa using hp), hrb, hopen⟩

theorem View.UndoStage.of_settle {w : View} (hst : w.status = .rollingBack)
    (hcancel : w.cancelRequested = false) (ho : w.Orderly) (hfwd : w.ForwardFinished) :
    w.settle.UndoStage := by
  have hrun : ¬ (w.status = .running ∧ w.AllSettled) := by
    rintro ⟨h, -⟩
    rw [hst] at h
    cases h
  by_cases hall : w.AllSettled
  · have hdone : w.settle.status = .rolledBack := by
      rw [View.settle_status, if_neg hrun, if_pos ⟨hst, hall⟩]
    refine .undone hdone fun q hq => ?_
    rw [View.settle_steps] at hq
    refine StepStatus.finished_of_settled (hall q hq) fun hcan => ?_
    rw [ho.canceled q hq hcan] at hcancel
    cases hcancel
  have hsame : w.settle = w := by
    rw [View.settle, if_neg hrun, if_neg fun h => hall h.2]
  obtain ⟨q, hq, hopen⟩ : ∃ q ∈ w.steps, q.status.settled ≠ true := by
    by_contra hno
    refine hall fun q hq => ?_
    by_contra hopen
    exact hno ⟨q, hq, hopen⟩
  have hq' : q.status.finished = false := by
    rw [← Bool.not_eq_true]
    exact fun h => hopen (StepStatus.settled_of_finished h)
  rw [hsame]
  refine .rolling hst hcancel hfwd hq ?_ hq'
  rw [← Bool.not_eq_false]
  intro hf
  rw [hfwd q hq hf] at hq'
  cases hq'

theorem Moves.rolling (hm : Moves env s id op v v') (hi : s.Inv) (hu : v.Undoing)
    (hop : UndisturbedBy id op s) (hst : v.status = .rollingBack)
    (hcancel : v.cancelRequested = false) (hfwd : v.ForwardFinished) (hr : r ∈ v.steps)
    (hrb : r.isRollback = true) (hopen : r.status.finished = false) : v'.UndoStage := by
  have hc := hi.consistent
  have hv := hm.before
  have hfwd' := hm.forwardFinished hi hfwd
  have horderly' := hm.orderly hu.orderly
  -- A step that is not finished is a rollback step.
  have hphase : ∀ {q : ExecutionStep}, q ∈ v.steps → q.status.finished = false →
      q.isRollback = true := by
    intro q hq hq'
    rw [← Bool.not_eq_false]
    intro hf
    rw [hfwd q hq hf] at hq'
    cases hq'
  have hturn := hm.turn
  cases hturn with
  | idle => exact .rolling hst hcancel hfwd hr hrb hopen
  | claim hp =>
    rename_i locked workerID limit lease lost p
    obtain ⟨q, hq, hqrb, hqopen⟩ := open_of_update (p := p)
      (f := claimRow s.now workerID (claimLease lease)) (fun _ => rfl)
      (fun q => by simp only [claimRow]; split <;> rfl) hr hrb hopen
    exact .rolling hst hcancel hfwd' hq hqrb hqopen
  | recover hlast =>
    rename_i locked order actor last
    obtain ⟨hmem, hexp, hin⟩ := expired_last hv hlast
    have hlrb := hphase hmem (StepStatus.not_finished_of_inFlight hin)
    refine .stuck (.inl ?_) (mem_update_pos hmem hexp) hlrb ?_ ?_
    · simp only
      split <;> (intro h; cases h)
    · simp only [recoverRow]
      split <;> rfl
    · simp only [recoverRow]
      split <;> rfl
  | wake hw hdue =>
    have hwait := waiting_of_waitDue hdue
    have hfin := hfwd _ hw (hu.orderly.forward _ hw (.inr hwait))
    rw [hwait] at hfin
    cases hfin
  | expire hitem hid hg =>
    obtain ⟨q, hq, ha, hp, hqid⟩ := expired_step hc hitem hid hv
    exact (hu.no_approval hc hv hfwd hq ha hp hqid).elim
  | wait hn =>
    rename_i n until_ workerID c
    obtain ⟨q, hq, hqrb, hqopen⟩ := open_of_update (f := waitRow until_) (fun _ => rfl)
      (fun _ => rfl) hr hrb hopen
    exact .rolling hst hcancel hfwd' hq hqrb hqopen
  | openApproval hn hq hl =>
    rename_i workerID c a q
    obtain ⟨hqmem, hqown⟩ := (mem_view hv).mp hq
    have hqrb := hphase hq (StepStatus.not_finished_of_inFlight (hc.inFlight_of_leased hqmem hl))
    obtain ⟨hexec, hsame⟩ := claim_of_leased hi hn hqmem hl
    exact absurd ⟨_, _, hn, hexec.symm.trans hqown, hsame.symm.trans hqrb⟩ hop.approval
  | complete hn hq hid hin =>
    refine .of_settle hst hcancel ⟨?_, ?_, ?_⟩ ?_
    · simpa using horderly'.forward
    · simpa using horderly'.rollback
    · simpa using horderly'.canceled
    · simpa [View.ForwardFinished] using hfwd'
  | retryLater hn =>
    rename_i n status output err message backoff workerID c
    obtain ⟨q, hq, hqrb, hqopen⟩ := open_of_update (f := retryLaterRow s.now message backoff)
      (fun _ => rfl) (fun _ => rfl) hr hrb hopen
    exact .rolling hst hcancel hfwd' hq hqrb hqopen
  | fail hn hq hid hin hmax =>
    rename_i n status output err message workerID c q
    have hqrb := hphase hq (StepStatus.not_finished_of_inFlight hin)
    by_cases hl : leasedTo c.step.id workerID q = true
    · exact .stuck (.inl (fun h => by cases h)) (mem_update_pos hq hl) hqrb rfl rfl
    · exact absurd ⟨_, _, hn, q, view_steps hv ▸ hq, hid, hin, by simpa using hl, hmax⟩ hop.stale
  | ambiguous hn hq hl =>
    obtain ⟨hqmem, hqown⟩ := (mem_view hv).mp hq
    have hin := hc.inFlight_of_leased hqmem hl
    have hqrb := hphase hq (StepStatus.not_finished_of_inFlight hin)
    exact .stuck (.inl (fun h => by cases h)) (mem_update_pos hq (by simp [hl, hin])) hqrb rfl rfl
  | pause he heq hs | resume he heq hs =>
    rw [hst] at hs
    cases hs
  | cancel he heq hs => exact absurd ⟨rfl, _, he, heq ▸ hs⟩ hop.cancel
  | approve h hes | reject h hes =>
    obtain ⟨ha, -, -, hid⟩ := approvalWithStep_some h.found
    exact (hu.no_approval hc hv hfwd hes ha h.pending hid).elim
  | retry hes hok => exact absurd ⟨rfl, _, hes, hok⟩ hop.retry
  | rollback he heq hs hnone hrows hne =>
    rw [hnone r hr] at hrb
    cases hrb

theorem Moves.undone (hm : Moves env s id op v v') (hi : s.Inv) (hu : v.Undoing)
    (hop : UndisturbedBy id op s) (hst : v.status = .rolledBack)
    (hall : ∀ r ∈ v.steps, r.status.finished = true) : v'.UndoStage := by
  have hc := hi.consistent
  have hv := hm.before
  have hfwd : v.ForwardFinished := fun r hr _ => hall r hr
  have hidle : ∀ {P : Prop} {q : ExecutionStep}, q ∈ v.steps → q.status.inFlight = true → P := by
    intro P q hq hin
    rw [StepStatus.not_inFlight_of_finished (hall q hq)] at hin
    cases hin
  have hleased : ∀ {P : Prop} {q : ExecutionStep} {stepID workerID : String}, q ∈ v.steps →
      leasedTo stepID workerID q = true → P :=
    fun hq hl => hidle hq (hc.inFlight_of_leased ((mem_view hv).mp hq).1 hl)
  obtain ⟨q₀, hq₀, hq₀rb⟩ := hu.begun
  -- No row is changed and none is added.
  have hall' : v'.status = .rolledBack → v'.UndoStage := by
    refine fun hst' => .undone hst' fun r' hr' => ?_
    rcases hm.prev r' hr' with ⟨r, hr, rfl | hch⟩ | ⟨hnew, -⟩
    · exact hall r' hr
    · have hun := hch.unfinished hc ((mem_view hv).mp hr).1
      rw [hall r hr] at hun
      cases hun
    cases hnew with
    | rollback hfree _ _ _ =>
      obtain ⟨hmem, hown⟩ := (mem_view hv).mp hq₀
      rw [hfree q₀ hmem (hown.trans ((mem_view hm.after).mp hr').2.symm)] at hq₀rb
      cases hq₀rb
    | forward hfree _ _ =>
      obtain ⟨e, -, he, heid, -⟩ := view_some hv
      exact absurd (heid.trans ((mem_view hm.after).mp hr').2.symm) (hfree e he)
  have hturn := hm.turn
  cases hturn with
  | idle | claim hp | wait hn | retryLater hn => exact hall' hst
  | recover hlast => exact hidle (expired_last hv hlast).1 (expired_last hv hlast).2.2
  | wake hw hdue =>
    have hfin := hall _ hw
    rw [waiting_of_waitDue hdue] at hfin
    cases hfin
  | expire hitem hid hg =>
    obtain ⟨q, hq, ha, hp, hqid⟩ := expired_step hc hitem hid hv
    exact (hu.no_approval hc hv hfwd hq ha hp hqid).elim
  | openApproval hn hq hl | ambiguous hn hq hl => exact hleased hq hl
  | complete hn hq hid hin | fail hn hq hid hin hmax => exact hidle hq hin
  | pause he heq hs | resume he heq hs | cancel he heq hs =>
    rw [hst] at hs
    cases hs
  | approve h hes | reject h hes =>
    obtain ⟨ha, -, -, hid⟩ := approvalWithStep_some h.found
    exact (hu.no_approval hc hv hfwd hes ha h.pending hid).elim
  | retry hes hok => exact absurd ⟨rfl, _, hes, hok⟩ hop.retry
  | rollback he heq hs hnone hrows hne =>
    rw [hst] at hs
    rcases hs with h | h | h <;> cases h

theorem Moves.undoing (hm : Moves env s id op v v') (hi : s.Inv) (hu : v.Undoing)
    (hop : UndisturbedBy id op s) : v'.Undoing := by
  refine ⟨hm.orderly hu.orderly, ?_, hm.plain hi hu hop, ?_⟩
  · obtain ⟨r, hr, hrb⟩ := hu.begun
    obtain ⟨r', hr', rfl | hch⟩ := hm.next r hr
    · exact ⟨r', hr', hrb⟩
    · exact ⟨r', hr', hch.isRollback.trans hrb⟩
  rcases hu.stage with ⟨hst, hcancel, hfwd, hr, hrb, hopen⟩ | ⟨hst, hall⟩ |
    ⟨hst, hr, hrb, hopen, hidle⟩
  · exact hm.rolling hi hu hop hst hcancel hfwd hr hrb hopen
  · exact hm.undone hi hu hop hst hall
  refine .stuck ?_ (hm.stuck hi hu hop hst hr hrb hidle) hrb hopen hidle
  refine hst.imp (fun h hrb' => ?_) hm.turn.requested
  rcases hm.turn.rollingBack hm.before hrb' with h' | h'
  · exact h h'
  -- A second rollback would have found no rollback step.
  cases op with
  | rollback ids tenantID executionID actor requestID traceID =>
    obtain ⟨-, e, -, -, hnone⟩ := h'
    rw [hnone _ (view_steps hm.before ▸ hr)] at hrb
    cases hrb
  | _ => cases h'

end Undo

theorem undoing_of_rollback (hs : Sys.Reachable env s) {ids : List String}
    {tenantID actor requestID traceID : String}
    (hcommit : succeeds env.exclusive
      (startExecutionRollback s.now ids tenantID id actor requestID traceID) s.db = true)
    (hsettled : ∀ r ∈ s.db.own id, r.status.settled = true) :
    ∃ v, (Sys.perform env (.rollback ids tenantID id actor requestID traceID) s).db.view id = some v
      ∧ v.Undoing := by
  have hi := inv_of_reachable hs
  obtain ⟨v, rows, hv, hfwd, hne, hrows, hview⟩ := view_of_rollback hi.consistent hcommit
  have ho := orderly_of_reachable hs id v hv
  have ho' := orderly_of_reachable (Reachable.next hs _) id _ hview
  obtain ⟨q, hq⟩ := List.exists_mem_of_ne_nil rows hne
  obtain ⟨hqrb, hqst⟩ := hrows q hq
  have hqmem : q ∈ v.steps ++ rows := List.mem_append_right _ hq
  refine ⟨_, hview, ho', ⟨q, hqmem, hqrb⟩, fun r hr hrb => ?_, ?_⟩
  · rcases List.mem_append.mp hr with hr | hr
    · rw [hfwd r hr] at hrb
      cases hrb
    · rw [(hrows r hr).2]
      exact ⟨nofun, nofun⟩
  rcases hcancel : v.cancelRequested with _ | _
  · refine .rolling rfl rfl (fun r hr hrf => ?_) hqmem hqrb (by rw [hqst]; rfl)
    rcases List.mem_append.mp hr with hr | hr
    · refine StepStatus.finished_of_settled (hsettled r (view_steps hv ▸ hr)) fun hcan => ?_
      rw [ho.canceled r hr hcan] at hcancel
      cases hcancel
    · rw [(hrows r hr).1] at hrf
      cases hrf
  · exact .stuck (.inr rfl) hqmem hqrb (by rw [hqst]; rfl) (by rw [hqst]; rfl)

/-- **A rollback finishes.**  In every reachable state in which no step of the
execution `id` is open, once `StartExecutionRollback` has succeeded for it, and
for every continuation in which it is not canceled and none of its steps
retried, no worker without the lease fails it, and no rollback step is put up for
approval: in every state, when its rollback steps are all rolled back, completed
or skipped, the execution is rolled back. -/
theorem rollback_finishes (hs : Sys.Reachable env s) {ids : List String}
    {tenantID actor requestID traceID : String}
    (hcommit : succeeds env.exclusive
      (startExecutionRollback s.now ids tenantID id actor requestID traceID) s.db = true)
    (hsettled : ∀ r ∈ s.db.own id, r.status.settled = true) (ops : List Op)
    (hops : Along (Sys.perform env) (UndisturbedBy id) ops
      (Sys.perform env (.rollback ids tenantID id actor requestID traceID) s)) :
    Throughout (Sys.perform env) (RollbackFinishes id) ops
      (Sys.perform env (.rollback ids tenantID id actor requestID traceID) s) := by
  have hundoing : Throughout (Sys.perform env)
      (fun s => s.Inv ∧ ∃ v, s.db.view id = some v ∧ v.Undoing) ops
      (Sys.perform env (.rollback ids tenantID id actor requestID traceID) s) := by
    refine Along.throughout (fun op s h hop => ?_) ops
      ⟨inv_perform env (inv_of_reachable hs) _, undoing_of_rollback hs hcommit hsettled⟩ hops
    obtain ⟨hi, v, hv, hu⟩ := h
    obtain ⟨v', hm⟩ := moves_perform env hi hv op
    exact ⟨inv_perform env hi op, v', hm.after, hm.undoing hi hu hop⟩
  refine hundoing.imp (fun s h w hw hall => ?_) ops
  obtain ⟨-, v, hv, hu⟩ := h
  obtain rfl := Option.some.inj (hv.symm.trans hw)
  exact hu.finishes hall

def doneRun : List Op :=
  firstStepRun ++ [.complete 0 .completed none none, claiming,
    .complete 1 .completed none none]

def doneState : Sys :=
  run (Sys.perform reversibleEnv) doneRun oneRunbook

/-- The rollback of a completed execution runs to its end. -/
theorem rollback_finishes_done :
    Throughout (Sys.perform reversibleEnv) (RollbackFinishes "e")
      [claiming, .complete 2 .rolledBack none none,
        claiming, .complete 3 .rolledBack none none]
      (Sys.perform reversibleEnv (.rollback ["b1", "b2"] "t" "e" "op" "" "") doneState) := by
  have hreach : Sys.Reachable reversibleEnv doneState :=
    ⟨oneRunbook, doneRun, ⟨rfl, rfl, rfl, rfl⟩, rfl⟩
  have hcommit : succeeds reversibleEnv.exclusive
      (startExecutionRollback doneState.now ["b1", "b2"] "t" "e" "op" "" "") doneState.db
      = true := by decide +kernel
  have hsettled : ((doneState.db.own "e").all fun r => r.status.settled) = true := by
    decide +kernel
  refine rollback_finishes hreach hcommit (List.all_eq_true.mp hsettled) _ ⟨?_, ?_, ?_, ?_, trivial⟩
  all_goals exact ⟨id, id, id, id⟩

/-- The rollback of `failedState`, up to the end of its one rollback step. -/
def undoneRollback : List Op :=
  [.rollback ["b1"] "t" "e" "op" "" "", claiming,
    .complete 2 .rolledBack none none]

/-- **A rollback that does not finish.**  A step of the execution has failed; the
one rollback step is done, and the execution stays in `rolling_back`. -/
theorem rollback_stays_rolling_back :
    Sys.Reachable fragileEnv failedState
      ∧ succeeds fragileEnv.exclusive
        (startExecutionRollback failedState.now ["b1"] "t" "e" "op" "" "") failedState.db = true
      ∧ ¬ RollbackFinishes "e"
        (run (Sys.perform fragileEnv) undoneRollback failedState) := by
  refine ⟨failedState_reachable, failedState_rollback, fun h => ?_⟩
  have hstate : ((run (Sys.perform fragileEnv) undoneRollback failedState).db.view
      "e").map (fun v => (v.status, v.steps.all fun r => !r.isRollback || r.status = .rolledBack))
      = some (.rollingBack, true) := by decide +kernel
  obtain ⟨v, hv, heq⟩ := Option.map_eq_some_iff.mp hstate
  obtain ⟨hst, hall⟩ := Prod.mk.inj heq
  have hdone : v.status = .rolledBack := by
    refine h v hv fun r hr hrb => ?_
    have hr' := List.all_eq_true.mp hall r hr
    rw [hrb, Bool.not_true, Bool.false_or, decide_eq_true_eq] at hr'
    rw [hr']
    rfl
  rw [hst] at hdone
  cases hdone

end StormRelay
