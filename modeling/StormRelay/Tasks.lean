/-
What the engines keep.

The stage of a task says what is known of its claim (`StageSound`), so the
store operations the engines make are not arbitrary ones (`EngineOp`): a wait is
scheduled for wait steps only, an approval is requested for approval steps of
real runs only, and a step is completed by the action of its own type.

* `typed_of_reachable` — **the statuses a step can have depend on its type**,
  and a completed approval step of a real run has its approval.
-/
import StormRelay.Engine

namespace StormRelay

open Tx Table Transition

variable {env : Env} {w w' : World} {s : Sys}

/-! ### Stages -/

def StageSound (c : ClaimedStep) : Stage → Prop
  | .fresh | .done | .calling .skip | .calling (.failure _) => True
  | .acting => c.dryRun = false
  | .awaiting => c.dryRun = false ∧ c.step.immutableInput.step.type = .http
  | .calling .dryRun => c.dryRun = true
  | .calling (.success _) =>
    c.dryRun = false ∧ (c.step.immutableInput.step.type = .http
      ∨ c.step.immutableInput.step.type = .plugin)
  | .calling (.ambiguous _) => c.dryRun = false ∧ c.step.immutableInput.step.type = .http

variable {c : ClaimedStep}

theorem Begun.sound {n : ℕ} {stage : Stage} {events : List Event} (h : Begun n c stage events) :
    StageSound c stage := by
  cases h with
  | act hdry | dryRun hdry => exact hdry
  | skip hcond hno | failure err => trivial

theorem Called.sound {stage : Stage} (h : Called stage) (c : ClaimedStep) : StageSound c stage := by
  cases h <;> trivial

theorem sound_responseStage (h : StageSound c .awaiting) (result : Except String (Option Json)) :
    StageSound c (responseStage c result) := by
  rcases result with err | output
  · rw [responseStage]
    split
    · exact h
    · trivial
  · exact ⟨h.1, .inl h.2⟩

structure Tasked (w : World) : Prop where
  begun : ∀ n, w.stage n ≠ .fresh → n < w.sys.issued.length
  sound : ∀ n workerID c, w.sys.issued[n]? = some (workerID, c) → StageSound c (w.stage n)

theorem perform_issued_prefix (env : Env) (s : Sys) (op : Op) :
    s.issued <+: (Sys.perform env op s).issued := by
  obtain h | ⟨_, _, _, _, -, h⟩ := perform_issued env s op
  · exact h.symm ▸ List.prefix_refl s.issued
  · rw [h]
    exact List.prefix_append _ _

namespace Tasked

theorem move (h : Tasked w) {n : ℕ} {workerID : String} {c : ClaimedStep} {stage : Stage}
    (hn : w.sys.issued[n]? = some (workerID, c)) (hs : StageSound c stage) :
    Tasked (w.move n stage) := by
  constructor
  · intro m hm
    rcases eq_or_ne m n with rfl | hne
    · exact (List.getElem?_eq_some_iff.mp hn).1
    · rw [World.move_stage_of_ne hne] at hm
      exact h.begun m hm
  intro m workerID' c' hm
  rcases eq_or_ne m n with rfl | hne
  · obtain ⟨rfl, rfl⟩ := Prod.mk.inj (Option.some.inj (hn.symm.trans hm))
    rw [World.move_stage_self]
    exact hs
  · rw [World.move_stage_of_ne hne]
    exact h.sound m workerID' c' hm

theorem perform (h : Tasked w) (env : Env) (op : Op) (trace : List Event) :
    Tasked { w with sys := w.sys.perform env op, trace := trace } := by
  obtain ⟨new, hnew⟩ := perform_issued_prefix env w.sys op
  constructor
  · intro n hn
    have hlt := h.begun n hn
    show n < (w.sys.perform env op).issued.length
    rw [← hnew, List.length_append]
    omega
  intro n workerID c hn
  replace hn : (w.sys.perform env op).issued[n]? = some (workerID, c) := hn
  show StageSound c (w.stage n)
  by_cases hlt : n < w.sys.issued.length
  · rw [← hnew, List.getElem?_append_left hlt] at hn
    exact h.sound n workerID c hn
  -- A claim handed out just now: its task has not begun.
  have hfresh : w.stage n = .fresh := by
    by_contra hne
    exact hlt (h.begun n hne)
  rw [hfresh]
  trivial

theorem issued_perform {n : ℕ} {claim : String × ClaimedStep} (h : s.issued[n]? = some claim)
    (env : Env) (op : Op) : (s.perform env op).issued[n]? = some claim := by
  obtain ⟨new, hnew⟩ := perform_issued_prefix env s op
  rw [← hnew, List.getElem?_append_left (List.getElem?_eq_some_iff.mp h).1]
  exact h

theorem step (h : Tasked w) (hstep : WorldStep env w w') : Tasked w' := by
  cases hstep with
  | idle => exact h
  | store op hop => exact h.perform env op _
  | begin hn hs hevents hstage =>
    have hmoved := h.move hn hstage.sound
    exact ⟨hmoved.begun, hmoved.sound⟩
  | fail err hn hs | lost hn hs => exact h.move hn trivial
  | plugin output hn hs htype =>
    have hdry : StageSound _ (w.stage _) := h.sound _ _ _ hn
    rw [hs] at hdry
    exact h.move hn ⟨hdry, .inr htype⟩
  | @send n workerID c hn hs htype =>
    have hdry : StageSound c (w.stage n) := h.sound _ _ _ hn
    rw [hs] at hdry
    have hmoved : Tasked (w.move n .awaiting) := h.move hn ⟨hdry, htype⟩
    exact ⟨hmoved.begun, hmoved.sound⟩
  | wait until_ hn hs htype hstage | approval approvalID prompt expiresAt hn hs htype hstage =>
    exact (h.perform env _ w.trace).move (issued_perform hn env _) (hstage.sound _)
  | respond result hn hs =>
    have hsound : StageSound _ (w.stage _) := h.sound _ _ _ hn
    rw [hs] at hsound
    exact h.move hn (sound_responseStage hsound result)
  | @finish n workerID c call hn hs =>
    have hmoved := (h.perform env (callOp n c call) w.trace).move
      (issued_perform hn env _) (show StageSound c .done from trivial)
    exact ⟨hmoved.begun, hmoved.sound⟩

theorem init (h : w.Init) : Tasked w := by
  obtain ⟨-, hfresh, -⟩ := h
  constructor
  · intro n hn
    exact absurd (hfresh n) hn
  · intro n workerID c _
    rw [hfresh n]
    trivial

end Tasked

/-- **The stage of every task is sound.** -/
theorem tasked_of_reachable (hw : World.Reachable env w) : Tasked w :=
  Reachable.invariant (I := Tasked) (fun _ h₀ => .init h₀)
    (fun a w h => h.step (World.step_cases env a w)) hw

/-! ### The operations engines make -/

/-- The operations of a world: anything that is not a call of a task, or the
call that fits its claim. -/
inductive EngineOp (s : Sys) : Op → Prop
  | other {op : Op} (h : op.isCall = false) : EngineOp s op
  | wait {n : ℕ} {workerID : String} {c : ClaimedStep} {until_ : Time}
      (hn : s.issued[n]? = some (workerID, c))
      (htype : c.step.immutableInput.step.type = .wait) : EngineOp s (.scheduleWait n until_)
  | approval {n : ℕ} {workerID : String} {c : ClaimedStep} {approvalID prompt : String}
      {expiresAt : Option Time} (hn : s.issued[n]? = some (workerID, c))
      (htype : c.step.immutableInput.step.type = .approval) :
      EngineOp s (.openApproval n approvalID prompt expiresAt)
  | last {n : ℕ} {workerID : String} {c : ClaimedStep} {call : Call}
      (hn : s.issued[n]? = some (workerID, c)) (h : StageSound c (.calling call)) :
      EngineOp s (callOp n c call)

theorem EngineOp.type_of_openApproval {n : ℕ} {approvalID prompt workerID : String}
    {expiresAt : Option Time} (h : EngineOp s (.openApproval n approvalID prompt expiresAt))
    (hn : s.issued[n]? = some (workerID, c)) : c.step.immutableInput.step.type = .approval := by
  generalize hop : Op.openApproval n approvalID prompt expiresAt = op at h
  cases h with
  | other hcall =>
    subst hop
    cases hcall
  | wait hn' hkind => cases hop
  | approval hn' hkind =>
    cases hop
    obtain ⟨-, rfl⟩ := Prod.mk.inj (Option.some.inj (hn.symm.trans hn'))
    exact hkind
  | @last _ _ _ call hn' hsound => cases call <;> cases hop

theorem WorldStep.sys (h : Tasked w) (hstep : WorldStep env w w') :
    w'.sys = w.sys ∨ ∃ op, EngineOp w.sys op ∧ w'.sys = w.sys.perform env op := by
  cases hstep with
  | store op hop => exact .inr ⟨op, .other hop, rfl⟩
  | wait until_ hn hs htype hstage => exact .inr ⟨_, .wait hn htype, rfl⟩
  | approval approvalID prompt expiresAt hn hs htype hstage =>
    exact .inr ⟨_, .approval hn htype, rfl⟩
  | finish hn hs =>
    have hsound := h.sound _ _ _ hn
    rw [hs] at hsound
    exact .inr ⟨_, .last hn hsound, rfl⟩
  | _ => exact .inl rfl

theorem World.Reachable.store_invariant {I : Sys → Prop} (h₀ : ∀ s, s.Init → I s)
    (h : ∀ s op, I s → EngineOp s op → I (s.perform env op)) (hw : World.Reachable env w) :
    I w.sys := by
  have hboth : Tasked w ∧ I w.sys := by
    refine Reachable.invariant (I := fun w => Tasked w ∧ I w.sys)
      (fun w hinit => ⟨.init hinit, h₀ _ hinit.1⟩) (fun a w hw => ?_) hw
    obtain ⟨htask, hI⟩ := hw
    have hstep := World.step_cases env a w
    refine ⟨htask.step hstep, ?_⟩
    obtain hsame | ⟨op, hop, hperf⟩ := hstep.sys htask
    · rw [hsame]
      exact hI
    · rw [hperf]
      exact h _ op hI hop
  exact hboth.2

theorem World.Reachable.act (hw : World.Reachable env w) (a : Act) :
    World.Reachable env (w.step env a) :=
  Reachable.next hw a

/-- **The store of a reachable world is a reachable store.** -/
theorem World.Reachable.sys (hw : World.Reachable env w) : Sys.Reachable env w.sys :=
  hw.store_invariant (fun s h => ⟨s, [], h, rfl⟩) fun _ op hs _ => hs.next op

theorem World.Reachable.inv (hw : World.Reachable env w) : w.sys.Inv :=
  inv_of_reachable hw.sys

/-! ### Status and type -/

theorem definition_of_leased (hi : s.Inv) {n : ℕ} {workerID : String}
    (hn : s.issued[n]? = some (workerID, c)) {r : ExecutionStep} (hr : r ∈ s.db.steps)
    {owner : String} (hl : leasedTo c.step.id owner r = true) :
    r.definition = c.step.definition := by
  obtain ⟨r₀, hr₀, hdef, -⟩ := (hi.claims _ (List.mem_of_getElem? hn)).row
  have hid : r.id = r₀.id := by
    rw [leasedTo_id hl]
    exact (column_of_definition ExecutionStep.id (fun _ => rfl) hdef).symm
  rw [hi.consistent.eq_of_id hr hr₀ hid]
  exact hdef

/-- How the tables of a store used by engines depend on the types of steps. -/
structure Typed (db : DB) : Prop where
  type : ∀ r ∈ db.steps, r.stepType = r.immutableInput.step.type
  forward : ∀ r ∈ db.steps, r.isRollback = false →
    r.status ≠ .rollingBack ∧ r.status ≠ .rolledBack
  waiting : ∀ r ∈ db.steps, r.status = .waiting → r.stepType = .wait
  approvals : ∀ a ∈ db.approvals, ∃ r ∈ db.steps, r.id = a.executionStepID
    ∧ r.stepType = .approval
  /-- A completed approval step of a real run has been approved. -/
  gate : ∀ r ∈ db.steps, r.stepType = .approval → r.status = .completed →
    (∃ e ∈ db.executions, e.id = r.executionID ∧ e.dryRun = false) →
    ∃ a ∈ db.approvals, a.executionStepID = r.id ∧ a.status = .approved

section Step

variable {op : Op} {r r' : ExecutionStep}

theorem change_of_callOp (hi : s.Inv) {n : ℕ} {workerID : String} {c : ClaimedStep} {call : Call}
    (hn : s.issued[n]? = some (workerID, c)) (hr : r ∈ s.db.steps)
    (h : StepChange s (callOp n c call) r r') :
    r.definition = c.step.definition
      ∧ (r'.status = .retrying ∨ r'.status = .failed ∨ r'.status = .ambiguous
        ∨ r'.status = .skipped
        ∨ r'.status = finalStatus c ∧ (call = .dryRun ∨ ∃ output, call = .success output)) := by
  have hclaim : ∀ {workerID' : String} {c' : ClaimedStep},
      s.issued[n]? = some (workerID', c') → leasedTo c'.step.id workerID' r = true →
      r.definition = c.step.definition := by
    intro workerID' c' hn' hl
    obtain ⟨rfl, rfl⟩ := Prod.mk.inj (Option.some.inj (hn.symm.trans hn'))
    exact definition_of_leased hi hn hr hl
  have hfinal : completionStatus (finalStatus c) = finalStatus c := by
    rw [finalStatus]
    split <;> rfl
  cases call with
  | skip =>
    cases h with
    | complete hn' hl => exact ⟨hclaim hn' hl, .inr (.inr (.inr (.inl rfl)))⟩
  | dryRun =>
    cases h with
    | complete hn' hl => exact ⟨hclaim hn' hl, .inr (.inr (.inr (.inr ⟨hfinal, .inl rfl⟩)))⟩
  | success output =>
    cases h with
    | complete hn' hl =>
      exact ⟨hclaim hn' hl, .inr (.inr (.inr (.inr ⟨hfinal, .inr ⟨output, rfl⟩⟩)))⟩
  | failure err =>
    cases h with
    | retryLater hn' hl hlt => exact ⟨hclaim hn' hl, .inl rfl⟩
    | fail hn' hl => exact ⟨hclaim hn' hl, .inr (.inl rfl)⟩
  | ambiguous err =>
    cases h with
    | ambiguous hn' hl => exact ⟨hclaim hn' hl, .inr (.inr (.inl rfl))⟩

theorem forward_of_change (hi : s.Inv) (hop : EngineOp s op) (hr : r ∈ s.db.steps)
    (h : StepChange s op r r') (hphase : r'.isRollback = false) :
    r'.status ≠ .rollingBack ∧ r'.status ≠ .rolledBack := by
  cases hop with
  | wait hn htype | approval hn htype =>
    cases h
    constructor <;> intro h <;> cases h
  | @last _ _ c _ hn hsound =>
    have hphase' : r.isRollback = false := by
      rw [← hphase]
      exact (column_of_definition ExecutionStep.isRollback (fun _ => rfl) h.definition).symm
    obtain ⟨hdef, hstatus⟩ := change_of_callOp hi hn hr h
    have hback := column_of_definition ExecutionStep.isRollback (fun _ => rfl) hdef
    have hfinal : finalStatus c = .completed := by
      rw [finalStatus, ← hback, hphase']
      rfl
    rw [hfinal] at hstatus
    rcases hstatus with h | h | h | h | ⟨h, -⟩ <;> rw [h] <;> (constructor <;> intro h <;> cases h)
  | other hcall =>
    cases h with
    | claim he hcl =>
      replace hphase : r.isRollback = false := hphase
      simp [claimRow, hphase]
    | recover hexp =>
      simp only [recoverRow]
      split <;> (constructor <;> intro h <;> cases h)
    | timer hdue | expire ha hp hid | cancel hid hcan
    | retry hid hok => constructor <;> intro h <;> cases h
    | decide ha hid hp hstep hd =>
      simp only [decidedRow]
      split <;> (constructor <;> intro h <;> cases h)
    | wait | openApproval | complete | retryLater | fail | ambiguous => cases hcall

theorem wait_of_change (hi : s.Inv) (hop : EngineOp s op) (hr : r ∈ s.db.steps)
    (htype : r.stepType = r.immutableInput.step.type) (h : StepChange s op r r')
    (hwait : r'.status = .waiting) : r'.stepType = .wait := by
  cases hop with
  | wait hn hkind =>
    cases h with
    | wait hn' hl hs =>
      obtain ⟨rfl, rfl⟩ := Prod.mk.inj (Option.some.inj (hn.symm.trans hn'))
      have hdef := definition_of_leased hi hn hr hl
      have hinput := column_of_definition ExecutionStep.immutableInput (fun _ => rfl) hdef
      show r.stepType = .wait
      rw [htype, hinput, hkind]
  | approval hn hkind =>
    cases h
    cases hwait
  | @last _ _ c _ hn hsound =>
    obtain ⟨-, hstatus⟩ := change_of_callOp hi hn hr h
    have hfinal : finalStatus c ≠ .waiting := by
      rw [finalStatus]
      split <;> exact nofun
    rw [hwait] at hstatus
    rcases hstatus with h | h | h | h | ⟨h, -⟩
    · cases h
    · cases h
    · cases h
    · cases h
    · exact absurd h.symm hfinal
  | other hcall =>
    cases h with
    | claim he hcl =>
      simp only [claimRow] at hwait
      split at hwait <;> cases hwait
    | recover hexp =>
      simp only [recoverRow] at hwait
      split at hwait <;> cases hwait
    | decide ha hid hp hstep hd =>
      simp only [decidedRow] at hwait
      split at hwait <;> cases hwait
    | wait | openApproval | complete | retryLater | fail | ambiguous => cases hcall
    | timer | expire | cancel | retry => cases hwait

theorem decision_of_change (hi : s.Inv) (hop : EngineOp s op) (ht : Typed s.db)
    (hr : r ∈ s.db.steps) (h : StepChange s op r r') (htype : r.stepType = .approval)
    (hdone : r'.status = .completed)
    (hreal : ∃ e ∈ s.db.executions, e.id = r.executionID ∧ e.dryRun = false) :
    ∃ tenantID actor reason requestID traceID, ∃ a ∈ s.db.approvals,
      op = .decide tenantID a.id .approved actor reason requestID traceID
      ∧ a.status = .pending ∧ r.id = a.executionStepID := by
  cases hop with
  | wait hn hkind | approval hn hkind =>
    cases h
    cases hdone
  | @last _ _ c call hn hsound =>
    obtain ⟨hdef, hstatus⟩ := change_of_callOp hi hn hr h
    rw [hdone] at hstatus
    have hcall : call = .dryRun ∨ ∃ output, call = .success output := by
      rcases hstatus with h | h | h | h | ⟨-, h⟩
      · cases h
      · cases h
      · cases h
      · cases h
      · exact h
    rcases hcall with rfl | ⟨output, rfl⟩
    · -- A dry run: but the execution is a real one.
      obtain ⟨e₀, he₀, hid₀, hdry₀⟩ := (hi.claims _ (List.mem_of_getElem? hn)).execution
      obtain ⟨e, he, hid, hdry⟩ := hreal
      have hexec := column_of_definition ExecutionStep.executionID (fun _ => rfl) hdef
      have hsame : e₀ = e := hi.consistent.executions.eq_of_key he₀ he
        (hid₀.trans (hexec.symm.trans hid.symm))
      have hclaim : c.dryRun = true := hsound
      rw [← hdry₀, hsame, hdry] at hclaim
      cases hclaim
    -- The action of another type.
    have hinput := column_of_definition ExecutionStep.immutableInput (fun _ => rfl) hdef
    have hkind := ht.type r hr
    rw [htype, hinput] at hkind
    obtain ⟨-, h | h⟩ := hsound <;> rw [h] at hkind <;> cases hkind
  | other hcall =>
    cases h with
    | claim he hcl =>
      simp only [claimRow] at hdone
      split at hdone <;> cases hdone
    | recover hexp =>
      simp only [recoverRow] at hdone
      split at hdone <;> cases hdone
    | timer hdue =>
      rw [ht.waiting r hr (waiting_of_waitDue hdue)] at htype
      cases htype
    | @decide tenantID _ actor reason requestID traceID decision _ a ha hid hp hstep hd =>
      rcases hd with rfl | rfl
      · subst hid
        exact ⟨tenantID, actor, reason, requestID, traceID, a, ha, rfl, hp, hstep⟩
      · cases hdone
    | wait | openApproval | complete | retryLater | fail | ambiguous => cases hcall
    | expire | cancel | retry => cases hdone

theorem approved_of_decision (hc : Consistent s.db)
    {tenantID actor reason requestID traceID : String} {a : Approval} (ha : a ∈ s.db.approvals)
    (hp : a.status = .pending) (hr : r ∈ s.db.steps)
    (hid : r.id = a.executionStepID)
    (hr' : r' ∈ (s.perform env
      (.decide tenantID a.id .approved actor reason requestID traceID)).db.steps)
    (hsame : r'.id = r.id) (hdone : r'.status = .completed) :
    ∃ b ∈ (s.perform env
        (.decide tenantID a.id .approved actor reason requestID traceID)).db.approvals,
      b.executionStepID = r.id ∧ b.status = .approved := by
  simp only [Sys.perform, Sys.commit] at hr' ⊢
  have hout := decide_outcome env.exclusive s.now tenantID a.id .approved actor reason requestID
    traceID hc.owner
  generalize after env.exclusive _ s.db = db' at hout hr' ⊢
  cases hout with
  | refused =>
    -- The step of a pending approval is not completed.
    obtain rfl := hc.eq_of_id hr' hr hsame
    rcases (hc.of_pending hr ha hp hid).2 with h | h <;> rw [h] at hdone <;> cases hdone
  | approved =>
    rw [DB.audited_approvals, finalizedDB_approvals]
    exact ⟨decideApprovalRow s.now .approved actor reason a,
      mem_update_pos (p := fun y : Approval => y.id = a.id) ha (by simp), hid.symm, rfl⟩

end Step

namespace Typed

variable {op : Op}

theorem row_cases (hi : s.Inv) (op : Op) {r' : ExecutionStep}
    (hr' : r' ∈ (s.perform env op).db.steps) :
    (∃ r ∈ s.db.steps, r'.definition = r.definition ∧ (r' = r ∨ StepChange s op r r'))
      ∨ NewRow s op r' := by
  refine ((effect_perform env hi op).rows.prev hr').imp_left ?_
  rintro ⟨r, hr, hch⟩
  refine ⟨r, hr, ?_, hch⟩
  rcases hch with rfl | hch
  · rfl
  · exact hch.definition

theorem approvals_step (hi : s.Inv) (ht : Typed s.db) (hop : EngineOp s op) :
    ∀ a ∈ (s.perform env op).db.approvals, ∃ r ∈ (s.perform env op).db.steps,
      r.id = a.executionStepID ∧ r.stepType = .approval := by
  intro a' ha'
  have heff := effect_perform env hi op
  -- The row of a step of the old store is still there, with its type.
  have hkeep : ∀ r ∈ s.db.steps, ∃ r' ∈ (s.perform env op).db.steps,
      r'.id = r.id ∧ r'.stepType = r.stepType := by
    intro r hr
    obtain ⟨r', hr', rfl | hch⟩ := heff.rows.next hr
    · exact ⟨r', hr', rfl, rfl⟩
    · exact ⟨r', hr', hch.id,
        column_of_definition ExecutionStep.stepType (fun _ => rfl) hch.definition⟩
  have hstep : ∃ r ∈ s.db.steps, r.id = a'.executionStepID ∧ r.stepType = .approval := by
    rcases heff.approvalRows.prev ha' with ⟨a, ha, rfl | hch⟩ | hnew
    · exact ht.approvals a' ha
    · obtain ⟨r, hr, hid, htype⟩ := ht.approvals a ha
      exact ⟨r, hr, hid.trans hch.keys.2.symm, htype⟩
    cases hnew with
    | @requested n _ _ _ workerID c hn =>
      have hkind := hop.type_of_openApproval hn
      obtain ⟨r, hr, hdef, -⟩ := (hi.claims _ (List.mem_of_getElem? hn)).row
      refine ⟨r, hr, column_of_definition ExecutionStep.id (fun _ => rfl) hdef, ?_⟩
      rw [ht.type r hr, column_of_definition ExecutionStep.immutableInput
        (fun _ => rfl) hdef, hkind]
  obtain ⟨r, hr, hid, htype⟩ := hstep
  obtain ⟨r', hr', hid', htype'⟩ := hkeep r hr
  exact ⟨r', hr', hid'.trans hid, htype'.trans htype⟩

theorem gate_step (hi : s.Inv) (ht : Typed s.db) (hop : EngineOp s op) :
    ∀ r ∈ (s.perform env op).db.steps, r.stepType = .approval → r.status = .completed →
      (∃ e ∈ (s.perform env op).db.executions, e.id = r.executionID ∧ e.dryRun = false) →
      ∃ a ∈ (s.perform env op).db.approvals, a.executionStepID = r.id ∧ a.status = .approved := by
  intro r' hr' htype hdone hreal
  have heff := effect_perform env hi op
  rcases row_cases hi op hr' with ⟨r, hr, hdef, hch⟩ | hnew
  swap
  · rw [hnew.status] at hdone
    cases hdone
  have hid : r'.id = r.id := column_of_definition ExecutionStep.id (fun _ => rfl) hdef
  have hexec : r'.executionID = r.executionID :=
    column_of_definition ExecutionStep.executionID (fun _ => rfl) hdef
  have htype' : r.stepType = .approval := by
    rw [← htype]
    exact (column_of_definition ExecutionStep.stepType (fun _ => rfl) hdef).symm
  have hreal' : ∃ e ∈ s.db.executions, e.id = r.executionID ∧ e.dryRun = false := by
    obtain ⟨e', he', hid', hdry⟩ := hreal
    obtain ⟨e, he, hown⟩ := hi.consistent.owner r hr
    obtain ⟨kept, new, heq, hkept, -⟩ := heff.executions
    obtain ⟨e₁, he₁, hk⟩ := hkept.exists_mem he
    have hmem : e₁ ∈ (s.perform env op).db.executions := heq ▸ List.mem_append_left _ he₁
    have hsame : e₁ = e' := (heff.consistent hi.consistent).executions.eq_of_key hmem he'
      (by rw [hk.id, hown, hid', hexec])
    refine ⟨e, he, hown, ?_⟩
    rw [← hk.dryRun, hsame]
    exact hdry
  rcases hch with rfl | hch
  · obtain ⟨a, ha, hstep, happr⟩ := ht.gate r' hr htype hdone hreal'
    exact ⟨a, heff.approvalRows.keep ha (by rw [happr]; exact nofun), hstep, happr⟩
  obtain ⟨tenantID, actor, reason, requestID, traceID, a, ha, rfl, hp, hstep⟩ :=
    decision_of_change hi hop ht hr hch htype' hdone hreal'
  rw [hid]
  exact approved_of_decision hi.consistent ha hp hr hstep hr' hid hdone

theorem step (hi : s.Inv) (ht : Typed s.db) (hop : EngineOp s op) :
    Typed (s.perform env op).db := by
  refine ⟨?_, ?_, ?_, approvals_step hi ht hop, gate_step hi ht hop⟩
  · intro r' hr'
    rcases row_cases hi op hr' with ⟨r, hr, hdef, -⟩ | hnew
    · rw [column_of_definition ExecutionStep.stepType (fun _ => rfl) hdef,
        column_of_definition ExecutionStep.immutableInput (fun _ => rfl) hdef]
      exact ht.type r hr
    · cases hnew <;> rfl
  · intro r' hr' hphase
    rcases row_cases hi op hr' with ⟨r, hr, -, rfl | hch⟩ | hnew
    · exact ht.forward r' hr hphase
    · exact forward_of_change hi hop hr hch hphase
    · rw [hnew.status]
      exact ⟨nofun, nofun⟩
  intro r' hr' hwait
  rcases row_cases hi op hr' with ⟨r, hr, -, rfl | hch⟩ | hnew
  · exact ht.waiting r' hr hwait
  · exact wait_of_change hi hop hr (ht.type r hr) hch hwait
  · rw [hnew.status] at hwait
    cases hwait

end Typed

/-- **In every reachable world the status of a step agrees with its type, and a
completed approval step of a real run was approved.** -/
theorem typed_of_reachable (hw : World.Reachable env w) : Typed w.sys.db := by
  have hboth : w.sys.Inv ∧ Typed w.sys.db := by
    refine hw.store_invariant (I := fun s => s.Inv ∧ Typed s.db) (fun s h₀ => ?_)
      fun s op h hop => ⟨inv_perform env h.1 op, h.2.step h.1 hop⟩
    refine ⟨inv_init h₀, ?_⟩
    obtain ⟨-, hsteps, happr, -⟩ := h₀
    refine ⟨?_, ?_, ?_, ?_, ?_⟩ <;> simp [hsteps, happr]
  exact hboth.2

end StormRelay
