/-
Approval gates and the order of steps.

The order in which steps run is not stored: it comes from the `NOT EXISTS`
clause of the claim query, which every other writer of a step's status must
respect.

* `approval_gate` — **no step behind an approval step of a real run is ever
  claimed before the approval is given**, unless the approval step was skipped
  because its condition did not match;
* `strict_step_order` — **forward steps are done one by one**, finished ones
  stay as they are, and rollback steps are first claimed in the reverse order of
  the steps they roll back.
-/
import StormRelay.Tasks
import Mathlib.Data.List.Pairwise

namespace StormRelay

open Tx Table Transition

variable {env : Env} {w w' : World} {s : Sys}

/-! ### Why a step was skipped -/

/-- Some worker judged the condition of the step on inputs that do not match
it. -/
def Judged (w : World) (r : ExecutionStep) : Prop :=
  ∃ n workerID c condition inputs, w.sys.issued[n]? = some (workerID, c)
    ∧ r.definition = c.step.definition ∧ r.immutableInput.step.condition = some condition
    ∧ Event.judged n inputs ∈ w.trace ∧ conditionMatches condition inputs = false

structure SkipSound (w : World) : Prop where
  tasks : ∀ n workerID c, w.sys.issued[n]? = some (workerID, c) → w.stage n = .calling .skip →
    ∃ condition inputs, c.step.immutableInput.step.condition = some condition
      ∧ Event.judged n inputs ∈ w.trace ∧ conditionMatches condition inputs = false
  rows : ∀ r ∈ w.sys.db.steps, r.status = .skipped → Judged w r

theorem WorldStep.trace (h : WorldStep env w w') : w.trace <+: w'.trace := by
  cases h <;> first | exact List.prefix_append _ _ | exact List.prefix_refl _

theorem WorldStep.issued (h : WorldStep env w w') : w.sys.issued <+: w'.sys.issued := by
  cases h <;> first | exact perform_issued_prefix _ _ _ | exact List.prefix_refl _

variable {p r : ExecutionStep}

theorem Judged.step {r' : ExecutionStep} (h : Judged w r) (hstep : WorldStep env w w')
    (hdef : r'.definition = r.definition) : Judged w' r' := by
  obtain ⟨n, workerID, c, condition, inputs, hn, hc, hcond, hmem, hno⟩ := h
  obtain ⟨new, hnew⟩ := hstep.issued
  refine ⟨n, workerID, c, condition, inputs, ?_, hdef.trans hc, ?_, hstep.trace.subset hmem, hno⟩
  · rw [← hnew, List.getElem?_append_left (List.getElem?_eq_some_iff.mp hn).1]
    exact hn
  · rw [column_of_definition ExecutionStep.immutableInput (fun _ => rfl) hdef]
    exact hcond

theorem not_skipped_of_change {op : Op} {r' : ExecutionStep} (h : StepChange s op r r')
    (hop : ∀ n output, op ≠ .complete n .skipped output none) : r'.status ≠ .skipped := by
  cases h with
  | claim he hcl =>
    simp only [claimRow]
    split <;> (intro h; cases h)
  | recover hexp =>
    simp only [recoverRow]
    split <;> (intro h; cases h)
  | @complete n status output workerID c hn hl =>
    intro hskip
    have hstatus : status ≠ .skipped := fun h => hop n output (by rw [h])
    simp only [completeRow, completionStatus] at hskip
    split at hskip
    · cases hskip
    · exact hstatus hskip
  | decide ha hid hp hstep hd =>
    simp only [decidedRow]
    split <;> (intro h; cases h)
  | _ => rintro h; cases h

namespace SkipSound

theorem rows_step (hi : w.sys.Inv) (h : SkipSound w) (hstep : WorldStep env w w') (op : Op)
    (hsys : w'.sys = w.sys.perform env op)
    (hchange : ∀ r ∈ w.sys.db.steps, ∀ r', StepChange w.sys op r r' → r'.status = .skipped →
      Judged w' r') :
    ∀ r' ∈ w'.sys.db.steps, r'.status = .skipped → Judged w' r' := by
  intro r' hr' hskip
  rw [hsys] at hr'
  rcases Typed.row_cases hi op hr' with ⟨r, hr, hdef, rfl | hch⟩ | hnew
  · exact (h.rows r' hr hskip).step hstep rfl
  · exact hchange r hr r' hch hskip
  · rw [hnew.status] at hskip
    cases hskip

theorem tasks_step (h : SkipSound w) (hstep : WorldStep env w w') (htask : Tasked w)
    (hstage : ∀ n, w'.stage n = .calling .skip → w.stage n = .calling .skip) :
    ∀ n workerID c, w'.sys.issued[n]? = some (workerID, c) → w'.stage n = .calling .skip →
      ∃ condition inputs, c.step.immutableInput.step.condition = some condition
        ∧ Event.judged n inputs ∈ w'.trace ∧ conditionMatches condition inputs = false := by
  intro n workerID c hn hskip
  have hold := hstage n hskip
  have hlt : n < w.sys.issued.length := htask.begun n (by rw [hold]; exact nofun)
  obtain ⟨new, hnew⟩ := hstep.issued
  rw [← hnew, List.getElem?_append_left hlt] at hn
  obtain ⟨condition, inputs, hcond, hmem, hno⟩ := h.tasks n workerID c hn hold
  exact ⟨condition, inputs, hcond, hstep.trace.subset hmem, hno⟩

theorem stage_of_move {v : World} {m n : ℕ} {stage : Stage} (hne : stage ≠ .calling .skip)
    (h : (v.move m stage).stage n = .calling .skip) : v.stage n = .calling .skip := by
  rcases eq_or_ne n m with rfl | hnm
  · rw [World.move_stage_self] at h
    exact absurd h hne
  · rwa [World.move_stage_of_ne hnm] at h

theorem step (hi : w.sys.Inv) (htask : Tasked w) (h : SkipSound w) (hstep : WorldStep env w w') :
    SkipSound w' := by
  have hcopy := hstep
  -- Without a store operation the rows are as they were.
  have hsame : w'.sys = w.sys → ∀ r ∈ w'.sys.db.steps, r.status = .skipped → Judged w' r := by
    intro hsys r hr hskip
    rw [hsys] at hr
    exact (h.rows r hr hskip).step hcopy rfl
  have hcalled : ∀ {stage : Stage}, Called stage → stage ≠ .calling .skip := by
    rintro stage (_ | _) <;> (intro heq; cases heq)
  cases hstep with
  | idle => exact h
  | store op hop =>
    refine ⟨h.tasks_step hcopy htask fun _ hn => hn, h.rows_step hi hcopy op rfl ?_⟩
    intro r hr r' hch hskip
    refine absurd hskip (not_skipped_of_change hch ?_)
    rintro n output rfl
    cases hop
  | @begin n workerID c stage events hn hs hevents hstage =>
    refine ⟨?_, hsame rfl⟩
    intro m workerID' c' hm hskip
    rcases eq_or_ne m n with rfl | hne
    · obtain ⟨rfl, rfl⟩ := Prod.mk.inj (Option.some.inj (hn.symm.trans hm))
      replace hskip : (w.move m stage).stage m = .calling .skip := hskip
      rw [World.move_stage_self] at hskip
      subst hskip
      cases hstage with
      | @skip condition inputs hcond hno =>
        exact ⟨condition, inputs, hcond, List.mem_append_right _ (List.mem_singleton.mpr rfl), hno⟩
    replace hskip : (w.move n stage).stage m = .calling .skip := hskip
    rw [World.move_stage_of_ne hne] at hskip
    obtain ⟨condition, inputs, hcond, hmem, hno⟩ := h.tasks m workerID' c' hm hskip
    exact ⟨condition, inputs, hcond, List.mem_append_left _ hmem, hno⟩
  | fail err hn hs | plugin output hn hs htype | send hn hs htype | lost hn hs =>
    exact ⟨h.tasks_step hcopy htask fun _ => stage_of_move (fun heq => by cases heq), hsame rfl⟩
  | @wait n _ _ _ until_ hn hs htype hstage =>
    refine ⟨h.tasks_step hcopy htask fun _ => stage_of_move (hcalled hstage),
      h.rows_step hi hcopy (.scheduleWait n until_) rfl ?_⟩
    intro r hr r' hch hskip
    exact absurd hskip (not_skipped_of_change hch fun _ _ heq => by cases heq)
  | @approval n _ _ _ approvalID prompt expiresAt hn hs htype hstage =>
    refine ⟨h.tasks_step hcopy htask fun _ => stage_of_move (hcalled hstage),
      h.rows_step hi hcopy (.openApproval n approvalID prompt expiresAt) rfl ?_⟩
    intro r hr r' hch hskip
    exact absurd hskip (not_skipped_of_change hch fun _ _ heq => by cases heq)
  | respond result hn hs =>
    refine ⟨h.tasks_step hcopy htask fun _ => stage_of_move ?_, hsame rfl⟩
    rcases result with err | output
    · rw [responseStage]
      split <;> (intro heq; cases heq)
    · intro heq
      cases heq
  | @finish n workerID c call hn hs =>
    refine ⟨h.tasks_step hcopy htask fun _ => stage_of_move (fun heq => by cases heq),
      h.rows_step hi hcopy (callOp n c call) rfl ?_⟩
    intro r hr r' hch hskip
    have hfinal : finalStatus c ≠ .skipped := by
      rw [finalStatus]
      split <;> (intro heq; cases heq)
    cases call with
    | skip =>
      obtain ⟨hdef, -⟩ := change_of_callOp hi hn hr hch
      obtain ⟨condition, inputs, hcond, hmem, hno⟩ := h.tasks n workerID c hn hs
      have hold : Judged w r := by
        refine ⟨n, workerID, c, condition, inputs, hn, hdef, ?_, hmem, hno⟩
        rw [column_of_definition ExecutionStep.immutableInput (fun _ => rfl) hdef]
        exact hcond
      exact hold.step hcopy hch.definition
    | dryRun | success output =>
      refine absurd hskip (not_skipped_of_change hch ?_)
      intro m output heq
      exact hfinal (Op.complete.inj heq).2.1
    | failure err
    | ambiguous err => exact absurd hskip (not_skipped_of_change hch fun _ _ heq => by cases heq)

end SkipSound

theorem skipSound_of_reachable (hw : World.Reachable env w) : SkipSound w := by
  have hboth : (w.sys.Inv ∧ Tasked w) ∧ SkipSound w := by
    refine Reachable.invariant (I := fun w => (w.sys.Inv ∧ Tasked w) ∧ SkipSound w)
      (fun w h₀ => ?_) (fun a w h => ?_) hw
    · refine ⟨⟨inv_init h₀.1, .init h₀⟩, ?_, ?_⟩
      · intro n _ _ _ hskip
        rw [h₀.2.1 n] at hskip
        cases hskip
      · intro r hr
        rw [h₀.1.2.1] at hr
        cases hr
    obtain ⟨⟨hi, htask⟩, hskip⟩ := h
    have hstep := World.step_cases env a w
    refine ⟨⟨?_, htask.step hstep⟩, hskip.step hi htask hstep⟩
    obtain hsame | ⟨op, -, hperf⟩ := hstep.sys htask
    · rw [hsame]
      exact hi
    · rw [hperf]
      exact inv_perform env hi op
  exact hboth.2

/-! ### The approval gate -/

/-- **The approval gate.**  In every reachable world, and for every execution
that is not a dry run: if `p` is a forward approval step and some later forward
step was ever claimed, then `p` was skipped, its condition having been judged
not to match, or its approval is approved. -/
theorem approval_gate (hw : World.Reachable env w) {e : Execution} {p q : ExecutionStep}
    (he : e ∈ w.sys.db.executions) (hreal : e.dryRun = false)
    (hp : p ∈ w.sys.db.steps) (hpe : p.executionID = e.id) (hpf : p.isRollback = false)
    (htype : p.stepType = .approval)
    (hq : q ∈ w.sys.db.steps) (hqe : q.executionID = e.id) (hqf : q.isRollback = false)
    (hlater : p.position < q.position) (hclaimed : 0 < q.attemptCount) :
    p.status = .skipped ∧ Judged w p
      ∨ ∃ a ∈ w.sys.db.approvals, a.executionStepID = p.id ∧ a.status = .approved := by
  have hfin : p.status.finished = true :=
    hw.inv.consistent.ordered q hq hclaimed p hp ⟨hpe.trans hqe.symm, hpf.trans hqf.symm, hlater⟩
  have htyped := typed_of_reachable hw
  rcases StepStatus.finished_iff.mp hfin with hdone | hskip | hback
  · exact .inr (htyped.gate p hp htype hdone ⟨e, he, hpe.symm, hreal⟩)
  · exact .inl ⟨hskip, (skipSound_of_reachable hw).rows p hp hskip⟩
  · exact absurd hback (htyped.forward p hp hpf).2

def gatedEnv : Env :=
  { platform := plainPlatform (runbookWith
      [{ id := "confirm", type := .approval, inputs := { prompt := "restart?" } }, idempotentStep])
    exclusive := true }

def idleWorld : World :=
  { sys := oneRunbook, stage := fun _ => .fresh, trace := [] }

theorem idleWorld_init : idleWorld.Init :=
  ⟨⟨rfl, rfl, rfl, rfl⟩, fun _ => rfl, rfl⟩

def approvedRun : List Act :=
  [.store (starting ["s1", "s2"]), .store claiming, .begin 0 none,
    .act 0 .answered "ap" (.ok none), .store (.decide "t" "ap" .approved "ops" "" "" ""),
    .store claiming]

def approvedWorld : World :=
  run (World.step gatedEnv) approvedRun idleWorld

/-- The gate in `approvedWorld`: the second step was claimed, so the first has
its approval. -/
theorem approval_gate_approved :
    ∃ p q, p ∈ approvedWorld.sys.db.steps ∧ q ∈ approvedWorld.sys.db.steps
      ∧ p.stepType = .approval ∧ p.position < q.position ∧ 0 < q.attemptCount
      ∧ (p.status = .skipped ∧ Judged approvedWorld p
        ∨ ∃ a ∈ approvedWorld.sys.db.approvals, a.executionStepID = p.id
          ∧ a.status = .approved) := by
  have hexec : (approvedWorld.sys.db.executions.map fun e => (e.id, e.dryRun))
      = [("e", false)] := by
    decide +kernel
  have hsteps : (approvedWorld.sys.db.steps.map fun r =>
      (r.executionID, r.isRollback, r.stepType, r.position, r.attemptCount))
      = [("e", false, .approval, 0, 1), ("e", false, .http, 1, 1)] := by
    decide +kernel
  obtain ⟨e, he, hrow⟩ := Table.exists_row hexec List.mem_cons_self
  obtain ⟨p, hp, hprow⟩ := Table.exists_row hsteps List.mem_cons_self
  obtain ⟨q, hq, hqrow⟩ := Table.exists_row hsteps (List.mem_cons_of_mem _ List.mem_cons_self)
  simp only [Prod.mk.injEq] at hrow hprow hqrow
  obtain ⟨hpe, hpf, hpt, hpp, -⟩ := hprow
  obtain ⟨hqe, hqf, -, hqp, hqa⟩ := hqrow
  have hlater : p.position < q.position := by omega
  have hclaimed : 0 < q.attemptCount := by omega
  have hreach : World.Reachable gatedEnv approvedWorld :=
    ⟨idleWorld, approvedRun, idleWorld_init, rfl⟩
  exact ⟨p, q, hp, hq, hpt, hlater, hclaimed,
    approval_gate hreach he hrow.2 hp (hpe.trans hrow.1.symm) hpf hpt hq (hqe.trans hrow.1.symm) hqf
      hlater hclaimed⟩

/-! ### The order of rollback steps -/

/-- Among the steps `t`, `p` rolls back the forward step `f` of its execution. -/
structure RollsBack (t : List ExecutionStep) (p f : ExecutionStep) : Prop where
  mem : f ∈ t
  source : p.rollbackOf = some f.id
  execution : f.executionID = p.executionID
  forward : f.isRollback = false

/-- `p` comes before `q` and rolls back a later step. -/
def RollsBackLater (t : List ExecutionStep) (p q : ExecutionStep) : Prop :=
  p.position < q.position
    ∧ ∃ f g, RollsBack t p f ∧ RollsBack t q g ∧ g.position < f.position

def RollbackOrdered (t : List ExecutionStep) : Prop :=
  t.Pairwise fun p q => p.isRollback = true → q.isRollback = true →
    p.executionID = q.executionID → RollsBackLater t p q

variable {db : DB}

theorem rollbackSources_descending (h : NoConflict db.steps) (executionID : String) :
    (rollbackSources executionID db).Pairwise fun x y => y.1.position < x.1.position := by
  have hdistinct : (db.steps.filterMap fun es =>
      if es.executionID = executionID && !es.isRollback && es.status = .completed then
        es.rollbackDefinition.map fun action => (es, action)
      else none).Pairwise fun x y => x.1.position ≠ y.1.position := by
    rw [List.pairwise_filterMap]
    refine h.imp fun {y z} hyz x hx x' hx' => ?_
    split at hx
    swap
    · cases hx
    split at hx'
    swap
    · cases hx'
    rename_i hy hz
    obtain ⟨_, -, rfl⟩ := Option.map_eq_some_iff.mp hx
    obtain ⟨_, -, rfl⟩ := Option.map_eq_some_iff.mp hx'
    simp only [Bool.and_eq_true, decide_eq_true_eq, Bool.not_eq_true'] at hy hz
    -- Two forward steps of one execution at one position are in conflict.
    intro hpos
    replace hpos : y.position = z.position := hpos
    simp [DB.stepsConflict, hy, hz, hpos] at hyz
  have : Std.Total fun x y : ExecutionStep × Action => y.1.position ≤ x.1.position :=
    ⟨fun x y => Nat.le_total _ _⟩
  have : IsTrans (ExecutionStep × Action) fun x y => y.1.position ≤ x.1.position :=
    ⟨fun x y z hxy hyz => le_trans hyz hxy⟩
  refine (pairwise_sorted (fun x y : ExecutionStep × Action => y.1.position ≤ x.1.position)
    (fun h => h.symm) hdistinct).imp fun {x y} hxy => ?_
  exact lt_of_le_of_ne hxy.1 hxy.2.symm

variable {executionID : String}

theorem mem_rollbackSources {source : ExecutionStep} {action : Action}
    (h : (source, action) ∈ rollbackSources executionID db) :
    source ∈ db.steps ∧ source.executionID = executionID ∧ source.isRollback = false := by
  obtain ⟨hmem, hexec, hphase, -⟩ := mem_rollbackSources_iff.mp h
  exact ⟨hmem, hexec, hphase⟩

variable {new t : List ExecutionStep}

theorem RollbackRows.pairwise {now : Time} {position : ℕ} {sources : List (ExecutionStep × Action)}
    {rows : List ExecutionStep} (h : RollbackRows now executionID position sources rows)
    (hmem : ∀ x ∈ sources, x.1 ∈ t ∧ x.1.executionID = executionID ∧ x.1.isRollback = false)
    (hdesc : sources.Pairwise fun x y => y.1.position < x.1.position) :
    rows.Pairwise (RollsBackLater t)
      ∧ ∀ r ∈ rows, position ≤ r.position ∧ ∃ x ∈ sources, RollsBack t r x.1 := by
  induction h with
  | nil position => exact ⟨.nil, fun _ hr => by cases hr⟩
  | @cons position source action sources rows timeout retry rollbackID htimeout hretry hrest ih =>
    obtain ⟨hhead, htail⟩ := List.pairwise_cons.mp hdesc
    obtain ⟨hpair, hrows⟩ := ih (fun x hx => hmem x (List.mem_cons_of_mem _ hx)) htail
    have hsource : RollsBack t (rollbackRow now executionID rollbackID position source
        (rollbackStep source action) timeout retry) source := by
      obtain ⟨hin, hexec, hforward⟩ := hmem _ List.mem_cons_self
      exact ⟨hin, rfl, hexec, hforward⟩
    constructor
    · refine List.pairwise_cons.mpr ⟨fun q hq => ?_, hpair⟩
      obtain ⟨hpos, x, hx, hof⟩ := hrows q hq
      exact ⟨hpos, source, x.1, hsource, hof, hhead x hx⟩
    intro r hr
    rcases List.mem_cons.mp hr with rfl | hr
    · exact ⟨le_rfl, _, List.mem_cons_self, hsource⟩
    · obtain ⟨hpos, x, hx, hof⟩ := hrows r hr
      exact ⟨by omega, x, List.mem_cons_of_mem _ hx, hof⟩

variable {g : ExecutionStep → ExecutionStep}

theorem RollsBack.map_append (hg : ∀ r ∈ t, (g r).definition = r.definition) {f : ExecutionStep}
    (hp : p ∈ t) (h : RollsBack t p f) : RollsBack (t.map g ++ new) (g p) (g f) := by
  refine ⟨List.mem_append_left _ (List.mem_map_of_mem h.mem), ?_, ?_, ?_⟩
  · rw [column_of_definition ExecutionStep.rollbackOf (fun _ => rfl) (hg p hp),
      column_of_definition ExecutionStep.id (fun _ => rfl) (hg f h.mem)]
    exact h.source
  · rw [column_of_definition ExecutionStep.executionID (fun _ => rfl) (hg p hp),
      column_of_definition ExecutionStep.executionID (fun _ => rfl) (hg f h.mem)]
    exact h.execution
  · rw [column_of_definition ExecutionStep.isRollback (fun _ => rfl) (hg f h.mem)]
    exact h.forward

theorem RollsBackLater.map_append (hg : ∀ r ∈ t, (g r).definition = r.definition)
    {q : ExecutionStep} (hp : p ∈ t) (hq : q ∈ t) (h : RollsBackLater t p q) :
    RollsBackLater (t.map g ++ new) (g p) (g q) := by
  have hposition : ∀ r ∈ t, (g r).position = r.position := fun r hr =>
    column_of_definition ExecutionStep.position (fun _ => rfl) (hg r hr)
  obtain ⟨hpos, f, k, hpf, hqk, hlt⟩ := h
  refine ⟨?_, g f, g k, hpf.map_append hg hp, hqk.map_append hg hq, ?_⟩
  · rw [hposition p hp, hposition q hq]
    exact hpos
  · rw [hposition f hpf.mem, hposition k hqk.mem]
    exact hlt

theorem RollbackOrdered.append (h : RollbackOrdered t)
    (hg : ∀ r ∈ t, (g r).definition = r.definition)
    (hcross : ∀ p ∈ t, ∀ q ∈ new, p.isRollback = true → q.isRollback = true →
      p.executionID ≠ q.executionID)
    (hnew : new.Pairwise fun p q => p.isRollback = true → q.isRollback = true →
      p.executionID = q.executionID → RollsBackLater (t.map g ++ new) p q) :
    RollbackOrdered (t.map g ++ new) := by
  have hexec : ∀ r ∈ t, (g r).executionID = r.executionID := fun r hr =>
    column_of_definition ExecutionStep.executionID (fun _ => rfl) (hg r hr)
  have hphase : ∀ r ∈ t, (g r).isRollback = r.isRollback := fun r hr =>
    column_of_definition ExecutionStep.isRollback (fun _ => rfl) (hg r hr)
  rw [RollbackOrdered, List.pairwise_append]
  refine ⟨?_, hnew, ?_⟩
  · rw [List.pairwise_map]
    refine List.Pairwise.imp_of_mem (fun {p q} hp hq hpq => ?_) h
    rw [hphase p hp, hphase q hq, hexec p hp, hexec q hq]
    exact fun h₁ h₂ h₃ => (hpq h₁ h₂ h₃).map_append hg hp hq
  intro p' hp' q hq
  obtain ⟨p, hp, rfl⟩ := List.mem_map.mp hp'
  rw [hphase p hp, hexec p hp]
  exact fun h₁ h₂ h₃ => absurd h₃ (hcross p hp q hq h₁ h₂)

theorem RollbackOrdered.step (hi : s.Inv) (h : RollbackOrdered s.db.steps) (op : Op) :
    RollbackOrdered (s.perform env op).db.steps := by
  by_cases hback : ∃ ids tenantID executionID actor requestID traceID,
      op = .rollback ids tenantID executionID actor requestID traceID
  · obtain ⟨ids, tenantID, executionID, actor, requestID, traceID, rfl⟩ := hback
    obtain hsame | ⟨e, rows, entry, -, -, hnone, hrows, -, -, hafter⟩ :=
      rollback_cases env.exclusive
      s.db s.now ids tenantID executionID actor requestID traceID
    · show RollbackOrdered (after env.exclusive _ s.db).steps
      rw [hsame]
      exact h
    show RollbackOrdered (after env.exclusive _ s.db).steps
    rw [hafter]
    show RollbackOrdered (s.db.steps ++ rows)
    obtain ⟨hpair, -⟩ := hrows.pairwise (t := s.db.steps)
      (fun x hx => mem_rollbackSources hx) (rollbackSources_descending hi.consistent.steps _)
    have hid : s.db.steps ++ rows = s.db.steps.map (fun r => r) ++ rows := by simp
    rw [hid]
    refine h.append (fun _ _ => rfl) (fun p hp q hq hpb _ hexec => ?_) ?_
    · -- The execution had no rollback step before.
      obtain ⟨_, _, _, _, _, _, -, -, -, rfl⟩ := hrows.mem hq
      rw [hnone p hp hexec] at hpb
      cases hpb
    refine hpair.imp fun {p q} hpq _ _ _ => ?_
    obtain ⟨hpos, f, k, hpf, hqk, hlt⟩ := hpq
    exact ⟨hpos, f, k,
      ⟨List.mem_append_left _ (by simpa using hpf.mem), hpf.source, hpf.execution, hpf.forward⟩,
      ⟨List.mem_append_left _ (by simpa using hqk.mem), hqk.source, hqk.execution, hqk.forward⟩,
      hlt⟩
  obtain ⟨g, new, hsteps, hg, hnew⟩ := (effect_perform env hi op).rows
  have hforward : ∀ r ∈ new, r.isRollback = false := by
    intro r hr
    cases hnew r hr with
    | forward => rfl
    | rollback => exact absurd ⟨_, _, _, _, _, _, rfl⟩ hback
  rw [hsteps]
  refine h.append (fun r hr => ?_) (fun p _ q hq _ hqb => ?_) ?_
  · rcases hg r hr with heq | hch
    · rw [heq]
    · exact hch.definition
  · rw [hforward q hq] at hqb
    cases hqb
  refine List.Pairwise.imp_of_mem (fun {p q} hp _ _ hpb => ?_)
    (List.pairwise_of_forall fun _ _ => True.intro)
  rw [hforward p hp] at hpb
  cases hpb

theorem rollbackOrdered_of_reachable (hs : Sys.Reachable env s) : RollbackOrdered s.db.steps := by
  have hboth : s.Inv ∧ RollbackOrdered s.db.steps := by
    refine Reachable.invariant (I := fun s => s.Inv ∧ RollbackOrdered s.db.steps)
      (fun s h₀ => ⟨inv_init h₀, ?_⟩)
      (fun op s h => ⟨inv_perform env h.1 op, h.2.step h.1 op⟩) hs
    rw [h₀.2.1]
    exact .nil
  exact hboth.2

/-! ### The order of steps -/

/-- The forward steps of an execution, ordered by position. -/
def forwardSteps (executionID : String) (db : DB) : List ExecutionStep :=
  (db.steps.filter fun es => es.executionID = executionID && !es.isRollback).insertionSort
    fun a b => a.position ≤ b.position

theorem mem_forwardSteps :
    r ∈ forwardSteps executionID db
      ↔ r ∈ db.steps ∧ r.executionID = executionID ∧ r.isRollback = false := by
  rw [forwardSteps, List.mem_insertionSort, List.mem_filter]
  simp

theorem forwardSteps_ascending (h : NoConflict db.steps) (executionID : String) :
    (forwardSteps executionID db).Pairwise fun p q => p.position < q.position := by
  have hdistinct :
      (db.steps.filter fun es => es.executionID = executionID && !es.isRollback).Pairwise
      fun p q => p.position ≠ q.position := by
    rw [List.pairwise_filter]
    refine h.imp fun {p q} hpq hp hq hpos => ?_
    simp only [Bool.and_eq_true, decide_eq_true_eq, Bool.not_eq_true'] at hp hq
    simp [DB.stepsConflict, hp, hq, hpos] at hpq
  have : Std.Total fun a b : ExecutionStep => a.position ≤ b.position :=
    ⟨fun a b => Nat.le_total _ _⟩
  have : IsTrans ExecutionStep fun a b => a.position ≤ b.position :=
    ⟨fun a b c hab hbc => le_trans hab hbc⟩
  refine (pairwise_sorted (fun a b : ExecutionStep => a.position ≤ b.position)
    (fun h => h.symm) hdistinct).imp fun {p q} hpq => ?_
  exact lt_of_le_of_ne hpq.1 hpq.2

/-- The statuses of the one step an execution is at. -/
def StepStatus.active (status : StepStatus) : Prop :=
  status = .running ∨ status = .retrying ∨ status = .waiting ∨ status = .waitingApproval
    ∨ status = .failed ∨ status = .ambiguous

theorem forward_split (hw : World.Reachable env w) (executionID : String) :
    ∃ done current rest, forwardSteps executionID w.sys.db = done ++ current ++ rest
      ∧ (∀ r ∈ done, r.status = .completed ∨ r.status = .skipped) ∧ current.length ≤ 1
      ∧ (∀ r ∈ current, r.status.active)
      ∧ ∀ r ∈ rest, r.status = .pending ∨ r.status = .canceled := by
  have hc := hw.inv.consistent
  have htyped := typed_of_reachable hw
  have hfinished : ∀ r ∈ forwardSteps executionID w.sys.db, r.status.finished = true →
      r.status = .completed ∨ r.status = .skipped := by
    intro r hr hfin
    obtain ⟨hmem, -, hphase⟩ := mem_forwardSteps.mp hr
    rcases StepStatus.finished_iff.mp hfin with h | h | h
    · exact .inl h
    · exact .inr h
    · exact absurd h (htyped.forward r hmem hphase).2
  refine three_way_split (fun r hr => ?_) ?_
  · obtain ⟨hmem, -, hphase⟩ := mem_forwardSteps.mp hr
    obtain ⟨hrolling, hrolled⟩ := htyped.forward r hmem hphase
    rw [StepStatus.active]
    cases hst : r.status <;> simp_all
  refine List.Pairwise.imp_of_mem (fun {p q} hp hq hpq => ?_)
    (forwardSteps_ascending hc.steps executionID)
  obtain ⟨hpm, hpe, hpf⟩ := mem_forwardSteps.mp hp
  obtain ⟨hqm, hqe, hqf⟩ := mem_forwardSteps.mp hq
  -- A started step has finished steps before it; one that is not has not moved.
  rcases Nat.eq_zero_or_pos q.attemptCount with hzero | hpos
  · exact .inr (hc.started q hqm hzero)
  · exact .inl (hfinished p hp
      (hc.ordered q hqm hpos p hpm ⟨hpe.trans hqe.symm, hpf.trans hqf.symm, hpq⟩))

theorem next_row (hw : World.Reachable env w) (a : Act) (hr : r ∈ w.sys.db.steps) :
    ∃ r' ∈ (w.step env a).sys.db.steps, r' = r ∨ ∃ op, StepChange w.sys op r r' := by
  obtain hsame | ⟨op, -, hperf⟩ := (World.step_cases env a w).sys (tasked_of_reachable hw)
  · rw [hsame]
    exact ⟨r, hr, .inl rfl⟩
  · rw [hperf]
    obtain ⟨r', hr', hch⟩ := (effect_perform env hw.inv op).rows.next hr
    exact ⟨r', hr', hch.imp_right fun h => ⟨op, h⟩⟩

theorem finished_stays (hw : World.Reachable env w) (hr : r ∈ w.sys.db.steps)
    (hfin : r.status.finished = true) (as : List Act) :
    r ∈ (run (World.step env) as w).sys.db.steps := by
  have hstep : ∀ a v, World.Reachable env v ∧ r ∈ v.sys.db.steps →
      World.Reachable env (v.step env a) ∧ r ∈ (v.step env a).sys.db.steps := by
    rintro a v ⟨hv, hmem⟩
    refine ⟨hv.act a, ?_⟩
    obtain ⟨r', hr', rfl | ⟨op, hch⟩⟩ := next_row hv a hmem
    · exact hr'
    · rw [hch.unfinished hv.inv.consistent hmem] at hfin
      cases hfin
  exact (run_invariant hstep as ⟨hw, hr⟩).2

/-- When a rollback step is claimed for the first time, the rollback steps of
later forward steps are finished, and those of earlier ones were never
claimed. -/
theorem rollback_first_claim (hw : World.Reachable env w) (a : Act) {q q' : ExecutionStep}
    (hq : q ∈ w.sys.db.steps) (hqb : q.isRollback = true) (hfresh : q.attemptCount = 0)
    (hq' : q' ∈ (w.step env a).sys.db.steps) (hid : q'.id = q.id) (hclaim : 0 < q'.attemptCount)
    (hp : p ∈ w.sys.db.steps) (hpb : p.isRollback = true) (hexec : p.executionID = q.executionID)
    (hne : p ≠ q) :
    ∃ f g, RollsBack w.sys.db.steps p f ∧ RollsBack w.sys.db.steps q g
      ∧ (g.position < f.position ∧ 0 < p.attemptCount ∧ p.status.finished = true
        ∨ f.position < g.position ∧ p.attemptCount = 0) := by
  have hc := hw.inv.consistent
  have hearlier : earlierUnfinished w.sys.db q = false := by
    obtain ⟨q'', hq'', hch⟩ := next_row hw a hq
    have hsame : q'' = q' := by
      refine (hw.act a).inv.consistent.eq_of_id hq'' hq' ?_
      rw [hid]
      rcases hch with rfl | ⟨op, hch⟩
      · rfl
      · exact hch.id
    rcases hch with rfl | ⟨op, hch⟩
    · rw [← hsame, hfresh] at hclaim
      cases hclaim
    · exact hch.first_attempt hfresh (hsame ▸ hclaim)
  have hpair : RollsBackLater w.sys.db.steps p q ∨ RollsBackLater w.sys.db.steps q p := by
    have : Std.Symm fun p q : ExecutionStep => p.isRollback = true → q.isRollback = true →
        p.executionID = q.executionID →
        RollsBackLater w.sys.db.steps p q ∨ RollsBackLater w.sys.db.steps q p :=
      ⟨fun p q h h₁ h₂ h₃ => (h h₂ h₁ h₃.symm).symm⟩
    have hordered := (rollbackOrdered_of_reachable hw.sys).imp
      (fun {p q} h h₁ h₂ h₃ => Or.inl (b := RollsBackLater w.sys.db.steps q p) (h h₁ h₂ h₃))
    exact hordered.forall hp hq hne hpb hqb hexec
  rcases hpair with ⟨hpos, f, g, hpf, hqg, hlt⟩ | ⟨hpos, g, f, hqg, hpf, hlt⟩
  · refine ⟨f, g, hpf, hqg, .inl ⟨hlt, ?_⟩⟩
    have hfin : p.status.finished = true := by
      rw [earlierUnfinished, List.any_eq_false] at hearlier
      simpa [hexec, hpb, hqb, hpos] using hearlier p hp
    refine ⟨Nat.pos_of_ne_zero fun hzero => ?_, hfin⟩
    rcases hc.started p hp hzero with h | h <;> rw [h] at hfin <;> cases hfin
  refine ⟨f, g, hpf, hqg, .inr ⟨hlt, ?_⟩⟩
  refine Nat.eq_zero_of_not_pos fun hstarted => ?_
  have hfin := hc.ordered p hp hstarted q hq ⟨hexec.symm, hqb.trans hpb.symm, hpos⟩
  rcases hc.started q hq hfresh with h | h <;> rw [h] at hfin <;> cases hfin

/-- **Strict step order.**  In every reachable world and for every execution:
the forward steps, ordered by position, are finished ones, then at most one
active one, then untouched or canceled ones; a finished forward step never
changes again, whatever happens next; and at the moment a rollback step is
claimed for the first time, the rollback steps of later forward steps are
finished and those of earlier forward steps were never claimed. -/
theorem strict_step_order (hw : World.Reachable env w) (executionID : String) :
    (∃ done current rest, forwardSteps executionID w.sys.db = done ++ current ++ rest
      ∧ (∀ r ∈ done, r.status = .completed ∨ r.status = .skipped) ∧ current.length ≤ 1
      ∧ (∀ r ∈ current, r.status.active)
      ∧ ∀ r ∈ rest, r.status = .pending ∨ r.status = .canceled)
    ∧ (∀ r ∈ forwardSteps executionID w.sys.db, r.status = .completed ∨ r.status = .skipped →
      ∀ as, r ∈ forwardSteps executionID (run (World.step env) as w).sys.db)
    ∧ ∀ a, ∀ q ∈ w.sys.db.steps, ∀ q' ∈ (w.step env a).sys.db.steps, q'.id = q.id →
      q.executionID = executionID → q.isRollback = true → q.attemptCount = 0 →
      0 < q'.attemptCount → ∀ p ∈ w.sys.db.steps, p.executionID = executionID →
      p.isRollback = true → p ≠ q →
      ∃ f g, RollsBack w.sys.db.steps p f ∧ RollsBack w.sys.db.steps q g
        ∧ (g.position < f.position ∧ 0 < p.attemptCount ∧ p.status.finished = true
          ∨ f.position < g.position ∧ p.attemptCount = 0) := by
  refine ⟨forward_split hw executionID, ?_, ?_⟩
  · intro r hr hst as
    obtain ⟨hmem, hexec, hphase⟩ := mem_forwardSteps.mp hr
    have hfin : r.status.finished = true := by
      rcases hst with h | h <;> rw [h] <;> rfl
    exact mem_forwardSteps.mpr ⟨finished_stays hw hmem hfin as, hexec, hphase⟩
  · intro a q hq q' hq' hid hqe hqb hfresh hclaim p hp hpe hpb hne
    exact rollback_first_claim hw a hq hqb hfresh hq' hid hclaim hp hpb (hpe.trans hqe.symm) hne

def reversibleEnv : Env :=
  let undo : Action := { type := .http, inputs := idempotentStep.inputs }
  { platform := plainPlatform (runbookWith
      [{ idempotentStep with id := "first", rollback := some undo },
        { idempotentStep with id := "second", rollback := some undo }])
    exclusive := true }

/-- Task `n`, the next one claimed, sends its request and succeeds. -/
def succeed (n : ℕ) : List Act :=
  [.store claiming, .begin n none, .act n .answered "" (.ok none),
    .respond n (.ok none), .finish n .answered]

def rollingRun : List Act :=
  .store (starting ["s1", "s2"])
    :: succeed 0 ++ succeed 1
    ++ .store (.rollback ["b1", "b2"] "t" "e" "ops" "" "") :: succeed 2

def rollingWorld : World :=
  run (World.step reversibleEnv) rollingRun idleWorld

/-- The claim of the second rollback step in `rollingWorld` finds the first one
finished; it rolls back the later step. -/
theorem strict_step_order_rolling :
    ∃ p ∈ rollingWorld.sys.db.steps, ∃ q ∈ rollingWorld.sys.db.steps,
      p.id = "b1" ∧ q.id = "b2" ∧ ∃ f g, RollsBack rollingWorld.sys.db.steps p f
        ∧ RollsBack rollingWorld.sys.db.steps q g
        ∧ (g.position < f.position ∧ 0 < p.attemptCount ∧ p.status.finished = true
          ∨ f.position < g.position ∧ p.attemptCount = 0) := by
  have hbefore : (rollingWorld.sys.db.steps.map fun r =>
      (r.id, r.executionID, r.isRollback, r.attemptCount))
      = [("s1", "e", false, 1), ("s2", "e", false, 1), ("b1", "e", true, 1),
        ("b2", "e", true, 0)] := by
    decide +kernel
  have hafter : ((rollingWorld.step reversibleEnv
      (.store claiming)).sys.db.steps.map fun r =>
        (r.id, r.attemptCount)) = [("s1", 1), ("s2", 1), ("b1", 1), ("b2", 1)] := by
    decide +kernel
  obtain ⟨p, hp, hprow⟩ := List.mem_map.mp (show ("b1", "e", true, 1) ∈ _ by rw [hbefore]; decide)
  obtain ⟨q, hq, hqrow⟩ := List.mem_map.mp (show ("b2", "e", true, 0) ∈ _ by rw [hbefore]; decide)
  obtain ⟨q', hq', hqrow'⟩ := List.mem_map.mp (show ("b2", 1) ∈ _ by rw [hafter]; decide)
  simp only [Prod.mk.injEq] at hprow hqrow hqrow'
  obtain ⟨hpid, hpe, hpb, -⟩ := hprow
  obtain ⟨hqid, hqe, hqb, hqa⟩ := hqrow
  have hne : p ≠ q := by
    rintro rfl
    rw [hpid] at hqid
    revert hqid
    decide
  have hreach : World.Reachable reversibleEnv rollingWorld :=
    ⟨idleWorld, rollingRun, idleWorld_init, rfl⟩
  refine ⟨p, hp, q, hq, hpid, hqid, (strict_step_order hreach "e").2.2 _ q hq q' hq'
    (hqrow'.1.trans hqid.symm) hqe hqb hqa ?_ p hp hpe hpb hne⟩
  rw [hqrow'.2]
  exact Nat.one_pos

end StormRelay
