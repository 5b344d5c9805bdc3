/-
Steps without a remote action.

A wait step and an approval step only write to the store: whatever a crash
interrupts, doing it again is harmless.  Lease recovery does not see that.  It
schedules an expired step again when its remote side recognises a repetition,
and declares every other expired step ambiguous, wait and approval steps
included; a plain retry of such a step is then refused.

* `local_steps_resume_iff` — **the wait and approval steps stay resumable throughout a
  run exactly when no action of the run strands one**.
-/
import StormRelay.Lease
import StormRelay.Order

namespace StormRelay

open Tx Table Transition

/-! ### What a wait or approval step must not become -/

def ExecutionStep.actsLocally (es : ExecutionStep) : Bool :=
  es.stepType = .wait || es.stepType = .approval

/-- The step is not ambiguous, and a retry that is allowed with `force` is
allowed without. -/
def Resumable (es : ExecutionStep) : Prop :=
  es.status ≠ .ambiguous ∧ (retryAllowed true es = true → retryAllowed false es = true)

/-- Every wait and approval step is resumable. -/
def LocalStepsResume (db : DB) : Prop :=
  ∀ es ∈ db.steps, es.actsLocally = true → Resumable es

/-- A recovery that finds the lease of a wait or approval step expired. -/
def Strands : Act → World → Prop
  | .store (.recover locked _ _), w =>
    ∃ es ∈ w.sys.db.steps, leaseExpired w.sys.db w.sys.now locked es = true
      ∧ es.actsLocally = true
  | _, _ => False

/-- A step that is not ambiguous never needs `force`. -/
theorem resumable_iff {es : ExecutionStep} : Resumable es ↔ es.status ≠ .ambiguous := by
  constructor
  · exact fun h => h.1
  · intro h
    refine ⟨h, fun hforce => ?_⟩
    simpa [retryAllowed, h] using hforce

/-- The remote side of a step without a remote action recognises nothing. -/
theorem not_recoverable_of_actsLocally {es : ExecutionStep} (h : es.actsLocally = true) :
    recoverable es = false := by
  simp only [ExecutionStep.actsLocally, Bool.or_eq_true, decide_eq_true_eq] at h
  rcases h with h | h <;> simp [recoverable, idempotent, h]

/-! ### The operation behind an action -/

section Operation

variable {env : Env} {w : World}

theorem World.call_sys (w : World) (op : Op) (delivery : Delivery) :
    (w.call env op delivery).sys = w.sys ∨ (w.call env op delivery).sys = w.sys.perform env op := by
  rcases delivery with _ | err | err
  · exact .inr rfl
  · exact .inl rfl
  · exact .inr rfl

theorem World.actStage_op {n : ℕ} {workerID : String} {c : ClaimedStep}
    (hn : w.sys.issued[n]? = some (workerID, c)) (delivery : Delivery) (approvalID : String)
    (result : Except String (Option Json)) :
    (w.actStage env n workerID c delivery approvalID result).sys = w.sys
      ∨ ∃ op, EngineOp w.sys op ∧ op.isCall = true
        ∧ (w.actStage env n workerID c delivery approvalID result).sys = w.sys.perform env op := by
  unfold World.actStage
  cases htype : c.step.immutableInput.step.type with
  | http | plugin =>
    simp only [htype]
    rcases result with err | output <;> exact .inl rfl
  | wait =>
    simp only [htype]
    rcases GoStd.parseDuration c.step.immutableInput.step.inputs.duration with _ | duration
    · exact .inl rfl
    · exact (w.call_sys (.scheduleWait n (w.sys.now + duration)) delivery).imp_right
        fun h => ⟨_, .wait hn htype, rfl, h⟩
  | approval =>
    simp only [htype]
    split
    · exact .inl rfl
    · rename_i expiresAt _
      exact (w.call_sys (.openApproval n approvalID c.step.immutableInput.step.inputs.prompt
        expiresAt) delivery).imp_right fun h => ⟨_, .approval hn htype, rfl, h⟩
  | other text =>
    simp only [htype]
    exact .inl rfl

theorem World.step_op (env : Env) (htask : Tasked w) (a : Act) :
    (w.step env a).sys = w.sys
      ∨ ∃ op, EngineOp w.sys op ∧ (op.isCall = true ∨ a = .store op)
        ∧ (w.step env a).sys = w.sys.perform env op := by
  cases a with
  | store op =>
    rw [World.step]
    split
    · exact .inl rfl
    · rename_i hcall
      exact .inr ⟨op, .other (by simpa using hcall), .inr rfl, rfl⟩
  | begin n readErr | respond n result =>
    rw [World.step]
    split <;> exact .inl rfl
  | act n delivery approvalID result =>
    rw [World.step]
    split
    · rename_i hn _
      refine (World.actStage_op hn delivery approvalID result).imp_right ?_
      rintro ⟨op, hop, hcall, hperf⟩
      exact ⟨op, hop, .inl hcall, hperf⟩
    · exact .inl rfl
  | finish n delivery =>
    rw [World.step]
    split
    · rename_i c call hn hs
      have hsound := htask.sound _ _ _ hn
      rw [hs] at hsound
      refine (w.call_sys (callOp n c call) delivery).imp_right fun h =>
        ⟨_, .last hn hsound, .inl ?_, h⟩
      cases call <;> rfl
    · exact .inl rfl

end Operation

/-! ### What makes a step ambiguous -/

section Step

variable {env : Env} {s : Sys} {op : Op} {r r' : ExecutionStep}

/-- A step becomes ambiguous by a recovery that finds its lease expired, or by
the call of a task whose HTTP request failed. -/
theorem ambiguous_of_change (hi : s.Inv) (hop : EngineOp s op) (hr : r ∈ s.db.steps)
    (h : StepChange s op r r') (hst : r'.status = .ambiguous) :
    (∃ locked order actor,
        op = .recover locked order actor ∧ leaseExpired s.db s.now locked r = true)
      ∨ r.immutableInput.step.type = .http := by
  cases hop with
  | wait hn htype | approval hn htype =>
    cases h
    cases hst
  | @last n workerID c call hn hsound =>
    obtain ⟨hdef, hstatus⟩ := change_of_callOp hi hn hr h
    have hinput := column_of_definition ExecutionStep.immutableInput (fun _ => rfl) hdef
    have hfinal : finalStatus c ≠ .ambiguous := by
      rw [finalStatus]
      split <;> (intro h; cases h)
    -- Of the last calls only the one after a failed request leaves this status.
    cases call with
    | ambiguous err =>
      rw [hinput]
      exact .inr hsound.2
    | skip => cases h; cases hst
    | dryRun | success output =>
      cases h with
      | complete hn' hl =>
        refine absurd ?_ hfinal
        rw [← hst]
        simp only [completeRow, finalStatus]
        split <;> rfl
    | failure err => cases h <;> cases hst
  | other hcall =>
    cases h with
    | claim he hcl =>
      simp only [claimRow] at hst
      split at hst <;> cases hst
    | recover hexp => exact .inl ⟨_, _, _, rfl, hexp⟩
    | decide ha hid hp hstep hd =>
      simp only [decidedRow] at hst
      split at hst <;> cases hst
    | wait | openApproval | complete | retryLater | fail | ambiguous => cases hcall
    | timer | expire | cancel | retry => cases hst

theorem ambiguous_of_recover (env : Env) (hc : Consistent s.db) {locked : List String}
    (actor : String)
    (hr : r ∈ s.db.steps) (hexp : leaseExpired s.db s.now locked r = true)
    (hlocal : r.actsLocally = true) :
    ∃ r' ∈ (s.perform env (.recover locked order actor)).db.steps,
      r'.actsLocally = true ∧ r'.status = .ambiguous := by
  refine ⟨recoverRow s.now r r, ?_, hlocal, ?_⟩
  · show _ ∈ (after env.exclusive (recoverExpiredStepLeases s.now locked order actor) s.db).steps
    rw [recover_after, recover_steps hc]
    have hmem := mem_update_of_mem (p := leaseExpired s.db s.now locked)
      (f := fun r => recoverRow s.now r r) hr
    rwa [patch_pos hexp] at hmem
  · simp [recoverRow, not_recoverable_of_actsLocally hlocal]

end Step

theorem local_steps_resume_step {env : Env} {w : World} (hw : World.Reachable env w)
    (hI : LocalStepsResume w.sys.db) (a : Act) :
    LocalStepsResume (w.step env a).sys.db ↔ ¬ Strands a w := by
  constructor
  · intro hnext hstrands
    cases a with
    | store op =>
      cases op with
      | recover locked order actor =>
        obtain ⟨es, hes, hexp, hlocal⟩ := hstrands
        obtain ⟨es', hes', hlocal', hst⟩ :=
          ambiguous_of_recover env hw.inv.consistent actor hes hexp hlocal
        exact (hnext es' hes' hlocal').1 hst
      | _ => cases hstrands
    | _ => cases hstrands
  intro hno es' hes' hlocal
  rw [resumable_iff]
  intro hst
  obtain hsame | ⟨op, hop, hlabel, hperf⟩ := World.step_op env (tasked_of_reachable hw) a
  · rw [hsame] at hes'
    exact (hI es' hes' hlocal).1 hst
  rw [hperf] at hes'
  rcases Typed.row_cases hw.inv op hes' with ⟨es, hes, hdef, rfl | hch⟩ | hnew
  · exact (hI es' hes hlocal).1 hst
  · have htype := column_of_definition ExecutionStep.stepType (fun _ => rfl) hdef
    have hlocal' : es.actsLocally = true := by
      rw [ExecutionStep.actsLocally, ← htype]
      exact hlocal
    rcases ambiguous_of_change hw.inv hop hes hch hst with ⟨locked, order, actor, rfl, hexp⟩ | hhttp
    · obtain hcall | rfl := hlabel
      · cases hcall
      · exact hno ⟨es, hes, hexp, hlocal'⟩
    · -- Only HTTP steps send requests.
      rw [← (typed_of_reachable hw).type es hes] at hhttp
      simp [ExecutionStep.actsLocally, hhttp] at hlocal'
  · rw [hnew.status] at hst
    cases hst

/-- **Wait and approval steps resume, exactly.**  Let engines, operators and
schedulers act on an empty store in any order, with crashes and stalls anywhere.
No wait or approval step is ambiguous or needs a forced retry in any world of
the run if and only if no recovery of the run finds the lease of a wait or
approval step expired. -/
theorem local_steps_resume_iff (env : Env) {w₀ : World} (h₀ : w₀.Init) (acts : List Act) :
    Throughout (World.step env) (fun w => LocalStepsResume w.sys.db) acts w₀
      ↔ Along (World.step env) (fun a w => ¬ Strands a w) acts w₀ := by
  have hreach : World.Reachable env w₀ := ⟨w₀, [], h₀, rfl⟩
  have hempty : LocalStepsResume w₀.sys.db := by
    obtain ⟨⟨-, hsteps, -, -⟩, -, -⟩ := h₀
    simp [LocalStepsResume, hsteps]
  exact along_iff_of_exact (J := World.Reachable env) (fun a _ hw => hw.act a)
    (fun a _ hw hI => local_steps_resume_step hw hI a) acts hreach hempty

/-! ### A stalled worker -/

def pausingEnv : Env :=
  { platform := plainPlatform (runbookWith
      [{ id := "settle", type := .wait, inputs := { duration := "10m" } }, idempotentStep])
    exclusive := true }

/-- A worker claims the wait step and schedules the wait at once; ten minutes
later the timer completes the step. -/
def promptWait : List Act :=
  [.store (starting ["s1", "s2"]),
    .store (.claim [] "A" 1 engineLease false), .begin 0 none,
    .act 0 .answered "" (.ok none), .store (.recover [] [] "B"),
    .store (.tick 600000000000), .store (.advance [] "B")]

/-- A run that meets the condition: the step is completed by its timer. -/
theorem prompt_wait_resumes :
    Throughout (World.step pausingEnv) (fun w => LocalStepsResume w.sys.db) promptWait
      idleWorld := by
  refine (local_steps_resume_iff pausingEnv idleWorld_init promptWait).mpr ?_
  refine ⟨False.elim, False.elim, False.elim, False.elim, ?_, False.elim, False.elim, trivial⟩
  -- The recovery finds the step waiting, without a lease.
  have hnone : ∀ es ∈ (run (World.step pausingEnv) (promptWait.take 4)
      idleWorld).sys.db.steps, es.leaseExpiresAt = none := by
    decide +kernel
  rintro ⟨es, hes, hexp, -⟩
  have hlease := hnone es hes
  simp [leaseExpired, hlease] at hexp

def stalledWait : List Act :=
  [.store (starting ["s1", "s2"]),
    .store (.claim [] "A" 1 engineLease false), .begin 0 none,
    .store (.tick 30000000000), .store (.recover [] [] "B")]

def stalledWorld : World :=
  run (World.step pausingEnv) stalledWait idleWorld

/-- **A wait step needs a forced retry.**  Nothing remote was attempted, yet the
step is ambiguous, a plain retry of it is refused and one with `force` is not. -/
theorem stalled_wait_stranded :
    World.Reachable pausingEnv stalledWorld
      ∧ (stalledWorld.sys.db.steps.map fun r => (r.id, r.stepType, r.status))
        = [("s1", .wait, .ambiguous), ("s2", .http, .pending)]
      ∧ (Tx.commit true (retryExecutionStep stalledWorld.sys.now "t" "e" "s1" "op" "" "" false)
          stalledWorld.sys.db).1
        = .error (.failed "force=true is required to retry an ambiguous non-idempotent step")
      ∧ (Tx.commit true (retryExecutionStep stalledWorld.sys.now "t" "e" "s1" "op" "" "" true)
          stalledWorld.sys.db).1 = .ok ()
      ∧ ¬ LocalStepsResume stalledWorld.sys.db := by
  have hsteps : (stalledWorld.sys.db.steps.map fun r => (r.id, r.stepType, r.status))
      = [("s1", .wait, .ambiguous), ("s2", .http, .pending)] := by
    decide +kernel
  refine ⟨⟨idleWorld, stalledWait, idleWorld_init, rfl⟩, hsteps, by decide +kernel,
    by decide +kernel, fun h => ?_⟩
  obtain ⟨r, hr, hrow⟩ := exists_row hsteps List.mem_cons_self
  simp only [Prod.mk.injEq] at hrow
  obtain ⟨-, htype, hst⟩ := hrow
  exact (h r hr (by simp [ExecutionStep.actsLocally, htype])).1 hst

end StormRelay
