/-
Which steps the scheduler starts.

A pause, a rollback and a retry are each only a status of the execution, and
several operations write that status without looking at it.

* `pause_holds` — **after a pause no step is claimed, in every stretch in which
  no recovery, approval or rollback sets the execution going**;
* `rollback_one_way` — **after a rollback no forward step is claimed, in every
  run in which the execution is not set running while a forward step is open**;
* `scheduled_retry_runnable_iff` — **a step put back for a retry can be claimed
  exactly when it is a forward step of an execution that is not canceled** (and
  recovery left the execution running).
-/
import StormRelay.Order
import StormRelay.Restart

namespace StormRelay

open Tx Table Transition

variable {env : Env} {s : Sys} {id : String}

/-! ### Pause -/

def Dormant (id : String) (s : Sys) : Prop :=
  ∃ v, s.db.view id = some v ∧ v.status ≠ .running ∧ v.status ≠ .rollingBack

theorem Dormant.not_claimed (hi : s.Inv) (h : Dormant id s) (op : Op) :
    ∀ c ∈ claimedBy op s, c.step.executionID ≠ id := by
  rintro c hc rfl
  obtain ⟨v, hv, r, -, hcl, -⟩ := claimed_view hi hc
  obtain ⟨w, hw, hrun, hrb⟩ := h
  obtain rfl := Option.some.inj (hv.symm.trans hw)
  rcases hcl.phase with ⟨h, -⟩ | ⟨h, -⟩
  · exact hrun h
  · exact hrb h

/-- The operations that end a pause: `ChangeExecutionState` with action `resume`
and `RetryExecutionStep`. -/
def EndsPause (id : String) (op : Op) (s : Sys) : Prop :=
  Resumes id op s ∨ Retries id op s

/-- The operations that set a paused execution going although nobody resumed
it. -/
def BreaksPause (id : String) (op : Op) (s : Sys) : Prop :=
  Recovers id op s ∨ Approves id op s ∨ StartsRollback id op s

theorem Dormant.perform (hi : s.Inv) (h : Dormant id s) {op : Op} (hend : ¬ EndsPause id op s)
    (hbreak : ¬ BreaksPause id op s) : Dormant id (Sys.perform env op s) := by
  obtain ⟨v, hv, hrun, hrb⟩ := h
  obtain ⟨v', hv', hturn⟩ := turn_perform env hi hv op
  refine ⟨v', hv', fun hrun' => ?_, fun hrb' => ?_⟩
  · rcases hturn.running hv hrun' with h | h | h | h | h
    · exact hrun h
    · exact hbreak (.inl h)
    · exact hbreak (.inr (.inl h))
    · exact hend (.inr h)
    · exact hend (.inl h)
  · rcases hturn.rollingBack hv hrb' with h | h
    · exact hrb h
    · exact hbreak (.inr (.inr h))

/-- The request finds a running execution of the tenant. -/
def PauseCommits (tenantID id : String) (s : Sys) : Prop :=
  ∃ e, ownedExecution tenantID id s.db = some e ∧ e.status = .running

variable {actor tenantID : String}

theorem dormant_of_pause (hc : Consistent s.db) (h : PauseCommits tenantID id s)
    (actor requestID traceID : String) :
    Dormant id (Sys.perform env (.changeState tenantID id .pause actor requestID traceID) s) := by
  obtain ⟨e, he, hst⟩ := h
  obtain ⟨entry, hafter⟩ := pause_ok env.exclusive s.now actor requestID traceID he hst
  simp only [Dormant, Sys.perform, Sys.commit]
  rw [hafter]
  refine ⟨_, view_status id (view_of_owned hc he) (f := pausedExecution s.now) rfl rfl
    (fun _ => rfl) (fun _ => rfl) fun _ => rfl, ?_⟩
  rw [if_pos rfl]
  constructor <;> intro h <;> cases h

/-- **Pause holds, unless it is broken.**  In every reachable state, once a pause
of the execution `id` has committed, and for every continuation `ops` without a
resume or a retry of it: if no recovery, approval or rollback in `ops` sets the
execution going, no operation of `ops` claims a step of it. -/
theorem pause_holds (hs : Sys.Reachable env s) {tenantID : String}
    (hcommit : PauseCommits tenantID id s) (actor requestID traceID : String) (ops : List Op)
    (hops : Along (Sys.perform env)
      (fun op s => ¬ EndsPause id op s ∧ ¬ BreaksPause id op s) ops
      (Sys.perform env (.changeState tenantID id .pause actor requestID traceID) s)) :
    Along (Sys.perform env)
      (fun op s => ∀ c ∈ claimedBy op s, c.step.executionID ≠ id) ops
      (Sys.perform env (.changeState tenantID id .pause actor requestID traceID) s) := by
  have hi := inv_of_reachable hs
  refine Along.along (I := fun s => s.Inv ∧ Dormant id s) (fun op s h hop => ?_)
    (fun op s h _ => h.2.not_claimed h.1 op) ops
    ⟨inv_perform env hi _, dormant_of_pause hi.consistent hcommit actor requestID traceID⟩ hops
  exact ⟨inv_perform env h.1 op, h.2.perform h.1 hop.1 hop.2⟩

def firstStepRun : List Op :=
  [starting ["s1", "s2"], claiming]

def firstStepState : Sys :=
  run (Sys.perform reversibleEnv) firstStepRun oneRunbook

theorem firstStepState_reachable : Sys.Reachable reversibleEnv firstStepState :=
  ⟨oneRunbook, firstStepRun, ⟨rfl, rfl, rfl, rfl⟩, rfl⟩

theorem firstStepState_pause : PauseCommits "t" "e" firstStepState := by
  have hfound : ((ownedExecution "t" "e" firstStepState.db).map fun e => e.status)
      = some .running := by decide +kernel
  exact Option.map_eq_some_iff.mp hfound

/-- The worker finishes the first step of the paused execution; the second is not
claimed. -/
theorem pause_holds_completion :
    Along (Sys.perform reversibleEnv)
      (fun op s => ∀ c ∈ claimedBy op s, c.step.executionID ≠ "e")
      [.complete 0 .completed none none, .claim [] "B" 1 (30 * second) false]
      (Sys.perform reversibleEnv (.changeState "t" "e" .pause "op" "" "") firstStepState) := by
  refine pause_holds firstStepState_reachable firstStepState_pause "op" "" "" _ ⟨?_, ?_, trivial⟩
  · exact ⟨fun h => h.elim id id, fun h => h.elim id fun h => h.elim id id⟩
  · exact ⟨fun h => h.elim id id, fun h => h.elim id fun h => h.elim id id⟩

/-- **A paused execution goes on.**  Nobody resumes the execution, but when the
lease of its step expires, recovery sets it running and the step is claimed. -/
theorem recovery_breaks_pause :
    Sys.Reachable reversibleEnv firstStepState ∧ PauseCommits "t" "e" firstStepState
      ∧ (claimedBy (.claim [] "B" 1 (30 * second) false) (run (Sys.perform reversibleEnv)
          [.changeState "t" "e" .pause "op" "" "", .tick 30000000000, .recover [] [] "A"]
          firstStepState)).map (fun c => c.step.executionID) = ["e"] := by
  refine ⟨firstStepState_reachable, firstStepState_pause, ?_⟩
  decide +kernel

/-! ### Rollback is a phase -/

/-- The operations that set the execution running while one of its forward steps
is not finished. -/
def ReopensForward (id : String) (op : Op) (s : Sys) : Prop :=
  (Recovers id op s ∨ Approves id op s ∨ Retries id op s)
    ∧ ∃ r ∈ s.db.own id, r.isRollback = false ∧ r.status.finished = false

/-- Forward steps are out of reach: while the execution is running, or may be
resumed, they are all finished. -/
def ForwardClosed (id : String) (s : Sys) : Prop :=
  ∃ v, s.db.view id = some v
    ∧ (v.status = .running ∨ v.status = .paused → v.ForwardFinished)

theorem ForwardClosed.perform (hi : s.Inv) (h : ForwardClosed id s) {op : Op}
    (hop : ¬ ReopensForward id op s) : ForwardClosed id (Sys.perform env op s) := by
  obtain ⟨v, hv, hclosed⟩ := h
  obtain ⟨v', hm⟩ := moves_perform env hi hv op
  -- An operation that sets the execution running finds the forward steps finished.
  have hset : Recovers id op s ∨ Approves id op s ∨ Retries id op s → v.ForwardFinished := by
    intro h r hr hfwd
    by_contra hopen
    rw [Bool.not_eq_true] at hopen
    exact hop ⟨h, r, view_steps hv ▸ hr, hfwd, hopen⟩
  refine ⟨v', hm.after, fun hst => hm.forwardFinished hi ?_⟩
  rcases hst with hrun | hpaused
  · rcases hm.turn.running hv hrun with h | h | h | h | h
    · exact hclosed (.inl h)
    · exact hset (.inl h)
    · exact hset (.inr (.inl h))
    · exact hset (.inr (.inr h))
    · exact hclosed (.inr (h.paused hi.consistent hv))
  · rcases hm.turn.paused hpaused with h | h
    · exact hclosed (.inr h)
    · exact hclosed (.inl h)

theorem ForwardClosed.not_claimed (hi : s.Inv) (h : ForwardClosed id s) (op : Op) :
    ∀ c ∈ claimedBy op s, c.step.executionID = id → c.step.isRollback = true := by
  rintro c hc rfl
  obtain ⟨v, hv, r, hr, hcl, -, hphase⟩ := claimed_view hi hc
  obtain ⟨w, hw, hclosed⟩ := h
  obtain rfl := Option.some.inj (hv.symm.trans hw)
  rw [hphase]
  rcases hcl.phase with ⟨hrun, hfwd⟩ | ⟨-, hrb⟩
  · have hfin := hclosed (.inl hrun) r hr hfwd
    rcases hcl.status with h | h <;> rw [h] at hfin <;> cases hfin
  · exact hrb

/-- The view a successful `StartExecutionRollback` leaves: every row of before is
a forward row, and the new ones are pending. -/
theorem view_of_rollback (hc : Consistent s.db) {ids : List String} {requestID traceID : String}
    (h : succeeds env.exclusive
      (startExecutionRollback s.now ids tenantID id actor requestID traceID) s.db = true) :
    ∃ v rows, s.db.view id = some v ∧ (∀ r ∈ v.steps, r.isRollback = false) ∧ rows ≠ []
      ∧ (∀ r ∈ rows, r.isRollback = true ∧ r.status = .pending)
      ∧ (Sys.perform env (.rollback ids tenantID id actor requestID traceID) s).db.view id
        = some { v with status := .rollingBack, steps := v.steps ++ rows } := by
  obtain ⟨u, c, hm, hafter⟩ := succeeds_inv h
  obtain ⟨e, rows, entry, he, -, hnone, hrows, hne, -, hdb⟩ :=
    rollback_ok env.exclusive s.db s.now ids tenantID id actor requestID traceID hm
  have hv := view_of_owned hc he
  refine ⟨_, rows, hv, fun r hr => ?_, hne, fun r hr => ?_, ?_⟩
  · obtain ⟨hmem, hown⟩ := (mem_view hv).mp hr
    exact hnone r hmem hown
  · obtain ⟨_, _, _, _, _, _, -, -, -, rfl⟩ := hrows.mem hr
    exact ⟨rfl, rfl⟩
  · simp only [Sys.perform, Sys.commit]
    rw [hafter, hdb, view_rollback hv hrows entry, if_pos rfl]

/-- **Rollback is one way, unless the forward phase is reopened.**  In every
reachable state, once `StartExecutionRollback` has succeeded for the execution
`id`, and for every continuation `ops`: if no recovery, approval or retry in
`ops` sets the execution running while one of its forward steps is unfinished, no
operation of `ops` claims a forward step of it. -/
theorem rollback_one_way (hs : Sys.Reachable env s) {ids : List String}
    {tenantID actor requestID traceID : String}
    (hcommit : succeeds env.exclusive
      (startExecutionRollback s.now ids tenantID id actor requestID traceID) s.db = true)
    (ops : List Op)
    (hops : Along (Sys.perform env) (fun op s => ¬ ReopensForward id op s) ops
      (Sys.perform env (.rollback ids tenantID id actor requestID traceID) s)) :
    Along (Sys.perform env)
      (fun op s => ∀ c ∈ claimedBy op s, c.step.executionID = id → c.step.isRollback = true) ops
      (Sys.perform env (.rollback ids tenantID id actor requestID traceID) s) := by
  have hi := inv_of_reachable hs
  obtain ⟨v, rows, -, -, -, -, hview⟩ := view_of_rollback hi.consistent hcommit
  have hclosed : ForwardClosed id
      (Sys.perform env (.rollback ids tenantID id actor requestID traceID) s) :=
    ⟨_, hview, by rintro (h | h) <;> cases h⟩
  refine Along.along (I := fun s => s.Inv ∧ ForwardClosed id s) (fun op s h hop => ?_)
    (fun op s h _ => h.2.not_claimed h.1 op) ops ⟨inv_perform env hi _, hclosed⟩ hops
  exact ⟨inv_perform env h.1 op, h.2.perform h.1 hop⟩

def fragileEnv : Env :=
  { platform := plainPlatform (runbookWith
      [{ idempotentStep with
          id := "first", rollback := some { type := .http, inputs := idempotentStep.inputs } },
        { idempotentStep with id := "second", retry := { maxAttempts := 1 } }])
    exclusive := true }

def failedRun : List Op :=
  [starting ["s1", "s2"], claiming, .complete 0 .completed none none,
    claiming, .complete 1 .failed none (some "boom")]

def failedState : Sys :=
  run (Sys.perform fragileEnv) failedRun oneRunbook

theorem failedState_reachable : Sys.Reachable fragileEnv failedState :=
  ⟨oneRunbook, failedRun, ⟨rfl, rfl, rfl, rfl⟩, rfl⟩

theorem failedState_rollback : succeeds fragileEnv.exclusive
    (startExecutionRollback failedState.now ["b1"] "t" "e" "op" "" "") failedState.db = true := by
  decide +kernel

/-- The rollback of `failedState` runs to its end. -/
theorem rollback_one_way_undone :
    Along (Sys.perform fragileEnv)
      (fun op s => ∀ c ∈ claimedBy op s, c.step.executionID = "e" → c.step.isRollback = true)
      [claiming, .complete 2 .rolledBack none none, claiming]
      (Sys.perform fragileEnv (.rollback ["b1"] "t" "e" "op" "" "") failedState) := by
  refine rollback_one_way failedState_reachable failedState_rollback _ ⟨?_, ?_, ?_, trivial⟩
  all_goals exact fun h => h.1.elim id fun h => h.elim id id

/-- **A rollback turns back.**  While the execution is being rolled back, its
failed forward step is retried: the execution is running again and the forward
step is claimed. -/
theorem retry_reopens_forward :
    Sys.Reachable fragileEnv failedState
      ∧ succeeds fragileEnv.exclusive
        (startExecutionRollback failedState.now ["b1"] "t" "e" "op" "" "") failedState.db = true
      ∧ (claimedBy claiming (run (Sys.perform fragileEnv)
          [.rollback ["b1"] "t" "e" "op" "" "", .retry "t" "e" "s2" "op" "" "" false]
          failedState)).map (fun c => (c.step.id, c.step.isRollback)) = [("s2", false)] := by
  refine ⟨failedState_reachable, failedState_rollback, ?_⟩
  decide +kernel

/-! ### Scheduled retries -/

/-- The step satisfies the selection predicate of `ClaimExecutionSteps` from its
next attempt on. -/
def Runnable (stepID : String) (s : Sys) : Prop :=
  ∃ r ∈ s.db.steps, r.id = stepID ∧ ∃ e, s.db.execution? r.executionID = some e
    ∧ ∀ now, r.nextAttemptAt ≤ now → claimable s.db now e r = true

theorem cancelRequested_iff (hc : Consistent s.db) {v : View} (hv : s.db.view id = some v) :
    ¬ CancelRequested id s ↔ v.cancelRequested = false := by
  obtain ⟨e, he, hmem, hid, rfl⟩ := view_some hv
  rw [← Bool.not_eq_true, not_iff_not]
  constructor
  · rintro ⟨e', he', hid', hreq⟩
    rwa [hc.executions.eq_of_key hmem he' (hid.trans hid'.symm)]
  · exact fun hreq => ⟨e, hmem, hid, hreq⟩

/-- **A step that waits for a retry** has been started, so the steps before it
are finished: whether it can be claimed is up to its execution. -/
theorem runnable_iff (hc : Consistent s.db) {v : View} (hv : s.db.view id = some v)
    {r : ExecutionStep} (hr : r ∈ v.steps) (hst : r.status = .retrying) :
    Runnable r.id s ↔ (v.status = .running ∧ r.isRollback = false
      ∨ v.status = .rollingBack ∧ r.isRollback = true) ∧ v.cancelRequested = false := by
  obtain ⟨hmem, hown⟩ := (mem_view hv).mp hr
  have hpos : 0 < r.attemptCount := by
    refine Nat.pos_of_ne_zero fun hzero => ?_
    rcases hc.started r hmem hzero with h | h <;> rw [h] at hst <;> cases hst
  have hfirst : earlierUnfinished s.db r = false := by
    rw [earlierUnfinished, List.any_eq_false]
    intro p hp
    simp only [Bool.and_eq_true, decide_eq_true_eq, Bool.not_eq_true', not_and,
      Bool.not_eq_false]
    intro hbefore
    exact hc.ordered r hmem hpos p hp ⟨hbefore.1.1, hbefore.1.2, hbefore.2⟩
  obtain ⟨e, he, -, hid, rfl⟩ := view_some hv
  constructor
  · rintro ⟨q, hq, hqid, e', he', hcl⟩
    obtain rfl := hc.eq_of_id hq hmem hqid
    rw [hown, he] at he'
    obtain rfl := Option.some.inj he'
    have hclaim := hcl q.nextAttemptAt (le_refl _)
    simp only [claimable, Bool.and_eq_true, Bool.or_eq_true, decide_eq_true_eq, Bool.not_eq_true',
      Option.isNone_iff_eq_none] at hclaim
    exact ⟨hclaim.1.2, by rw [hclaim.1.1.1.1.2]; rfl⟩
  rintro ⟨hphase, hcancel⟩
  refine ⟨r, hmem, rfl, e, by rw [hown, he], fun now hdue => ?_⟩
  simp only [Option.isSome_eq_false_iff, Option.isNone_iff_eq_none] at hcancel
  simp only at hphase
  rcases hphase with ⟨hstatus, hphase⟩ | ⟨hstatus, hphase⟩ <;>
    simp [claimable, hstatus, hcancel, hst, hdue, hphase, hfirst]

theorem retry_runnable_iff (hi : s.Inv) {executionID stepID requestID traceID : String}
    {force : Bool} {es : ExecutionStep} (hes : ownedStep tenantID executionID stepID s.db = some es)
    (hok : retryAllowed force es = true) :
    Runnable stepID (Sys.perform env
        (.retry tenantID executionID stepID actor requestID traceID force) s)
      ↔ es.isRollback = false ∧ ¬ CancelRequested executionID s := by
  have hc := hi.consistent
  obtain ⟨hmem, hid, hown⟩ := ownedStep_some hes
  obtain ⟨e, he, heid⟩ := hc.owner es hmem
  have hv : s.db.view executionID
      = some ⟨e.status, e.cancelRequestedAt.isSome, s.db.own executionID⟩ := by
    rw [DB.view, ← hown, ← heid, hc.execution?_eq he]
    rfl
  have hview := view_retry env.exclusive hc hv hes hok actor requestID traceID
  rw [if_pos rfl] at hview
  have hrow := mem_update_of_mem (p := fun y : ExecutionStep => y.id = stepID)
    (f := retryRow s.now) ((mem_view hv).mpr ⟨hmem, hown⟩)
  rw [patch_pos (by simpa using hid)] at hrow
  have hnext := inv_perform env hi (.retry tenantID executionID stepID actor requestID
    traceID force)
  have hrun := runnable_iff hnext.consistent hview hrow rfl
  rw [show (retryRow s.now es).id = stepID from hid] at hrun
  rw [hrun, cancelRequested_iff hc hv]
  simp [retryRow]

theorem recover_runnable_iff (hi : s.Inv) {locked order : List String} {r r' : ExecutionStep}
    (hr : r ∈ s.db.steps) (hst : r.status ≠ .retrying)
    (hr' : r' ∈ (Sys.perform env (.recover locked order actor) s).db.steps) (hid : r'.id = r.id)
    (hst' : r'.status = .retrying) :
    Runnable r.id (Sys.perform env (.recover locked order actor) s)
      ↔ r.isRollback = false ∧ ¬ CancelRequested r.executionID s
        ∧ Recovers r.executionID (.recover locked order actor) s := by
  have hc := hi.consistent
  obtain ⟨e, he, heid⟩ := hc.owner r hr
  have hv : s.db.view r.executionID
      = some ⟨e.status, e.cancelRequestedAt.isSome, s.db.own r.executionID⟩ := by
    rw [DB.view, ← heid, hc.execution?_eq he]
    rfl
  set v : View := ⟨e.status, e.cancelRequestedAt.isSome, s.db.own r.executionID⟩
  have hview : (Sys.perform env (.recover locked order actor) s).db.view r.executionID = _ :=
    view_recover env.exclusive hc hv locked order actor
  -- The row was rewritten by this call, so its lease has expired.
  have hsteps : (Sys.perform env (.recover locked order actor) s).db.steps
      = update (leaseExpired s.db s.now locked) (fun r => recoverRow s.now r r) s.db.steps := by
    simp only [Sys.perform, Sys.commit]
    rw [recover_after, recover_steps hc]
  rw [hsteps] at hr'
  obtain ⟨q, hq, rfl⟩ := mem_update.mp hr'
  obtain rfl : q = r := hc.eq_of_id hq hr ((patch_column ExecutionStep.id rfl).symm.trans hid)
  have hexp : leaseExpired s.db s.now locked q = true := by
    by_contra hno
    rw [patch_neg (by simpa using hno)] at hst'
    exact hst hst'
  rw [patch_pos hexp] at hst'
  have hmine : q ∈ v.steps := (mem_view hv).mpr ⟨hr, rfl⟩
  have hrow := mem_update_of_mem (p := leaseExpired s.db s.now locked)
    (f := fun r => recoverRow s.now r r) hmine
  rw [patch_pos hexp] at hrow
  have hnext := inv_perform env hi (.recover locked order actor)
  have hrun := runnable_iff hnext.consistent hview hrow hst'
  rw [show (recoverRow s.now q q).id = q.id from rfl,
    show (recoverRow s.now q q).isRollback = q.isRollback from rfl] at hrun
  -- The execution got the status of the last of its expired steps.
  obtain ⟨last, hlast⟩ : ∃ last, (s.expiredOf locked order q.executionID).getLast? = some last := by
    have hin : q ∈ s.expiredOf locked order q.executionID := (mem_expiredOf hv).mpr ⟨hmine, hexp⟩
    exact ⟨_, List.getLast?_eq_some_getLast (List.ne_nil_of_mem hin)⟩
  have hrec : Recovers q.executionID (.recover locked order actor) s ↔ recoverable last = true := by
    constructor
    · rintro ⟨last', hlast', h⟩
      obtain rfl := Option.some.inj (hlast.symm.trans hlast')
      exact h
    · exact fun h => ⟨last, hlast, h⟩
  rw [hrun, hrec, cancelRequested_iff hc hv, hlast]
  by_cases hl : recoverable last = true
  · simp [hl]
  · simp [hl]

/-- **Scheduled retries, exactly.**  In every reachable state: a step for which
`RetryExecutionStep` succeeds can be claimed from its next attempt on if and only
if it is a forward step of an execution without a cancel request; a step that
`RecoverExpiredStepLeases` moves to `retrying` can be claimed if and only if, in
addition, the last expired step of the execution is recoverable, in the order in
which the database returned them. -/
theorem scheduled_retry_runnable_iff (hs : Sys.Reachable env s) :
    (∀ tenantID executionID stepID actor requestID traceID force es,
      succeeds env.exclusive
        (retryExecutionStep s.now tenantID executionID stepID actor requestID traceID force) s.db
        = true → ownedStep tenantID executionID stepID s.db = some es →
      (Runnable stepID (Sys.perform env
          (.retry tenantID executionID stepID actor requestID traceID force) s)
        ↔ es.isRollback = false ∧ ¬ CancelRequested executionID s))
    ∧ ∀ locked order actor, ∀ r ∈ s.db.steps,
      ∀ r' ∈ (Sys.perform env (.recover locked order actor) s).db.steps, r'.id = r.id →
      r.status ≠ .retrying → r'.status = .retrying →
      (Runnable r.id (Sys.perform env (.recover locked order actor) s)
        ↔ r.isRollback = false ∧ ¬ CancelRequested r.executionID s
          ∧ Recovers r.executionID (.recover locked order actor) s) := by
  have hi := inv_of_reachable hs
  constructor
  · intro tenantID executionID stepID actor requestID traceID force es hok hes
    obtain ⟨es', hes', hallowed⟩ := retry_succeeds hok
    obtain rfl := Option.some.inj (hes.symm.trans hes')
    exact retry_runnable_iff hi hes hallowed
  · intro locked order actor r hr r' hr' hid hst hst'
    exact recover_runnable_iff hi hr hst hr' hid hst'

theorem failedState_retry : succeeds fragileEnv.exclusive
    (retryExecutionStep failedState.now "t" "e" "s2" "op" "" "" false) failedState.db = true := by
  decide +kernel

/-- The failed step of `failedState` can be claimed again after its retry. -/
theorem scheduled_retry_runnable_failed :
    Runnable "s2" (Sys.perform fragileEnv (.retry "t" "e" "s2" "op" "" "" false) failedState) := by
  obtain ⟨es, hes, -⟩ := retry_succeeds failedState_retry
  refine ((scheduled_retry_runnable_iff failedState_reachable).1 "t" "e" "s2" "op" "" "" false es
    failedState_retry hes).mpr ⟨?_, ?_⟩
  · have hphase : ((ownedStep "t" "e" "s2" failedState.db).map fun es => es.isRollback)
        = some false := by decide +kernel
    rw [hes] at hphase
    exact Option.some.inj hphase
  rintro ⟨e, he, -, hreq⟩
  have hnone : (failedState.db.executions.all fun e => e.cancelRequestedAt.isNone) = true := by
    decide +kernel
  rw [Option.isNone_iff_eq_none.mp (List.all_eq_true.mp hnone e he)] at hreq
  cases hreq

/-- The outcome of the rollback step of `failedState` is unknown. -/
def undoneRun : List Op :=
  failedRun ++ [.rollback ["b1"] "t" "e" "op" "" "", claiming,
    .markAmbiguous 2 (some "timeout")]

def undoneState : Sys :=
  run (Sys.perform fragileEnv) undoneRun oneRunbook

/-- **A retry that never runs.**  `RetryExecutionStep` succeeds for an ambiguous
rollback step and leaves the execution running, a status in which rollback steps
are not claimed. -/
theorem retried_rollback_not_runnable :
    Sys.Reachable fragileEnv undoneState
      ∧ succeeds fragileEnv.exclusive
        (retryExecutionStep undoneState.now "t" "e" "b1" "op" "" "" true) undoneState.db = true
      ∧ ¬ Runnable "b1"
        (Sys.perform fragileEnv (.retry "t" "e" "b1" "op" "" "" true) undoneState) := by
  have hreach : Sys.Reachable fragileEnv undoneState :=
    ⟨oneRunbook, undoneRun, ⟨rfl, rfl, rfl, rfl⟩, rfl⟩
  have hok : succeeds fragileEnv.exclusive
      (retryExecutionStep undoneState.now "t" "e" "b1" "op" "" "" true) undoneState.db = true := by
    decide +kernel
  refine ⟨hreach, hok, fun hrun => ?_⟩
  obtain ⟨es, hes, hallowed⟩ := retry_succeeds hok
  have hfwd := ((retry_runnable_iff (inv_of_reachable hreach) hes hallowed).mp hrun).1
  have hphase : ((ownedStep "t" "e" "b1" undoneState.db).map fun es => es.isRollback)
      = some true := by decide +kernel
  rw [hes, Option.map_some, hfwd] at hphase
  cases hphase

end StormRelay
