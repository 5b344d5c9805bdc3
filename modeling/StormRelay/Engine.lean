/-
The runbook engine (`internal/runbookengine/engine.go`).

Every claim a worker receives becomes a task: `execute` evaluates the step's
condition, performs the action, and makes one last store call.  A task stops
for good when its process crashes, and every store call can be lost on its way
to the database or on its way back.  A world is the store, the stage every task
has reached, and a trace: the inputs conditions were judged by, requests sent,
failures reported, forced retries.

* `World.Reachable.sys` — the store of a reachable world is a reachable store:
  what holds of every store holds of every world.
-/
import StormRelay.Invariant
import Mathlib.Logic.Function.Basic

namespace StormRelay

open Tx GoStd

/-- `conditionMatches`; a Go map lookup gives "" for a missing key. -/
def conditionMatches (condition : Condition) (inputs : List (String × String)) : Bool :=
  let actual := (inputs.lookup condition.field).getD ""
  let matched :=
    match condition.equals with
    | some value => actual = value
    | none => condition.oneOf.any fun value => actual = value
  if condition.negate then !matched else matched

/-- The last store call of a task. -/
inductive Call where
  | skip
  | dryRun
  | success (output : Option Json)
  | failure (err : String)
  | ambiguous (err : String)

/-- How far `execute` has come.  `acting`: the condition holds and the step is
about to act; `awaiting`: an HTTP request is out; `calling`: the outcome is
known and the last store call is still to be made. -/
inductive Stage where
  | fresh
  | acting
  | awaiting
  | calling (call : Call)
  | done

inductive Delivery where
  | answered
  | lostRequest (err : String)
  | lostAnswer (err : String)

/-- What is recorded of a run: the inputs the condition of task `n` is judged
by; task `n` sends its HTTP request or reports a failure; an ambiguous step is
retried with `force`. -/
inductive Event where
  | judged (n : ℕ) (inputs : List (String × String))
  | request (n : ℕ)
  | failure (n : ℕ)
  | forcedRetry (stepID : String)
deriving DecidableEq

structure World where
  sys : Sys
  stage : ℕ → Stage
  trace : List Event

/-- The actions.  `result` is what the outside answers: for an HTTP step about
to act, an error before the request is sent; for a plugin, the plugin's answer;
for a response, the outcome of the request. -/
inductive Act where
  | store (op : Op)
  | begin (n : ℕ) (readErr : Option String)
  | act (n : ℕ) (delivery : Delivery) (approvalID : String)
      (result : Except String (Option Json))
  | respond (n : ℕ) (result : Except String (Option Json))
  | finish (n : ℕ) (delivery : Delivery)

/-! ### `execute`, stage by stage -/

def Op.isCall : Op → Bool
  | .scheduleWait .. | .openApproval .. | .complete .. | .markAmbiguous .. => true
  | _ => false

def proceed (c : ClaimedStep) : Stage :=
  if c.dryRun then .calling .dryRun else .acting

/-- The first part of `execute`: the step's condition. -/
def beginStage (db : DB) (c : ClaimedStep) (readErr : Option String) : Stage :=
  match c.step.immutableInput.step.condition with
  | none => proceed c
  | some condition =>
    match readErr with
    | some err => .calling (.failure err)
    | none =>
      match executionConditionInputs c.step.executionID db with
      | none => .calling (.failure "no rows in result set")
      | some inputs => if conditionMatches condition inputs then proceed c else .calling .skip

def judgedEvents (db : DB) (n : ℕ) (c : ClaimedStep) (readErr : Option String) : List Event :=
  match c.step.immutableInput.step.condition, readErr,
    executionConditionInputs c.step.executionID db with
  | some _, none, some inputs => [.judged n inputs]
  | _, _, _ => []

def errorText : TxError → String
  | .connBusy => "conn busy"
  | .noRows => "no rows in result set"
  | .failed message => message

/-- After `ScheduleWait` or `OpenApproval`: the task is done when the call
succeeds, and reports its error otherwise. -/
def afterCall {α : Type} (delivery : Delivery) (result : Except TxError α) : Stage :=
  match delivery with
  | .lostRequest err | .lostAnswer err => .calling (.failure err)
  | .answered =>
    match result with
    | .ok _ => .done
    | .error e => .calling (.failure (errorText e))

def finalStatus (c : ClaimedStep) : StepStatus :=
  if c.step.isRollback then .rolledBack else .completed

def callOp (n : ℕ) (c : ClaimedStep) : Call → Op
  | .skip => .complete n .skipped
      (some (.obj [("skipped", .bool true), ("reason", .str "condition did not match")])) none
  | .dryRun => .complete n (finalStatus c)
      (some (.obj [("dry_run", .bool true), ("step_type", .str c.step.stepType.text),
        ("would_execute", .bool true)])) none
  | .success output => .complete n (finalStatus c) output none
  | .failure err => .complete n .failed none (some err)
  | .ambiguous err => .markAmbiguous n (some err)

/-- The stage after the answer to an HTTP request: an error leaves the outcome
of a request without idempotency key unknown. -/
def responseStage (c : ClaimedStep) (result : Except String (Option Json)) : Stage :=
  match result with
  | .ok output => .calling (.success output)
  | .error err =>
    if c.step.immutableInput.step.inputs.idempotencyHeader = "" then .calling (.ambiguous err)
    else .calling (.failure err)

def failureEvents (n : ℕ) : Call → Delivery → List Event
  | .failure _, .answered | .failure _, .lostAnswer _ => [.failure n]
  | _, _ => []

/-- A successful retry with `force` of a step that is ambiguous. -/
def forcedEvents (s : Sys) : Op → List Event
  | .retry tenantID executionID stepID _ _ _ true =>
    match ownedStep tenantID executionID stepID s.db with
    | some es => if es.status = .ambiguous then [.forcedRetry stepID] else []
    | none => []
  | _ => []

namespace World

variable (env : Env)

/-- Task `n` moves on. -/
def move (w : World) (n : ℕ) (stage : Stage) : World :=
  { w with stage := Function.update w.stage n stage }

theorem move_stage_self (w : World) (n : ℕ) (stage : Stage) : (w.move n stage).stage n = stage := by
  simp [move]

theorem move_stage_of_ne {m n : ℕ} (h : m ≠ n) (w : World) (stage : Stage) :
    (w.move n stage).stage m = w.stage m := by
  simp [move, h]

/-- A store operation that reaches the database. -/
def call (w : World) (op : Op) : Delivery → World
  | .lostRequest _ => w
  | .answered | .lostAnswer _ => { w with sys := w.sys.perform env op }

def actStage (w : World) (n : ℕ) (workerID : String) (c : ClaimedStep) (delivery : Delivery)
    (approvalID : String) (result : Except String (Option Json)) : World :=
  let step := c.step.immutableInput.step
  match step.type with
  | .wait =>
    match parseDuration step.inputs.duration with
    | none =>
      w.move n (.calling (.failure ("time: invalid duration " ++ quote step.inputs.duration)))
    | some duration =>
      (w.call env (.scheduleWait n (w.sys.now + duration)) delivery).move n (afterCall delivery
        (Tx.commit env.exclusive (scheduleWait c (w.sys.now + duration) workerID) w.sys.db).1)
  | .approval =>
    let expires := if step.inputs.expiresIn = "" then some none
      else (parseDuration step.inputs.expiresIn).map fun duration => some (w.sys.now + duration)
    match expires with
    | none =>
      w.move n (.calling (.failure ("time: invalid duration " ++ quote step.inputs.expiresIn)))
    | some expiresAt =>
      (w.call env (.openApproval n approvalID step.inputs.prompt expiresAt) delivery).move n
        (afterCall delivery (Tx.commit env.exclusive
          (openApproval w.sys.now approvalID c workerID step.inputs.prompt expiresAt) w.sys.db).1)
  | .http =>
    match result with
    | .error err => w.move n (.calling (.failure err))
    | .ok _ => { w.move n .awaiting with trace := w.trace ++ [.request n] }
  | .plugin =>
    match result with
    | .error err => w.move n (.calling (.failure err))
    | .ok output => w.move n (.calling (.success output))
  | .other text => w.move n (.calling (.failure ("unsupported step type " ++ quote text)))

/-- The effect of an action; one that does not fit the stage of its task does
nothing. -/
def step : Act → World → World
  | .store op, w =>
    if op.isCall then w
    else { w with sys := w.sys.perform env op, trace := w.trace ++ forcedEvents w.sys op }
  | .begin n readErr, w =>
    match w.sys.issued[n]?, w.stage n with
    | some (_, c), .fresh =>
      { w.move n (beginStage w.sys.db c readErr) with
        trace := w.trace ++ judgedEvents w.sys.db n c readErr }
    | _, _ => w
  | .act n delivery approvalID result, w =>
    match w.sys.issued[n]?, w.stage n with
    | some (workerID, c), .acting => w.actStage env n workerID c delivery approvalID result
    | _, _ => w
  | .respond n result, w =>
    match w.sys.issued[n]?, w.stage n with
    | some (_, c), .awaiting => w.move n (responseStage c result)
    | _, _ => w
  | .finish n delivery, w =>
    match w.sys.issued[n]?, w.stage n with
    | some (_, c), .calling call =>
      { (w.call env (callOp n c call) delivery).move n .done with
        trace := w.trace ++ failureEvents n call delivery }
    | _, _ => w

/-- Before the first execution, and before the first claim. -/
def Init (w : World) : Prop :=
  w.sys.Init ∧ (∀ n, w.stage n = .fresh) ∧ w.trace = []

def Reachable (w : World) : Prop :=
  Transition.Reachable (step env) Init w

end World

/-! ### What an action can do -/

/-- The stages `beginStage` leads to, with the events recorded on the way. -/
inductive Begun (n : ℕ) (c : ClaimedStep) : Stage → List Event → Prop
  | act {events : List Event} (h : c.dryRun = false) : Begun n c .acting events
  | dryRun {events : List Event} (h : c.dryRun = true) : Begun n c (.calling .dryRun) events
  | skip {condition : Condition} {inputs : List (String × String)}
      (h : c.step.immutableInput.step.condition = some condition)
      (hno : conditionMatches condition inputs = false) :
      Begun n c (.calling .skip) [.judged n inputs]
  | failure (err : String) {events : List Event} : Begun n c (.calling (.failure err)) events

inductive Called : Stage → Prop
  | done : Called .done
  | failure (err : String) : Called (.calling (.failure err))

/-- **Everything an action can do to a world.** -/
inductive WorldStep (env : Env) (w : World) : World → Prop
  | idle : WorldStep env w w
  | store (op : Op) (h : op.isCall = false) :
      WorldStep env w
        { w with sys := w.sys.perform env op, trace := w.trace ++ forcedEvents w.sys op }
  | begin {n : ℕ} {workerID : String} {c : ClaimedStep} {stage : Stage} {events : List Event}
      (hn : w.sys.issued[n]? = some (workerID, c)) (hs : w.stage n = .fresh)
      (hevents : ∀ event ∈ events, ∃ inputs, event = .judged n inputs)
      (hstage : Begun n c stage events) :
      WorldStep env w { w.move n stage with trace := w.trace ++ events }
  | fail {n : ℕ} {workerID : String} {c : ClaimedStep} (err : String)
      (hn : w.sys.issued[n]? = some (workerID, c)) (hs : w.stage n = .acting) :
      WorldStep env w (w.move n (.calling (.failure err)))
  | plugin {n : ℕ} {workerID : String} {c : ClaimedStep} (output : Option Json)
      (hn : w.sys.issued[n]? = some (workerID, c)) (hs : w.stage n = .acting)
      (htype : c.step.immutableInput.step.type = .plugin) :
      WorldStep env w (w.move n (.calling (.success output)))
  | send {n : ℕ} {workerID : String} {c : ClaimedStep}
      (hn : w.sys.issued[n]? = some (workerID, c)) (hs : w.stage n = .acting)
      (htype : c.step.immutableInput.step.type = .http) :
      WorldStep env w { w.move n .awaiting with trace := w.trace ++ [.request n] }
  | wait {n : ℕ} {workerID : String} {c : ClaimedStep} {stage : Stage} (until_ : Time)
      (hn : w.sys.issued[n]? = some (workerID, c)) (hs : w.stage n = .acting)
      (htype : c.step.immutableInput.step.type = .wait) (hstage : Called stage) :
      WorldStep env w
        (World.move { w with sys := w.sys.perform env (.scheduleWait n until_) } n stage)
  | approval {n : ℕ} {workerID : String} {c : ClaimedStep} {stage : Stage}
      (approvalID prompt : String) (expiresAt : Option Time)
      (hn : w.sys.issued[n]? = some (workerID, c)) (hs : w.stage n = .acting)
      (htype : c.step.immutableInput.step.type = .approval) (hstage : Called stage) :
      WorldStep env w (World.move
        { w with sys := w.sys.perform env (.openApproval n approvalID prompt expiresAt) } n stage)
  | respond {n : ℕ} {workerID : String} {c : ClaimedStep} (result : Except String (Option Json))
      (hn : w.sys.issued[n]? = some (workerID, c)) (hs : w.stage n = .awaiting) :
      WorldStep env w (w.move n (responseStage c result))
  | finish {n : ℕ} {workerID : String} {c : ClaimedStep} {call : Call}
      (hn : w.sys.issued[n]? = some (workerID, c)) (hs : w.stage n = .calling call) :
      WorldStep env w
        { World.move { w with sys := w.sys.perform env (callOp n c call) } n .done with
          trace := w.trace ++ failureEvents n call .answered }
  | lost {n : ℕ} {workerID : String} {c : ClaimedStep} {call : Call}
      (hn : w.sys.issued[n]? = some (workerID, c)) (hs : w.stage n = .calling call) :
      WorldStep env w (w.move n .done)

theorem begun_proceed (n : ℕ) (c : ClaimedStep) (events : List Event) :
    Begun n c (proceed c) events := by
  rw [proceed]
  split
  · rename_i hdry
    exact .dryRun hdry
  · rename_i hdry
    exact .act (by simpa using hdry)

theorem begun_beginStage (db : DB) (n : ℕ) (c : ClaimedStep) (readErr : Option String) :
    Begun n c (beginStage db c readErr) (judgedEvents db n c readErr) := by
  rw [beginStage]
  split
  · exact begun_proceed n c _
  rename_i condition hcond
  rcases readErr with _ | err
  · rcases hinputs : executionConditionInputs c.step.executionID db with _ | inputs
    · exact .failure _
    simp only
    split
    · exact begun_proceed n c _
    rename_i hno
    have hevents : judgedEvents db n c none = [.judged n inputs] := by
      simp only [judgedEvents, hcond, hinputs]
    rw [hevents]
    exact .skip hcond (by simpa using hno)
  · exact .failure err

theorem judgedEvents_mem {db : DB} {n : ℕ} {c : ClaimedStep} {readErr : Option String}
    {event : Event} (h : event ∈ judgedEvents db n c readErr) :
    ∃ inputs, event = .judged n inputs := by
  unfold judgedEvents at h
  split at h
  · exact ⟨_, List.mem_singleton.mp h⟩
  · cases h

theorem called_afterCall {α : Type} (delivery : Delivery) (result : Except TxError α) :
    Called (afterCall delivery result) := by
  rcases delivery with _ | err | err
  · rcases result with e | a
    · exact .failure _
    · exact .done
  · exact .failure err
  · exact .failure err

section Cases

variable {env : Env} {w : World} {n : ℕ} {workerID : String} {c : ClaimedStep}

theorem actStage_cases (hn : w.sys.issued[n]? = some (workerID, c)) (hs : w.stage n = .acting)
    (delivery : Delivery) (approvalID : String) (result : Except String (Option Json)) :
    WorldStep env w (w.actStage env n workerID c delivery approvalID result) := by
  unfold World.actStage
  cases htype : c.step.immutableInput.step.type with
  | http =>
    simp only [htype]
    rcases result with err | output
    · exact .fail err hn hs
    · exact .send hn hs htype
  | wait =>
    simp only [htype]
    rcases parseDuration c.step.immutableInput.step.inputs.duration with _ | duration
    · exact .fail _ hn hs
    rcases delivery with _ | err | err
    · exact .wait _ hn hs htype (called_afterCall _ _)
    · exact .fail err hn hs
    · exact .wait _ hn hs htype (called_afterCall _ _)
  | approval =>
    simp only [htype]
    split
    · exact .fail _ hn hs
    rcases delivery with _ | err | err
    · exact .approval _ _ _ hn hs htype (called_afterCall _ _)
    · exact .fail err hn hs
    · exact .approval _ _ _ hn hs htype (called_afterCall _ _)
  | plugin =>
    simp only [htype]
    rcases result with err | output
    · exact .fail err hn hs
    · exact .plugin output hn hs htype
  | other text =>
    simp only [htype]
    exact .fail _ hn hs

theorem World.step_cases (env : Env) (a : Act) (w : World) : WorldStep env w (w.step env a) := by
  cases a with
  | store op =>
    rw [World.step]
    split
    · exact .idle
    · rename_i hop
      exact .store op (by simpa using hop)
  | begin n readErr =>
    rw [World.step]
    split
    · rename_i hn hs
      exact .begin hn hs (fun _ h => judgedEvents_mem h) (begun_beginStage _ _ _ _)
    · exact .idle
  | act n delivery approvalID result =>
    rw [World.step]
    split
    · rename_i hn hs
      exact actStage_cases hn hs delivery approvalID result
    · exact .idle
  | respond n result =>
    rw [World.step]
    split
    · rename_i hn hs
      exact .respond result hn hs
    · exact .idle
  | finish n delivery =>
    rw [World.step]
    split
    · rename_i c call hn hs
      rcases delivery with _ | err | err
      · exact .finish hn hs
      · -- The request is lost: nothing is reported.
        have hnone : failureEvents n call (.lostRequest err) = [] := by
          cases call <;> rfl
        rw [hnone, List.append_nil]
        exact .lost hn hs
      have hsame : failureEvents n call (.lostAnswer err) = failureEvents n call .answered := by
        cases call <;> rfl
      rw [hsame]
      exact .finish hn hs
    · exact .idle

end Cases

end StormRelay
