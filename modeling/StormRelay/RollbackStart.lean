/-
Starting a rollback (`StartExecutionRollback`).

The rollback steps of an execution are new rows beside its forward steps.  Their
keys and idempotency keys are made from the keys of the forward steps, in the
name space that the authors of runbooks choose step identifiers from.

* `rollback_initialised_iff` — **a rollback can be started exactly when no step of
  the execution is called `rollback-` followed by the key of a step to be rolled
  back**.
-/
import StormRelay.Preparation
import StormRelay.Order
import StormRelay.Separators

namespace StormRelay

open Tx Table

variable {env : Env} {s : Sys}

/-! ### Names of stored steps -/

/-- A `uuid` as `id.New` writes it: hexadecimal digits and hyphens. -/
def isUUID (text : String) : Bool :=
  text.length = 36
    && text.toList.all fun c => c.isDigit || ('a' ≤ c && c ≤ 'f') || c = '-'

theorem colon_not_mem_uuid {text : String} (h : isUUID text = true) : ':' ∉ text.toList := by
  intro hmem
  simp only [isUUID, Bool.and_eq_true, List.all_eq_true] at h
  exact absurd (h.2 ':' hmem) (by decide)

/-- The idempotency keys of two executions never meet. -/
theorem idempotencyKey_inj {id id' name name' : String} (hid : ':' ∉ id.toList)
    (hid' : ':' ∉ id'.toList)
    (h : "runbook:" ++ id ++ ":" ++ name = "runbook:" ++ id' ++ ":" ++ name') :
    id = id' ∧ name = name' := by
  have hlist := congrArg String.toList h
  simp only [String.toList_append, List.append_assoc] at hlist
  have htail := List.append_cancel_left hlist
  have hcolon : ":".toList = [':'] := rfl
  rw [hcolon, List.singleton_append, List.singleton_append] at htail
  obtain ⟨h₁, h₂⟩ := Separators.cut_inj (Separators.count_eq_of_not_mem hid hid') htail
  exact ⟨String.toList_inj.mp h₁, String.toList_inj.mp h₂⟩

def StepNames (r : ExecutionStep) : Prop :=
  r.idempotencyKey
    = "runbook:" ++ r.executionID ++ ":" ++ (if r.isRollback then "" else "step:") ++ r.stepKey

theorem stepNames_of_reachable (hs : Sys.Reachable env s) : ∀ r ∈ s.db.steps, StepNames r := by
  refine definition_invariant (fun r r' hdef h => ?_) (fun stored r _ hprepared => ?_) hs
  · have hnames : (r'.idempotencyKey, r'.executionID, r'.isRollback, r'.stepKey)
        = (r.idempotencyKey, r.executionID, r.isRollback, r.stepKey) :=
      column_of_definition
        (fun r => (r.idempotencyKey, r.executionID, r.isRollback, r.stepKey)) (fun _ => rfl) hdef
    simp only [Prod.mk.injEq] at hnames
    rw [StepNames, hnames.1, hnames.2.1, hnames.2.2.1, hnames.2.2.2]
    exact h
  cases hprepared with
  | @forward now doc text executionID stepID position step =>
    show "runbook:" ++ executionID ++ ":step:" ++ step.id
      = "runbook:" ++ executionID ++ ":" ++ "step:" ++ step.id
    rw [← String.toList_inj]
    simp only [String.toList_append, List.append_assoc]
    rfl
  | @rollback now rollbackID position source action =>
    show "runbook:" ++ source.executionID ++ ":" ++ ("rollback-" ++ source.stepKey)
      = "runbook:" ++ source.executionID ++ ":" ++ "" ++ ("rollback-" ++ source.stepKey)
    rw [String.append_empty]

def Reversible (r : ExecutionStep) : Prop :=
  ∀ action, r.rollbackDefinition = some action →
    (∃ timeout, timeoutSeconds (rollbackStep r action) = .ok timeout)
      ∧ ∃ retry, parsedRetry (rollbackStep r action).retry = .ok retry

theorem timeoutSeconds_congr {step step' : Step} (htype : step.type = step'.type)
    (htimeout : step.timeout = step'.timeout) : timeoutSeconds step = timeoutSeconds step' := by
  rw [timeoutSeconds, timeoutSeconds, htype, htimeout]

theorem reversible_of_reachable (hs : Sys.Reachable env s) : ∀ r ∈ s.db.steps, Reversible r := by
  refine definition_invariant (fun r r' hdef h => ?_) (fun stored r _ hprepared => ?_) hs
  · have hcolumn : r'.rollbackDefinition = r.rollbackDefinition :=
      column_of_definition (fun r => r.rollbackDefinition) (fun _ => rfl) hdef
    intro action haction
    obtain ⟨⟨timeout, ht⟩, hretry⟩ := h action (hcolumn ▸ haction)
    exact ⟨⟨timeout, (timeoutSeconds_congr rfl rfl).trans ht⟩, hretry⟩
  cases hprepared with
  | @forward _ doc text _ _ _ step _ _ hdoc hstep =>
    intro action haction
    obtain ⟨original, horiginal, rfl⟩ := Option.map_eq_some_iff.mp haction
    obtain ⟨-, hvalid⟩ := (validateStep_ok (validateStep_of_parse hdoc hstep)).2 original horiginal
    obtain ⟨-, -, hretry, -⟩ := validateStepBody_ok hvalid
    have hcandidate : validateStep env.platform (rollbackCandidate step original) = .ok () := by
      rw [validateStep, hvalid]
      rfl
    obtain ⟨timeout, ht, -⟩ := timeoutSeconds_of_validateStep hcandidate
    exact ⟨⟨timeout, (timeoutSeconds_congr rfl rfl).trans ht⟩, hretry⟩
  | rollback => exact fun _ haction => by cases haction

/-! ### The insertion loop -/

/-- The key of the step that rolls `source` back. -/
def rollbackKey (source : ExecutionStep) : String :=
  "rollback-" ++ source.stepKey

theorem rollbackKey_inj {a b : ExecutionStep} (h : rollbackKey a = rollbackKey b) :
    a.stepKey = b.stepKey := by
  have hlist := congrArg String.toList h
  simp only [rollbackKey, String.toList_append] at hlist
  exact String.toList_inj.mp (List.append_cancel_left hlist)

/-- No stored step stands in the way of the rollback step of `source`. -/
def RollbackFree (executionID : String) (source : ExecutionStep) (r : ExecutionStep) : Prop :=
  (r.executionID = executionID → r.stepKey ≠ rollbackKey source)
    ∧ r.idempotencyKey ≠ "runbook:" ++ executionID ++ ":" ++ rollbackKey source

/-- The generated identifiers are new, and there are enough of them. -/
structure FreshIDs (ids : List String) (count : ℕ) (steps : List ExecutionStep) : Prop where
  enough : count ≤ ids.length
  distinct : ids.Nodup
  unused : ∀ id ∈ ids, ∀ r ∈ steps, r.id ≠ id

variable {executionID : String}

/-- **The loop inserts a rollback step for every source** when the names are
free and the sources have different keys. -/
theorem insertRollbackSteps_free {now : Time} {x : Bool} {sources : List (ExecutionStep × Action)}
    {position : ℕ} {ids : List String} {db : DB}
    (htimes : ∀ item ∈ sources,
      (∃ timeout, timeoutSeconds (rollbackStep item.1 item.2) = .ok timeout)
        ∧ ∃ retry, parsedRetry (rollbackStep item.1 item.2).retry = .ok retry)
    (hkeys : sources.Pairwise fun a b => a.1.stepKey ≠ b.1.stepKey)
    (hfree : ∀ item ∈ sources, ∀ r ∈ db.steps, RollbackFree executionID item.1 r)
    (hids : FreshIDs ids sources.length db.steps) :
    ∃ rows, insertRollbackSteps now executionID position sources ids ⟨x, false, db⟩
      = .ok ((), ⟨x, false, { db with steps := db.steps ++ rows }⟩) := by
  induction sources generalizing position ids db with
  | nil => exact ⟨[], by rw [List.append_nil]; rfl⟩
  | cons item sources ih =>
    obtain ⟨source, action⟩ := item
    rcases ids with _ | ⟨rollbackID, ids⟩
    · exact absurd hids.enough (Nat.not_succ_le_zero _)
    obtain ⟨⟨timeout, ht⟩, ⟨retry, hp⟩⟩ := htimes _ List.mem_cons_self
    obtain ⟨hhead, hrest⟩ := List.pairwise_cons.mp hkeys
    obtain ⟨hnotin, hnodup⟩ := List.nodup_cons.mp hids.distinct
    let row := rollbackRow now executionID rollbackID position source (rollbackStep source action)
      timeout retry
    have hinsert : DB.insertStep row db = .ok { db with steps := db.steps ++ [row] } := by
      rw [DB.insertStep, if_neg]
      rw [List.any_eq_true]
      rintro ⟨r, hr, hconflict⟩
      obtain ⟨hkey, hidem⟩ := hfree _ List.mem_cons_self r hr
      have hid := hids.unused rollbackID List.mem_cons_self r hr
      simp only [DB.stepsConflict, Bool.or_eq_true, Bool.and_eq_true, decide_eq_true_eq,
        Bool.not_eq_true'] at hconflict
      rcases hconflict with ((h | h) | h) | h
      · exact hid h
      · exact hkey h.1 h.2
      · exact hidem h
      · exact Bool.noConfusion (show true = false from h.2)
    let db' : DB := { db with steps := db.steps ++ [row] }
    -- The names of the remaining sources are still free beside the new row.
    have hfree' : ∀ item ∈ sources, ∀ r ∈ db'.steps, RollbackFree executionID item.1 r := by
      intro item hitem r hr
      rcases List.mem_append.mp hr with hold | hnew
      · exact hfree item (List.mem_cons_of_mem _ hitem) r hold
      obtain rfl := List.mem_singleton.mp hnew
      have hne : rollbackKey source ≠ rollbackKey item.1 :=
        fun h => hhead item hitem (rollbackKey_inj h)
      refine ⟨fun _ => hne, fun h => hne ?_⟩
      have hlist := congrArg String.toList h
      simp only [row, rollbackRow, String.toList_append, List.append_assoc] at hlist
      exact String.toList_inj.mp
        (List.append_cancel_left (List.append_cancel_left (List.append_cancel_left hlist)))
    have hids' : FreshIDs ids sources.length db'.steps := by
      refine ⟨Nat.le_of_succ_le_succ hids.enough, hnodup, fun id hid r hr => ?_⟩
      rcases List.mem_append.mp hr with hold | hnew
      · exact hids.unused id (List.mem_cons_of_mem _ hid) r hold
      · obtain rfl := List.mem_singleton.mp hnew
        rintro rfl
        exact hnotin hid
    obtain ⟨rows, hrun⟩ : ∃ rows,
        insertRollbackSteps now executionID (position + 1) sources ids ⟨x, false, db'⟩
          = .ok ((), ⟨x, false, { db' with steps := db'.steps ++ rows }⟩) :=
      ih (fun item hitem => htimes item (List.mem_cons_of_mem _ hitem)) hrest hfree' hids'
    refine ⟨row :: rows, ?_⟩
    rw [insertRollbackSteps, ht, hp]
    refine (run_insert_ok hinsert).trans (hrun.trans ?_)
    rw [List.append_assoc]
    rfl

/-! ### The request -/

theorem NoConflict.eq_of_stepKey {steps : List ExecutionStep} (h : NoConflict steps)
    {r r' : ExecutionStep} (hr : r ∈ steps) (hr' : r' ∈ steps)
    (hexec : r.executionID = r'.executionID) (hkey : r.stepKey = r'.stepKey) : r = r' := by
  by_contra hne
  have hsymm : Std.Symm fun y z : ExecutionStep => DB.stepsConflict y z = false := by
    refine ⟨fun y z hyz => ?_⟩
    simp only [DB.stepsConflict, Bool.or_eq_false_iff, Bool.and_eq_false_iff,
      decide_eq_false_iff_not, Bool.not_eq_false'] at hyz ⊢
    grind
  have hfalse := List.Pairwise.forall h hr hr' hne
  simp [DB.stepsConflict, hexec, hkey] at hfalse

theorem rollbackSources_keys {db : DB} (h : NoConflict db.steps) (executionID : String) :
    (rollbackSources executionID db).Pairwise fun a b => a.1.stepKey ≠ b.1.stepKey := by
  refine (rollbackSources_descending h executionID).imp_of_mem fun {a b} ha hb hlt hkey => ?_
  obtain ⟨hma, hea, -⟩ := mem_rollbackSources_iff.mp ha
  obtain ⟨hmb, heb, -⟩ := mem_rollbackSources_iff.mp hb
  have hsame := h.eq_of_stepKey hma hmb (hea.trans heb.symm) hkey
  rw [hsame] at hlt
  exact lt_irrefl _ hlt

theorem RollbackRows.exists_row {now : Time} {position : ℕ}
    {sources : List (ExecutionStep × Action)} {rows : List ExecutionStep}
    (h : RollbackRows now executionID position sources rows) {source : ExecutionStep}
    {action : Action} (hs : (source, action) ∈ sources) :
    ∃ row ∈ rows, row.executionID = executionID ∧ row.stepKey = rollbackKey source := by
  induction h with
  | nil => cases hs
  | cons rollbackID _ _ _ ih =>
    rcases List.mem_cons.mp hs with heq | hs
    · obtain ⟨rfl, rfl⟩ := Prod.mk.inj heq
      exact ⟨_, List.mem_cons_self, rfl, rfl⟩
    · obtain ⟨row, hrow, h⟩ := ih hs
      exact ⟨row, List.mem_cons_of_mem _ hrow, h⟩

/-- The key of the rollback of a completed step with a rollback action is taken
by a step of the same execution. -/
def RollbackKeyTaken (executionID : String) (db : DB) : Prop :=
  ∃ source ∈ db.steps, source.executionID = executionID ∧ source.status = .completed
    ∧ source.rollbackDefinition.isSome = true
    ∧ ∃ r ∈ db.steps, r.executionID = executionID ∧ r.stepKey = rollbackKey source

/-- An execution that `StartExecutionRollback` is for: it has come to an end, one
of its completed steps defines a rollback, and it has no rollback steps yet. -/
structure AwaitsRollback (tenantID executionID : String) (db : DB) : Prop where
  finished : ∃ e, ownedExecution tenantID executionID db = some e
    ∧ (e.status = .completed ∨ e.status = .failed ∨ e.status = .ambiguous)
  source : ∃ r ∈ db.steps, r.executionID = executionID ∧ r.status = .completed
    ∧ r.rollbackDefinition.isSome = true
  initial : ∀ r ∈ db.steps, r.executionID = executionID → r.isRollback = false

/-- A free key is free of conflicts: the idempotency key could only be taken by a
step of the same execution, and no forward step has one of that form. -/
theorem rollbackFree_of_key (hs : Sys.Reachable env s)
    (huuid : ∀ e ∈ s.db.executions, isUUID e.id = true)
    (hexec : ∃ e ∈ s.db.executions, e.id = executionID)
    (hinitial : ∀ r ∈ s.db.steps, r.executionID = executionID → r.isRollback = false)
    {source r : ExecutionStep} (hr : r ∈ s.db.steps)
    (hkey : r.executionID = executionID → r.stepKey ≠ rollbackKey source) :
    RollbackFree executionID source r := by
  refine ⟨hkey, fun hidem => ?_⟩
  have hnames := stepNames_of_reachable hs r hr
  obtain ⟨e, he, rfl⟩ := hexec
  obtain ⟨e', he', hid'⟩ := (inv_of_reachable hs).consistent.owner r hr
  rw [StepNames, hidem] at hnames
  obtain ⟨hid, hname⟩ := idempotencyKey_inj (colon_not_mem_uuid (huuid e he))
    (hid' ▸ colon_not_mem_uuid (huuid e' he')) (hnames.trans String.append_assoc)
  rw [if_neg (by rw [hinitial r hr hid.symm]; decide), rollbackKey] at hname
  have hlist := congrArg String.toList hname
  simp only [String.toList_append] at hlist
  exact absurd (List.cons.inj hlist).1 (by decide)

/-- **A rollback can be started, unless its names are taken.**  In every reachable
state, for every execution that has come to an end, has a completed step with a
rollback action and no rollback steps yet, and for new identifiers of the rows:
`StartExecutionRollback` succeeds if and only if no step of the execution has the
key `rollback-K` where `K` is the key of a completed step with a rollback
action. -/
theorem rollback_initialised_iff (hs : Sys.Reachable env s)
    (huuid : ∀ e ∈ s.db.executions, isUUID e.id = true) {tenantID executionID : String}
    (hawaits : AwaitsRollback tenantID executionID s.db) {ids : List String}
    (hids : FreshIDs ids (rollbackSources executionID s.db).length s.db.steps)
    (actor requestID traceID : String) :
    succeeds env.exclusive
      (startExecutionRollback s.now ids tenantID executionID actor requestID traceID) s.db = true
    ↔ ¬ RollbackKeyTaken executionID s.db := by
  have hclean := (inv_of_reachable hs).consistent.steps
  obtain ⟨e, he, hstatus⟩ := hawaits.finished
  constructor
  · rintro hok ⟨source, hsource, hexec, hdone, hdef, r, hr, hrexec, hrkey⟩
    obtain ⟨action, haction⟩ := Option.isSome_iff_exists.mp hdef
    obtain ⟨u, c, hm, -⟩ := succeeds_inv hok
    obtain ⟨_, rows, _, -, -, -, hrows, -, hconflict, -⟩ :=
      rollback_ok env.exclusive s.db s.now ids tenantID executionID actor requestID traceID hm
    obtain ⟨row, hrow, hrowexec, hrowkey⟩ := hrows.exists_row (mem_rollbackSources_iff.mpr
      ⟨hsource, hexec, hawaits.initial source hsource hexec, hdone, haction⟩)
    -- The new row and the step that already has its key are in conflict.
    have hfalse := (List.pairwise_append.mp (hconflict hclean)).2.2 r hr row hrow
    simp [DB.stepsConflict, hrexec, hrowexec, hrkey, hrowkey] at hfalse
  intro hfree
  obtain ⟨hmem, hid⟩ := ownedExecution_some he
  have hinsert : ∃ rows, insertRollbackSteps s.now executionID 0
      (rollbackSources executionID s.db) ids ⟨env.exclusive, false, s.db⟩
      = .ok ((), ⟨env.exclusive, false, { s.db with steps := s.db.steps ++ rows }⟩) := by
    refine insertRollbackSteps_free (fun item hitem => ?_) (rollbackSources_keys hclean executionID)
      (fun item hitem r hr => ?_) hids
    · obtain ⟨hsource, -, -, -, haction⟩ := mem_rollbackSources_iff.mp hitem
      exact reversible_of_reachable hs item.1 hsource item.2 haction
    · obtain ⟨hsource, hexec, -, hdone, haction⟩ := mem_rollbackSources_iff.mp hitem
      refine rollbackFree_of_key hs huuid ⟨e, hmem, hid⟩ hawaits.initial hr fun hrexec hrkey => ?_
      exact hfree ⟨item.1, hsource, hexec, hdone, by rw [haction]; rfl, r, hr, hrexec, hrkey⟩
  obtain ⟨rows, hrows⟩ := hinsert
  let existing : DB → Option ℕ := fun db =>
    some (db.steps.countP fun es => es.executionID = executionID && es.isRollback)
  have hexisting : existing s.db = some 0 := by
    refine congrArg some (List.countP_eq_zero.mpr ?_)
    intro r hr
    by_cases hexec : r.executionID = executionID
    · simp [hawaits.initial r hr hexec]
    · simp [hexec]
  have hsources : rollbackSources executionID s.db ≠ [] := by
    obtain ⟨r, hr, hexec, hdone, hdef⟩ := hawaits.source
    obtain ⟨action, haction⟩ := Option.isSome_iff_exists.mp hdef
    exact List.ne_nil_of_mem (mem_rollbackSources_iff.mpr
      ⟨hr, hexec, hawaits.initial r hr hexec, hdone, haction⟩)
  have hrun : ∃ db', startExecutionRollback s.now ids tenantID executionID actor requestID traceID
      ⟨env.exclusive, false, s.db⟩ = .ok ((), ⟨env.exclusive, false, db'⟩) := by
    rw [startExecutionRollback, run_queryRow_some he, if_neg (by tauto),
      run_queryRow_some (q := existing) hexisting, if_neg (lt_irrefl 0)]
    simp only [run_query, run_scanAll, run_close]
    rw [if_neg hsources, bind_ok hrows, run_exec, appendAudit_idle]
    exact ⟨_, rfl⟩
  obtain ⟨db', hrun⟩ := hrun
  exact succeeds_ok hrun

def reversibleNamed (first second : String) : Env :=
  let undo : Action := { type := .http, inputs := idempotentStep.inputs }
  { platform := plainPlatform (runbookWith
      [{ idempotentStep with id := first, rollback := some undo },
        { idempotentStep with id := second, rollback := some undo }])
    exclusive := true }

def completedRun : List Op :=
  [.startExecution "00000000-0000-4000-8000-000000000001" ["s1", "s2"]
      { tenantID := "t", runbookKey := "restart" },
    claiming, .complete 0 .completed none none,
    claiming, .complete 1 .completed none none]

def completedState (first second : String) : Sys :=
  Transition.run (Sys.perform (reversibleNamed first second)) completedRun oneRunbook

theorem completedState_reachable (first second : String) :
    Sys.Reachable (reversibleNamed first second) (completedState first second) :=
  ⟨oneRunbook, completedRun, ⟨rfl, rfl, rfl, rfl⟩, rfl⟩

theorem awaitsRollback_of_rows {db : DB} {tenantID : String}
    (hexec : (ownedExecution tenantID executionID db).map (fun e => e.status) = some .completed)
    (hrows : (db.steps.map fun r =>
        (r.executionID, r.status, r.rollbackDefinition.isSome, r.isRollback))
      = [(executionID, .completed, true, false), (executionID, .completed, true, false)]) :
    AwaitsRollback tenantID executionID db := by
  refine ⟨?_, ?_, fun r hr _ => ?_⟩
  · obtain ⟨e, he, hstatus⟩ := Option.map_eq_some_iff.mp hexec
    exact ⟨e, he, .inl hstatus⟩
  · obtain ⟨r, hr, hcolumns⟩ := List.mem_map.mp (hrows ▸ List.mem_cons_self)
    simp only [Prod.mk.injEq] at hcolumns
    exact ⟨r, hr, hcolumns.1, hcolumns.2.1, hcolumns.2.2.1⟩
  have hmem := List.mem_map_of_mem (f := fun r : ExecutionStep => (r.executionID, r.status,
    r.rollbackDefinition.isSome, r.isRollback)) hr
  rw [hrows] at hmem
  simp only [List.mem_cons, Prod.mk.injEq, List.not_mem_nil, or_false] at hmem
  rcases hmem with h | h <;> exact h.2.2.2

theorem freshIDs_of_names {ids : List String} {count : ℕ} {steps : List ExecutionStep}
    (henough : count ≤ ids.length) (hdistinct : ids.Nodup)
    (hunused : ∀ id ∈ ids, id ∉ steps.map fun r => r.id) : FreshIDs ids count steps :=
  ⟨henough, hdistinct, fun id hid _ hr h => hunused id hid (h ▸ List.mem_map_of_mem hr)⟩

/-- The rollback of the steps `first` and `second` is started. -/
theorem rollback_initialised_plain :
    succeeds true (startExecutionRollback (completedState "first" "second").now ["b1", "b2"] "t"
        "00000000-0000-4000-8000-000000000001" "op" "" "")
          (completedState "first" "second").db = true :=
  (rollback_initialised_iff (completedState_reachable "first" "second")
    (by decide +kernel) (awaitsRollback_of_rows (by decide +kernel) (by decide +kernel))
    (freshIDs_of_names (by decide +kernel) (by decide) (by decide +kernel)) "op" "" "").mpr
    (by rw [RollbackKeyTaken]; decide +kernel)

/-- **A rollback that cannot be started.**  The runbook has the steps `drain` and
`rollback-drain`, both with a rollback action.  `Parse` accepts it and the
execution completes, but the step that is to roll `drain` back would have the
key of the second step. -/
theorem rollback_key_collides :
    (parse (reversibleNamed "drain" "rollback-drain").platform "").isOk = true
      ∧ Sys.Reachable (reversibleNamed "drain" "rollback-drain")
          (completedState "drain" "rollback-drain")
      ∧ AwaitsRollback "t" "00000000-0000-4000-8000-000000000001"
          (completedState "drain" "rollback-drain").db
      ∧ (commit true (startExecutionRollback (completedState "drain" "rollback-drain").now
          ["b1", "b2"] "t" "00000000-0000-4000-8000-000000000001" "op" "" "")
          (completedState "drain" "rollback-drain").db).1.isOk = false := by
  refine ⟨by decide +kernel, completedState_reachable _ _,
    awaitsRollback_of_rows (by decide +kernel) (by decide +kernel), by decide +kernel⟩

end StormRelay
