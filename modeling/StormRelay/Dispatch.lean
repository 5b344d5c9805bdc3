/-
HTTP requests are not repeated silently.

An HTTP step without idempotency header must not be sent twice on its own: a
request is sent once, and again only after an operator forces a retry.  The
count rests on three facts:

* `attempts_of_reachable` — the attempt number identifies a claim: no two claims
  of a step share it;
* `acted_of_reachable` — the task of such a step sends its request or reports a
  failure, at most once and never both;
* `charged_of_reachable` — every claim beyond the first is paid for by a forced
  retry or by a reported failure.

Together they give

* `no_silent_redispatch` — **the requests sent for such a step are at most one
  more than its forced retries**.
-/
import StormRelay.Order
import Mathlib.Data.List.Perm.Subperm

namespace StormRelay

open Tx Table Transition

variable {env : Env} {w w' : World} {s : Sys}

/-! ### Attempt numbers -/

structure Numbered (s : Sys) : Prop where
  ordered : s.issued.Pairwise fun x y =>
    x.2.step.id = y.2.step.id → x.2.step.attemptCount < y.2.step.attemptCount
  positive : ∀ x ∈ s.issued, 0 < x.2.step.attemptCount

/-- A claim just made counts one attempt more than any earlier claim. -/
theorem attempt_lt_of_claims (hi : s.Inv) {locked : List String} {workerID : String}
    {limit lease : ℤ} {x : String × ClaimedStep} {c : ClaimedStep} (hx : x ∈ s.issued)
    (hc : c ∈ s.claims locked workerID limit lease) (hid : x.2.step.id = c.step.id) :
    x.2.step.attemptCount < c.step.attemptCount := by
  obtain ⟨r, hr, e, -, -, rfl⟩ := mem_claims hc
  obtain ⟨r₀, hr₀, hdef, hle, -⟩ := (hi.claims x hx).row
  have hsame : r₀ = r := by
    refine hi.consistent.eq_of_id hr₀ hr ?_
    rw [column_of_definition ExecutionStep.id (fun _ => rfl) hdef, hid]
    rfl
  have hnext : (claimedStep e (claimRow s.now workerID (claimLease lease) r)).step.attemptCount
      = r.attemptCount + 1 := rfl
  rw [hnext, ← hsame]
  omega

theorem claims_distinct (hi : s.Inv) (locked : List String) (workerID : String) (limit lease : ℤ) :
    (s.claims locked workerID limit lease).Pairwise fun c d => c.step.id ≠ d.step.id := by
  have hkeyed := hi.consistent.keyed
  rw [Keyed, List.Nodup, List.pairwise_map] at hkeyed
  simp only [Sys.claims, claimUpdate]
  rw [List.pairwise_filterMap]
  refine hkeyed.imp fun {y z} hyz c hc d hd => ?_
  split at hc
  swap
  · cases hc
  split at hd
  swap
  · cases hd
  obtain ⟨_, -, rfl⟩ := Option.map_eq_some_iff.mp hc
  obtain ⟨_, -, rfl⟩ := Option.map_eq_some_iff.mp hd
  exact hyz

theorem Numbered.step (hi : s.Inv) (h : Numbered s) (op : Op) : Numbered (s.perform env op) := by
  obtain hsame | ⟨locked, workerID, limit, lease, -, hissued⟩ := perform_issued env s op
  · refine ⟨?_, ?_⟩
    · rw [hsame]
      exact h.ordered
    · rw [hsame]
      exact h.positive
  refine ⟨?_, ?_⟩
  · rw [hissued, List.pairwise_append]
    refine ⟨h.ordered, ?_, ?_⟩
    · rw [List.pairwise_map]
      refine (claims_distinct hi locked workerID limit lease).imp fun {c d} hne hid => ?_
      exact absurd hid hne
    · intro x hx y hy hid
      obtain ⟨c, hc, rfl⟩ := List.mem_map.mp hy
      exact attempt_lt_of_claims hi hx hc hid
  intro x hx
  rw [hissued] at hx
  rcases List.mem_append.mp hx with hold | hnew
  · exact h.positive x hold
  · obtain ⟨c, hc, rfl⟩ := List.mem_map.mp hnew
    obtain ⟨r, -, e, -, -, rfl⟩ := mem_claims hc
    exact Nat.succ_pos _

/-- **The attempt number identifies a claim of a step.** -/
theorem attempts_of_reachable (hs : Sys.Reachable env s) : Numbered s := by
  have hboth : s.Inv ∧ Numbered s := by
    refine Reachable.invariant (I := fun s => s.Inv ∧ Numbered s)
      (fun s h₀ => ⟨inv_init h₀, ?_, ?_⟩)
      (fun op s h => ⟨inv_perform env h.1 op, h.2.step h.1 op⟩) hs
    · rw [h₀.2.2.2]
      exact .nil
    · intro x hx
      rw [h₀.2.2.2] at hx
      cases hx
  exact hboth.2

/-! ### What a task does at most once -/

def Unrepeatable (snapshot : Snapshot) : Prop :=
  snapshot.step.type = .http ∧ snapshot.step.inputs.idempotencyHeader = ""

def acts (trace : List Event) : List ℕ :=
  trace.filterMap fun event =>
    match event with
    | .request n | .failure n => some n
    | _ => none

theorem acts_append (t u : List Event) : acts (t ++ u) = acts t ++ acts u :=
  List.filterMap_append

def Stage.unsent : Stage → Bool
  | .fresh | .acting | .calling (.failure _) => true
  | _ => false

/-- The tasks of steps that may not be repeated act at most once, and only tasks
with a claim act. -/
structure Acted (w : World) : Prop where
  known : ∀ n ∈ acts w.trace, n < w.sys.issued.length
  once : ∀ n workerID c, w.sys.issued[n]? = some (workerID, c) →
    Unrepeatable c.step.immutableInput →
    (acts w.trace).count n ≤ if (w.stage n).unsent then 0 else 1

namespace Acted

theorem perform (h : Acted w) (env : Env) (op : Op) {trace : List Event}
    (hacts : acts trace = acts w.trace) :
    Acted { w with sys := w.sys.perform env op, trace := trace } := by
  obtain ⟨new, hnew⟩ := perform_issued_prefix env w.sys op
  constructor
  · intro n hn
    have hlt := h.known n (hacts ▸ hn)
    show n < (w.sys.perform env op).issued.length
    rw [← hnew, List.length_append]
    omega
  intro n workerID c hn hun
  show (acts trace).count n ≤ if (w.stage n).unsent then 0 else 1
  rw [hacts]
  replace hn : (w.sys.perform env op).issued[n]? = some (workerID, c) := hn
  by_cases hlt : n < w.sys.issued.length
  · rw [← hnew, List.getElem?_append_left hlt] at hn
    exact h.once n workerID c hn hun
  -- A claim handed out just now has not acted.
  have hnone : (acts w.trace).count n = 0 :=
    List.count_eq_zero.mpr fun hmem => hlt (h.known n hmem)
  rw [hnone]
  exact Nat.zero_le _

theorem move (h : Acted w) {m : ℕ} {workerID : String} {c : ClaimedStep} {stage : Stage}
    {trace : List Event} {l : List ℕ} (hm : w.sys.issued[m]? = some (workerID, c))
    (hacts : acts trace = acts w.trace ++ l) (hnew : ∀ n ∈ l, n = m)
    (hcount : Unrepeatable c.step.immutableInput →
      (acts w.trace).count m + l.count m ≤ if stage.unsent then 0 else 1) :
    Acted { w.move m stage with trace := trace } := by
  constructor
  · intro n hn
    show n < w.sys.issued.length
    replace hn : n ∈ acts w.trace ++ l := hacts ▸ hn
    rcases List.mem_append.mp hn with hold | hin
    · exact h.known n hold
    · rw [hnew n hin]
      exact (List.getElem?_eq_some_iff.mp hm).1
  intro n workerID' c' hn hun
  replace hn : w.sys.issued[n]? = some (workerID', c') := hn
  show (acts trace).count n ≤ if ((w.move m stage).stage n).unsent then 0 else 1
  rw [hacts, List.count_append]
  rcases eq_or_ne n m with rfl | hne
  · obtain ⟨rfl, rfl⟩ := Prod.mk.inj (Option.some.inj (hm.symm.trans hn))
    rw [World.move_stage_self]
    exact hcount hun
  · have hnone : l.count n = 0 := List.count_eq_zero.mpr fun hin => hne (hnew n hin)
    rw [World.move_stage_of_ne hne, hnone]
    exact h.once n workerID' c' hn hun

theorem count_le (h : Acted w) {n : ℕ} {workerID : String} {c : ClaimedStep}
    (hn : w.sys.issued[n]? = some (workerID, c)) {stage : Stage} (hs : w.stage n = stage)
    (hun : Unrepeatable c.step.immutableInput) :
    (acts w.trace).count n ≤ if stage.unsent then 0 else 1 := by
  rw [← hs]
  exact h.once n workerID c hn hun

theorem step (h : Acted w) (hstep : WorldStep env w w') : Acted w' := by
  cases hstep with
  | idle => exact h
  | store op hop =>
    refine h.perform env op ?_
    rw [acts_append]
    have hnone : acts (forcedEvents w.sys op) = [] := by
      unfold forcedEvents
      split
      · split
        · split <;> rfl
        · rfl
      · rfl
    rw [hnone, List.append_nil]
  | @begin n workerID c stage events hn hs hevents hstage =>
    have hnone : acts events = [] := by
      rw [acts, List.filterMap_eq_nil_iff]
      intro event hev
      obtain ⟨inputs, rfl⟩ := hevents event hev
      rfl
    refine h.move (l := []) hn (by rw [acts_append, hnone]) nofun fun hun => ?_
    have hzero : (acts w.trace).count n ≤ 0 := h.count_le hn hs hun
    exact le_trans hzero (Nat.zero_le _)
  | @fail n workerID c err hn hs =>
    refine h.move (l := []) hn (List.append_nil _).symm nofun fun hun => ?_
    have hzero : (acts w.trace).count n ≤ 0 := h.count_le hn hs hun
    exact hzero
  | @plugin n workerID c output hn hs htype =>
    refine h.move (l := []) hn (List.append_nil _).symm nofun fun hun => ?_
    exact absurd hun.1 (by rw [htype]; exact nofun)
  | @send n workerID c hn hs htype =>
    refine h.move (l := [n]) hn (by rw [acts_append]; rfl)
      (fun m hm => List.mem_singleton.mp hm) fun hun => ?_
    have hzero : (acts w.trace).count n ≤ 0 := h.count_le hn hs hun
    rw [List.count_singleton_self]
    exact Nat.add_le_add_right hzero 1
  | @wait n workerID c stage until_ hn hs htype hstage =>
    refine (h.perform env (.scheduleWait n until_) rfl).move (l := [])
      (Tasked.issued_perform hn env _) (List.append_nil _).symm nofun fun hun => ?_
    exact absurd hun.1 (by rw [htype]; exact nofun)
  | @approval n workerID c stage approvalID prompt expiresAt hn hs htype hstage =>
    refine (h.perform env (.openApproval n approvalID prompt expiresAt) rfl).move (l := [])
      (Tasked.issued_perform hn env _) (List.append_nil _).symm nofun fun hun => ?_
    exact absurd hun.1 (by rw [htype]; exact nofun)
  | @respond n workerID c result hn hs =>
    refine h.move (l := []) hn (List.append_nil _).symm nofun fun hun => ?_
    have hone : (acts w.trace).count n ≤ 1 := h.count_le hn hs hun
    -- After its request, a step that may not be repeated reports no failure.
    have hsent : (responseStage c result).unsent = false := by
      rcases result with err | output
      · rw [responseStage, if_pos hun.2]
        rfl
      · rfl
    rw [hsent]
    exact hone
  | @finish n workerID c call hn hs =>
    have hbase := h.perform env (callOp n c call) rfl
    refine hbase.move (l := acts (failureEvents n call .answered)) (Tasked.issued_perform hn env _)
      (acts_append _ _) ?_ fun hun => ?_
    · intro m hm
      cases call with
      | failure err => exact List.mem_singleton.mp hm
      | _ => cases hm
    cases call with
    | failure err =>
      have hzero : (acts w.trace).count n ≤ 0 := h.count_le hn hs hun
      show (acts w.trace).count n + [n].count n ≤ 1
      rw [List.count_singleton_self]
      exact Nat.add_le_add_right hzero 1
    | skip | dryRun | success output | ambiguous err =>
      have hone : (acts w.trace).count n ≤ 1 := h.count_le hn hs hun
      exact hone
  | @lost n workerID c call hn hs =>
    refine h.move (l := []) hn (List.append_nil _).symm nofun fun hun => ?_
    refine le_trans (h.count_le hn hs hun) ?_
    split
    · exact Nat.zero_le 1
    · exact le_rfl

end Acted

/-- **A task of a step that may not be repeated acts at most once.** -/
theorem acted_of_reachable (hw : World.Reachable env w) : Acted w := by
  refine Reachable.invariant (I := Acted) (fun w h₀ => ?_)
    (fun a w h => h.step (World.step_cases env a w)) hw
  obtain ⟨-, -, htrace⟩ := h₀
  constructor
  · intro n hn
    rw [htrace] at hn
    cases hn
  · intro n workerID c _ _
    rw [htrace]
    exact Nat.zero_le _

/-! ### What pays for a claim -/

/-- Task `n` belongs to the step. -/
def taskOf (s : Sys) (stepID : String) (n : ℕ) : Bool :=
  (s.issued[n]?.map fun x => x.2.step.id) = some stepID

/-- The HTTP requests sent for a step. -/
def requests (w : World) (stepID : String) : ℕ :=
  w.trace.countP fun event =>
    match event with
    | .request n => taskOf w.sys stepID n
    | _ => false

def failures (w : World) (stepID : String) : ℕ :=
  w.trace.countP fun event =>
    match event with
    | .failure n => taskOf w.sys stepID n
    | _ => false

/-- The forced retries of a step while it was ambiguous. -/
def forcedRetries (w : World) (stepID : String) : ℕ :=
  w.trace.countP fun event =>
    match event with
    | .forcedRetry id => id = stepID
    | _ => false

theorem taskOf_of_prefix {s s' : Sys} (h : s.issued <+: s'.issued) {stepID : String} {n : ℕ}
    (hn : taskOf s stepID n = true) : taskOf s' stepID n = true := by
  obtain ⟨new, hnew⟩ := h
  obtain ⟨x, hx, hid⟩ := Option.map_eq_some_iff.mp (of_decide_eq_true hn)
  refine decide_eq_true (Option.map_eq_some_iff.mpr ⟨x, ?_, hid⟩)
  rw [← hnew, List.getElem?_append_left (List.getElem?_eq_some_iff.mp hx).1]
  exact hx

theorem failures_mono (hstep : WorldStep env w w') (stepID : String) :
    failures w stepID ≤ failures w' stepID := by
  obtain ⟨events, hevents⟩ := hstep.trace
  rw [failures, failures, ← hevents, List.countP_append]
  refine le_trans (List.countP_mono_left fun event _ hev => ?_) (Nat.le_add_right _ _)
  cases event with
  | failure n => exact taskOf_of_prefix hstep.issued hev
  | _ => exact hev

theorem forcedRetries_mono (hstep : WorldStep env w w') (stepID : String) :
    forcedRetries w stepID ≤ forcedRetries w' stepID := by
  obtain ⟨events, hevents⟩ := hstep.trace
  rw [forcedRetries, forcedRetries, ← hevents, List.countP_append]
  exact Nat.le_add_right _ _

def ExecutionStep.charge (r : ExecutionStep) : ℕ :=
  r.attemptCount + if r.status = .pending ∨ r.status = .retrying ∨ r.status = .failed then 1 else 0

theorem ExecutionStep.charge_le (r : ExecutionStep) : r.charge ≤ r.attemptCount + 1 := by
  rw [charge]
  split <;> omega

theorem ExecutionStep.attempt_le_charge (r : ExecutionStep) : r.attemptCount ≤ r.charge :=
  Nat.le_add_right _ _

variable {r : ExecutionStep}

theorem ExecutionStep.charge_of_ready
    (h : r.status = .pending ∨ r.status = .retrying ∨ r.status = .failed) :
    r.charge = r.attemptCount + 1 := by
  rw [charge, if_pos h]

theorem ExecutionStep.charge_of_unready
    (h : ¬ (r.status = .pending ∨ r.status = .retrying ∨ r.status = .failed)) :
    r.charge = r.attemptCount := by
  rw [charge, if_neg h]
  rfl

/-- **What a change costs** a step that may not be repeated: nothing, unless it
is a forced retry of the ambiguous step or a reported failure. -/
theorem charge_of_change (hi : s.Inv) (ht : Typed s.db) {op : Op} {r' : ExecutionStep}
    (hr : r ∈ s.db.steps) (h : StepChange s op r r') (hun : Unrepeatable r.immutableInput) :
    r'.charge ≤ r.charge
      ∨ (∃ tenantID executionID actor requestID traceID,
        op = .retry tenantID executionID r.id actor requestID traceID true
        ∧ r.status = .ambiguous ∧ r'.charge ≤ r.charge + 1)
      ∨ ∃ n status output err workerID c, op = .complete n status output (some err)
        ∧ s.issued[n]? = some (workerID, c) ∧ c.step.id = r.id ∧ r'.charge ≤ r.charge + 1 := by
  have htype : r.stepType = .http := (ht.type r hr).trans hun.1
  have hidem : idempotent r = false := by
    rw [idempotent, htype, hun.2]
    rfl
  -- Approvals belong to approval steps.
  have happroval : ∀ {a : Approval} {P : Prop}, a ∈ s.db.approvals →
      r.id = a.executionStepID → P := by
    intro a P ha hid
    obtain ⟨r₀, hr₀, hid₀, htype₀⟩ := ht.approvals a ha
    rw [hi.consistent.eq_of_id hr₀ hr (hid₀.trans hid.symm), htype] at htype₀
    cases htype₀
  -- A change that keeps the attempt number and does not make the step ready again.
  have hfree : ∀ {r' : ExecutionStep}, r'.attemptCount = r.attemptCount →
      ¬ (r'.status = .pending ∨ r'.status = .retrying ∨ r'.status = .failed) →
      r'.charge ≤ r.charge := by
    intro r' hatt hst
    rw [ExecutionStep.charge_of_unready hst, hatt]
    exact r.attempt_le_charge
  have hplus : ∀ {r' : ExecutionStep}, r'.attemptCount = r.attemptCount →
      r'.charge ≤ r.charge + 1 := by
    intro r' hatt
    have h₁ := r'.charge_le
    have h₂ := r.attempt_le_charge
    omega
  have hid_of : ∀ {stepID owner : String}, leasedTo stepID owner r = true → stepID = r.id :=
    fun hl => (leasedTo_id hl).symm
  cases h with
  | @claim _ workerID _ lease _ _ _ he hcl =>
    refine .inl ?_
    have hready : r.status = .pending ∨ r.status = .retrying ∨ r.status = .failed :=
      (claimable_status hcl).imp_right .inl
    have hst : ¬ ((claimRow s.now workerID (claimLease lease) r).status = .pending
        ∨ (claimRow s.now workerID (claimLease lease) r).status = .retrying
        ∨ (claimRow s.now workerID (claimLease lease) r).status = .failed) := by
      simp only [claimRow]
      split <;> simp
    rw [ExecutionStep.charge_of_ready hready, ExecutionStep.charge_of_unready hst]
    exact le_rfl
  | recover hexp =>
    refine .inl (hfree rfl ?_)
    simp [recoverRow, recoverable, hidem]
  | timer hdue => exact .inl (hfree rfl (by simp [timerRow]))
  | expire ha hp hid => exact happroval ha hid
  | wait hn hl hs => exact .inl (hfree rfl (by simp [waitRow]))
  | openApproval hn hl => exact .inl (hfree rfl (by simp [waitingApprovalRow]))
  | @complete n status output workerID c _ hn hl =>
    refine .inl (hfree rfl ?_)
    show ¬ (completionStatus status = .pending ∨ completionStatus status = .retrying
      ∨ completionStatus status = .failed)
    cases status <;> simp [completionStatus]
  | @retryLater n status output err _ _ workerID c _ hn hl hlt
  | @fail n status output err _ workerID c _ hn hl =>
    exact .inr (.inr ⟨n, status, output, err, workerID, c, rfl, hn, hid_of hl, hplus rfl⟩)
  | ambiguous hn hl => exact .inl (hfree rfl (by simp [ambiguousRow]))
  | cancel hid hcan => exact .inl (hfree rfl (by simp [canceledRow]))
  | decide ha hid hp hstep hd => exact happroval ha hstep
  | @retry tenantID executionID _ actor requestID traceID force _ hid hok =>
    subst hid
    simp only [retryAllowed, hidem, Bool.false_or, Bool.or_eq_true, Bool.and_eq_true,
      decide_eq_true_eq] at hok
    rcases hok with hfailed | ⟨hamb, rfl⟩
    · refine .inl ?_
      rw [ExecutionStep.charge_of_ready (.inr (.inr hfailed)),
        ExecutionStep.charge_of_ready (.inr (.inl rfl))]
      exact le_rfl
    · exact .inr (.inl ⟨tenantID, executionID, actor, requestID, traceID, rfl, hamb, hplus rfl⟩)

def Charged (w : World) : Prop :=
  ∀ r ∈ w.sys.db.steps, Unrepeatable r.immutableInput →
    r.charge ≤ 1 + forcedRetries w r.id + failures w r.id

namespace Charged

def Paid (w w' : World) (stepID : String) : Prop :=
  forcedRetries w stepID + failures w stepID + 1 ≤ forcedRetries w' stepID + failures w' stepID

theorem Paid.of_forced (hstep : WorldStep env w w') {stepID : String}
    (h : w'.trace = w.trace ++ [.forcedRetry stepID]) : Paid w w' stepID := by
  have hforced : forcedRetries w' stepID = forcedRetries w stepID + 1 := by
    rw [forcedRetries, h, List.countP_append, forcedRetries]
    simp
  have hfailures := failures_mono hstep stepID
  rw [Paid]
  omega

theorem Paid.of_failure (hstep : WorldStep env w w') {stepID : String} {n : ℕ}
    (h : w'.trace = w.trace ++ [.failure n]) (hn : taskOf w'.sys stepID n = true) :
    Paid w w' stepID := by
  have hfailures : failures w stepID + 1 ≤ failures w' stepID := by
    rw [failures, failures, h, List.countP_append, List.countP_singleton, if_pos hn]
    refine Nat.add_le_add_right (List.countP_mono_left fun event _ hev => ?_) 1
    cases event with
    | failure n => exact taskOf_of_prefix hstep.issued hev
    | _ => exact hev
  have hforced := forcedRetries_mono hstep stepID
  rw [Paid]
  omega

theorem of_perform (hi : w.sys.Inv) (ht : Typed w.sys.db) (h : Charged w)
    (hstep : WorldStep env w w') (op : Op) (hsys : w'.sys = w.sys.perform env op)
    (hretry : ∀ r ∈ w.sys.db.steps, ∀ tenantID executionID actor requestID traceID,
      op = .retry tenantID executionID r.id actor requestID traceID true → r.status = .ambiguous →
      ownedStep tenantID executionID r.id w.sys.db = some r → Paid w w' r.id)
    (hfail : ∀ n status output err workerID c, op = .complete n status output (some err) →
      w.sys.issued[n]? = some (workerID, c) → Paid w w' c.step.id) : Charged w' := by
  intro r' hr' hun'
  rw [hsys] at hr'
  rcases Typed.row_cases hi op hr' with ⟨r, hr, hdef, hch⟩ | hnew
  swap
  · -- A new row is ready for its first claim.
    have hcharge : r'.charge = 1 := by
      rw [ExecutionStep.charge_of_ready (.inl hnew.status), hnew.attempts]
    omega
  have hid : r'.id = r.id := column_of_definition ExecutionStep.id (fun _ => rfl) hdef
  have hun : Unrepeatable r.immutableInput := by
    rw [← column_of_definition ExecutionStep.immutableInput (fun _ => rfl) hdef]
    exact hun'
  have hbefore := h r hr hun
  have hforced := forcedRetries_mono hstep r.id
  have hfailures := failures_mono hstep r.id
  rw [hid]
  have hcost : r'.charge ≤ r.charge ∨ r'.charge ≤ r.charge + 1 ∧ Paid w w' r.id := by
    rcases hch with rfl | hch
    · exact .inl le_rfl
    rcases charge_of_change hi ht hr hch hun with hfree
      | ⟨tenantID, executionID, actor, requestID, traceID, rfl, hamb, hplus⟩
      | ⟨n, status, output, err, workerID, c, rfl, hn, hc, hplus⟩
    · exact .inl hfree
    · rcases howned : ownedStep tenantID executionID r.id w.sys.db with _ | es
      · -- The retry was refused: the row is the old one.
        have hnone : (w.sys.perform env
            (.retry tenantID executionID r.id actor requestID traceID true)).db = w.sys.db :=
          retry_error fun es hes => by rw [howned] at hes; cases hes
        rw [hnone] at hr'
        rw [hi.consistent.eq_of_id hr' hr hid]
        exact .inl le_rfl
      · obtain ⟨hmem, hes, -⟩ := ownedStep_some howned
        obtain rfl := hi.consistent.eq_of_id hmem hr hes
        exact .inr ⟨hplus, hretry es hr _ _ _ _ _ rfl hamb howned⟩
    · exact .inr ⟨hplus, hc ▸ hfail n status output err workerID c rfl hn⟩
  rcases hcost with hfree | ⟨hplus, hpaid⟩
  · omega
  · rw [Paid] at hpaid
    omega

theorem of_same (h : Charged w) (hstep : WorldStep env w w') (hsys : w'.sys = w.sys) :
    Charged w' := by
  intro r hr hun
  rw [hsys] at hr
  have hbefore := h r hr hun
  have hforced := forcedRetries_mono hstep r.id
  have hfailures := failures_mono hstep r.id
  omega

theorem step (hi : w.sys.Inv) (ht : Typed w.sys.db) (h : Charged w) (hstep : WorldStep env w w') :
    Charged w' := by
  have hcopy := hstep
  cases hstep with
  | store op hop =>
    refine h.of_perform hi ht hcopy op rfl ?_ ?_
    · rintro r hr tenantID executionID actor requestID traceID rfl hamb howned
      have hevents : forcedEvents w.sys
          (.retry tenantID executionID r.id actor requestID traceID true)
          = [.forcedRetry r.id] := by
        simp only [forcedEvents, howned, if_pos hamb]
      rw [hevents] at hcopy ⊢
      exact .of_forced hcopy rfl
    · rintro n status output err workerID c rfl
      cases hop
  | @wait n _ _ _ until_ hn hs htype hstage =>
    refine h.of_perform hi ht hcopy (.scheduleWait n until_) rfl ?_ ?_
    · intro r hr _ _ _ _ _ heq
      cases heq
    · intro m _ _ _ _ _ heq
      cases heq
  | @approval n _ _ _ approvalID prompt expiresAt hn hs htype hstage =>
    refine h.of_perform hi ht hcopy (.openApproval n approvalID prompt expiresAt) rfl ?_ ?_
    · intro r hr _ _ _ _ _ heq
      cases heq
    · intro m _ _ _ _ _ heq
      cases heq
  | @finish n workerID c call hn hs =>
    refine h.of_perform hi ht hcopy (callOp n c call) rfl ?_ ?_
    · intro r hr _ _ _ _ _ heq
      cases call <;> cases heq
    intro m status output err workerID' c' heq hm
    cases call with
    | failure err' =>
      obtain rfl : n = m := (Op.complete.inj heq).1
      obtain ⟨rfl, rfl⟩ := Prod.mk.inj (Option.some.inj (hn.symm.trans hm))
      refine .of_failure hcopy rfl (decide_eq_true ?_)
      show ((w.sys.perform env _).issued[n]?.map fun x => x.2.step.id) = some c.step.id
      rw [Tasked.issued_perform hn env _]
      rfl
    | skip | dryRun | success output => cases (Op.complete.inj heq).2.2.2
    | ambiguous err' => cases heq
  | _ => exact h.of_same hcopy rfl

end Charged

/-- **Every claim of a step that may not be repeated is paid for.** -/
theorem charged_of_reachable (hw : World.Reachable env w) : Charged w := by
  have hboth : World.Reachable env w ∧ Charged w := by
    refine Reachable.invariant (I := fun w => World.Reachable env w ∧ Charged w)
      (fun w h₀ => ⟨⟨w, [], h₀, rfl⟩, ?_⟩) (fun a w h => ⟨h.1.act a, ?_⟩) hw
    · intro r hr
      rw [h₀.1.2.1] at hr
      cases hr
    · exact h.2.step h.1.inv (typed_of_reachable h.1) (World.step_cases env a w)
  exact hboth.2

/-! ### The bound -/

def actsOf (w : World) (stepID : String) : List ℕ :=
  (acts w.trace).filter (taskOf w.sys stepID)

theorem length_actsOf (w : World) (stepID : String) :
    (actsOf w stepID).length = requests w stepID + failures w stepID := by
  rw [actsOf, requests, failures, acts]
  induction w.trace with
  | nil => rfl
  | cons event trace ih =>
    cases event with
    | judged n inputs | forcedRetry id => simpa using ih
    | request n | failure n =>
      by_cases hn : taskOf w.sys stepID n = true
      · simp only [List.filterMap_cons, List.filter_cons, List.countP_cons, if_pos hn,
          List.length_cons, ih, Bool.false_eq_true, if_false]
        omega
      · simpa [List.filterMap_cons, List.filter_cons, List.countP_cons, if_neg hn] using ih

def attemptOf (s : Sys) (n : ℕ) : ℕ :=
  (s.issued[n]?.map fun x => x.2.step.attemptCount).getD 0

theorem claim_of_task (hi : s.Inv) (hr : r ∈ s.db.steps) {n : ℕ} (h : taskOf s r.id n = true) :
    ∃ workerID c, s.issued[n]? = some (workerID, c) ∧ c.step.id = r.id
      ∧ r.definition = c.step.definition ∧ c.step.attemptCount ≤ r.attemptCount := by
  obtain ⟨⟨workerID, c⟩, hx, hid⟩ := Option.map_eq_some_iff.mp (of_decide_eq_true h)
  obtain ⟨r₀, hr₀, hdef, hle, -⟩ := (hi.claims _ (List.mem_of_getElem? hx)).row
  have hsame : r₀ = r := by
    refine hi.consistent.eq_of_id hr₀ hr ?_
    rw [column_of_definition ExecutionStep.id (fun _ => rfl) hdef]
    exact hid
  exact ⟨workerID, c, hx, hid, hsame ▸ hdef, hsame ▸ hle⟩

theorem attemptOf_injective (h : Numbered s) {stepID : String} {m n : ℕ}
    (hm : taskOf s stepID m = true) (hn : taskOf s stepID n = true)
    (heq : attemptOf s m = attemptOf s n) : m = n := by
  obtain ⟨x, hx, hxid⟩ := Option.map_eq_some_iff.mp (of_decide_eq_true hm)
  obtain ⟨y, hy, hyid⟩ := Option.map_eq_some_iff.mp (of_decide_eq_true hn)
  obtain ⟨hxl, hxe⟩ := List.getElem?_eq_some_iff.mp hx
  obtain ⟨hyl, hye⟩ := List.getElem?_eq_some_iff.mp hy
  rw [attemptOf, attemptOf, hx, hy] at heq
  replace heq : x.2.step.attemptCount = y.2.step.attemptCount := heq
  have hordered := List.pairwise_iff_getElem.mp h.ordered
  rcases lt_trichotomy m n with hlt | rfl | hlt
  · have hless := hordered m n hxl hyl hlt
    rw [hxe, hye] at hless
    exact absurd heq (Nat.ne_of_lt (hless (hxid.trans hyid.symm)))
  · rfl
  · have hless := hordered n m hyl hxl hlt
    rw [hxe, hye] at hless
    exact absurd heq.symm (Nat.ne_of_lt (hless (hyid.trans hxid.symm)))

theorem acts_le_attempts (hw : World.Reachable env w) (hr : r ∈ w.sys.db.steps)
    (hun : Unrepeatable r.immutableInput) :
    requests w r.id + failures w r.id ≤ r.attemptCount := by
  have hi := hw.inv
  have hnumbered := attempts_of_reachable hw.sys
  have htask : ∀ n ∈ actsOf w r.id, taskOf w.sys r.id n = true :=
    fun n hn => (List.mem_filter.mp hn).2
  have hnodup : (actsOf w r.id).Nodup := by
    rw [List.nodup_iff_count_le_one]
    intro n
    by_cases hn : n ∈ actsOf w r.id
    swap
    · rw [List.count_eq_zero.mpr hn]
      exact Nat.zero_le 1
    obtain ⟨workerID, c, hx, -, hdef, -⟩ := claim_of_task hi hr (htask n hn)
    have hunc : Unrepeatable c.step.immutableInput := by
      rw [← column_of_definition ExecutionStep.immutableInput (fun _ => rfl) hdef]
      exact hun
    have honce := (acted_of_reachable hw).once n workerID c hx hunc
    calc (actsOf w r.id).count n ≤ (acts w.trace).count n :=
          (List.filter_sublist).count_le n
      _ ≤ if (w.stage n).unsent then 0 else 1 := honce
      _ ≤ 1 := by split <;> omega
  -- Distinct tasks of the step have distinct attempt numbers, from 1 to the row's.
  have hmapped : ((actsOf w r.id).map (attemptOf w.sys)).Nodup :=
    hnodup.map_on fun m hm n hn heq => attemptOf_injective hnumbered (htask m hm) (htask n hn) heq
  have hrange : (actsOf w r.id).map (attemptOf w.sys) ⊆ List.range' 1 r.attemptCount := by
    intro k hk
    obtain ⟨n, hn, rfl⟩ := List.mem_map.mp hk
    obtain ⟨workerID, c, hx, -, -, hle⟩ := claim_of_task hi hr (htask n hn)
    have hpos : 0 < c.step.attemptCount := hnumbered.positive _ (List.mem_of_getElem? hx)
    rw [attemptOf, hx, List.mem_range'_1]
    show 1 ≤ c.step.attemptCount ∧ c.step.attemptCount < 1 + r.attemptCount
    omega
  have hlength := (List.Nodup.subperm hmapped hrange).length_le
  rw [List.length_map, List.length_range', length_actsOf] at hlength
  exact hlength

/-- **No silent re-dispatch.**  In every reachable world, for every HTTP step
without idempotency header: the number of requests the engines sent for it is at
most one more than the number of forced retries made while it was ambiguous. -/
theorem no_silent_redispatch (hw : World.Reachable env w) {r : ExecutionStep}
    (hr : r ∈ w.sys.db.steps) (htype : r.stepType = .http)
    (hheader : r.immutableInput.step.inputs.idempotencyHeader = "") :
    requests w r.id ≤ 1 + forcedRetries w r.id := by
  have hun : Unrepeatable r.immutableInput :=
    ⟨((typed_of_reachable hw).type r hr).symm.trans htype, hheader⟩
  have hacts := acts_le_attempts hw hr hun
  have hcharged := charged_of_reachable hw r hr hun
  have hcharge := r.attempt_le_charge
  omega

def unrepeatableEnv : Env :=
  { platform := plainPlatform (runbookWith
      [{ idempotentStep with inputs := { url := "https://ops.example/restart" } }])
    exclusive := true }

/-- The request is sent, its answer is lost, the operator forces a retry, and
the request is sent again. -/
def forcedRun : List Act :=
  [.store (starting ["s"]), .store claiming, .begin 0 none, .act 0 .answered "" (.ok none),
    .respond 0 (.error "connection reset"), .finish 0 .answered,
    .store (.retry "t" "e" "s" "ops" "" "" true),
    .store claiming, .begin 1 none, .act 1 .answered "" (.ok none)]

def forcedWorld : World :=
  run (World.step unrepeatableEnv) forcedRun idleWorld

/-- Two requests in `forcedWorld`, one of them forced: the bound is reached. -/
theorem no_silent_redispatch_forced :
    requests forcedWorld "s" = 2 ∧ forcedRetries forcedWorld "s" = 1
      ∧ requests forcedWorld "s" ≤ 1 + forcedRetries forcedWorld "s" := by
  have hsteps : (forcedWorld.sys.db.steps.map fun r =>
      (r.id, r.stepType, r.immutableInput.step.inputs.idempotencyHeader)) = [("s", .http, "")] := by
    decide +kernel
  obtain ⟨r, hr, hrow⟩ := Table.exists_row hsteps List.mem_cons_self
  simp only [Prod.mk.injEq] at hrow
  obtain ⟨hid, htype, hheader⟩ := hrow
  have hreach : World.Reachable unrepeatableEnv forcedWorld :=
    ⟨idleWorld, forcedRun, idleWorld_init, rfl⟩
  refine ⟨by decide +kernel, by decide +kernel, ?_⟩
  have hbound := no_silent_redispatch hreach hr htype hheader
  rwa [hid] at hbound

end StormRelay
