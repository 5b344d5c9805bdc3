/-
Where stored steps come from.

A stored step was prepared from a document that `Parse` accepted, or from the
rollback action of a stored step, and no later operation writes its defining
columns.

* `definition_invariant` — **a property of the defining columns that every
  prepared row has holds of every stored step**.
-/
import StormRelay.Invariant

namespace StormRelay

open Tx Table GoStd

variable {env : Env} {s : Sys}

/-- A row as an operation inserts it while the rows `stored` are in the table. -/
inductive Prepared (pf : Platform) (stored : List ExecutionStep) : ExecutionStep → Prop
  | forward {now : Time} {doc : Document} {text executionID stepID : String} {position : ℕ}
      {step : Step} {timeout : ℤ} {retry : RetryParsed} (hdoc : parse pf text = .ok doc)
      (hstep : step ∈ doc.spec.steps) (htimeout : timeoutSeconds step = .ok timeout)
      (hretry : parsedRetry step.retry = .ok retry) :
      Prepared pf stored (forwardRow now doc executionID stepID position step timeout retry)
  | rollback {now : Time} {rollbackID : String} {position : ℕ} {source : ExecutionStep}
      {action : Action} {timeout : ℤ} {retry : RetryParsed} (hsource : source ∈ stored)
      (hforward : source.isRollback = false) (haction : source.rollbackDefinition = some action)
      (htimeout : timeoutSeconds (rollbackStep source action) = .ok timeout)
      (hretry : parsedRetry (rollbackStep source action).retry = .ok retry) :
      Prepared pf stored (rollbackRow now source.executionID rollbackID position source
        (rollbackStep source action) timeout retry)

/-- **Every row after an operation** keeps the defining columns of a row before
it, or was prepared by it. -/
theorem kept_or_prepared (env : Env) (hi : s.Inv) (op : Op) {r' : ExecutionStep}
    (hr' : r' ∈ (Sys.perform env op s).db.steps) :
    (∃ r ∈ s.db.steps, r'.definition = r.definition) ∨ Prepared env.platform s.db.steps r' := by
  rcases (effect_perform env hi op).rows.prev hr' with ⟨r, hr, rfl | hchange⟩ | hnew
  · exact .inl ⟨r', hr, rfl⟩
  · exact .inl ⟨r, hr, hchange.definition⟩
  -- Only the two operations that insert steps add a row; they say how it was prepared.
  · cases hnew with
    | @forward executionID stepID ids input doc position step timeout retry =>
      simp only [Sys.perform, Sys.commit] at hr'
      obtain h | ⟨rv, doc', incident, rows, entry, -, hdoc, -, hrows, -, hafter⟩ :=
        start_cases env.exclusive s.db s.now env.platform executionID ids input
      · rw [h] at hr'
        exact .inl ⟨_, hr', rfl⟩
      rw [hafter] at hr'
      rcases List.mem_append.mp hr' with hold | hin
      · exact .inl ⟨_, hold, rfl⟩
      · obtain ⟨_, _, _, _, _, hstep, htimeout, hretry, heq⟩ := hrows.mem hin
        rw [heq]
        exact .inr (.forward hdoc hstep htimeout hretry)
    | @rollback ids tenantID executionID actor requestID traceID =>
      simp only [Sys.perform, Sys.commit] at hr'
      obtain h | ⟨e, rows, entry, -, -, -, hrows, -, -, hafter⟩ :=
        rollback_cases env.exclusive s.db s.now ids tenantID executionID actor requestID traceID
      · rw [h] at hr'
        exact .inl ⟨_, hr', rfl⟩
      rw [hafter] at hr'
      rcases List.mem_append.mp hr' with hold | hin
      · exact .inl ⟨_, hold, rfl⟩
      obtain ⟨_, _, _, _, _, _, hsource, htimeout, hretry, heq⟩ := hrows.mem hin
      obtain ⟨hmem, rfl, hforward, -, haction⟩ := mem_rollbackSources_iff.mp hsource
      rw [heq]
      exact .inr (.rollback hmem hforward haction htimeout hretry)

/-- **Invariants of the defining columns.**  A property that depends on these
columns only, and that every row prepared beside rows with the property has,
holds of every stored step. -/
theorem definition_invariant {P : ExecutionStep → Prop}
    (hdef : ∀ r r', r'.definition = r.definition → P r → P r')
    (hnew : ∀ stored r, (∀ q ∈ stored, P q) → Prepared env.platform stored r → P r)
    (hs : Sys.Reachable env s) : ∀ r ∈ s.db.steps, P r := by
  have hinv : s.Inv ∧ ∀ r ∈ s.db.steps, P r := by
    refine Transition.Reachable.invariant (I := fun s => s.Inv ∧ ∀ r ∈ s.db.steps, P r)
      (fun s h₀ => ⟨inv_init h₀, ?_⟩) (fun op s h => ⟨inv_perform env h.1 op, ?_⟩) hs
    · intro r hr
      rw [h₀.2.1] at hr
      cases hr
    intro r' hr'
    rcases kept_or_prepared env h.1 op hr' with ⟨r, hr, hdefinition⟩ | hprepared
    · exact hdef r r' hdefinition (h.2 r hr)
    · exact hnew _ _ h.2 hprepared
  exact hinv.2

/-! ### What preparation guarantees -/

variable {text : String}

theorem label_eq_ok {α : Type} {r : Except String α} {a : α} :
    label text r = .ok a ↔ r = .ok a := by
  rcases r with err | b <;> simp [label, Except.mapError]

theorem guard_eq_ok {ε α : Type} {p : Prop} [Decidable p] {err : ε} {x : Except ε α} {b : α}
    (h : (if p then .error err else x) = .ok b) : ¬ p ∧ x = .ok b := by
  split at h
  · cases h
  · rename_i hp
    exact ⟨hp, h⟩

/-- An optional value, read and then used, in the form the `do` block has. -/
theorem branch_eq_ok {α β : Type} {p : Prop} [Decidable p] {x y : Except String α}
    {f : α → Except String β} {b : β} (h : (if p then x >>= f else y >>= f) = .ok b) :
    ∃ a, (if p then x else y) = .ok a ∧ f a = .ok b := by
  by_cases hp : p
  · rw [if_pos hp] at h ⊢
    exact bind_eq_ok h
  · rw [if_neg hp] at h ⊢
    exact bind_eq_ok h

theorem parsedRetry_range {retry : RetryPolicy} {parsed : RetryParsed}
    (h : parsedRetry retry = .ok parsed) :
    (1 ≤ parsed.maxAttempts ∧ parsed.maxAttempts ≤ 10) ∧ 1 ≤ parsed.initialBackoffSeconds
      ∧ parsed.initialBackoffSeconds ≤ parsed.maxBackoffSeconds := by
  rw [parsedRetry] at h
  generalize (if retry.maxAttempts = 0 then 3 else retry.maxAttempts) = attempts at h
  simp only at h
  split at h
  · cases h
  rename_i hattempts
  obtain ⟨initial, hinitial, h⟩ := branch_eq_ok h
  obtain ⟨maximum, -, h⟩ := branch_eq_ok h
  split at h
  · cases h
  rename_i hle
  obtain rfl := Except.ok.inj h
  have hpos : 0 ≤ initial := by
    split at hinitial
    · have hrange := (boundedDuration_range (label_eq_ok.mp hinitial)).1
      have : (0 : ℤ) ≤ second / 10 := by decide
      omega
    · obtain rfl := Except.ok.inj hinitial
      decide
  have hseconds : wholeSeconds initial ≤ wholeSeconds maximum := by
    rw [wholeSeconds, wholeSeconds, Int.tdiv_eq_ediv_of_nonneg hpos,
      Int.tdiv_eq_ediv_of_nonneg (by omega)]
    omega
  show (1 ≤ attempts ∧ attempts ≤ 10) ∧ 1 ≤ max 1 (wholeSeconds initial)
    ∧ max 1 (wholeSeconds initial) ≤ max 1 (wholeSeconds maximum)
  omega

variable {pf : Platform}

theorem validateSteps_mem {index : ℕ} {seen ids : List String} {steps : List Step}
    (h : validateSteps pf index seen steps = .ok ids) {step : Step} (hstep : step ∈ steps) :
    validateStep pf step = .ok () := by
  induction steps generalizing index seen with
  | nil => cases hstep
  | cons first steps ih =>
    rw [validateSteps] at h
    obtain ⟨_, hfirst, h⟩ := bind_eq_ok h
    split at h
    · cases h
    rcases List.mem_cons.mp hstep with rfl | hin
    · exact label_eq_ok.mp hfirst
    · exact ih h hin

/-- The checks of `Validate` before its two loops over the steps. -/
structure HeaderValid (doc : Document) : Prop where
  apiVersion : doc.apiVersion = apiVersion
  kind : doc.kind = "Runbook"
  id : matchesIdentifier doc.metadata.id = true
  version : 1 ≤ doc.metadata.version
  count : 1 ≤ doc.spec.steps.length ∧ doc.spec.steps.length ≤ 100
  timeout : doc.spec.timeout ≠ "" →
    ∃ d, boundedDuration doc.spec.timeout second (24 * hour) = .ok d

variable {doc : Document}

/-- **When `Validate` accepts a document.** -/
theorem validate_ok_iff :
    validate pf doc = .ok () ↔ HeaderValid doc
      ∧ ∃ seen, validateSteps pf 0 [] doc.spec.steps = .ok seen
      ∧ validateConditions pf seen 0 doc.spec.steps = .ok () := by
  rw [validate]
  constructor
  · intro h
    obtain ⟨hapi, h⟩ := guard_eq_ok h
    obtain ⟨hkind, h⟩ := guard_eq_ok h
    obtain ⟨hid, h⟩ := guard_eq_ok h
    obtain ⟨hversion, h⟩ := guard_eq_ok h
    obtain ⟨hcount, h⟩ := guard_eq_ok h
    have hloops : (doc.spec.timeout ≠ "" →
          ∃ d, boundedDuration doc.spec.timeout second (24 * hour) = .ok d)
        ∧ (validateSteps pf 0 [] doc.spec.steps >>= fun seen =>
            validateConditions pf seen 0 doc.spec.steps) = .ok () := by
      simp only at h
      split at h
      · obtain ⟨d, hd, h⟩ := bind_eq_ok h
        exact ⟨fun _ => ⟨d, label_eq_ok.mp hd⟩, h⟩
      · rename_i htimeout
        exact ⟨fun hne => absurd hne htimeout, h⟩
    obtain ⟨htimeout, h⟩ := hloops
    obtain ⟨seen, hseen, h⟩ := bind_eq_ok h
    refine ⟨⟨not_not.mp hapi, not_not.mp hkind, ?_, by omega, by omega, htimeout⟩, seen, hseen, h⟩
    simpa using hid
  rintro ⟨⟨hapi, hkind, hid, hversion, hcount, htimeout⟩, seen, hseen, h⟩
  rw [if_neg (not_not.mpr hapi), if_neg (not_not.mpr hkind), if_neg (by rw [hid]; decide),
    if_neg (by omega), if_neg (by omega)]
  by_cases hempty : doc.spec.timeout = ""
  · simp only [hempty, ne_eq, not_true, if_false, hseen]
    exact h
  · obtain ⟨d, hd⟩ := htimeout hempty
    simp only [ne_eq, hempty, not_false_eq_true, if_true, hd, label, Except.mapError, hseen]
    exact h

theorem validate_of_parse (h : parse pf text = .ok doc) : validate pf doc = .ok () := by
  rw [parse] at h
  obtain ⟨_, -, h⟩ := bind_eq_ok h
  obtain ⟨doc', -, h⟩ := bind_eq_ok h
  obtain ⟨_, hvalid, h⟩ := bind_eq_ok h
  obtain rfl : doc' = doc := Except.ok.inj h
  exact hvalid

theorem validateStep_of_parse (h : parse pf text = .ok doc) {step : Step}
    (hstep : step ∈ doc.spec.steps) :
    validateStep pf step = .ok () := by
  obtain ⟨-, seen, hseen, -⟩ := validate_ok_iff.mp (validate_of_parse h)
  exact validateSteps_mem hseen hstep

end StormRelay
