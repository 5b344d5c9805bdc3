/-
From an accepted document to the rows of an execution
(`internal/runbooks/document.go`, the loop of `StartExecution`).

`Validate` checks a runbook when it is stored; `StartExecution` computes the
timing of every step again and encodes the whole step as JSON.  Validation looks
at the one embedded value the step's type uses, the encoder at both.

* `accepted_startable_iff` — **the timing of an accepted step never fails; the
  step can be prepared exactly when the values its type does not use can be
  encoded**.
-/
import StormRelay.Provenance

namespace StormRelay

open Tx GoStd

/-! ### What `json.Marshal` accepts -/

mutual

/-- `json.Marshal` accepts the value: no map with keys that are not strings, no
infinite float or NaN and no timestamp without a text is part of it. -/
def Value.encodable : Value → Bool
  | .null | .bool _ | .int _ | .float _ | .str _ => true
  | .timestamp text => text.isSome
  | .nonFinite | .anyMapping _ => false
  | .seq items => Value.encodableItems items
  | .mapping entries => Value.encodableEntries entries

def Value.encodableItems : List Value → Bool
  | [] => true
  | item :: items => item.encodable && Value.encodableItems items

def Value.encodableEntries : List (String × Value) → Bool
  | [] => true
  | (_, value) :: entries => value.encodable && Value.encodableEntries entries

end

def Input.encodable (i : Input) : Bool :=
  i.body.all Value.encodable && i.input.all Value.encodable

def Action.encodable (action : Action) : Bool :=
  action.inputs.encodable

/-- The encoding of a step leaves its type-specific sections out (`json:"-"`). -/
def Snapshot.encodable (snapshot : Snapshot) : Bool :=
  snapshot.step.inputs.encodable && snapshot.step.rollback.all Action.encodable

/-- The platform encodes what Go encodes, and stores no snapshot it cannot
encode. -/
structure Platform.Encodes (pf : Platform) : Prop where
  values : ∀ value, (pf.jsonMarshal value).isSome = value.all Value.encodable
  snapshots : ∀ snapshot, pf.snapshotStorable snapshot = true → snapshot.encodable = true

/-! ### The preparation of a step -/

/-- What `StartExecution` computes for a step before it inserts the row: the
timeout, the retry policy and the encodings of the snapshot and of the rollback
action. -/
def prepareStep (doc : Document) (step : Step) : Except String (ℤ × RetryParsed) := do
  let timeout ← timeoutSeconds step
  let retry ← parsedRetry step.retry
  let snapshot : Snapshot :=
    { runbookID := doc.metadata.id, runbookVersion := doc.metadata.version, step := step
      timeoutSeconds := timeout, retry := retry }
  if snapshot.encodable = false then .error "json: unsupported value"
  else
    match step.rollback with
    | none => pure (timeout, retry)
    | some action =>
      if action.encodable = false then .error "json: unsupported value"
      else pure (timeout, retry)

def Step.encodable (step : Step) : Bool :=
  step.inputs.encodable && step.rollback.all Action.encodable

theorem prepareStep_eq_ok_iff {doc : Document} {step : Step} {timeout : ℤ} {retry : RetryParsed} :
    prepareStep doc step = .ok (timeout, retry) ↔ timeoutSeconds step = .ok timeout
      ∧ parsedRetry step.retry = .ok retry ∧ step.encodable = true := by
  constructor
  · intro h
    obtain ⟨t, ht, h⟩ := bind_eq_ok h
    obtain ⟨p, hp, h⟩ := bind_eq_ok h
    simp only at h
    split at h
    · cases h
    rename_i hencodable
    have hresult : (t, p) = (timeout, retry) := by
      split at h
      · exact Except.ok.inj h
      · split at h
        · cases h
        · exact Except.ok.inj h
    obtain ⟨rfl, rfl⟩ := Prod.mk.inj hresult
    exact ⟨ht, hp, (Bool.not_eq_false _).mp hencodable⟩
  rintro ⟨ht, hp, hencodable⟩
  simp only [Step.encodable, Bool.and_eq_true] at hencodable
  rw [prepareStep, ht, hp]
  show (if Snapshot.encodable _ = false then _ else _) = _
  rw [if_neg (by simp [Snapshot.encodable, hencodable])]
  cases hrollback : step.rollback with
  | none => rfl
  | some action =>
    rw [hrollback] at hencodable
    have haction : action.encodable = true := hencodable.2
    simp only [haction, Bool.true_eq_false, if_false]
    rfl

/-! ### What validation has checked -/

/-- The embedded values that the checks of a step type do not look at. -/
def Input.sparesEncodable (type : StepType) (i : Input) : Bool :=
  match type with
  | .http => i.input.all Value.encodable
  | .plugin => i.body.all Value.encodable
  | _ => i.encodable

/-- The values that neither the step nor its rollback action uses. -/
def Step.sparesEncodable (step : Step) : Bool :=
  step.inputs.sparesEncodable step.type
    && step.rollback.all fun action => action.inputs.sparesEncodable action.type

section Validated

variable {pf : Platform} {step : Step}

theorem encodable_of_checked (hpf : pf.Encodes) {value : Option Value}
    (h : encodable pf value = true) : value.all Value.encodable = true := by
  rw [encodable] at h
  rw [← hpf.values]
  split at h
  · cases h
  · rename_i hvalue
    rw [hvalue]
    rfl

theorem validateStepBody_ok (h : validateStepBody pf step = .ok ()) :
    matchesIdentifier step.id = true ∧ validateInput pf step = .ok ()
      ∧ (∃ retry, parsedRetry step.retry = .ok retry)
      ∧ (step.timeout ≠ "" → ∃ d, boundedDuration step.timeout second hour = .ok d) := by
  rw [validateStepBody] at h
  split at h
  · cases h
  rename_i hid
  split at h
  · cases h
  obtain ⟨_, hinput, h⟩ := bind_eq_ok h
  obtain ⟨retry, hretry, h⟩ := bind_eq_ok h
  refine ⟨by simpa using hid, hinput, ⟨retry, label_eq_ok.mp hretry⟩, fun htimeout => ?_⟩
  rw [if_pos htimeout] at h
  obtain ⟨d, hd, -⟩ := bind_eq_ok h
  exact ⟨d, label_eq_ok.mp hd⟩

theorem validateStep_ok (h : validateStep pf step = .ok ()) :
    validateStepBody pf step = .ok () ∧ ∀ action, step.rollback = some action →
      (action.type = .http ∨ action.type = .plugin)
        ∧ validateStepBody pf (rollbackCandidate step action) = .ok () := by
  rw [validateStep] at h
  obtain ⟨_, hbody, h⟩ := bind_eq_ok h
  refine ⟨hbody, fun action haction => ?_⟩
  rw [haction] at h
  simp only at h
  split at h
  · cases h
  rename_i htype
  exact ⟨by tauto, label_eq_ok.mp h⟩

theorem validateHTTP_encodable {input : Input} (h : validateHTTP pf input = .ok ()) :
    encodable pf input.body = true := by
  rw [validateHTTP] at h
  simp only at h
  generalize (if pf.toUpper (trimSpace input.method) = "" then "POST"
    else pf.toUpper (trimSpace input.method)) = method at h
  split at h
  · cases h
  split at h
  · cases h
  split at h
  · cases h
  split at h
  · cases h
  split at h
  · cases h
  split at h
  · cases h
  · rename_i hencodable
    exact (Bool.not_eq_false _).mp hencodable

theorem validateInput_encodable (hpf : pf.Encodes) (h : validateInput pf step = .ok ()) :
    step.inputs.encodable = step.inputs.sparesEncodable step.type := by
  cases htype : step.type with
  | http =>
    rw [validateInput, htype] at h
    have hbody := validateHTTP_encodable h
    rw [Input.encodable, encodable_of_checked hpf hbody, Bool.true_and]
    rfl
  | plugin =>
    have hinput : encodable pf step.inputs.input = true := by
      rw [validateInput, htype] at h
      simp only at h
      split at h
      · cases h
      split at h
      · cases h
      · rename_i hencodable
        simpa using hencodable
    rw [Input.encodable, encodable_of_checked hpf hinput, Bool.and_true]
    rfl
  | wait | approval | other text => rfl

/-- **The encoder accepts a validated step exactly when it accepts the values the
step does not use.** -/
theorem validateStep_encodable (hpf : pf.Encodes) (h : validateStep pf step = .ok ()) :
    step.encodable = step.sparesEncodable := by
  obtain ⟨hbody, hrollback⟩ := validateStep_ok h
  obtain ⟨-, hinput, -, -⟩ := validateStepBody_ok hbody
  rw [Step.encodable, Step.sparesEncodable, validateInput_encodable hpf hinput]
  congr 1
  cases haction : step.rollback with
  | none => rfl
  | some action =>
    obtain ⟨-, hbody'⟩ := hrollback action haction
    obtain ⟨-, hinput', -, -⟩ := validateStepBody_ok hbody'
    exact validateInput_encodable hpf hinput'

end Validated

/-- **Accepted runbooks can be started, up to the values no step type uses.**  For
every document that `Parse` accepts and each of its steps, the timeout and the
retry policy are computed without an error and lie in their ranges; and
`StartExecution` prepares the step if and only if the embedded values that the
type of the step (or of its rollback action) does not use can be encoded as
JSON. -/
theorem accepted_startable_iff {pf : Platform} (hpf : pf.Encodes) {text : String} {doc : Document}
    (h : parse pf text = .ok doc) {step : Step} (hstep : step ∈ doc.spec.steps) :
    (∃ timeout retry, timeoutSeconds step = .ok timeout ∧ parsedRetry step.retry = .ok retry
      ∧ (1 ≤ timeout ∧ timeout ≤ 3600)
      ∧ (1 ≤ retry.maxAttempts ∧ retry.maxAttempts ≤ 10)
      ∧ 1 ≤ retry.initialBackoffSeconds
      ∧ retry.initialBackoffSeconds ≤ retry.maxBackoffSeconds)
    ∧ ((∃ prepared, prepareStep doc step = .ok prepared) ↔ step.sparesEncodable = true) := by
  have hvalid := validateStep_of_parse h hstep
  obtain ⟨timeout, htimeout, hrange⟩ := timeoutSeconds_of_validateStep hvalid
  obtain ⟨-, -, ⟨retry, hretry⟩, -⟩ := validateStepBody_ok (validateStep_ok hvalid).1
  refine ⟨⟨timeout, retry, htimeout, hretry, hrange, parsedRetry_range hretry⟩, ?_⟩
  rw [← validateStep_encodable hpf hvalid]
  constructor
  · rintro ⟨⟨t, p⟩, hprepared⟩
    exact (prepareStep_eq_ok_iff.mp hprepared).2.2
  · intro hencodable
    exact ⟨_, prepareStep_eq_ok_iff.mpr ⟨htimeout, hretry, hencodable⟩⟩

/-! ### A runbook that is accepted and cannot be started -/

/-- A platform that encodes what Go encodes, on which every text decodes to
`doc`. -/
def encodingPlatform (doc : Document) : Platform :=
  { plainPlatform doc with
    jsonMarshal := fun value => if value.all Value.encodable then some [] else none
    snapshotStorable := Snapshot.encodable }

theorem encodingPlatform_encodes (doc : Document) : (encodingPlatform doc).Encodes := by
  refine ⟨fun value => ?_, fun _ h => h⟩
  show (if value.all Value.encodable = true then some [] else none).isSome = _
  split
  · rename_i h
    rw [h]
    rfl
  rename_i h
  rw [Bool.not_eq_true] at h
  rw [h]
  rfl

def waitWith (body : Value) : Step :=
  { id := "pause", type := .wait, inputs := { duration := "5s", body := some body } }

/-- A step whose spare value is a text has its timing, and can be prepared. -/
theorem accepted_startable_plain :
    (∃ timeout retry, timeoutSeconds (waitWith (.str "x")) = .ok timeout
      ∧ parsedRetry (waitWith (.str "x")).retry = .ok retry
      ∧ (1 ≤ timeout ∧ timeout ≤ 3600)
      ∧ (1 ≤ retry.maxAttempts ∧ retry.maxAttempts ≤ 10)
      ∧ 1 ≤ retry.initialBackoffSeconds
      ∧ retry.initialBackoffSeconds ≤ retry.maxBackoffSeconds)
    ∧ ∃ prepared, prepareStep (runbookWith [waitWith (.str "x")]) (waitWith (.str "x"))
        = .ok prepared :=
  have hparse : parse (encodingPlatform (runbookWith [waitWith (.str "x")])) ""
      = .ok (runbookWith [waitWith (.str "x")]) := rfl
  have hboth := accepted_startable_iff (encodingPlatform_encodes _) hparse
    (List.mem_singleton.mpr rfl)
  ⟨hboth.1, hboth.2.mpr rfl⟩

/-- **Accepted, and never started.**  The body of the wait step is a map with the
key `1`: `Parse` accepts the runbook, the step cannot be prepared, and every
start of the runbook fails. -/
theorem accepted_unstartable :
    (encodingPlatform (runbookWith [waitWith (.anyMapping [(.int 1, .str "x")])])).Encodes
      ∧ (parse (encodingPlatform (runbookWith [waitWith (.anyMapping [(.int 1, .str "x")])]))
        "").isOk
        = true
      ∧ prepareStep (runbookWith [waitWith (.anyMapping [(.int 1, .str "x")])])
          (waitWith (.anyMapping [(.int 1, .str "x")])) = .error "json: unsupported value"
      ∧ succeeds true (startExecution
          (encodingPlatform (runbookWith [waitWith (.anyMapping [(.int 1, .str "x")])]))
          0 "e" ["s1"]
          { tenantID := "t", runbookKey := "restart" }) oneRunbook.db = false := by
  refine ⟨encodingPlatform_encodes _, ?_, ?_, ?_⟩
  · decide +kernel
  · rfl
  · decide +kernel

end StormRelay
