/-
Runbook documents (`internal/runbooks/document.go`).

The document types, `normalize`, `Validate` and the two functions that turn the
textual timing of a step into numbers, `ParsedRetry` and `TimeoutSeconds`.
What the file takes from outside the repository is collected in `Platform`:
the YAML decoder, `url.Parse` and Unicode case mapping.

* `timeoutSeconds_of_validateStep` — every step that passes validation has a
  timeout between one second and one hour.
-/
import StormRelay.GoStd

namespace StormRelay

open GoStd

/-- The `type` of a step; `other` is any text the DSL does not define. -/
inductive StepType where
  | http
  | wait
  | approval
  | plugin
  | other (text : String)
deriving DecidableEq, Repr

def StepType.text : StepType → String
  | .http => "http"
  | .wait => "wait"
  | .approval => "approval"
  | .plugin => "plugin"
  | .other text => text

/-- A value of Go type `any` as the YAML decoder builds it.  A finite float
carries its JSON text, and so does a timestamp, unless its zone offset is one
that `time.Time` refuses to encode. -/
inductive Value where
  | null
  | bool (b : Bool)
  | int (n : ℤ)
  | float (text : String)
  | nonFinite
  | timestamp (text : Option String)
  | str (s : String)
  | seq (items : List Value)
  | mapping (entries : List (String × Value))
  | anyMapping (entries : List (Value × Value))

structure RetryPolicy where
  maxAttempts : ℤ := 0
  initialBackoff : String := ""
  maxBackoff : String := ""
deriving DecidableEq, Repr

structure Condition where
  field : String
  equals : Option String := none
  oneOf : List String := []
  negate : Bool := false
deriving DecidableEq, Repr

/-- `Input`; `body` and `input` are `none` when the field is absent. -/
structure Input where
  method : String := ""
  url : String := ""
  headers : List (String × String) := []
  body : Option Value := none
  idempotencyHeader : String := ""
  idempotent : Bool := false
  duration : String := ""
  prompt : String := ""
  expiresIn : String := ""
  expiresAfter : String := ""
  plugin : String := ""
  action : String := ""
  input : Option Value := none

structure Action where
  type : StepType
  timeout : String := ""
  retry : RetryPolicy := {}
  inputs : Input := {}
  http : Option Input := none
  plugin : Option Input := none

/-- `Step`; `inputs` is the field `With`. -/
structure Step where
  id : String
  name : String := ""
  type : StepType
  timeout : String := ""
  retry : RetryPolicy := {}
  condition : Option Condition := none
  inputs : Input := {}
  http : Option Input := none
  wait : Option Input := none
  approval : Option Input := none
  plugin : Option Input := none
  rollback : Option Action := none

structure Metadata where
  id : String
  version : ℤ
  name : String := ""
  description : String := ""

structure Spec where
  timeout : String := ""
  steps : List Step

structure Document where
  apiVersion : String
  kind : String
  metadata : Metadata
  spec : Spec

structure RetryParsed where
  maxAttempts : ℤ
  initialBackoffSeconds : ℤ
  maxBackoffSeconds : ℤ
deriving DecidableEq, Repr

structure Snapshot where
  runbookID : String := ""
  runbookVersion : ℤ := 0
  step : Step
  timeoutSeconds : ℤ
  retry : RetryParsed

/-- The parts of `url.Parse`'s result that validation looks at. -/
structure ParsedURL where
  scheme : String
  hostname : String
  hasUser : Bool
  fragment : String

/-- What the repository takes from outside: the YAML decoder with unknown
fields rejected, `url.Parse`, Unicode case mapping, the JSON encoding of a
decoded value (`none` when `json.Marshal` fails), whether a snapshot can be
encoded and stored as `jsonb`, and SHA-256 of a text. -/
structure Platform where
  decodeYAML : String → Except String Document
  urlParse : String → Option ParsedURL
  toLower : String → String
  toUpper : String → String
  jsonMarshal : Option Value → Option (List UInt8)
  snapshotStorable : Snapshot → Bool
  sha256 : String → List UInt8

/-! ### Durations and retry policies -/

def second : ℤ := 1000000000

def minute : ℤ := 60 * second

def hour : ℤ := 60 * minute

def boundedDuration (value : String) (minimum maximum : ℤ) : Except String ℤ :=
  if trimSpace value = "" then .error "duration is required"
  else match parseDuration value with
    | none => .error ("invalid duration " ++ quote value)
    | some d =>
      if d < minimum ∨ d > maximum then
        .error ("duration must be between " ++ formatDuration minimum ++ " and "
          ++ formatDuration maximum)
      else .ok d

/-- `fmt.Errorf(label + ": %w", err)`. -/
def label {α : Type} (text : String) (r : Except String α) : Except String α :=
  r.mapError fun err => text ++ ": " ++ err

def parsedRetry (retry : RetryPolicy) : Except String RetryParsed := do
  let maxAttempts := if retry.maxAttempts = 0 then 3 else retry.maxAttempts
  if maxAttempts < 1 ∨ maxAttempts > 10 then
    .error "maxAttempts must be between 1 and 10"
  else
    let initial ←
      if retry.initialBackoff ≠ "" then
        label "initialBackoff" (boundedDuration retry.initialBackoff (second / 10) (5 * minute))
      else pure second
    let maximum ←
      if retry.maxBackoff ≠ "" then
        label "maxBackoff" (boundedDuration retry.maxBackoff initial (30 * minute))
      else pure (30 * second)
    if maximum < initial then .error "maxBackoff must be >= initialBackoff"
    else
      pure
        { maxAttempts := maxAttempts
          initialBackoffSeconds := max 1 (wholeSeconds initial)
          maxBackoffSeconds := max 1 (wholeSeconds maximum) }

def timeoutSeconds (step : Step) : Except String ℤ :=
  if step.type = .wait ∨ step.type = .approval then .ok 30
  else do
    let d ← boundedDuration (if step.timeout = "" then "30s" else step.timeout) second hour
    pure (wholeSeconds d)

/-! ### `normalize` -/

/-- `inputIsZero`: every field is omitted from the JSON encoding. -/
def inputIsZero (i : Input) : Bool :=
  i.method = "" && i.url = "" && i.headers.isEmpty && i.body.isNone && i.idempotencyHeader = ""
    && !i.idempotent && i.duration = "" && i.prompt = "" && i.expiresIn = "" && i.expiresAfter = ""
    && i.plugin = "" && i.action = "" && i.input.isNone

def normalizeInput (i : Input) : Input :=
  { i with
    idempotencyHeader :=
      if i.idempotent && i.idempotencyHeader = "" then "Idempotency-Key" else i.idempotencyHeader
    expiresIn := if i.expiresIn = "" then i.expiresAfter else i.expiresIn }

/-- The choice between `with` and the type-specific sections, shared by steps
and rollback actions. -/
def selectInput (type : StepType) (selected : Option Input) (sections : List (Option Input))
    (inputs : Input) : Except String Input :=
  let nonNil := sections.countP Option.isSome
  match selected with
  | some own =>
    if nonNil ≠ 1 ∨ inputIsZero inputs = false then
      .error "exactly one type-specific input section is allowed"
    else .ok own
  | none =>
    if nonNil ≠ 0 then .error ("input section does not match type " ++ quote type.text)
    else .ok inputs

def normalizeAction (action : Action) : Except String Action := do
  let selected :=
    match action.type with
    | .http => action.http
    | .plugin => action.plugin
    | _ => none
  let inputs ← selectInput action.type selected [action.http, action.plugin] action.inputs
  pure { action with inputs := normalizeInput inputs }

def stepPath (index : ℕ) : String :=
  "spec.steps[" ++ toString index ++ "]"

def normalizeStep (index : ℕ) (step : Step) : Except String Step := do
  let selected :=
    match step.type with
    | .http => step.http
    | .wait => step.wait
    | .approval => step.approval
    | .plugin => step.plugin
    | .other _ => none
  let inputs ← label (stepPath index)
    (selectInput step.type selected [step.http, step.wait, step.approval, step.plugin] step.inputs)
  let rollback ←
    match step.rollback with
    | none => pure none
    | some action => (label (stepPath index ++ ".rollback") (normalizeAction action)).map some
  pure { step with inputs := normalizeInput inputs, rollback := rollback }

def normalizeSteps : ℕ → List Step → Except String (List Step)
  | _, [] => pure []
  | index, step :: steps => do
    let step ← normalizeStep index step
    let steps ← normalizeSteps (index + 1) steps
    pure (step :: steps)

def normalize (doc : Document) : Except String Document := do
  let steps ← normalizeSteps 0 doc.spec.steps
  pure { doc with spec := { doc.spec with steps := steps } }

/-! ### `Validate` -/

/-- `identifierPattern`: `^[a-z][a-z0-9._-]{0,63}$`. -/
def matchesIdentifier (s : String) : Bool :=
  match s.toList with
  | [] => false
  | c :: rest =>
    c.isLower && rest.length ≤ 63
      && rest.all fun d => d.isLower || d.isDigit || d = '.' || d = '_' || d = '-'

def identifierPattern : String := "^[a-z][a-z0-9._-]\x7b0,63\x7d$"

section Validate

variable (pf : Platform)

def containsSensitiveName (value : String) : Bool :=
  ["secret", "token", "password", "authorization", "cookie", "credential", "signature"].any
    fun item => contains (pf.toLower value) item

/-- The encoded size limit of an embedded value, `256<<10` bytes. -/
def encodable (value : Option Value) : Bool :=
  match pf.jsonMarshal value with
  | none => false
  | some encoded => encoded.length ≤ 256 * 1024

def validateHeader (name value : String) : Except String Unit :=
  let lower := pf.toLower (trimSpace name)
  if lower = "authorization" ∨ lower = "cookie" ∨ lower = "proxy-authorization"
      ∨ contains lower "token" = true ∨ contains lower "secret" = true then
    .error ("sensitive inline header " ++ quote name ++ " is not allowed")
  else if (name ++ value).toList.any (fun c => c = '\r' || c = '\n') then
    .error ("header " ++ quote name ++ " contains a newline")
  else .ok ()

def validateHTTP (input : Input) : Except String Unit := do
  let upper := pf.toUpper (trimSpace input.method)
  let method := if upper = "" then "POST" else upper
  if method ∉ ["GET", "POST", "PUT", "PATCH", "DELETE"] then
    .error ("unsupported HTTP method " ++ quote method)
  else
    match pf.urlParse input.url with
    | none => .error "http url must be absolute"
    | some parsed =>
      if parsed.scheme = "" ∨ parsed.hostname = "" then .error "http url must be absolute"
      else if parsed.scheme ≠ "http" ∧ parsed.scheme ≠ "https" then
        .error "http url scheme must be http or https"
      else if parsed.hasUser = true ∨ parsed.fragment ≠ "" then
        .error "http url must not contain userinfo or fragment"
      else if encodable pf input.body = false then
        .error "http body must be JSON-compatible and at most 256 KiB"
      else input.headers.forM fun (name, value) => validateHeader pf name value

/-- The checks of `validateStep` on the input of the step's own type. -/
def validateInput (step : Step) : Except String Unit :=
  match step.type with
  | .http => validateHTTP pf step.inputs
  | .wait => do
    let _ ← label "wait duration" (boundedDuration step.inputs.duration second (7 * 24 * hour))
  | .approval =>
    if trimSpace step.inputs.prompt = "" ∨ step.inputs.prompt.utf8ByteSize > 2000 then
      .error "approval prompt is required and must be at most 2000 bytes"
    else if step.inputs.expiresIn ≠ "" then do
      let _ ← label "approval expiresIn"
        (boundedDuration step.inputs.expiresIn minute (30 * 24 * hour))
    else .ok ()
  | .plugin =>
    if matchesIdentifier step.inputs.plugin = false
      ∨ matchesIdentifier step.inputs.action = false then
      .error "plugin and action must be valid identifiers"
    else if encodable pf step.inputs.input = false then
      .error "plugin input must be JSON-compatible and at most 256 KiB"
    else .ok ()
  | .other text => .error ("unsupported type " ++ quote text)

/-- `validateStep` on a step without a rollback. -/
def validateStepBody (step : Step) : Except String Unit := do
  if matchesIdentifier step.id = false then .error ("id must match " ++ identifierPattern)
  else if step.name.utf8ByteSize > 200 then .error "name is too long"
  else
    validateInput pf step
    let _ ← label "retry" (parsedRetry step.retry)
    if step.timeout ≠ "" then
      let _ ← label "timeout" (boundedDuration step.timeout second hour)

/-- The step `validateStep` builds to check a rollback action. -/
def rollbackCandidate (step : Step) (action : Action) : Step :=
  { id := step.id ++ "-rollback", type := action.type, timeout := action.timeout
    retry := action.retry, inputs := action.inputs }

def validateStep (step : Step) : Except String Unit := do
  validateStepBody pf step
  match step.rollback with
  | none => pure ()
  | some action =>
    if action.type ≠ .http ∧ action.type ≠ .plugin then
      .error "rollback supports only http or plugin"
    else label "rollback" (validateStepBody pf (rollbackCandidate step action))

/-- The first loop of `Validate`: every step on its own, and no identifier
twice.  Returns the identifiers seen. -/
def validateSteps : ℕ → List String → List Step → Except String (List String)
  | _, seen, [] => pure seen
  | index, seen, step :: steps => do
    label (stepPath index) (validateStep pf step)
    if step.id ∈ seen then .error (stepPath index ++ ": duplicate id " ++ quote step.id)
    else validateSteps (index + 1) (step.id :: seen) steps

def validateCondition (condition : Condition) (steps : List String) : Except String Unit :=
  if condition.field = "" then .error "field is required"
  else if condition.equals.isNone = condition.oneOf.isEmpty then
    .error "exactly one of equals or in is required"
  else
    let allowed :=
      if hasHead condition.field "steps." then
        let parts := splitDots condition.field
        decide (3 ≤ parts.length) && decide (parts.getD 1 "" ∈ steps)
      else condition.field = "execution.dry_run" || hasHead condition.field "incident."
    if allowed = false ∨ containsSensitiveName pf condition.field = true then
      .error ("field " ++ quote condition.field ++ " is not allowed")
    else .ok ()

/-- The second loop of `Validate`. -/
def validateConditions (seen : List String) : ℕ → List Step → Except String Unit
  | _, [] => pure ()
  | index, step :: steps => do
    match step.condition with
    | none => pure ()
    | some condition =>
      label (stepPath index ++ ".when") (validateCondition pf condition seen)
    validateConditions seen (index + 1) steps

def apiVersion : String := "stormrelay.io/v1"

def validate (doc : Document) : Except String Unit := do
  if doc.apiVersion ≠ apiVersion then .error ("apiVersion must be " ++ apiVersion)
  else if doc.kind ≠ "Runbook" then .error "kind must be Runbook"
  else if matchesIdentifier doc.metadata.id = false then
    .error ("metadata.id must match " ++ identifierPattern)
  else if doc.metadata.version < 1 then .error "metadata.version must be positive"
  else if doc.spec.steps.length = 0 ∨ doc.spec.steps.length > 100 then
    .error "spec.steps must contain between 1 and 100 steps"
  else
    if doc.spec.timeout ≠ "" then
      let _ ← label "spec.timeout" (boundedDuration doc.spec.timeout second (24 * hour))
    let seen ← validateSteps pf 0 [] doc.spec.steps
    validateConditions pf seen 0 doc.spec.steps

/-- `Parse`. -/
def parse (text : String) : Except String Document := do
  let doc ← label "decode runbook" (pf.decodeYAML text)
  let doc ← normalize doc
  validate pf doc
  pure doc

end Validate

/-! ### Timeouts -/

theorem boundedDuration_range {value : String} {minimum maximum d : ℤ}
    (h : boundedDuration value minimum maximum = .ok d) : minimum ≤ d ∧ d ≤ maximum := by
  rw [boundedDuration] at h
  split at h
  · cases h
  split at h
  · cases h
  split at h
  · cases h
  · rename_i hrange
    obtain rfl := Except.ok.inj h
    omega

theorem bind_eq_ok {α β : Type} {x : Except String α} {f : α → Except String β} {b : β}
    (h : (x >>= f) = .ok b) : ∃ a, x = .ok a ∧ f a = .ok b := by
  rcases x with err | a
  · cases h
  · exact ⟨a, rfl, h⟩

theorem forM_eq_ok_iff {α : Type} {f : α → Except String Unit} {l : List α} :
    l.forM f = .ok () ↔ ∀ a ∈ l, f a = .ok () := by
  induction l with
  | nil => exact iff_of_true rfl (List.forall_mem_nil _)
  | cons a l ih =>
    rw [List.forM, List.forall_mem_cons, ← ih]
    constructor
    · intro h
      obtain ⟨_, ha, hl⟩ := bind_eq_ok h
      exact ⟨ha, hl⟩
    · rintro ⟨ha, hl⟩
      rw [ha]
      exact hl

/-- **A document that parses has a step.** -/
theorem parse_steps {pf : Platform} {text : String} {doc : Document}
    (h : parse pf text = .ok doc) : doc.spec.steps ≠ [] := by
  rw [parse] at h
  obtain ⟨_, -, h⟩ := bind_eq_ok h
  obtain ⟨doc', -, h⟩ := bind_eq_ok h
  obtain ⟨_, hvalid, h⟩ := bind_eq_ok h
  obtain rfl : doc' = doc := Except.ok.inj h
  intro hnil
  rw [validate, hnil] at hvalid
  simp only [List.length_nil, true_or, if_true] at hvalid
  split at hvalid
  · cases hvalid
  split at hvalid
  · cases hvalid
  split at hvalid
  · cases hvalid
  split at hvalid <;> cases hvalid

theorem timeoutSeconds_range {step : Step} {timeout : ℤ} (h : timeoutSeconds step = .ok timeout) :
    1 ≤ timeout ∧ timeout ≤ 3600 := by
  rw [timeoutSeconds] at h
  split at h
  · obtain rfl := Except.ok.inj h
    decide
  rcases hd : boundedDuration (if step.timeout = "" then "30s" else step.timeout) second hour with
    err | d
  · rw [hd] at h
    cases h
  rw [hd] at h
  obtain rfl := Except.ok.inj h
  obtain ⟨hmin, hmax⟩ := boundedDuration_range hd
  rw [second] at hmin
  rw [hour, minute, second] at hmax
  rw [wholeSeconds, Int.tdiv_eq_ediv_of_nonneg (by omega)]
  omega

/-- **Every step that passes validation has a timeout**, between one second and
one hour. -/
theorem timeoutSeconds_of_validateStep {pf : Platform} {step : Step}
    (h : validateStep pf step = .ok ()) :
    ∃ timeout, timeoutSeconds step = .ok timeout ∧ 1 ≤ timeout ∧ timeout ≤ 3600 := by
  have hbody : validateStepBody pf step = .ok () := by
    rw [validateStep] at h
    exact (bind_eq_ok h).choose_spec.1
  have hbounded : ∃ d, boundedDuration (if step.timeout = "" then "30s" else step.timeout)
      second hour = .ok d := by
    by_cases hempty : step.timeout = ""
    · rw [if_pos hempty]
      exact ⟨30 * second, by decide +kernel⟩
    rw [if_neg hempty]
    rw [validateStepBody] at hbody
    split at hbody
    · cases hbody
    split at hbody
    · cases hbody
    obtain ⟨_, -, hrest⟩ := bind_eq_ok hbody
    obtain ⟨_, -, hrest⟩ := bind_eq_ok hrest
    obtain ⟨d, hd, -⟩ := bind_eq_ok hrest
    refine ⟨d, ?_⟩
    rcases hx : boundedDuration step.timeout second hour with err | d'
    · rw [hx] at hd
      cases hd
    · rw [hx] at hd
      obtain rfl : d' = d := Except.ok.inj hd
      rfl
  obtain ⟨d, hd⟩ := hbounded
  have htimeout : ∃ timeout, timeoutSeconds step = .ok timeout := by
    rw [timeoutSeconds]
    split
    · exact ⟨30, rfl⟩
    · rw [hd]
      exact ⟨wholeSeconds d, rfl⟩
  obtain ⟨timeout, ht⟩ := htimeout
  exact ⟨timeout, ht, timeoutSeconds_range ht⟩

end StormRelay
