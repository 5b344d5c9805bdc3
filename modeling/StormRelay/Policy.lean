/-
Routing policies (`internal/policies/policy.go`).

A policy document matches events by a boolean expression over their fields and
names the notification channels of those it matches.  `parse` decodes and
validates a document; `evaluate` decides one event.  The YAML decoder, case
mapping and `strconv.Quote` come from outside the repository (`Platform`).
-/
import StormRelay.Event

namespace StormRelay.Policy

/-- `policies.Expression`: a node may carry every operand at once. -/
inductive Expression where
  | mk (all any : List Expression) (not : Option Expression) (field equals : String)
      (oneOf : List String)

structure Actions where
  suppress : Bool := false
  requireApproval : Bool := false
  assignTeam : String := ""
  escalationPolicy : String := ""
  notificationChannels : List String := []
  runbook : String := ""
deriving DecidableEq, Repr

structure Document where
  apiVersion : String
  kind : String
  id : String
  version : ℤ
  match_ : Expression
  actions : Actions

/-- `policies.Decision`; an input is the bytes of its possibly cut value. -/
structure Decision where
  matched : Bool
  policyID : String
  policyVersion : ℤ
  actions : Actions
  explanation : List String
  inputs : List (String × List UInt8)

/-- What the policy package takes from outside the repository. -/
structure Platform where
  decodeYAML : String → Except String Document
  toLower : String → String
  quote : String → String

/-! ### Validation -/

def sensitiveWords : List String :=
  ["secret", "token", "password", "authorization", "cookie", "signature", "credential"]

def isSensitiveField (pf : Platform) (field : String) : Bool :=
  sensitiveWords.any fun word => GoStd.contains (pf.toLower field) word

/-- The number of operands among `all`, `any`, `not` and `field`. -/
def operandCount (all any : List Expression) (not : Option Expression) (field : String) : ℕ :=
  (if all ≠ [] then 1 else 0) + (if any ≠ [] then 1 else 0) + (if not.isSome then 1 else 0)
    + if field ≠ "" then 1 else 0

mutual

def validateExpression (pf : Platform) : Expression → Except String Unit
  | .mk all any not field equals oneOf => do
    if operandCount all any not field ≠ 1 then
      throw "exactly one of all, any, not or field must be set"
    validateChildren pf "all" 0 all
    validateChildren pf "any" 0 any
    match not with
    | some child => validateExpression pf child
    | none =>
      if field ≠ "" ∧ isSensitiveField pf field then
        throw "sensitive fields cannot be used in policy expressions"
      if field ≠ "" ∧ equals = "" ∧ oneOf = [] then
        throw "field expression requires equals or in"
      if equals ≠ "" ∧ oneOf ≠ [] then throw "equals and in are mutually exclusive"

/-- The loops over `all` and `any`; `i` is the index of the first child. -/
def validateChildren (pf : Platform) (name : String) (i : ℕ) :
    List Expression → Except String Unit
  | [] => .ok ()
  | child :: children => do
    label (name ++ "[" ++ toString i ++ "]") (validateExpression pf child)
    validateChildren pf name (i + 1) children

end

def Document.validate (pf : Platform) (d : Document) : Except String Unit := do
  if d.apiVersion ≠ "stormrelay.io/v1" then throw "apiVersion must be stormrelay.io/v1"
  if d.kind ≠ "Policy" then throw "kind must be Policy"
  if GoStd.trimSpace d.id = "" ∨ d.version < 1 then
    throw "metadata.id and positive metadata.version are required"
  label "spec.match" (validateExpression pf d.match_)

def parse (pf : Platform) (data : String) : Except String Document := do
  let d ← label "decode policy" (pf.decodeYAML data)
  d.validate pf
  pure d

/-! ### Evaluation -/

def eventInputs (e : Events.Event) : List (String × String) :=
  (if e.label "environment" ≠ "" then [("environment", e.label "environment")] else [])
    ++ (e.labels.getD []).map (fun (name, value) => ("labels." ++ name, value))
    ++ [("severity", e.severity.text), ("type", e.type), ("source", e.source),
      ("subject", e.subject)]

def truthText (b : Bool) : String :=
  if b then "true" else "false"

/-- `%v` of a list of strings. -/
def listText (values : List String) : String :=
  "[" ++ String.intercalate " " values ++ "]"

mutual

def eval (pf : Platform) (inputs : List (String × String)) : Expression → Bool × List String
  | .mk all any not field equals oneOf =>
    if all ≠ [] then evalAll pf inputs all
    else if any ≠ [] then evalAny pf inputs any
    else match not with
      | some child =>
        let (ok, exp) := eval pf inputs child
        (!ok, exp ++ ["not result=" ++ truthText (!ok)])
      | none =>
        let actual := (inputs.lookup field).getD ""
        if equals ≠ "" then
          (actual = equals, [field ++ " equals " ++ pf.quote equals ++ ": "
            ++ truthText (actual = equals)])
        else
          (oneOf.contains actual, [field ++ " in " ++ listText oneOf ++ ": "
            ++ truthText (oneOf.contains actual)])

/-- The loop over `all`, which stops at the first child that does not match. -/
def evalAll (pf : Platform) (inputs : List (String × String)) :
    List Expression → Bool × List String
  | [] => (true, ["all expression matched"])
  | child :: children =>
    let (ok, childExp) := eval pf inputs child
    if ok then
      let (rest, exp) := evalAll pf inputs children
      (rest, childExp ++ exp)
    else (false, childExp ++ ["all expression did not match"])

/-- The loop over `any`, which stops at the first child that matches. -/
def evalAny (pf : Platform) (inputs : List (String × String)) :
    List Expression → Bool × List String
  | [] => (false, ["any expression did not match"])
  | child :: children =>
    let (ok, childExp) := eval pf inputs child
    if ok then (true, childExp ++ ["any expression matched"])
    else
      let (rest, exp) := evalAny pf inputs children
      (rest, childExp ++ exp)

end

mutual

/-- The fields an expression mentions, in the order they are collected. -/
def collectFields : Expression → List String
  | .mk all any not field _ _ =>
    (if field ≠ "" then [field] else []) ++ collectChildren all ++ collectChildren any
      ++ match not with
        | some child => collectFields child
        | none => []

def collectChildren : List Expression → List String
  | [] => []
  | child :: children => collectFields child ++ collectChildren children

end

def utf8 (s : String) : List UInt8 :=
  s.toUTF8.data.toList

def sanitizeDecisionInput (pf : Platform) (field value : String) : List UInt8 :=
  if isSensitiveField pf field then utf8 "[REDACTED]" else (utf8 value).take 256

def evaluate (pf : Platform) (d : Document) (e : Events.Event) : Decision :=
  let allInputs := eventInputs e
  let (matched, explanation) := eval pf allInputs d.match_
  { matched := matched, policyID := d.id, policyVersion := d.version
    actions := if matched then d.actions else {}
    explanation := explanation
    inputs := (collectFields d.match_).dedup.map fun field =>
      (field, sanitizeDecisionInput pf field ((allInputs.lookup field).getD "")) }

end StormRelay.Policy
