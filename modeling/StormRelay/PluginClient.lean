/-
The engine's end of the plugin protocol (`internal/plugins/protocol.go`).

Both ends exchange JSON objects over HTTP.  Go strings are bytes here, and so is
everything on the wire; how a time is written and read is a parameter.

* `receive_output_iff`, `receive_failed_iff` — **when a success or a failure arrives**.
-/
import StormRelay.GoJson
import StormRelay.Schema

namespace StormRelay.Plugins

open Utf8 JsonString JsonWire GoJson

/-- The bytes of a string constant. -/
def text (s : String) : List UInt8 :=
  encode s.toList

/-- `ProtocolVersion`. -/
def protocolVersion : List UInt8 := text "stormrelay.plugin/v1"

def succeeded : List UInt8 := text "succeeded"

def failed : List UInt8 := text "failed"

/-! ### Messages -/

/-- `ActionRequest`, with the input as `json.Marshal` writes it. -/
structure ActionRequest where
  protocolVersion : List UInt8
  executionID : List UInt8
  stepID : List UInt8
  requestID : List UInt8
  traceParent : List UInt8
  deadline : Time
  idempotencyKey : List UInt8
  input : GoJson.Value

/-- `ActionResponse`; the output is raw. -/
structure ActionResponse where
  protocolVersion : List UInt8 := []
  status : List UInt8 := []
  idempotencyKey : List UInt8 := []
  output : List UInt8 := []
  error : List UInt8 := []
deriving DecidableEq

/-- How a time is written in JSON, if it can be, and read from a JSON value;
`some none` is Go's zero time. -/
structure TimeFormat where
  format : Time → Option (List UInt8)
  parse : List UInt8 → Option (Option Time)

def stringMember (name : String) (value : List UInt8) : List UInt8 × List UInt8 :=
  (text name, quote value)

/-- `json.Marshal(request)`. -/
def ActionRequest.marshal (times : TimeFormat) (request : ActionRequest) : Option (List UInt8) :=
  match times.format request.deadline, marshalRaw request.input.text with
  | some deadline, some input =>
    some (writeObject (
      [stringMember "protocol_version" request.protocolVersion,
        stringMember "execution_id" request.executionID,
        stringMember "step_id" request.stepID, stringMember "request_id" request.requestID]
      ++ (if request.traceParent = [] then [] else [stringMember "traceparent" request.traceParent])
      ++ [stringMember "deadline" deadline, stringMember "idempotency_key" request.idempotencyKey,
        (text "input", input)]))
  | _, _ => none

inductive ResponseField where
  | protocolVersion
  | status
  | idempotencyKey
  | output
  | error
deriving DecidableEq

def responseFields : List (List UInt8 × ResponseField) :=
  [(text "protocol_version", .protocolVersion), (text "status", .status),
    (text "idempotency_key", .idempotencyKey), (text "output", .output), (text "error", .error)]

def ActionResponse.set (r : ActionResponse) : ResponseField → List UInt8 → Option ActionResponse
  | .protocolVersion, raw =>
    (readString r.protocolVersion raw).map fun v => { r with protocolVersion := v }
  | .status, raw => (readString r.status raw).map fun v => { r with status := v }
  | .idempotencyKey, raw =>
    (readString r.idempotencyKey raw).map fun v => { r with idempotencyKey := v }
  | .output, raw => some { r with output := raw }
  | .error, raw => (readString r.error raw).map fun v => { r with error := v }

def decodeResponse (body : List UInt8) : Option ActionResponse :=
  (decodeStruct responseFields ActionResponse.set {} body).map Prod.fst

/-! ### `Client.Call` -/

structure HTTPRequest where
  action : String
  contentType : String
  body : List UInt8

structure HTTPResponse where
  status : ℕ
  body : List UInt8

inductive CallError where
  | invalidAction (action : String)
  | unencodable
  | tooLarge
  | http (status : ℕ)
  | malformed
  | incompatible (protocol : List UInt8)
  | notEchoed
  | invalidStatus (status : List UInt8)
  | limits
  | failed (message : List UInt8)
deriving DecidableEq

def maxBody : ℕ := 1048576

def maxError : ℕ := 1000

/-- `sanitize`. -/
def sanitize (value : List UInt8) : List UInt8 :=
  value.take maxError

/-- `readBounded`. -/
def readBounded (body : List UInt8) (max : ℕ) : Option (List UInt8) :=
  if body.length > max then none else some body

namespace Client

def judge (idempotencyKey : List UInt8) (result : ActionResponse) :
    ActionResponse × Option CallError :=
  if result.protocolVersion ≠ protocolVersion then
    ({}, some (.incompatible result.protocolVersion))
  else if result.idempotencyKey ≠ idempotencyKey then ({}, some .notEchoed)
  else if result.status ≠ succeeded ∧ result.status ≠ failed then
    ({}, some (.invalidStatus result.status))
  else if result.output.length > maxBody ∨ result.error.length > maxError then ({}, some .limits)
  else if result.status = failed then (result, some (.failed (sanitize result.error)))
  else (result, none)

/-- What `Call` returns on an answer. -/
def receive (idempotencyKey : List UInt8) (response : HTTPResponse) :
    ActionResponse × Option CallError :=
  match readBounded response.body maxBody with
  | none => ({}, some .tooLarge)
  | some body =>
    if response.status / 100 ≠ 2 then ({}, some (.http response.status))
    else
      match decodeResponse body with
      | none => ({}, some .malformed)
      | some result => judge idempotencyKey result

/-- `Call` against a server, with the trace of the calling context. -/
def call (times : TimeFormat) (serve : HTTPRequest → HTTPResponse) (action : String)
    (traceParent : List UInt8) (request : ActionRequest) : ActionResponse × Option CallError :=
  if matchesIdentifier action = false then ({}, some (.invalidAction action))
  else
    match ActionRequest.marshal times { request with traceParent := traceParent } with
    | none => ({}, some .unencodable)
    | some body =>
      receive request.idempotencyKey
        (serve { action := action, contentType := "application/json", body := body })

end Client

/-! ### An answer as an encoded object -/

section Answers

/- A server writes names and texts its own way; the names are those of the protocol. -/
variable {name : String → Literal} (hname : ∀ s, (name s).text = s.toList)

/-- An answer: protocol, status and key, and then what the server adds. -/
def answer (name : String → Literal) (protocol status key : Literal)
    (tail : List (StringBody × Doc)) : Doc :=
  .obj (((name "protocol_version").quoted, .str protocol.quoted)
    :: ((name "status").quoted, .str status.quoted)
    :: ((name "idempotency_key").quoted, .str key.quoted) :: tail)

theorem findField_response (f : ResponseField) (s : String) (h : (text s, f) ∈ responseFields) :
    findField responseFields (text s) = some f := by
  have hall : ∀ p ∈ responseFields, findField responseFields p.1 = some p.2 := by decide
  exact hall _ h

include hname in
theorem assign_response {s : String} {f : ResponseField} (h : (text s, f) ∈ responseFields)
    (r : ActionResponse) (raw : List UInt8) :
    assign responseFields ActionResponse.set r ((name s).quoted.1, raw) = r.set f raw := by
  refine assign_literal responseFields ActionResponse.set ?_ r raw
  rw [hname]
  exact findField_response f s h

include hname in
/-- An answer is decoded field by field, unless what the server adds is too deep
or not legal. -/
theorem decodeResponse_answer (protocol status key : Literal) (tail : List (StringBody × Doc)) :
    decodeResponse (answer name protocol status key tail).encode
      = if legalMembers tail = true ∧ depthMembers tail < maxNesting then
          (tail.map fun m => (m.1.1, m.2.encode)).foldlM
            (assign responseFields ActionResponse.set)
            { protocolVersion := encode protocol.text, status := encode status.text
              idempotencyKey := encode key.text }
        else none := by
  have hprotocol : ∀ r, assign responseFields ActionResponse.set r
      ((name "protocol_version").quoted.1, (Doc.str protocol.quoted).encode)
        = some { r with protocolVersion := encode protocol.text } := by
    intro r
    rw [assign_response hname (f := .protocolVersion) (by decide), ActionResponse.set,
      readString_literal, Option.map_some]
  have hstatus : ∀ r, assign responseFields ActionResponse.set r
      ((name "status").quoted.1, (Doc.str status.quoted).encode)
        = some { r with status := encode status.text } := by
    intro r
    rw [assign_response hname (f := .status) (by decide), ActionResponse.set,
      readString_literal, Option.map_some]
  have hkey : ∀ r, assign responseFields ActionResponse.set r
      ((name "idempotency_key").quoted.1, (Doc.str key.quoted).encode)
        = some { r with idempotencyKey := encode key.text } := by
    intro r
    rw [assign_response hname (f := .idempotencyKey) (by decide), ActionResponse.set,
      readString_literal, Option.map_some]
  have hdecode := decodeStruct_encode responseFields ActionResponse.set {}
    (((name "protocol_version").quoted, .str protocol.quoted)
      :: ((name "status").quoted, .str status.quoted)
      :: ((name "idempotency_key").quoted, .str key.quoted) :: tail) []
  rw [List.append_nil] at hdecode
  rw [decodeResponse, answer, hdecode]
  simp only [legalMembers, depthMembers, Doc.legal, Doc.depth, Bool.true_and, Nat.zero_max,
    List.map_cons, List.foldlM_cons, hprotocol, hstatus, hkey, bind, Option.bind_some]
  rw [apply_ite (Option.map Prod.fst), Option.map_map]
  exact if_congr Iff.rfl (congrFun Option.map_id _) rfl

include hname in
theorem decodeResponse_output (protocol status key : Literal) (output : Doc) :
    decodeResponse
        (answer name protocol status key [((name "output").quoted, output)]).encode
      = if output.legal = true ∧ output.depth < maxNesting then
          some { protocolVersion := encode protocol.text, status := encode status.text
                 idempotencyKey := encode key.text, output := output.encode }
        else none := by
  rw [decodeResponse_answer hname, List.map_singleton, List.foldlM_cons,
    assign_response hname (f := .output) (by decide)]
  simp only [legalMembers, depthMembers, Bool.and_true, Nat.max_zero]
  rfl

include hname in
theorem decodeResponse_error (protocol status key error : Literal) :
    decodeResponse
        (answer name protocol status key [((name "error").quoted, .str error.quoted)]).encode
      = some { protocolVersion := encode protocol.text, status := encode status.text
               idempotencyKey := encode key.text, error := encode error.text } := by
  rw [decodeResponse_answer hname, if_pos ⟨rfl, Nat.succ_pos 9999⟩, List.map_singleton,
    List.foldlM_cons, assign_response hname (f := .error) (by decide), ActionResponse.set,
    readString_literal]
  rfl

theorem receive_ok (key body : List UInt8) :
    Client.receive key { status := 200, body := body }
      = if body.length > maxBody then ({}, some .tooLarge)
        else
          match decodeResponse body with
          | none => ({}, some .malformed)
          | some result => Client.judge key result := by
  rw [Client.receive, readBounded]
  by_cases hsize : body.length > maxBody
  · rw [if_pos hsize, if_pos hsize]
  · rw [if_neg hsize, if_neg hsize]
    exact if_neg (not_not.mpr (rfl : 200 / 100 = 2))

theorem judge_succeeded {output : List UInt8} (h : output.length ≤ maxBody)
    (sent key : List UInt8) :
    Client.judge sent
        { protocolVersion := protocolVersion, status := succeeded, idempotencyKey := key
          output := output }
      = if key = sent then
          ({ protocolVersion := protocolVersion, status := succeeded, idempotencyKey := sent
             output := output }, none)
        else ({}, some .notEchoed) := by
  have hstatus : succeeded ≠ failed := by decide
  by_cases hkey : key = sent
  · subst hkey
    simp [Client.judge, hstatus, h]
  · simp [Client.judge, hkey]

theorem judge_failed (sent key error : List UInt8) :
    Client.judge sent
        { protocolVersion := protocolVersion, status := failed, idempotencyKey := key
          error := error }
      = if key = sent then
          if error.length ≤ maxError then
            ({ protocolVersion := protocolVersion, status := failed, idempotencyKey := sent
               error := error }, some (.failed error))
          else ({}, some .limits)
        else ({}, some .notEchoed) := by
  by_cases hkey : key = sent
  · subst hkey
    by_cases hsize : error.length ≤ maxError
    · simp [Client.judge, hsize, sanitize, List.take_of_length_le hsize]
    · simp [Client.judge, hsize]
  · simp [Client.judge, hkey]

theorem length_answer (name : String → Literal) (protocol status key : Literal)
    (tail : List (StringBody × Doc)) :
    (answer name protocol status key tail).encode.length
      = (name "protocol_version").body.length + (name "status").body.length
        + (name "idempotency_key").body.length + protocol.body.length + status.body.length
        + key.body.length + (encodeMembers false tail).length + 18 := by
  simp only [answer, Doc.encode, encodeMembers, List.length_cons, List.length_append,
    List.length_nil, if_true, if_neg Bool.false_ne_true, Literal.quoted]
  omega

theorem length_output_lt (name : String → Literal) (protocol status key : Literal) (output : Doc) :
    output.encode.length
      < (answer name protocol status key [((name "output").quoted, output)]).encode.length := by
  rw [length_answer]
  simp only [encodeMembers, List.length_cons, List.length_append]
  omega

include hname in
/-- **When a success arrives.**  The client returns the output a server wrote
exactly when the whole answer is within its limit, the output legal and not too
deep, and the key the one it sent. -/
theorem receive_output_iff {protocol status : Literal}
    (hprotocol : encode protocol.text = protocolVersion) (hstatus : encode status.text = succeeded)
    (key : Literal) (output : Doc) (sent : List UInt8) :
    (Client.receive sent
        { status := 200
          body := (answer name protocol status key [((name "output").quoted, output)]).encode }).2
        = none
      ∧ (Client.receive sent
        { status := 200
          body := (answer name protocol status key
            [((name "output").quoted, output)]).encode }).1.output = output.encode
      ↔ (answer name protocol status key [((name "output").quoted, output)]).encode.length ≤ maxBody
        ∧ output.legal = true ∧ output.depth < maxNesting ∧ encode key.text = sent := by
  have hlen := length_output_lt name protocol status key output
  have herror : ∀ {e : CallError} {r : ActionResponse} {raw : List UInt8},
      ¬ ((r, some e).2 = none ∧ r.output = raw) := by
    rintro e r raw ⟨h, -⟩
    cases h
  rw [receive_ok, decodeResponse_output hname, hprotocol, hstatus]
  by_cases hsize :
      (answer name protocol status key [((name "output").quoted, output)]).encode.length > maxBody
  · rw [if_pos hsize]
    exact iff_of_false herror fun h => by omega
  rw [if_neg hsize]
  by_cases hdoc : output.legal = true ∧ output.depth < maxNesting
  · rw [if_pos hdoc]
    simp only
    rw [judge_succeeded (by omega)]
    by_cases hkey : encode key.text = sent
    · rw [if_pos hkey]
      exact iff_of_true ⟨rfl, rfl⟩ ⟨not_lt.mp hsize, hdoc.1, hdoc.2, hkey⟩
    · rw [if_neg hkey]
      exact iff_of_false herror fun h => hkey h.2.2.2
  · rw [if_neg hdoc]
    exact iff_of_false herror fun h => hdoc ⟨h.2.1, h.2.2.1⟩

/-- **When a failure arrives.**  The client reports a decoded message as the
failure of the action exactly when the whole answer and the message are within
their limits and the key is the one it sent. -/
theorem receive_failed_iff {body key error : List UInt8}
    (hdecode : decodeResponse body
      = some { protocolVersion := protocolVersion, status := failed, idempotencyKey := key
               error := error })
    (sent message : List UInt8) :
    (Client.receive sent { status := 200, body := body }).2 = some (.failed message)
      ↔ body.length ≤ maxBody ∧ key = sent ∧ error = message ∧ message.length ≤ maxError := by
  rw [receive_ok, hdecode]
  by_cases hsize : body.length > maxBody
  · rw [if_pos hsize]
    exact iff_of_false (fun h => by cases h) fun h => by omega
  rw [if_neg hsize]
  simp only
  rw [judge_failed]
  by_cases hkey : key = sent
  · rw [if_pos hkey]
    by_cases herror : error.length ≤ maxError
    · rw [if_pos herror]
      simp only [Option.some.injEq, CallError.failed.injEq]
      constructor
      · rintro rfl
        exact ⟨not_lt.mp hsize, hkey, rfl, herror⟩
      · exact fun h => h.2.2.1
    rw [if_neg herror]
    refine iff_of_false (fun h => by cases h) ?_
    rintro ⟨-, -, rfl, hle⟩
    exact herror hle
  · rw [if_neg hkey]
    exact iff_of_false (fun h => by cases h) fun h => hkey h.2.1

end Answers

end StormRelay.Plugins
