/-
The Go plugin SDK against the engine's client (`sdk/go/plugin`,
`internal/plugins/protocol.go`).

A plugin's handler returns a value or an error.  The server encodes the value,
bounds it, and answers; the client bounds the answer, decodes it and judges it.
The two ends bound different things: the server the output and the bytes of a
message, the client the whole answer and the bytes of the message as it reads it.

* `go_outcome_agrees_iff` — **for a whole call, which values and which failures of a
  handler reach the engine unchanged**.
-/
import StormRelay.PluginClient

namespace StormRelay.Plugins

open Utf8 JsonString JsonWire GoJson

/-! ### Requests -/

/-- `Request`, as the server decodes it; a deadline that is the zero time is
`none`. -/
structure Request where
  protocolVersion : List UInt8 := []
  executionID : List UInt8 := []
  stepID : List UInt8 := []
  requestID : List UInt8 := []
  traceParent : List UInt8 := []
  deadline : Option Time := none
  idempotencyKey : List UInt8 := []
  input : List UInt8 := []

inductive RequestField where
  | protocolVersion
  | executionID
  | stepID
  | requestID
  | traceParent
  | deadline
  | idempotencyKey
  | input
deriving DecidableEq

def requestFields : List (List UInt8 × RequestField) :=
  [(text "protocol_version", .protocolVersion), (text "execution_id", .executionID),
    (text "step_id", .stepID), (text "request_id", .requestID),
    (text "traceparent", .traceParent), (text "deadline", .deadline),
    (text "idempotency_key", .idempotencyKey), (text "input", .input)]

def Request.set (times : TimeFormat) (r : Request) : RequestField → List UInt8 → Option Request
  | .protocolVersion, raw =>
    (readString r.protocolVersion raw).map fun v => { r with protocolVersion := v }
  | .executionID, raw => (readString r.executionID raw).map fun v => { r with executionID := v }
  | .stepID, raw => (readString r.stepID raw).map fun v => { r with stepID := v }
  | .requestID, raw => (readString r.requestID raw).map fun v => { r with requestID := v }
  | .traceParent, raw => (readString r.traceParent raw).map fun v => { r with traceParent := v }
  | .deadline, raw =>
    if raw = Doc.null.encode then some r
    else (times.parse raw).map fun t => { r with deadline := t }
  | .idempotencyKey, raw =>
    (readString r.idempotencyKey raw).map fun v => { r with idempotencyKey := v }
  | .input, raw => some { r with input := raw }

def decodeRequest (times : TimeFormat) (body : List UInt8) : Option (Request × List UInt8) :=
  decodeStruct requestFields (Request.set times) {} body

/-! ### The server -/

def maxRequestBytes : ℕ := 1048576

def maxResponseBytes : ℕ := 1048576

def maxErrorBytes : ℕ := 1000

/-- `truncate`. -/
def truncate (value : List UInt8) (limit : ℕ) : List UInt8 :=
  if value.length ≤ limit then value else value.take limit

def isSpaceRune : Rune → Bool
  | .char c => GoStd.isSpace c
  | .bad _ => false

/-- `strings.TrimSpace`. -/
def trimSpace (value : List UInt8) : List UInt8 :=
  (((runes value).dropWhile isSpaceRune).reverse.dropWhile isSpaceRune).reverse.flatMap Rune.bytes

/-- What a handler returns: nothing, a value with its encoding if it has one, an
`ActionError`, or another error. -/
inductive Outcome where
  | nothing
  | value (encoded : Option GoJson.Value)
  | actionError (message : List UInt8)
  | otherError

/-- The message of the error `Fail` returns. -/
def failText (message : List UInt8) : List UInt8 :=
  truncate (if trimSpace message = [] then text "plugin action failed" else trimSpace message)
    maxErrorBytes

/-- `Fail`. -/
def fail (message : List UInt8) : Outcome :=
  .actionError (failText message)

/-- `sanitizeActionError` on an `ActionError`. -/
def sanitizeActionError (message : List UInt8) : List UInt8 :=
  truncate (trimSpace message) maxErrorBytes

/-- The four identifiers of a request; a Go map of them is walked in no fixed order. -/
inductive Identifier where
  | executionID
  | stepID
  | requestID
  | idempotencyKey
deriving DecidableEq

def Identifier.name : Identifier → String
  | .executionID => "execution_id"
  | .stepID => "step_id"
  | .requestID => "request_id"
  | .idempotencyKey => "idempotency_key"

def Identifier.value (request : Request) : Identifier → List UInt8
  | .executionID => request.executionID
  | .stepID => request.stepID
  | .requestID => request.requestID
  | .idempotencyKey => request.idempotencyKey

/-- A plugin server: its actions, the order in which it walks the identifiers, and
what it has from the platform. -/
structure Server where
  actions : String → Option (Request → Outcome)
  order : List Identifier
  times : TimeFormat
  now : Time
  toLower : String → String

def day : ℤ := 24 * 3600 * second

/-- `validateRequest`; `none` if the request is valid. -/
def validateRequest (server : Server) (request : Request) : Option String :=
  if request.protocolVersion ≠ protocolVersion then
    some "protocol_version must be \"stormrelay.plugin/v1\""
  else
    match server.order.find? fun i =>
        trimSpace (i.value request) = [] || decide ((trimSpace (i.value request)).length > 500) with
    | some i => some (i.name ++ " must contain 1 to 500 bytes")
    | none =>
      match request.deadline with
      | none => some "deadline is required"
      | some deadline =>
        if deadline ≤ server.now then some "deadline has expired"
        else if deadline > server.now + day then some "deadline must be within 24 hours"
        else if request.traceParent.length > 200 then some "traceparent exceeds 200 bytes"
        else if request.input = [] ∨ GoJson.valid request.input = false then
          some "input must be valid JSON"
        else none

/-- `writeJSON`, with what `json.Marshal` made of the value. -/
def writeJSON (status : ℕ) : Option (List UInt8) → HTTPResponse
  | some body => { status := status, body := body }
  | none =>
    { status := 500, body := writeObject [stringMember "error" (text "encode response")] }

def errorResponse (status : ℕ) (message : List UInt8) : HTTPResponse :=
  writeJSON status (some (writeObject [stringMember "error" message]))

/-- `json.Marshal(response)`. -/
def ActionResponse.marshal (r : ActionResponse) : Option (List UInt8) :=
  match (if r.output = [] then some []
      else (marshalRaw r.output).map fun raw => [(text "output", raw)]) with
  | none => none
  | some output =>
    some (writeObject (
      [stringMember "protocol_version" r.protocolVersion, stringMember "status" r.status,
        stringMember "idempotency_key" r.idempotencyKey]
      ++ output ++ (if r.error = [] then [] else [stringMember "error" r.error])))

/-- The checks of `handleAction` before it runs the handler. -/
def accept (server : Server) (r : HTTPRequest) :
    Except HTTPResponse ((Request → Outcome) × Request) :=
  match server.actions r.action with
  | none => .error (errorResponse 404 (text "unknown action"))
  | some handler =>
    if GoStd.hasHead (server.toLower r.contentType) "application/json" = false then
      .error (errorResponse 415 (text "content type must be application/json"))
    else if r.body.length > maxRequestBytes then
      .error (errorResponse 413 (text "request body exceeds limit"))
    else
      match decodeRequest server.times r.body with
      | none => .error (errorResponse 400 (text "invalid request body"))
      | some (request, rest) =>
        if skipSpace rest ≠ [] then
          .error (errorResponse 400 (text "request body must contain one JSON object"))
        else
          match validateRequest server request with
          | some message =>
            .error (errorResponse 422 (truncate (text message) maxErrorBytes))
          | none => .ok (handler, request)

/-- The `Response` for an outcome. -/
def reply (request : Request) (outcome : Outcome) : ActionResponse :=
  let response : ActionResponse :=
    { protocolVersion := protocolVersion, idempotencyKey := request.idempotencyKey
      status := succeeded }
  let failure (message : List UInt8) : ActionResponse :=
    { response with status := failed, error := message }
  match outcome with
  | .actionError message => failure (sanitizeActionError message)
  | .otherError => failure (text "plugin action failed")
  | .nothing => { response with output := (Doc.obj []).encode }
  | .value none => failure (text "plugin output is not valid bounded JSON")
  | .value (some v) =>
    if v.text.length > maxResponseBytes then
      failure (text "plugin output is not valid bounded JSON")
    else { response with output := v.text }

def handleAction (server : Server) (r : HTTPRequest) : HTTPResponse :=
  match accept server r with
  | .error response => response
  | .ok (handler, request) => writeJSON 200 (reply request (handler request)).marshal

/-! ### The request as the server reads it -/

def goName (s : String) : Literal :=
  literal (text s)

theorem goName_text (s : String) : (goName s).text = s.toList :=
  literal_encode_text s.toList

theorem coerce_text (s : String) : coerce (text s) = text s :=
  coerce_encode s.toList

theorem encode_literal_text (s : String) : encode (literal (text s)).text = text s :=
  coerce_encode s.toList

theorem findField_request {f : RequestField} {s : String} (h : (text s, f) ∈ requestFields) :
    findField requestFields (text s) = some f := by
  have hall : ∀ p ∈ requestFields, findField requestFields p.1 = some p.2 := by decide
  exact hall _ h

theorem assign_request (times : TimeFormat) {s : String} {f : RequestField}
    (h : (text s, f) ∈ requestFields) (r : Request) (raw : List UInt8) :
    assign requestFields (Request.set times) r ((literal (text s)).quoted.1, raw)
      = r.set times f raw := by
  refine assign_literal requestFields (Request.set times) ?_ r raw
  rw [encode_literal_text]
  exact findField_request h

theorem readString_quote (old s : List UInt8) :
    readString old (quote s) = some (coerce s) := by
  rw [← encode_str]
  exact readString_literal (literal s) old

def requestMembers (request : ActionRequest) (deadline : List UInt8) : List (List UInt8 × Doc) :=
  [(text "protocol_version", .str (literal request.protocolVersion).quoted),
    (text "execution_id", .str (literal request.executionID).quoted),
    (text "step_id", .str (literal request.stepID).quoted),
    (text "request_id", .str (literal request.requestID).quoted)]
  ++ (if request.traceParent = [] then []
      else [(text "traceparent", .str (literal request.traceParent).quoted)])
  ++ [(text "deadline", .str (literal deadline).quoted),
    (text "idempotency_key", .str (literal request.idempotencyKey).quoted),
    (text "input", request.input.doc)]

variable {body : List UInt8}

theorem marshal_request_inv {times : TimeFormat} {request : ActionRequest}
    (h : request.marshal times = some body) :
    ∃ deadline, times.format request.deadline = some deadline
      ∧ request.input.doc.depth ≤ maxNesting
      ∧ body = writeObject ((requestMembers request deadline).map fun m => (m.1, m.2.encode)) := by
  rw [ActionRequest.marshal, marshalRaw_value] at h
  rcases hformat : times.format request.deadline with _ | deadline
  · rw [hformat] at h
    cases h
  by_cases hdepth : request.input.doc.depth ≤ maxNesting
  · rw [hformat, if_pos hdepth] at h
    refine ⟨deadline, rfl, hdepth, ?_⟩
    rw [← Option.some.inj h]
    by_cases htrace : request.traceParent = []
    · simp only [requestMembers, if_pos htrace, List.map_append, List.map_cons, List.map_nil,
        encode_str, stringMember]
      rfl
    · simp only [requestMembers, if_neg htrace, List.map_append, List.map_cons, List.map_nil,
        encode_str, stringMember]
      rfl
  · rw [hformat, if_neg hdepth] at h
    cases h

theorem quote_ne_null (s : List UInt8) : quote s ≠ Doc.null.encode := by
  intro heq
  rw [quote, Doc.encode] at heq
  have hhead := (List.cons.inj heq).1
  revert hhead
  decide

theorem assign_requestMembers (times : TimeFormat) (request : ActionRequest)
    (deadline : List UInt8) :
    ((requestMembers request deadline).map fun m => ((literal m.1).quoted.1, m.2.encode)).foldlM
        (assign requestFields (Request.set times)) {}
      = (times.parse (quote deadline)).map fun t =>
          { protocolVersion := coerce request.protocolVersion
            executionID := coerce request.executionID, stepID := coerce request.stepID
            requestID := coerce request.requestID, traceParent := coerce request.traceParent
            deadline := t, idempotencyKey := coerce request.idempotencyKey
            input := request.input.text } := by
  have h₁ := assign_request times (s := "protocol_version") (f := .protocolVersion) (by decide)
  have h₂ := assign_request times (s := "execution_id") (f := .executionID) (by decide)
  have h₃ := assign_request times (s := "step_id") (f := .stepID) (by decide)
  have h₄ := assign_request times (s := "request_id") (f := .requestID) (by decide)
  have h₅ := assign_request times (s := "traceparent") (f := .traceParent) (by decide)
  have h₆ := assign_request times (s := "deadline") (f := .deadline) (by decide)
  have h₇ := assign_request times (s := "idempotency_key") (f := .idempotencyKey) (by decide)
  have h₈ := assign_request times (s := "input") (f := .input) (by decide)
  -- An empty trace is not written, and stays empty in the request that is read.
  by_cases hempty : request.traceParent = []
  · simp only [requestMembers, if_pos hempty, List.append_nil, List.cons_append, List.nil_append,
      List.map_cons, List.map_nil, List.foldlM_cons, List.foldlM_nil, h₁, h₂, h₃, h₄, h₆, h₇, h₈,
      Request.set, encode_str, readString_quote, if_neg (quote_ne_null deadline), Option.map_some,
      bind, Option.bind_some]
    rw [hempty]
    cases times.parse (quote deadline) <;> rfl
  simp only [requestMembers, if_neg hempty, List.cons_append, List.nil_append, List.map_cons,
    List.map_nil, List.foldlM_cons, List.foldlM_nil, h₁, h₂, h₃, h₄, h₅, h₆, h₇, h₈,
    Request.set, encode_str, readString_quote, if_neg (quote_ne_null deadline), Option.map_some,
    bind, Option.bind_some]
  cases times.parse (quote deadline) <;> rfl

theorem requestMembers_fit (request : ActionRequest) (deadline : List UInt8) :
    legalMembers ((requestMembers request deadline).map fun m => ((literal m.1).quoted, m.2)) = true
      ∧ depthMembers ((requestMembers request deadline).map fun m => ((literal m.1).quoted, m.2))
        = request.input.doc.depth := by
  by_cases hempty : request.traceParent = []
  · simp [requestMembers, hempty, legalMembers, depthMembers, Doc.legal, Doc.depth,
      request.input.legal]
  · simp [requestMembers, hempty, legalMembers, depthMembers, Doc.legal, Doc.depth,
      request.input.legal]

/-- **The request as the server reads it.** -/
theorem decodeRequest_marshal {times : TimeFormat} {request : ActionRequest}
    (h : request.marshal times = some body) :
    ∃ deadline, times.format request.deadline = some deadline
      ∧ decodeRequest times body
        = if request.input.doc.depth < maxNesting then
            (times.parse (quote deadline)).map fun t =>
              ({ protocolVersion := coerce request.protocolVersion
                 executionID := coerce request.executionID, stepID := coerce request.stepID
                 requestID := coerce request.requestID, traceParent := coerce request.traceParent
                 deadline := t, idempotencyKey := coerce request.idempotencyKey
                 input := request.input.text }, [])
          else none := by
  obtain ⟨deadline, hformat, -, rfl⟩ := marshal_request_inv h
  refine ⟨deadline, hformat, ?_⟩
  obtain ⟨hlegal, hdepth⟩ := requestMembers_fit request deadline
  rw [decodeRequest, writeObject_encode, ← List.append_nil (Doc.obj _).encode, decodeStruct_encode,
    List.map_map, hdepth]
  by_cases hroom : request.input.doc.depth < maxNesting
  · rw [if_pos ⟨hlegal, hroom⟩, if_pos hroom]
    have hfold := assign_requestMembers times request deadline
    show Option.map _ (List.foldlM _ _ ((requestMembers request deadline).map
      fun m => ((literal m.1).quoted.1, m.2.encode))) = _
    rw [hfold, Option.map_map]
    rfl
  · rw [if_neg fun hno => hroom hno.2, if_neg hroom]

/-! ### The answer as the server writes it -/

theorem writeObject_answer (protocol status key : List UInt8) (tail : List (List UInt8 × Doc)) :
    writeObject ([stringMember "protocol_version" protocol, stringMember "status" status,
        stringMember "idempotency_key" key] ++ tail.map fun m => (m.1, m.2.encode))
      = (answer goName (literal protocol) (literal status) (literal key)
          (tail.map fun m => ((literal m.1).quoted, m.2))).encode := by
  have hwrite := writeObject_encode
    ((text "protocol_version", Doc.str (literal protocol).quoted)
      :: (text "status", .str (literal status).quoted)
      :: (text "idempotency_key", .str (literal key).quoted) :: tail)
  simp only [List.map_cons, encode_str] at hwrite
  exact hwrite

theorem marshal_output (key : List UInt8) (v : GoJson.Value) :
    ActionResponse.marshal
        { protocolVersion := protocolVersion, status := succeeded, idempotencyKey := key
          output := v.text }
      = if v.doc.depth ≤ maxNesting then
          some (answer goName (literal protocolVersion) (literal succeeded) (literal key)
            [((goName "output").quoted, v.doc)]).encode
        else none := by
  rw [ActionResponse.marshal, if_neg v.text_ne_nil, marshalRaw_value]
  by_cases hdepth : v.doc.depth ≤ maxNesting
  · rw [if_pos hdepth, if_pos hdepth]
    exact congrArg some (writeObject_answer protocolVersion succeeded key [(text "output", v.doc)])
  · rw [if_neg hdepth, if_neg hdepth]
    rfl

theorem marshal_error (key error : List UInt8) :
    ActionResponse.marshal
        { protocolVersion := protocolVersion, status := failed, idempotencyKey := key
          error := error }
      = some (answer goName (literal protocolVersion) (literal failed) (literal key)
          (if error = [] then []
            else [((goName "error").quoted, .str (literal error).quoted)])).encode := by
  rw [ActionResponse.marshal, if_pos rfl]
  by_cases hempty : error = []
  · simp only [if_pos hempty]
    exact congrArg some (writeObject_answer protocolVersion failed key [])
  have hwrite := writeObject_answer protocolVersion failed key
    [(text "error", .str (literal error).quoted)]
  simp only [List.map_cons, List.map_nil, encode_str] at hwrite
  simp only [if_neg hempty]
  exact congrArg some hwrite

theorem decodeResponse_failure {key error : List UInt8}
    (h : ActionResponse.marshal
        { protocolVersion := protocolVersion, status := failed, idempotencyKey := key
          error := error } = some body) :
    decodeResponse body
      = some { protocolVersion := protocolVersion, status := failed, idempotencyKey := coerce key
               error := coerce error } := by
  rw [marshal_error, Option.some.injEq] at h
  have hprotocol : encode (literal protocolVersion).text = protocolVersion :=
    encode_literal_text _
  have hfailed : encode (literal failed).text = failed := encode_literal_text _
  rw [← h]
  by_cases hempty : error = []
  · rw [if_pos hempty, decodeResponse_answer goName_text, hprotocol, hfailed, hempty]
    rfl
  · rw [if_neg hempty, decodeResponse_error goName_text, hprotocol, hfailed]
    rfl

/-! ### Outcomes -/

/-- The encoding of the value a handler returned. -/
def Outcome.encoded : Outcome → Option GoJson.Value
  | .nothing => some { doc := .obj [], legal := rfl, verbatim := by decide }
  | .value encoded => encoded
  | .actionError _ => none
  | .otherError => none

variable {request : Request}

theorem reply_succeeded {outcome : Outcome} {v : GoJson.Value} (hv : outcome.encoded = some v)
    (hstatus : (reply request outcome).status = succeeded) :
    reply request outcome
      = { protocolVersion := protocolVersion, status := succeeded
          idempotencyKey := request.idempotencyKey, output := v.text } := by
  have hne : failed ≠ succeeded := by decide
  cases outcome with
  | nothing =>
    obtain rfl := Option.some.inj hv
    rfl
  | value encoded =>
    obtain rfl : encoded = some v := hv
    rw [reply] at hstatus ⊢
    split at hstatus
    · exact absurd hstatus hne
    · rename_i hsize
      exact if_neg hsize
  | actionError message | otherError => cases hv

/-- The bytes of an answer with an output: 93 around the output and the key. -/
def successSize (output key : List UInt8) : ℕ :=
  output.length + (quote key).length + 93

/-- The bytes of an answer with an error, which is left out when it is empty. -/
def failureSize (error key : List UInt8) : ℕ :=
  (if error = [] then 0 else (quote error).length + 9) + (quote key).length + 80

theorem length_quote (s : List UInt8) : (quote s).length = (literal s).body.length + 2 := by
  rw [quote, List.length_cons, List.length_append]
  rfl

theorem length_head :
    (goName "protocol_version").body.length = 16 ∧ (goName "status").body.length = 6
      ∧ (goName "idempotency_key").body.length = 15
      ∧ (literal protocolVersion).body.length = 20 := by
  decide +kernel

theorem length_output (key : List UInt8) (v : GoJson.Value) :
    (answer goName (literal protocolVersion) (literal succeeded) (literal key)
      [((goName "output").quoted, v.doc)]).encode.length = successSize v.text key := by
  obtain ⟨h₁, h₂, h₃, h₄⟩ := length_head
  have h₅ : (literal succeeded).body.length = 9 ∧ (goName "output").body.length = 6 := by
    decide +kernel
  rw [length_answer, successSize, length_quote, GoJson.Value.text]
  simp only [encodeMembers, List.length_cons, List.length_append, List.length_nil,
    if_neg Bool.false_ne_true, Literal.quoted]
  omega

theorem length_error {key error : List UInt8}
    (h : ActionResponse.marshal
        { protocolVersion := protocolVersion, status := failed, idempotencyKey := key
          error := error } = some body) :
    body.length = failureSize error key := by
  obtain ⟨h₁, h₂, h₃, h₄⟩ := length_head
  have h₅ : (literal failed).body.length = 6 ∧ (goName "error").body.length = 5 := by
    decide +kernel
  rw [marshal_error, Option.some.injEq] at h
  rw [← h, length_answer, failureSize, length_quote, length_quote]
  split
  · simp only [encodeMembers, List.length_singleton]
    omega
  · simp only [encodeMembers, Doc.encode, List.length_cons, List.length_append, List.length_nil,
      if_neg Bool.false_ne_true, Literal.quoted]
    omega

/-- **When the Go SDK's success arrives.** -/
theorem go_success_iff {outcome : Outcome} {v : GoJson.Value} {sent : List UInt8}
    (hkey : request.idempotencyKey = coerce sent) (hv : outcome.encoded = some v)
    (hstatus : (reply request outcome).status = succeeded)
    (hbody : (reply request outcome).marshal = some body) :
    (Client.receive sent { status := 200, body := body }).2 = none
        ∧ (Client.receive sent { status := 200, body := body }).1.output = v.text
      ↔ successSize v.text sent ≤ maxBody ∧ v.doc.depth < maxNesting ∧ Valid sent := by
  rw [reply_succeeded hv hstatus, marshal_output] at hbody
  by_cases hdepth : v.doc.depth ≤ maxNesting
  · rw [if_pos hdepth] at hbody
    obtain rfl := Option.some.inj hbody
    have hreceive := receive_output_iff goName_text (encode_literal_text _ :
      encode (literal protocolVersion).text = protocolVersion) (encode_literal_text _ :
      encode (literal succeeded).text = succeeded) (literal request.idempotencyKey) v.doc sent
    -- The server has the key with its bad bytes replaced already.
    have hecho : encode (literal request.idempotencyKey).text = sent ↔ Valid sent := by
      rw [encode_literal, hkey, coerce_coerce, coerce_eq_self_iff]
    rw [hecho] at hreceive
    have hsize := length_output request.idempotencyKey v
    refine hreceive.trans ⟨?_, ?_⟩
    · rintro ⟨hfits, -, hdeep, hvalid⟩
      have hfits := hsize.ge.trans hfits
      rw [hkey, coerce_eq_self_iff.mpr hvalid] at hfits
      exact ⟨hfits, hdeep, hvalid⟩
    · rintro ⟨hfits, hdeep, hvalid⟩
      rw [hkey, coerce_eq_self_iff.mpr hvalid] at hsize ⊢
      exact ⟨hsize.le.trans hfits, v.legal, hdeep, hvalid⟩
  · rw [if_neg hdepth] at hbody
    cases hbody

/-- The message the server reports for `Fail(message)`. -/
def failureMessage (message : List UInt8) : List UInt8 :=
  sanitizeActionError (failText message)

theorem reply_fail (request : Request) (message : List UInt8) :
    reply request (fail message)
      = { protocolVersion := protocolVersion, status := failed
          idempotencyKey := request.idempotencyKey, error := failureMessage message } :=
  rfl

theorem truncate_length_le (value : List UInt8) (limit : ℕ) :
    (truncate value limit).length ≤ limit := by
  rw [truncate]
  split
  · assumption
  · exact List.length_take_le limit value

theorem failureMessage_length_le (message : List UInt8) :
    (failureMessage message).length ≤ maxErrorBytes := by
  rw [failureMessage, sanitizeActionError]
  exact truncate_length_le _ _

/-- **When the Go SDK's failure arrives.** -/
theorem go_failure_iff {message sent : List UInt8} (hkey : request.idempotencyKey = coerce sent)
    (hbody : (reply request (fail message)).marshal = some body) :
    (Client.receive sent { status := 200, body := body }).2
        = some (.failed (failureMessage message))
      ↔ failureSize (failureMessage message) sent ≤ maxBody ∧ Valid (failureMessage message)
        ∧ Valid sent := by
  rw [reply_fail] at hbody
  have hsize := length_error hbody
  have hdecode := decodeResponse_failure hbody
  have hlen : (failureMessage message).length ≤ maxError := failureMessage_length_le message
  rw [hkey] at hsize
  rw [hkey, coerce_coerce] at hdecode
  rw [receive_failed_iff hdecode, coerce_eq_self_iff, coerce_eq_self_iff, hsize]
  constructor
  · rintro ⟨hfits, hsent, hmessage, -⟩
    rw [coerce_eq_self_iff.mpr hsent] at hfits
    exact ⟨hfits, hmessage, hsent⟩
  · rintro ⟨hfits, hmessage, hsent⟩
    rw [coerce_eq_self_iff.mpr hsent]
    exact ⟨hfits, hsent, hmessage, hlen⟩

/-! ### A whole call -/

variable {server : Server} {handler : Request → Outcome}

theorem accept_inv {r : HTTPRequest} (h : accept server r = .ok (handler, request)) :
    ∃ rest, decodeRequest server.times r.body = some (request, rest) := by
  rw [accept] at h
  split at h
  · cases h
  split at h
  · cases h
  split at h
  · cases h
  split at h
  · cases h
  rename_i request' rest hdecode
  split at h
  · cases h
  split at h
  · cases h
  · obtain ⟨-, rfl⟩ := Prod.mk.inj (Except.ok.inj h)
    exact ⟨rest, hdecode⟩

theorem accept_ok {r : HTTPRequest} (haction : server.actions r.action = some handler)
    (htype : GoStd.hasHead (server.toLower r.contentType) "application/json" = true)
    (hsize : r.body.length ≤ maxRequestBytes)
    (hdecode : decodeRequest server.times r.body = some (request, []))
    (hvalid : validateRequest server request = none) :
    accept server r = .ok (handler, request) := by
  have hrest : ¬ skipSpace [] ≠ [] := fun hne => hne rfl
  rw [accept, haction]
  simp only [htype, Bool.true_eq_false, if_false, if_neg (not_lt.mpr hsize), hdecode, if_neg hrest,
    hvalid]

/-- An accepted request has the key that was sent, with its bad bytes replaced. -/
theorem accept_key {action : String} {request : ActionRequest}
    {received : Request}
    (hbody : request.marshal server.times = some body)
    (h : accept server { action := action, contentType := "application/json", body := body }
      = .ok (handler, received)) :
    received.idempotencyKey = coerce request.idempotencyKey := by
  obtain ⟨rest, hdecode⟩ := accept_inv h
  obtain ⟨deadline, -, hread⟩ := decodeRequest_marshal hbody
  rw [hread] at hdecode
  split at hdecode
  · obtain ⟨t, -, heq⟩ := Option.map_eq_some_iff.mp hdecode
    rw [← (Prod.mk.inj heq).1]
  · cases hdecode

theorem call_eq {action : String} {traceParent : List UInt8}
    {request : ActionRequest} {answer : List UInt8}
    {received : Request} (haction : matchesIdentifier action = true)
    (hbody : ActionRequest.marshal server.times { request with traceParent := traceParent }
      = some body)
    (haccept : accept server { action := action, contentType := "application/json", body := body }
      = .ok (handler, received))
    (hanswer : (reply received (handler received)).marshal = some answer) :
    Client.call server.times (handleAction server) action traceParent request
      = Client.receive request.idempotencyKey { status := 200, body := answer } := by
  rw [Client.call, haction, if_neg (by decide), hbody]
  simp only [handleAction, haccept, hanswer, writeJSON]

/-- **The Go SDK and the client agree on outcomes** exactly within what both
bound.  A value reported as succeeded comes back as its encoding, and `Fail` as
the failure with the server's message, if and only if the encodings of output or
message and of the key leave the answer within 1 MiB, the output is less deep than
the decoder allows, the message still a text after it was cut, and the key a text. -/
theorem go_outcome_agrees_iff (server : Server) (action : String) (traceParent : List UInt8)
    (request : ActionRequest) {body answer : List UInt8} {handler : Request → Outcome}
    {received : Request} (haction : matchesIdentifier action = true)
    (hbody : ActionRequest.marshal server.times { request with traceParent := traceParent }
      = some body)
    (haccept : accept server { action := action, contentType := "application/json", body := body }
      = .ok (handler, received))
    (hanswer : (reply received (handler received)).marshal = some answer) :
    (∀ v, (handler received).encoded = some v →
        (reply received (handler received)).status = succeeded →
        ((Client.call server.times (handleAction server) action traceParent request).2 = none
            ∧ (Client.call server.times (handleAction server) action traceParent request).1.output
              = v.text
          ↔ successSize v.text request.idempotencyKey ≤ maxBody ∧ v.doc.depth < maxNesting
            ∧ Valid request.idempotencyKey))
      ∧ ∀ message, handler received = fail message →
        ((Client.call server.times (handleAction server) action traceParent request).2
            = some (.failed (failureMessage message))
          ↔ failureSize (failureMessage message) request.idempotencyKey ≤ maxBody
            ∧ Valid (failureMessage message) ∧ Valid request.idempotencyKey) := by
  have hkey := accept_key hbody haccept
  rw [call_eq haction hbody haccept hanswer]
  refine ⟨fun v hv hstatus => go_success_iff hkey hv hstatus hanswer, fun message hfail => ?_⟩
  rw [hfail] at hanswer
  exact go_failure_iff hkey hanswer

/-! ### A plugin with one outcome -/

def plainServer (outcome : Outcome) : Server :=
  { actions := fun _ => some fun _ => outcome
    order := [.executionID, .stepID, .requestID, .idempotencyKey]
    times :=
      { format := fun _ => some (text "2026-01-01T00:00:00Z"), parse := fun _ => some (some 1) }
    now := 0, toLower := fun s => s }

def emptyObject : GoJson.Value :=
  { doc := .obj [], legal := rfl, verbatim := by decide }

def plainRequest : ActionRequest :=
  { protocolVersion := protocolVersion, executionID := text "e", stepID := text "s"
    requestID := text "r", traceParent := [], deadline := 1, idempotencyKey := text "k"
    input := emptyObject }

/-- `plainRequest` as the server decodes it. -/
def plainReceived : Request :=
  { protocolVersion := protocolVersion, executionID := text "e", stepID := text "s"
    requestID := text "r", deadline := some 1, idempotencyKey := text "k"
    input := emptyObject.text }

theorem plain_accepted (outcome : Outcome) : ∃ body,
    plainRequest.marshal (plainServer outcome).times = some body
      ∧ accept (plainServer outcome)
          { action := "run", contentType := "application/json", body := body }
        = .ok (fun _ => outcome, plainReceived) := by
  have hlen : ((plainRequest.marshal (plainServer .nothing).times).map
      fun body => decide (body.length ≤ maxRequestBytes)) = some true := by
    decide +kernel
  obtain ⟨body, hbody, hsize⟩ := Option.map_eq_some_iff.mp hlen
  obtain ⟨deadline, -, hdecode⟩ := decodeRequest_marshal hbody
  have hroom : plainRequest.input.doc.depth < maxNesting := by decide +kernel
  have hread : decodeRequest (plainServer outcome).times body = some (plainReceived, []) := by
    rw [if_pos hroom] at hdecode
    refine hdecode.trans ?_
    simp only [plainServer, Option.map_some, plainRequest, plainReceived, protocolVersion,
      coerce_text]
    rfl
  have hvalid : validateRequest (plainServer .nothing) plainReceived = none := by decide +kernel
  have htype : GoStd.hasHead "application/json" "application/json" = true := by decide
  exact ⟨body, hbody, accept_ok rfl htype (of_decide_eq_true hsize) hread hvalid⟩

/-- An empty output and a short failure arrive. -/
theorem go_outcomes_arrive :
    ((Client.call (plainServer .nothing).times (handleAction (plainServer .nothing)) "run" []
          plainRequest).2 = none
        ∧ (Client.call (plainServer .nothing).times (handleAction (plainServer .nothing)) "run" []
          plainRequest).1.output = emptyObject.text)
      ∧ (Client.call (plainServer (fail (text "disk full"))).times
          (handleAction (plainServer (fail (text "disk full")))) "run" [] plainRequest).2
        = some (.failed (text "disk full")) := by
  have haction : matchesIdentifier "run" = true := by decide
  have hkey : Valid plainRequest.idempotencyKey := ⟨_, rfl⟩
  constructor
  · obtain ⟨body, hbody, haccept⟩ := plain_accepted .nothing
    obtain ⟨answer, hanswer⟩ : ∃ answer, (reply plainReceived .nothing).marshal = some answer :=
      Option.isSome_iff_exists.mp (by decide +kernel)
    have hagree := (go_outcome_agrees_iff (plainServer .nothing) "run" [] plainRequest haction hbody
      haccept hanswer).1 emptyObject rfl rfl
    exact hagree.mpr ⟨by decide +kernel, by decide +kernel, hkey⟩
  obtain ⟨body, hbody, haccept⟩ := plain_accepted (fail (text "disk full"))
  obtain ⟨answer, hanswer⟩ :
      ∃ answer, (reply plainReceived (fail (text "disk full"))).marshal = some answer :=
    Option.isSome_iff_exists.mp (by decide +kernel)
  have hagree := (go_outcome_agrees_iff (plainServer (fail (text "disk full"))) "run" []
    plainRequest haction hbody haccept hanswer).2 (text "disk full") rfl
  have hmessage : failureMessage (text "disk full") = text "disk full" := by decide +kernel
  rw [hmessage] at hagree
  exact hagree.mpr ⟨by decide +kernel, ⟨_, rfl⟩, hkey⟩

/-! ### Outcomes that are lost -/

theorem quoteBody_replicate (n : ℕ) :
    quoteBody (encode (List.replicate n 'a')) = List.replicate n 0x61 := by
  rw [quoteBody, runes_encode]
  induction n with
  | zero => rfl
  | succ n ih =>
    rw [List.replicate_succ, List.map_cons, List.flatMap_cons, ih]
    rfl

theorem verbatim_replicate (n : ℕ) :
    JsonText.verbatim .inside (List.replicate n 0x61 ++ [0x22]) = true := by
  induction n with
  | zero => decide
  | succ n ih =>
    rw [List.replicate_succ, List.cons_append, JsonText.verbatim,
      JsonText.separatorAhead_cons (by decide)]
    exact ih

/-- The text of `n` letters as an output. -/
def longOutput (n : ℕ) : GoJson.Value :=
  { doc := .str (literal (encode (List.replicate n 'a'))).quoted
    legal := rfl
    verbatim := by
      rw [encode_str, quote, quoteBody_replicate, JsonText.verbatim,
        JsonText.separatorAhead_cons (by decide)]
      exact verbatim_replicate n }

theorem length_longOutput (n : ℕ) : (longOutput n).text.length = n + 2 := by
  rw [GoJson.Value.text, longOutput, encode_str, quote, quoteBody_replicate, List.length_cons,
    List.length_append, List.length_replicate, List.length_singleton]

theorem call_longOutput {n : ℕ} (hbound : n + 2 ≤ maxResponseBytes) (hfull : maxBody ≤ n + 2) :
    (reply plainReceived (.value (some (longOutput n)))).status = succeeded
      ∧ Client.call (plainServer (.value (some (longOutput n)))).times
          (handleAction (plainServer (.value (some (longOutput n))))) "run" [] plainRequest
        = ({}, some .tooLarge) := by
  have hlen := length_longOutput n
  have hreply : reply plainReceived (.value (some (longOutput n)))
      = { protocolVersion := protocolVersion, status := succeeded, idempotencyKey := text "k"
          output := (longOutput n).text } := by
    rw [reply]
    exact if_neg (by omega)
  have hdepth : (longOutput n).doc.depth ≤ maxNesting := Nat.zero_le _
  obtain ⟨body, hbody, haccept⟩ := plain_accepted (.value (some (longOutput n)))
  have hanswer := marshal_output (text "k") (longOutput n)
  rw [if_pos hdepth, ← hreply] at hanswer
  refine ⟨by rw [hreply], ?_⟩
  have hlt := length_output_lt goName (literal protocolVersion) (literal succeeded)
    (literal (text "k")) (longOutput n).doc
  have htext : (longOutput n).doc.encode.length = n + 2 := hlen
  rw [call_eq (by decide) hbody haccept hanswer, receive_ok, if_pos (by omega)]

theorem failureSize_le (error key : List UInt8) :
    failureSize error key ≤ 6 * key.length + 6 * error.length + 100 := by
  have hvalue : ∀ s : List UInt8, (literal s).body.length ≤ 6 * s.length := length_quoteBody_le
  have hkey := hvalue key
  have herror := hvalue error
  rw [failureSize, length_quote, length_quote]
  split <;> omega

theorem trim_ends {α : Type} {p : α → Bool} {a b : α} {mid : List α} (ha : p a = false)
    (hb : p b = false) :
    (((a :: (mid ++ [b])).dropWhile p).reverse.dropWhile p).reverse = a :: (mid ++ [b]) := by
  have hback : (a :: (mid ++ [b])).reverse = b :: (mid.reverse ++ [a]) := by simp
  rw [List.dropWhile_cons_of_neg (by simp [ha]), hback, List.dropWhile_cons_of_neg (by simp [hb]),
    ← hback, List.reverse_reverse]

theorem trimSpace_ends {value : List UInt8} {a b : Rune} {mid : List Rune}
    (h : runes value = a :: (mid ++ [b])) (ha : isSpaceRune a = false)
    (hb : isSpaceRune b = false) : trimSpace value = value := by
  rw [trimSpace, h, trim_ends ha hb, ← h, bytes_runes]

def clippedMessage : List UInt8 :=
  encode (List.replicate 999 'a' ++ ['é'])

def clippedText : List UInt8 :=
  encode (List.replicate 999 'a') ++ [0xC3]

theorem length_letters (n : ℕ) : (encode (List.replicate n 'a')).length = n := by
  have hone : 'a'.utf8Size = 1 := by decide
  rw [length_encode, List.map_replicate, List.sum_replicate_nat, hone, Nat.mul_one]

theorem length_clippedText : clippedText.length = maxErrorBytes := by
  rw [clippedText, List.length_append, length_letters]
  rfl

theorem runes_clippedText :
    runes clippedText = .char 'a' :: ((List.replicate 998 'a').map .char ++ [.bad 0xC3]) := by
  have hlast : runes [0xC3] = [.bad 0xC3] := by decide +kernel
  rw [clippedText, runes_encode_append, hlast, List.replicate_succ]
  rfl

theorem failureMessage_clipped : failureMessage clippedMessage = clippedText := by
  have hrunes : runes clippedMessage
      = .char 'a' :: ((List.replicate 998 'a').map .char ++ [.char 'é']) := by
    rw [clippedMessage, runes_encode, List.map_append, List.replicate_succ]
    rfl
  have htrim : trimSpace clippedMessage = clippedMessage :=
    trimSpace_ends hrunes (by decide) (by decide)
  have hcut : clippedMessage = encode (List.replicate 999 'a') ++ [0xC3, 0xA9] := encode_append _ _
  have hne : clippedMessage ≠ [] := by
    rw [hcut]
    exact List.append_ne_nil_of_right_ne_nil _ (List.cons_ne_nil _ _)
  have hlong : ¬ clippedMessage.length ≤ maxErrorBytes := by
    rw [hcut, List.length_append, length_letters]
    decide
  have hfail : failText clippedMessage = clippedText := by
    rw [failText, htrim, if_neg hne, truncate, if_neg hlong, hcut, List.take_append,
      length_letters, List.take_of_length_le (by rw [length_letters]; decide)]
    rfl
  rw [failureMessage, hfail, sanitizeActionError,
    trimSpace_ends runes_clippedText (by decide) (by decide), truncate,
    if_pos length_clippedText.le]

/-- The client reads the odd byte as U+FFFD, which takes three. -/
theorem length_coerce_clipped : (coerce clippedText).length = 1002 := by
  have hlast : Char.utf8Size (Rune.bad 0xC3).coerce = 3 := by decide
  have hone : 'a'.utf8Size = 1 := by decide
  rw [coerce, runes_clippedText, length_encode]
  simp only [List.map_cons, List.map_append, List.map_map, List.map_nil, List.sum_cons,
    List.sum_append, List.sum_nil, hlast]
  rw [show Char.utf8Size ∘ Rune.coerce ∘ Rune.char = Char.utf8Size from rfl, List.map_replicate,
    List.sum_replicate_nat, hone]
  rfl

/-- **Outcomes that are lost**: an output of exactly 1 MiB, which the server reports
as succeeded, and a failure whose message is cut inside a character. -/
theorem go_outcomes_lost :
    (longOutput 1048574).text.length = maxResponseBytes
      ∧ (reply plainReceived (.value (some (longOutput 1048574)))).status = succeeded
      ∧ Client.call (plainServer (.value (some (longOutput 1048574)))).times
          (handleAction (plainServer (.value (some (longOutput 1048574))))) "run" [] plainRequest
        = ({}, some .tooLarge)
      ∧ Client.call (plainServer (fail clippedMessage)).times
          (handleAction (plainServer (fail clippedMessage))) "run" [] plainRequest
        = ({}, some .limits) := by
  obtain ⟨hstatus, hlarge⟩ := call_longOutput (n := 1048574) (by decide) (by decide)
  refine ⟨length_longOutput 1048574, hstatus, hlarge, ?_⟩
  obtain ⟨body, hbody, haccept⟩ := plain_accepted (fail clippedMessage)
  have hreply : reply plainReceived (fail clippedMessage)
      = { protocolVersion := protocolVersion, status := failed, idempotencyKey := text "k"
          error := clippedText } := by
    rw [reply_fail, failureMessage_clipped]
    rfl
  obtain ⟨answer, hanswer⟩ : ∃ answer,
      (reply plainReceived (fail clippedMessage)).marshal = some answer := ⟨_, marshal_error _ _⟩
  rw [call_eq (by decide) hbody haccept hanswer]
  rw [hreply] at hanswer
  have hshort := failureSize_le clippedText (text "k")
  have hkey : (text "k").length = 1 := by decide
  have hsize : ¬ answer.length > maxBody := by
    rw [hkey, length_clippedText] at hshort
    rw [length_error hanswer]
    exact not_lt.mpr (hshort.trans (by decide))
  rw [receive_ok, if_neg hsize, decodeResponse_failure hanswer, coerce_text]
  simp only
  have hsent : text "k" = plainRequest.idempotencyKey := rfl
  rw [judge_failed, if_pos hsent, length_coerce_clipped, if_neg (by decide)]

end StormRelay.Plugins
