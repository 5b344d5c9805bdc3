/-
The Python plugin SDK against the engine's client (`sdk/python/stormrelay_plugin`,
`internal/plugins/protocol.go`).

A Python string is a sequence of code points, lone halves of surrogate pairs
included, and its length is their number.  The server encodes an answer twice: in
ASCII to bound it, and in UTF-8 to send it.  The client wants JSON, which has no
NaN and no infinities, and bounds a message by its bytes.

* `python_outcome_agrees_iff` — **for a whole call, which values and which failures of
  a handler reach the engine unchanged**.
-/
import StormRelay.GoPlugin

namespace StormRelay.Plugins.Python

open Utf8 JsonString JsonWire GoJson

/-! ### Values -/

/-- A Python string. -/
abbrev PyString := List CodePoint

def ofChars (text : List Char) : PyString :=
  text.map .char

def ofText (s : String) : PyString :=
  ofChars s.toList

/-- The values `json.dumps` encodes; numbers by what it writes for them, and
dictionaries by their entries with the keys as strings. -/
inductive PyValue where
  | none
  | bool (b : Bool)
  | num (text : NumberText)
  | nonFinite (value : NonFinite)
  | str (s : PyString)
  | list (items : List PyValue)
  | dict (members : List (PyString × PyValue))

/-- The characters of a string, unless it has a surrogate. -/
def chars? : PyString → Option (List Char)
  | [] => some []
  | .char c :: s => (chars? s).map (c :: ·)
  | _ :: _ => Option.none

theorem spelled_quoteChars (text : List Char) : Spelled text (text.flatMap quoteChar) := by
  have h := @spelled_flatMap Char (fun c => c) quoteChar written_quoteChar text
  rwa [List.map_id'] at h

/-- A text as `json.dumps(..., ensure_ascii=False)` writes it. -/
def literal (text : List Char) : Literal :=
  { text := text, body := text.flatMap quoteChar, spelled := spelled_quoteChars text }

mutual

/-- `json.dumps(value, separators=(",", ":"), ensure_ascii=False).encode("utf-8")`:
a lone surrogate cannot be encoded. -/
def PyValue.doc? : PyValue → Option Doc
  | .none => some .null
  | .bool b => some (.bool b)
  | .num text => some (.num text)
  | .nonFinite value => some (.nonFinite value)
  | .str s => (chars? s).map fun text => .str (literal text).quoted
  | .list items => (docItems items).map .arr
  | .dict members => (docMembers members).map .obj

def docItems : List PyValue → Option (List Doc)
  | [] => some []
  | item :: items =>
    match item.doc?, docItems items with
    | some d, some ds => some (d :: ds)
    | _, _ => Option.none

def docMembers : List (PyString × PyValue) → Option (List (StringBody × Doc))
  | [] => some []
  | (name, value) :: members =>
    match chars? name, value.doc?, docMembers members with
    | some text, some d, some ds => some (((literal text).quoted, d) :: ds)
    | _, _, _ => Option.none

end

/-- A code point in ASCII: besides what JSON demands, everything outside the
printable characters is escaped, a character beyond U+FFFF as a pair. -/
def asciiPoint : CodePoint → List UInt8
  | .char c =>
    if c.toNat < 0x7F then quoteChar c
    else if c.toNat < 0x10000 then hexEscape c.toNat
    else
      hexEscape (0xD800 + (c.toNat - 0x10000) / 1024)
        ++ hexEscape (0xDC00 + (c.toNat - 0x10000) % 1024)
  | .high n => hexEscape (0xD800 + n)
  | .low n => hexEscape (0xDC00 + n)

def asciiString (s : PyString) : List UInt8 :=
  0x22 :: (s.flatMap asciiPoint ++ [0x22])

mutual

/-- `json.dumps(value, separators=(",", ":")).encode()`. -/
def PyValue.ascii : PyValue → List UInt8
  | .none => Doc.null.encode
  | .bool b => (Doc.bool b).encode
  | .num text => text.1
  | .nonFinite value => value.word
  | .str s => asciiString s
  | .list items => 0x5B :: asciiItems true items
  | .dict members => 0x7B :: asciiMembers true members

def asciiItems : Bool → List PyValue → List UInt8
  | _, [] => [0x5D]
  | isFirst, item :: items =>
    (if isFirst then [] else [0x2C]) ++ (item.ascii ++ asciiItems false items)

def asciiMembers : Bool → List (PyString × PyValue) → List UInt8
  | _, [] => [0x7D]
  | isFirst, (name, value) :: members =>
    (if isFirst then [] else [0x2C])
      ++ (asciiString name ++ 0x3A :: (value.ascii ++ asciiMembers false members))

end

/-! ### Requests -/

/-- `PluginRequest`, with the input as it was written. -/
structure PluginRequest where
  executionID : PyString
  stepID : PyString
  requestID : PyString
  traceparent : PyString
  deadline : Time
  idempotencyKey : PyString
  input : List UInt8
deriving DecidableEq

/-- How a handler ends: with a value, with one that `json.dumps` raises `TypeError`
or `ValueError` for, with an `ActionError`, or with another exception. -/
inductive PyOutcome where
  | returned (value : PyValue)
  | unencodable
  | actionError (message : PyString)
  | otherError

/-- A plugin server: its actions and what it has from the platform, namely what
`json.loads` asks of a body besides its grammar (the encoding, the number of digits),
how deep it goes, deadlines and the clock. -/
structure PyServer where
  actions : String → Option (PluginRequest → PyOutcome)
  loads : List UInt8 → Bool
  room : ℕ
  parseDeadline : PyString → Option Time
  now : Time
  toLower : String → String

/-- `str.isspace` on one code point. -/
def isSpacePoint : CodePoint → Bool
  | .char c => GoStd.isSpace c || (0x1C ≤ c.toNat && c.toNat ≤ 0x1F)
  | _ => false

/-- `str.strip`. -/
def strip (s : PyString) : PyString :=
  ((s.dropWhile isSpacePoint).reverse.dropWhile isSpacePoint).reverse

/-- A string literal as `json.loads` reads it. -/
def readBody (body : List UInt8) : Option PyString :=
  (units 0 body).map pairs

def readText : List UInt8 → Option PyString
  | [] => none
  | b :: rest => if b = 0x22 then (scanBody .plain rest).bind fun r => readBody r.1 else none

/-- `document[name]`; of several members with one name the last one counts. -/
def member (members : List (List UInt8 × List UInt8)) (name : String) : Option (List UInt8) :=
  (members.reverse.find? fun m => readBody m.1 = some (ofText name)).map Prod.snd

def requiredKeys : List String :=
  ["protocol_version", "execution_id", "step_id", "request_id", "deadline", "idempotency_key",
    "input"]

def keysValid (members : List (List UInt8 × List UInt8)) : Bool :=
  (requiredKeys.all fun name => (member members name).isSome)
    && members.all fun m =>
      ("traceparent" :: requiredKeys).any fun name => readBody m.1 = some (ofText name)

def identifier (members : List (List UInt8 × List UInt8)) (name : String) : Option PyString :=
  match (member members name).bind readText with
  | none => none
  | some value => if strip value = [] ∨ value.length > 500 then none else some value

/-- `document.get("traceparent", "")`, if it is a string. -/
def traceparent (members : List (List UInt8 × List UInt8)) : Option PyString :=
  match member members "traceparent" with
  | none => some []
  | some raw => readText raw

/-- `json.loads` and `_parse_request`. -/
def parseRequest (server : PyServer) (body : List UInt8) : Option PluginRequest := do
  guard (server.loads body)
  let (members, rest) ← topMembers server.room body
  guard (skipSpace rest = [] ∧ keysValid members = true)
  guard ((member members "protocol_version").bind readText = some (ofText "stormrelay.plugin/v1"))
  let executionID ← identifier members "execution_id"
  let stepID ← identifier members "step_id"
  let requestID ← identifier members "request_id"
  let idempotencyKey ← identifier members "idempotency_key"
  let traceparent ← traceparent members
  guard (traceparent.length ≤ 200)
  let deadline ← ((member members "deadline").bind readText).bind server.parseDeadline
  guard (server.now < deadline ∧ deadline ≤ server.now + day)
  let input ← member members "input"
  pure
    { executionID := executionID, stepID := stepID, requestID := requestID
      traceparent := traceparent, deadline := deadline, idempotencyKey := idempotencyKey
      input := input }

/-! ### The server -/

/-- `_send`. -/
def send (status : ℕ) (payload : PyValue) : HTTPResponse :=
  match payload.doc? with
  | none => { status := 500, body := writeObject [stringMember "error" (text "encode response")] }
  | some d =>
    if d.encode.length > maxResponseBytes then
      { status := 500
        body := writeObject [stringMember "error" (text "response exceeds limit")] }
    else { status := status, body := d.encode }

def sendError (status : ℕ) (message : String) : HTTPResponse :=
  send status (.dict [(ofText "error", .str (ofText message))])

/-- An answer with the given status, and what it says besides. -/
def payload (request : PluginRequest) (status : String) (tail : PyString × PyValue) : PyValue :=
  .dict [(ofText "protocol_version", .str (ofText "stormrelay.plugin/v1")),
    (ofText "status", .str (ofText status)),
    (ofText "idempotency_key", .str request.idempotencyKey), tail]

/-- `{} if output is None else output`. -/
def output : PyValue → PyValue
  | .none => .dict []
  | v => v

def success (request : PluginRequest) (value : PyValue) : PyValue :=
  payload request "succeeded" (ofText "output", output value)

def failure (request : PluginRequest) (message : PyString) : PyValue :=
  payload request "failed" (ofText "error", .str message)

/-- What `do_POST` answers to an outcome. -/
def reply (request : PluginRequest) : PyOutcome → PyValue
  | .actionError message => failure request (message.take maxErrorBytes)
  | .otherError => failure request (ofText "plugin action failed")
  | .unencodable => failure request (ofText "plugin output is not valid bounded JSON")
  | .returned value =>
    if (success request value).ascii.length > maxResponseBytes then
      failure request (ofText "plugin output is not valid bounded JSON")
    else success request value

/-- The message of the exception `fail` returns. -/
def failText (message : PyString) : PyString :=
  (if strip message = [] then ofText "plugin action failed" else strip message).take maxErrorBytes

/-- `fail`. -/
def fail (message : PyString) : PyOutcome :=
  .actionError (failText message)

/-- The checks of `do_POST` before it runs the handler. -/
def accept (server : PyServer) (r : HTTPRequest) :
    Except HTTPResponse ((PluginRequest → PyOutcome) × PluginRequest) :=
  match server.actions r.action with
  | none => .error (sendError 404 "unknown action")
  | some handler =>
    if GoStd.hasHead (server.toLower r.contentType) "application/json" = false then
      .error (sendError 415 "content type must be application/json")
    else if r.body.length < 1 ∨ r.body.length > maxRequestBytes then
      .error
        (sendError (if r.body.length > maxRequestBytes then 413 else 400) "invalid body length")
    else
      match parseRequest server r.body with
      | none => .error (sendError 400 "invalid request body")
      | some request => .ok (handler, request)

/-- `do_POST`. -/
def doPost (server : PyServer) (r : HTTPRequest) : HTTPResponse :=
  match accept server r with
  | .error response => response
  | .ok (handler, request) => send 200 (reply request (handler request))

/-! ### The key as Python reads it -/

theorem readBody_literal (l : Literal) : readBody l.quoted.1 = some (ofChars l.text) := by
  have hunits : units 0 l.body = some (ofChars l.text) := units_spelled l.spelled
  show (units 0 l.body).map pairs = _
  rw [hunits, Option.map_some]
  exact congrArg some (pairs_chars l.text)

theorem readText_literal (l : Literal) :
    readText (Doc.str l.quoted).encode = some (ofChars l.text) := by
  rw [Doc.encode, readText, if_pos rfl, scanBody_quoted, Option.bind_some, readBody_literal]

theorem readBody_name (s : String) :
    readBody (GoJson.literal (text s)).quoted.1 = some (ofText s) := by
  rw [readBody_literal]
  exact congrArg (fun t => some (ofChars t)) (literal_encode_text s.toList)

theorem member_key (request : ActionRequest) (deadline : List UInt8) :
    member ((requestMembers request deadline).map
        fun m => ((GoJson.literal m.1).quoted.1, m.2.encode)) "idempotency_key"
      = some (Doc.str (GoJson.literal request.idempotencyKey).quoted).encode := by
  -- Read from the end, only the input stands before the key.
  have hinput : ¬ readBody (GoJson.literal (text "input")).quoted.1
      = some (ofText "idempotency_key") := by
    rw [readBody_name]
    decide
  have hkey := readBody_name "idempotency_key"
  rw [member, requestMembers, List.map_append, List.reverse_append]
  simp only [List.map_cons, List.map_nil, List.reverse_cons, List.reverse_nil, List.nil_append,
    List.cons_append, List.find?_cons, decide_eq_false hinput, decide_eq_true hkey,
    Option.map_some]

theorem identifier_inv {members : List (List UInt8 × List UInt8)} {name : String}
    {value : PyString} (h : identifier members name = some value) :
    (member members name).bind readText = some value ∧ value.length ≤ 500 := by
  rw [identifier] at h
  split at h
  · cases h
  rename_i found hfound
  split at h
  · cases h
  · rename_i hvalid
    obtain rfl := Option.some.inj h
    exact ⟨hfound, not_lt.mp fun hlong => hvalid (.inr hlong)⟩

theorem parseRequest_inv {server : PyServer} {body : List UInt8} {request : PluginRequest}
    (h : parseRequest server body = some request) :
    ∃ members rest, topMembers server.room body = some (members, rest)
      ∧ identifier members "idempotency_key" = some request.idempotencyKey := by
  simp only [parseRequest, bind, Option.bind_eq_some_iff] at h
  obtain ⟨-, -, ⟨members, rest⟩, htop, -, -, -, -, execution, -, step, -, req, -, key, hkey, trace,
    -, -, -, deadline, -, -, -, input, -, hrequest⟩ := h
  obtain rfl := Option.some.inj hrequest
  exact ⟨members, rest, htop, hkey⟩

/-- **The key as Python reads it**: the one that was sent with its bad bytes
replaced, of at most 500 characters. -/
theorem parseRequest_key {server : PyServer} {times : TimeFormat} {request : ActionRequest}
    {body : List UInt8} {received : PluginRequest} (hbody : request.marshal times = some body)
    (h : parseRequest server body = some received) :
    received.idempotencyKey = ofChars (GoJson.literal request.idempotencyKey).text
      ∧ (GoJson.literal request.idempotencyKey).text.length ≤ 500 := by
  obtain ⟨deadline, -, -, rfl⟩ := marshal_request_inv hbody
  obtain ⟨members, rest, htop, hkey⟩ := parseRequest_inv h
  rw [writeObject_encode, ← List.append_nil (Doc.obj _).encode, topMembers_encode] at htop
  split at htop
  · have hmembers := (Prod.mk.inj (Option.some.inj htop)).1
    rw [List.map_map] at hmembers
    obtain ⟨hread, hlen⟩ := identifier_inv hkey
    rw [← hmembers] at hread
    have hmember := member_key request deadline
    have heq := (congrArg (Option.bind · readText) hmember).symm.trans hread
    rw [Option.bind_some, readText_literal, Option.some.injEq] at heq
    refine ⟨heq.symm, ?_⟩
    rwa [← heq, ofChars, List.length_map] at hlen
  · cases htop

/-! ### The answer as Python writes it -/

def pyName (s : String) : Literal :=
  literal s.toList

theorem pyName_text (s : String) : (pyName s).text = s.toList :=
  rfl

theorem chars_ofChars (text : List Char) : chars? (ofChars text) = some text := by
  induction text with
  | nil => rfl
  | cons c text ih =>
    show (chars? (ofChars text)).map (c :: ·) = _
    rw [ih, Option.map_some]

theorem chars_inv {s : PyString} {text : List Char} (h : chars? s = some text) :
    s = ofChars text := by
  induction s generalizing text with
  | nil =>
    obtain rfl := Option.some.inj h
    rfl
  | cons p s ih =>
    cases p with
    | char c =>
      obtain ⟨rest, hrest, rfl⟩ := Option.map_eq_some_iff.mp h
      rw [ih hrest]
      rfl
    | high n | low n => cases h

theorem payload_doc {request : PluginRequest} {key : List Char}
    (hkey : request.idempotencyKey = ofChars key) (status name : String) (value : PyValue) :
    (payload request status (ofText name, value)).doc?
      = value.doc?.map fun d =>
          answer pyName (pyName "stormrelay.plugin/v1") (pyName status) (literal key)
            [((pyName name).quoted, d)] := by
  have htext : ∀ s : String, chars? (ofText s) = some s.toList := fun s => chars_ofChars s.toList
  have hchars := chars_ofChars key
  rw [← hkey] at hchars
  rcases hvalue : value.doc? with _ | d
  · simp only [payload, PyValue.doc?, docMembers, htext, hchars, hvalue, Option.map_some,
      Option.map_none]
  · simp only [payload, PyValue.doc?, docMembers, htext, hchars, hvalue, Option.map_some]
    rfl

theorem encode_pyName (s : String) : encode (pyName s).text = text s :=
  rfl

theorem encode_key_iff (sent : List UInt8) :
    encode (literal (GoJson.literal sent).text).text = sent ↔ Valid sent :=
  coerce_eq_self_iff

def succeededAnswer (key : Literal) (d : Doc) : Doc :=
  answer pyName (pyName "stormrelay.plugin/v1") (pyName "succeeded") key
    [((pyName "output").quoted, d)]

def failedAnswer (key text : Literal) : Doc :=
  answer pyName (pyName "stormrelay.plugin/v1") (pyName "failed") key
    [((pyName "error").quoted, .str text.quoted)]

/-! ### A success -/

theorem send_success {request : PluginRequest} {key : List Char} {value : PyValue}
    (hkey : request.idempotencyKey = ofChars key)
    (hstatus : (send 200 (success request value)).status = 200) :
    ∃ d, (output value).doc? = some d
      ∧ send 200 (success request value)
        = { status := 200, body := (succeededAnswer (literal key) d).encode }
      ∧ (succeededAnswer (literal key) d).encode.length ≤ maxBody := by
  have hdoc := payload_doc hkey "succeeded" "output" (output value)
  rw [← success] at hdoc
  rcases hvalue : (output value).doc? with _ | d
  · rw [hvalue, Option.map_none] at hdoc
    rw [send, hdoc] at hstatus
    cases hstatus
  rw [hvalue, Option.map_some] at hdoc
  rw [← succeededAnswer] at hdoc
  rw [send, hdoc] at hstatus ⊢
  simp only at hstatus ⊢
  by_cases hlong : (succeededAnswer (literal key) d).encode.length > maxResponseBytes
  · rw [if_pos hlong] at hstatus
    cases hstatus
  · exact ⟨d, rfl, if_neg hlong, not_lt.mp hlong⟩

/-- **When the Python SDK's success arrives.** -/
theorem python_success_iff (key : Literal) (d : Doc) (sent : List UInt8)
    (hsize : (succeededAnswer key d).encode.length ≤ maxBody) :
    (valid (succeededAnswer key d).encode = true
      ∧ (Client.receive sent { status := 200, body := (succeededAnswer key d).encode }).2 = none
      ∧ (Client.receive sent { status := 200, body := (succeededAnswer key d).encode }).1.output
        = d.encode)
      ↔ d.legal = true ∧ d.depth < maxNesting ∧ encode key.text = sent := by
  have hvalid : valid (succeededAnswer key d).encode = true
      ↔ d.legal = true ∧ d.depth < maxNesting := by
    rw [valid_encode, decide_eq_true_iff]
    simp only [succeededAnswer, answer, Doc.legal, legalMembers, Doc.depth, depthMembers,
      Bool.true_and, Bool.and_true, Nat.zero_max, Nat.max_zero]
    exact Iff.rfl
  have hreceive := receive_output_iff pyName_text (encode_pyName "stormrelay.plugin/v1")
    (encode_pyName "succeeded") key d sent
  rw [← succeededAnswer] at hreceive
  rw [hreceive, hvalid]
  constructor
  · rintro ⟨-, -, hlegal, hdepth, hkey⟩
    exact ⟨hlegal, hdepth, hkey⟩
  · rintro ⟨hlegal, hdepth, hkey⟩
    exact ⟨⟨hlegal, hdepth⟩, hsize, hlegal, hdepth, hkey⟩

/-! ### A failure -/

theorem length_literal_body_le (text : List Char) : (literal text).body.length ≤ 6 * text.length :=
  length_flatMap_le length_quoteChar_le text

/-- A failure's answer is short: both texts in it are bounded by their characters. -/
theorem length_failure_answer_le {key message : List Char} (hkey : key.length ≤ 500)
    (hmessage : message.length ≤ maxErrorBytes) :
    (failedAnswer (literal key) (literal message)).encode.length ≤ maxBody := by
  have hsizes : (pyName "protocol_version").body.length = 16 ∧ (pyName "status").body.length = 6
      ∧ (pyName "idempotency_key").body.length = 15 ∧ (pyName "error").body.length = 5
      ∧ (pyName "stormrelay.plugin/v1").body.length = 20 ∧ (pyName "failed").body.length = 6 := by
    decide
  have h₁ := length_literal_body_le key
  have h₂ := length_literal_body_le message
  rw [maxErrorBytes] at hmessage
  rw [failedAnswer, length_answer, maxBody]
  simp only [encodeMembers, Doc.encode, List.length_cons, List.length_append, List.length_nil,
    if_neg Bool.false_ne_true, Literal.quoted]
  omega

theorem length_failText_le (message : PyString) : (failText message).length ≤ maxErrorBytes :=
  List.length_take_le _ _

theorem length_message_le {message : PyString} {text : List Char}
    (h : chars? (failText message) = some text) : text.length ≤ maxErrorBytes := by
  have hle := length_failText_le message
  rwa [chars_inv h, ofChars, List.length_map] at hle

theorem reply_fail (request : PluginRequest) (message : PyString) :
    reply request (fail message) = failure request (failText message) := by
  rw [fail, reply, List.take_of_length_le (length_failText_le message)]

theorem send_failure {request : PluginRequest} {key text : List Char} {message : PyString}
    (hkey : request.idempotencyKey = ofChars key) (hlen : key.length ≤ 500)
    (htext : chars? (failText message) = some text) :
    send 200 (reply request (fail message))
      = { status := 200, body := (failedAnswer (literal key) (literal text)).encode } := by
  have hdoc := payload_doc hkey "failed" "error" (.str (failText message))
  rw [PyValue.doc?, htext, Option.map_some, Option.map_some] at hdoc
  rw [reply_fail, failure, send, hdoc]
  exact if_neg (not_lt.mpr (length_failure_answer_le hlen (length_message_le htext)))

theorem decodeResponse_failure (key text : Literal) :
    decodeResponse (failedAnswer key text).encode
      = some { protocolVersion := protocolVersion, status := failed
               idempotencyKey := encode key.text, error := encode text.text } := by
  rw [failedAnswer, decodeResponse_error pyName_text]
  rfl

/-- **When the Python SDK's failure arrives.** -/
theorem python_failure_iff {key text : List Char} (hkey : key.length ≤ 500)
    (htext : text.length ≤ maxErrorBytes) (sent : List UInt8) :
    (Client.receive sent
        { status := 200, body := (failedAnswer (literal key) (literal text)).encode }).2
        = some (.failed (encode text))
      ↔ (encode text).length ≤ maxError ∧ encode key = sent := by
  rw [receive_failed_iff (decodeResponse_failure (literal key) (literal text))]
  constructor
  · rintro ⟨-, hsent, -, hle⟩
    exact ⟨hle, hsent⟩
  · rintro ⟨hle, hsent⟩
    exact ⟨length_failure_answer_le hkey htext, hsent, rfl, hle⟩

/-! ### A whole call -/

theorem accept_inv {server : PyServer} {r : HTTPRequest} {handler : PluginRequest → PyOutcome}
    {request : PluginRequest} (h : accept server r = .ok (handler, request)) :
    parseRequest server r.body = some request := by
  rw [accept] at h
  split at h
  · cases h
  split at h
  · cases h
  split at h
  · cases h
  split at h
  · cases h
  · rename_i hparse
    obtain ⟨-, rfl⟩ := Prod.mk.inj (Except.ok.inj h)
    exact hparse

theorem doPost_eq {server : PyServer} {r : HTTPRequest} {handler : PluginRequest → PyOutcome}
    {request : PluginRequest} (h : accept server r = .ok (handler, request)) :
    doPost server r = send 200 (reply request (handler request)) := by
  rw [doPost, h]

theorem call_eq {server : PyServer} {times : TimeFormat} {action : String}
    {traceParent body : List UInt8} {request : ActionRequest}
    (haction : matchesIdentifier action = true)
    (hbody : ActionRequest.marshal times { request with traceParent := traceParent } = some body) :
    Client.call times (doPost server) action traceParent request
      = Client.receive request.idempotencyKey (doPost server
          { action := action, contentType := "application/json", body := body }) := by
  rw [Client.call, haction, if_neg (by decide), hbody]

/-- **The Python SDK and the client agree on outcomes** exactly within what both
mean by JSON and by a length.  An answer with status succeeded is JSON of at most
1 MiB that comes back with the same output if and only if the output has no NaN and
no infinity and is less deep than the decoder allows, and the key was a text.  The
message of `fail` comes back if and only if it has no lone surrogate and takes at
most 1000 bytes, and the key was a text. -/
theorem python_outcome_agrees_iff (server : PyServer) (times : TimeFormat) (action : String)
    (traceParent : List UInt8) (request : ActionRequest) {body : List UInt8}
    {handler : PluginRequest → PyOutcome} {received : PluginRequest} {response : HTTPResponse}
    (haction : matchesIdentifier action = true)
    (hbody : ActionRequest.marshal times { request with traceParent := traceParent } = some body)
    (haccept : accept server { action := action, contentType := "application/json", body := body }
      = .ok (handler, received))
    (hresponse : doPost server
      { action := action, contentType := "application/json", body := body } = response) :
    (∀ value, handler received = .returned value → response.status = 200 →
        reply received (handler received) = success received value →
        ∃ d, (output value).doc? = some d
          ∧ ((response.body.length ≤ maxBody ∧ valid response.body = true
              ∧ (Client.call times (doPost server) action traceParent request).2 = none
              ∧ (Client.call times (doPost server) action traceParent request).1.output = d.encode)
            ↔ d.legal = true ∧ d.depth < maxNesting ∧ Valid request.idempotencyKey))
      ∧ ∀ message, handler received = fail message →
        ((∃ text, chars? (failText message) = some text
            ∧ (Client.call times (doPost server) action traceParent request).2
              = some (.failed (encode text)))
          ↔ ∃ text, chars? (failText message) = some text ∧ (encode text).length ≤ maxError
            ∧ Valid request.idempotencyKey) := by
  obtain ⟨hkey, hlen⟩ := parseRequest_key hbody (accept_inv haccept)
  rw [call_eq haction hbody, hresponse]
  rw [doPost_eq haccept] at hresponse
  constructor
  · intro value hvalue hstatus hreply
    rw [hvalue] at hreply
    rw [hvalue, hreply] at hresponse
    rw [← hresponse] at hstatus
    obtain ⟨d, hd, hsend, hsize⟩ := send_success hkey hstatus
    refine ⟨d, hd, ?_⟩
    rw [← hresponse, hsend, and_iff_right hsize, python_success_iff _ d _ hsize]
    exact and_congr_right fun _ => and_congr_right fun _ => encode_key_iff _
  intro message hfail
  rw [hfail] at hresponse
  refine exists_congr fun text => and_congr_right fun htext => ?_
  rw [← hresponse, send_failure hkey hlen htext,
    python_failure_iff hlen (length_message_le htext)]
  exact and_congr_right fun _ => encode_key_iff _

/-! ### A plugin with one outcome -/

def plainServer (outcome : PyOutcome) : PyServer :=
  { actions := fun _ => some fun _ => outcome
    loads := fun _ => true
    room := 1000
    parseDeadline := fun _ => some 1
    now := 0, toLower := fun s => s }

def plainTimes : TimeFormat :=
  (Plugins.plainServer .nothing).times

/-- `plainRequest` as the server reads it. -/
def plainReceived : PluginRequest :=
  { executionID := ofText "e", stepID := ofText "s", requestID := ofText "r", traceparent := []
    deadline := 1, idempotencyKey := ofText "k", input := emptyObject.text }

theorem plain_accepted (outcome : PyOutcome) : ∃ body,
    plainRequest.marshal plainTimes = some body
      ∧ accept (plainServer outcome)
          { action := "run", contentType := "application/json", body := body }
        = .ok (fun _ => outcome, plainReceived) := by
  have hread : ((plainRequest.marshal plainTimes).map fun body =>
      (decide (1 ≤ body.length ∧ body.length ≤ maxRequestBytes),
        parseRequest (plainServer .otherError) body)) = some (true, some plainReceived) := by
    decide +kernel
  obtain ⟨body, hbody, hfacts⟩ := Option.map_eq_some_iff.mp hread
  obtain ⟨hsize, hparse⟩ := Prod.mk.inj hfacts
  have hlen := of_decide_eq_true hsize
  have hparse' : parseRequest (plainServer outcome) body = some plainReceived := hparse
  have htype : GoStd.hasHead "application/json" "application/json" = true := by decide
  have hlength : ¬ (body.length < 1 ∨ body.length > maxRequestBytes) := by omega
  refine ⟨body, hbody, ?_⟩
  simp only [accept, if_neg hlength, hparse']
  simp only [plainServer, htype, Bool.true_eq_false, if_false]

/-- An empty output and a short failure arrive. -/
theorem python_outcomes_arrive :
    (Client.call plainTimes (doPost (plainServer (.returned .none))) "run" [] plainRequest).2 = none
      ∧ (Client.call plainTimes (doPost (plainServer (.returned .none))) "run" []
          plainRequest).1.output = (Doc.obj []).encode
      ∧ (Client.call plainTimes (doPost (plainServer (fail (ofText "disk full")))) "run" []
          plainRequest).2 = some (.failed (text "disk full")) := by
  have haction : matchesIdentifier "run" = true := by decide
  have hkey : Valid plainRequest.idempotencyKey := ⟨_, rfl⟩
  obtain ⟨body, hbody, haccept⟩ := plain_accepted (.returned .none)
  obtain ⟨body', hbody', haccept'⟩ := plain_accepted (fail (ofText "disk full"))
  have hstatus : (send 200 (reply plainReceived (.returned .none))).status = 200 := by
    decide +kernel
  have hreply : reply plainReceived (.returned .none) = success plainReceived .none := by
    rw [reply]
    exact if_neg (by decide +kernel)
  obtain ⟨d, hd, hagree⟩ := (python_outcome_agrees_iff (plainServer (.returned .none)) plainTimes
    "run" [] plainRequest haction hbody haccept (doPost_eq haccept)).1 .none rfl hstatus hreply
  obtain rfl : Doc.obj [] = d := Option.some.inj hd
  obtain ⟨-, -, hnone, houtput⟩ := hagree.mpr ⟨rfl, by decide +kernel, hkey⟩
  refine ⟨hnone, houtput, ?_⟩
  have hfail := (python_outcome_agrees_iff (plainServer (fail (ofText "disk full"))) plainTimes
    "run" [] plainRequest haction hbody' haccept' (doPost_eq haccept')).2 (ofText "disk full") rfl
  have htext : chars? (failText (ofText "disk full")) = some "disk full".toList := by
    decide +kernel
  obtain ⟨message, hmessage, hcall⟩ := hfail.mpr ⟨_, htext, by decide +kernel, hkey⟩
  obtain rfl : "disk full".toList = message := Option.some.inj (htext.symm.trans hmessage)
  exact hcall

/-! ### Outcomes that are lost -/

def wideMessage : List Char :=
  List.replicate 1000 'é'

theorem failText_wide : failText (ofChars wideMessage) = ofChars wideMessage := by
  have hends : ofChars wideMessage
      = .char 'é' :: (ofChars (List.replicate 998 'é') ++ [.char 'é']) := by
    rw [wideMessage, List.replicate_succ, List.replicate_succ']
    exact congrArg (_ :: ·) List.map_append
  have hstrip : strip (ofChars wideMessage) = ofChars wideMessage := by
    rw [hends]
    exact trim_ends (by decide) (by decide)
  have hlen : (ofChars wideMessage).length ≤ maxErrorBytes := by
    rw [ofChars, List.length_map, wideMessage, List.length_replicate, maxErrorBytes]
  have hne : ofChars wideMessage ≠ [] := by
    rw [hends]
    exact List.cons_ne_nil _ _
  rw [failText, hstrip, if_neg hne, List.take_of_length_le hlen]

theorem length_wideMessage : (encode wideMessage).length = 2000 := by
  have htwo : 'é'.utf8Size = 2 := by decide
  rw [length_encode, wideMessage, List.map_replicate, List.sum_replicate_nat, htwo]

/-- **Outcomes that are lost**: NaN, which the server reports as succeeded and
writes as no JSON has it, and a failure of 1000 characters that take 2000 bytes. -/
theorem python_outcomes_lost :
    reply plainReceived (.returned (.nonFinite .nan))
        = success plainReceived (.nonFinite .nan)
      ∧ (send 200 (reply plainReceived (.returned (.nonFinite .nan)))).status = 200
      ∧ valid (send 200 (reply plainReceived (.returned (.nonFinite .nan)))).body = false
      ∧ Client.call plainTimes (doPost (plainServer (.returned (.nonFinite .nan)))) "run" []
          plainRequest = ({}, some .malformed)
      ∧ Client.call plainTimes (doPost (plainServer (fail (ofChars wideMessage)))) "run" []
          plainRequest = ({}, some .limits) := by
  have hreply : reply plainReceived (.returned (.nonFinite .nan))
      = success plainReceived (.nonFinite .nan) := by
    rw [reply]
    exact if_neg (by decide +kernel)
  refine ⟨hreply, by decide +kernel, by decide +kernel, by decide +kernel, ?_⟩
  obtain ⟨body, hbody, haccept⟩ := plain_accepted (fail (ofChars wideMessage))
  have htext : chars? (failText (ofChars wideMessage)) = some wideMessage := by
    rw [failText_wide, chars_ofChars]
  have hkey : plainReceived.idempotencyKey = ofChars "k".toList := rfl
  have hsize := length_failure_answer_le (by decide : "k".toList.length ≤ 500)
    (length_message_le htext)
  rw [call_eq (by decide) hbody, doPost_eq haccept, send_failure hkey (by decide) htext, receive_ok,
    if_neg (not_lt.mpr hsize), decodeResponse_failure]
  simp only
  have hsent : encode (literal "k".toList).text = plainRequest.idempotencyKey := rfl
  have hlong : ¬ (encode (literal wideMessage).text).length ≤ maxError := by
    show ¬ (encode wideMessage).length ≤ maxError
    rw [length_wideMessage]
    decide
  rw [judge_failed, if_pos hsent, if_neg hlong]

end StormRelay.Plugins.Python
