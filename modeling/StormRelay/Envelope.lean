/-
The envelope of an event (`internal/messaging/nats.go`, `internal/worker/worker.go`).

`PublishEvent` marshals an event into a message and `handleMessage` unmarshals
it.  `encoding/json` writes an embedded raw JSON text without its insignificant
whitespace and with `<`, `>`, `&`, U+2028 and U+2029 escaped, so the payload that
is stored is not always the body that was received.

* `raw_evidence_iff` — **the stored payload and digest are those of the body
  exactly when the body has nothing to drop or escape**.
-/
import StormRelay.JsonText
import StormRelay.Normalize
import StormRelay.Conservation
import StormRelay.Transport

namespace StormRelay

/-! ### Marshalling and unmarshalling -/

/-- A map under `omitempty`: an empty one is left out and comes back nil. -/
def omitEmptyLabels (labels : Option (List (String × String))) : Option (List (String × String)) :=
  if labels = some [] then none else labels

/-- What `json.Unmarshal` makes of what `PublishEvent` marshals: the event with
the trace of the publishing span, its labels under `omitempty`, and its raw
payload compacted.  Every other field comes back as it was. -/
def Events.Event.carried (e : Events.Event) (traceParent : String) : Events.Event :=
  { e with
    traceParent := traceParent, labels := omitEmptyLabels e.labels
    rawPayload := JsonText.compact .outside e.rawPayload }

/-- The event a worker decodes; nothing is published when the raw payload is not
valid JSON. -/
def Events.Event.delivered (pf : Events.Platform) (e : Events.Event) (traceParent : String) :
    Option Events.Event :=
  if pf.valid e.rawPayload then some (e.carried traceParent) else none

theorem handleMessage_inv {w : Worker} {now : Time} {gen : Generated} {database : Database}
    {data : List UInt8} {db : EventDB}
    (h : (handleMessage w now gen database data db).committed = true) :
    ∃ e res, w.decode data = some e
      ∧ Tx.commit true (processEvent w.platform now gen e w.options) db
        = (.ok res, (handleMessage w now gen database data db).db) := by
  rw [handleMessage] at h ⊢
  rcases hdata : w.decode data with _ | e
  · rw [hdata] at h
    cases h
  rw [hdata] at h
  cases database with
  | down reason => cases h
  | up | unanswered reason =>
    rcases hcommit : Tx.commit true (processEvent w.platform now gen e w.options) db with
      ⟨err | res, db'⟩
    · simp only [hcommit] at h
      cases h
    · exact ⟨e, res, rfl, by simp only [hcommit]⟩

/-! ### Raw evidence -/

/-- The raw row that handling a message adds holds the body and its digest. -/
def KeepsEvidence (w : Worker) (now : Time) (gen : Generated) (database : Database)
    (data : List UInt8) (db : EventDB) (body : List UInt8) : Prop :=
  ∃ r, (handleMessage w now gen database data db).db.rawEvents = db.rawEvents ++ [r]
    ∧ r.payload = body ∧ r.payloadSHA256 = w.platform.sha256 body

/-- The raw row of a handled message is that of the decoded event. -/
theorem keepsEvidence_iff {w : Worker} {now : Time} {gen : Generated} {database : Database}
    {data : List UInt8} {db : EventDB} {e : Events.Event} (body : List UInt8)
    (hdata : w.decode data = some e)
    (hcommit : (handleMessage w now gen database data db).committed = true) :
    KeepsEvidence w now gen database data db body ↔ e.rawPayload = body := by
  obtain ⟨e', res, hdecode, hrun⟩ := handleMessage_inv hcommit
  obtain rfl := Option.some.inj (hdata.symm.trans hdecode)
  have hok : Tx.succeeds true (processEvent w.platform now gen e w.options) db = true := by
    rw [Tx.succeeds, hrun]
    rfl
  obtain ⟨res', hout⟩ := outcome_of_succeeds hok
  obtain ⟨tenantID, sourceID, hraw⟩ := hout.raw
  have hdb : (handleMessage w now gen database data db).db
      = Tx.after true (processEvent w.platform now gen e w.options) db := by
    rw [Tx.after, hrun]
  constructor
  · rintro ⟨r, hr, hpayload, -⟩
    rw [hdb, hraw] at hr
    have hrow := List.append_cancel_left hr
    rw [← hpayload, ← (List.cons.inj hrow).1]
    rfl
  · rintro rfl
    exact ⟨_, hdb ▸ hraw, rfl, rfl⟩

/-- **Raw evidence, exactly.**  For every request that `Normalize` accepts, every
trace, message and worker that decodes the message `PublishEvent` sent, and
every handling of it that commits: the payload column holds the request body,
and the digest column its SHA-256, if and only if the body has no whitespace
outside its string literals and none of the characters `<`, `>`, `&`, U+2028 and
U+2029. -/
theorem raw_evidence_iff {pf : Events.Platform} {received : Time} {newID : Except String String}
    {input : Events.NormalizeInput} {e : Events.Event}
    (hnorm : Events.normalize pf received newID input = .ok e) {w : Worker} {traceParent : String}
    {data : List UInt8} (hdata : w.decode data = e.delivered pf traceParent) {now : Time}
    {gen : Generated} {database : Database} {db : EventDB}
    (hcommit : (handleMessage w now gen database data db).committed = true) :
    KeepsEvidence w now gen database data db input.body
      ↔ JsonText.verbatim .outside input.body = true := by
  have hbody := (Events.normalize_ok hnorm).rawPayload
  obtain ⟨e', res, hdecode, -⟩ := handleMessage_inv hcommit
  rw [hdecode, Events.Event.delivered] at hdata
  split at hdata
  swap
  · cases hdata
  obtain rfl := Option.some.inj hdata
  rw [keepsEvidence_iff input.body hdecode hcommit, ← JsonText.compact_eq_self_iff,
    Events.Event.carried, hbody]

/-! ### A body that is kept and one that is not -/

/-- `{"service":"web"}`, and the same with a space after the colon. -/
def plainBody : List UInt8 := Policy.utf8 "\x7b\"service\":\"web\"\x7d"

def spacedBody : List UInt8 := Policy.utf8 "\x7b\"service\": \"web\"\x7d"

/-- The two bodies are the JSON object with the service `web`. -/
def webPlatform : Events.Platform :=
  { toLower := id, valid := fun body => body = plainBody || body = spacedBody
    decodeObject := fun _ => .ok [("service", .str "web")]
    decodeCloudEvent := fun _ => .error "missing specversion", sha256 := id }

def webInput (body : List UInt8) : Events.NormalizeInput :=
  { tenantID := "t", sourceID := "s", body := body, sourceEventID := "1", requestID := "r"
    receivedAt := some 0 }

def webEvent (body : List UInt8) : Events.Event :=
  { id := "1", source := "urn:stormrelay:source:s", type := "com.stormrelay.generic", time := 0
    dataContentType := "application/json", schemaVersion := "1.0", tenantID := "t", sourceID := "s"
    labels := some [("service", "web")], severity := .info, rawPayload := body
    sourceEventID := "1"
    fingerprint := Events.fingerprint
      webPlatform "" "com.stormrelay.generic" "" [("service", "web")]
      body
    receivedAt := 0, requestID := "r" }

def webWorker (body : List UInt8) : Worker :=
  { platform := pagePlatform, decode := fun _ => (webEvent body).delivered webPlatform ""
    dedupeWindow := 15 * minute, correlationWindow := 30 * minute, publicBaseURL := ""
    configuredMaxDeliveries := 5 }

/-- A body without whitespace is stored as it was received. -/
theorem raw_evidence_plain :
    KeepsEvidence (webWorker plainBody) 0 pageIDs .up [] mockDB plainBody := by
  have hnorm : Events.normalize webPlatform 0 (.ok "1") (webInput plainBody)
      = .ok (webEvent plainBody) := by rfl
  have hdata : (webWorker plainBody).decode [] = (webEvent plainBody).delivered webPlatform "" :=
    rfl
  exact (raw_evidence_iff hnorm hdata (by decide +kernel)).mpr (by decide +kernel)

/-- **A space is lost.**  The body `{"service": "web"}` is accepted, published,
decoded and committed, and the payload that is stored is `{"service":"web"}`. -/
theorem spaced_body_not_kept :
    Events.normalize webPlatform 0 (.ok "1") (webInput spacedBody) = .ok (webEvent spacedBody)
      ∧ (webWorker spacedBody).decode [] = (webEvent spacedBody).delivered webPlatform ""
      ∧ (handleMessage (webWorker spacedBody) 0 pageIDs .up [] mockDB).committed = true
      ∧ ¬ KeepsEvidence (webWorker spacedBody) 0 pageIDs .up [] mockDB spacedBody := by
  have hcommit : (handleMessage (webWorker spacedBody) 0 pageIDs .up [] mockDB).committed
      = true := by
    decide +kernel
  have hdecode : (webWorker spacedBody).decode [] = some ((webEvent spacedBody).carried "") := by
    rfl
  refine ⟨by rfl, rfl, hcommit, ?_⟩
  rw [keepsEvidence_iff spacedBody hdecode hcommit]
  decide +kernel

end StormRelay
