/-
Which accepted events can be stored (`internal/events/normalize.go`,
`internal/storage/process.go`, `migrations/001_identity_events.sql`).

`Normalize` accepts any JSON object and any CloudEvent with its required
attributes.  The envelope leaves an empty map of labels out, so it comes back
nil, which is bound as `NULL`; and PostgreSQL stores no U+0000, which a JSON
string may hold.

* `accepted_storable_iff` — **the event of an accepted request can be stored
  exactly when the request has a label and no U+0000 in a text that is stored**.
-/
import StormRelay.Envelope

namespace StormRelay

open GoStd

/-! ### Texts without U+0000 -/

theorem textStorable_iff {s : String} : textStorable s = true ↔ Char.ofNat 0 ∉ s.toList := by
  rw [textStorable, List.all_eq_true]
  constructor
  · intro h hmem
    simpa using h _ hmem
  intro h c hc
  refine decide_eq_true ?_
  rintro rfl
  exact h hc

theorem textStorable_append (s t : String) :
    textStorable (s ++ t) = (textStorable s && textStorable t) := by
  simp only [textStorable, String.toList_append, List.all_append]

theorem mem_dropWhile_of_not {α : Type} {p : α → Bool} {c : α} (hc : p c = false) (l : List α) :
    c ∈ l.dropWhile p ↔ c ∈ l := by
  induction l with
  | nil => rfl
  | cons a l ih =>
    rw [List.dropWhile_cons]
    split
    · rename_i ha
      have hne : c ≠ a := by
        rintro rfl
        rw [hc] at ha
        cases ha
      rw [ih, List.mem_cons, or_iff_right hne]
    · rfl

/-- U+0000 is no white space, so trimming neither adds nor removes it. -/
theorem textStorable_trimSpace (s : String) :
    textStorable (trimSpace s) = textStorable s := by
  have hspace : isSpace (Char.ofNat 0) = false := by decide
  rw [Bool.eq_iff_iff, textStorable_iff, textStorable_iff, trimSpace, String.toList_ofList,
    List.mem_reverse, mem_dropWhile_of_not hspace, List.mem_reverse, mem_dropWhile_of_not hspace]

theorem textStorable_of_blank {s : String} (h : trimSpace s = "") :
    textStorable s = true := by
  rw [← textStorable_trimSpace, h]
  rfl

theorem textStorable_defaultString {fallback : String} (h : textStorable fallback = true)
    (s : String) : textStorable (Events.defaultString s fallback) = textStorable s := by
  rw [Events.defaultString]
  split
  · rename_i hblank
    rw [h, textStorable_of_blank hblank]
  · rfl

theorem textStorable_hexEncode (bytes : List UInt8) :
    textStorable (hexEncode bytes) = true := by
  have hdigit : ∀ n, "0123456789abcdef".toList.getD n '0' ≠ Char.ofNat 0 := by
    intro n
    rw [List.getD_eq_getElem?_getD]
    rcases hc : "0123456789abcdef".toList[n]? with _ | c
    · decide
    have hdigits : textStorable "0123456789abcdef" = true := by decide
    intro hzero
    obtain rfl : c = Char.ofNat 0 := hzero
    exact textStorable_iff.mp hdigits (List.mem_of_getElem? hc)
  rw [textStorable_iff, hexEncode, String.toList_ofList]
  intro hmem
  obtain ⟨b, -, hb⟩ := List.mem_flatMap.mp hmem
  rcases List.mem_cons.mp hb with h | h
  · exact hdigit _ h.symm
  · exact hdigit _ (List.mem_singleton.mp h).symm

/-! ### The labels of a generic body -/

namespace Events

def labelFields : List String := ["service", "environment", "resource", "alertname"]

/-- The members of the body's `labels` object that are kept. -/
def givenLabels (data : List (String × Json)) : List (String × String) :=
  match data.lookup "labels" with
  | some (.obj members) => members.filterMap keptLabel
  | _ => []

theorem mem_setLabel {labels : List (String × String)} {name value : String} {l : String × String} :
    l ∈ setLabel labels name value ↔ (l ∈ labels ∧ l.1 ≠ name) ∨ l = (name, value) := by
  simp [setLabel]

/-- The pass over the fields: a field with a text replaces the label of its
name, the other labels stay. -/
theorem mem_foldl_setLabel (read : String → String) (fields : List String)
    (labels : List (String × String)) (l : String × String) :
    l ∈ fields.foldl
        (fun labels key => if read key ≠ "" then setLabel labels key (read key) else labels) labels
      ↔ (l.1 ∈ fields ∧ read l.1 ≠ "" ∧ l.2 = read l.1)
        ∨ (l ∈ labels ∧ (l.1 ∈ fields → read l.1 = "")) := by
  induction fields generalizing labels with
  | nil => simp
  | cons key fields ih =>
    rw [List.foldl_cons, ih]
    obtain ⟨name, value⟩ := l
    by_cases hread : read key = ""
    · rw [if_neg (not_not.mpr hread)]
      grind
    · rw [if_pos hread, mem_setLabel]
      grind

variable {data : List (String × Json)}

/-- **The labels of a body**: the four fields with a text that is not blank, and
the kept members of `labels` under other names. -/
theorem mem_extractLabels {l : String × String} :
    l ∈ extractLabels data
      ↔ (l.1 ∈ labelFields ∧ stringValue data [l.1] ≠ "" ∧ l.2 = stringValue data [l.1])
        ∨ (l ∈ givenLabels data ∧ (l.1 ∈ labelFields → stringValue data [l.1] = "")) :=
  mem_foldl_setLabel (fun key => stringValue data [key]) labelFields (givenLabels data) l

/-- The body has a label: a kept member of its `labels` object, or a text that is
not blank in one of the four fields. -/
def HasLabel (data : List (String × Json)) : Prop :=
  givenLabels data ≠ [] ∨ ∃ key ∈ labelFields, stringValue data [key] ≠ ""

theorem extractLabels_ne_nil :
    extractLabels data ≠ [] ↔ HasLabel data := by
  constructor
  · intro h
    obtain ⟨l, hl⟩ := List.exists_mem_of_ne_nil _ h
    rcases mem_extractLabels.mp hl with ⟨hfield, hvalue, -⟩ | ⟨hgiven, -⟩
    · exact .inr ⟨l.1, hfield, hvalue⟩
    · exact .inl (List.ne_nil_of_mem hgiven)
  -- A given label that is not kept was replaced by the field of its name.
  have hfields : ∀ key ∈ labelFields, stringValue data [key] ≠ "" → extractLabels data ≠ [] :=
    fun key hkey hvalue => List.ne_nil_of_mem
      (mem_extractLabels (l := (key, stringValue data [key])) |>.mpr (.inl ⟨hkey, hvalue, rfl⟩))
  rintro (hgiven | ⟨key, hkey, hvalue⟩)
  · obtain ⟨l, hl⟩ := List.exists_mem_of_ne_nil _ hgiven
    by_cases hreplaced : l.1 ∈ labelFields ∧ stringValue data [l.1] ≠ ""
    · exact hfields l.1 hreplaced.1 hreplaced.2
    · refine List.ne_nil_of_mem (mem_extractLabels.mpr (.inr ⟨hl, fun hfield => ?_⟩))
      by_contra hvalue
      exact hreplaced ⟨hfield, hvalue⟩
  · exact hfields key hkey hvalue

def LabelStorable (l : String × String) : Prop :=
  textStorable l.1 = true ∧ textStorable l.2 = true

theorem labelFields_storable {key : String} (h : key ∈ labelFields) : textStorable key = true := by
  simp only [labelFields, List.mem_cons, List.not_mem_nil, or_false] at h
  rcases h with rfl | rfl | rfl | rfl <;> decide

theorem extractLabels_storable :
    (∀ l ∈ extractLabels data, LabelStorable l)
      ↔ (∀ key ∈ labelFields, textStorable (stringValue data [key]) = true)
        ∧ ∀ l ∈ givenLabels data, (l.1 ∈ labelFields → stringValue data [l.1] = "") →
          LabelStorable l := by
  constructor
  · intro h
    refine ⟨fun key hkey => ?_, fun l hl hkept => h l (mem_extractLabels.mpr (.inr ⟨hl, hkept⟩))⟩
    by_cases hvalue : stringValue data [key] = ""
    · rw [hvalue]
      rfl
    · exact (h (key, stringValue data [key])
        (mem_extractLabels.mpr (.inl ⟨hkey, hvalue, rfl⟩))).2
  rintro ⟨hfields, hgiven⟩ l hl
  rcases mem_extractLabels.mp hl with ⟨hfield, -, hvalue⟩ | ⟨hl, hkept⟩
  · exact ⟨labelFields_storable hfield, hvalue ▸ hfields l.1 hfield⟩
  · exact hgiven l hl hkept

end Events

/-! ### What the two inserts ask of a decoded event -/

/-- The rows of the event satisfy the text, `NOT NULL` and `CHECK` constraints of
the `raw_events` and `normalized_events` inserts of `ProcessEvent`. -/
def Insertable (pf : EventPlatform) (gen : Generated) (tenantID sourceID : String)
    (options : ProcessOptions) (e : Events.Event) : Prop :=
  (rawEvent pf gen tenantID sourceID e).storable = true
    ∧ EventDB.acceptsNormalized (canonicalRow gen tenantID sourceID options e) = true

/-- The texts that an event takes from its request and that the inserts bind. -/
def Events.Event.texts (e : Events.Event) : List String :=
  [e.id, e.source, e.type, e.subject, e.dataContentType, e.sourceEventID, e.idempotencyKey,
    e.requestID]

theorem dedupeKey_storable {e : Events.Event} (hkey : textStorable e.idempotencyKey = true)
    (hevent : textStorable e.sourceEventID = true) (hprint : textStorable e.fingerprint = true) :
    textStorable (dedupeKey e) = true := by
  rw [dedupeKey]
  split_ifs
  · rw [textStorable_append, hkey]
    decide
  · rw [textStorable_append, hevent]
    decide
  · rw [textStorable_append, hprint]
    decide

theorem omitEmptyLabels_isSome {labels : Option (List (String × String))} :
    (omitEmptyLabels labels).isSome = true ↔ labels.getD [] ≠ [] := by
  rcases labels with _ | _ | ⟨l, labels⟩ <;> simp [omitEmptyLabels]

theorem omitEmptyLabels_getD (labels : Option (List (String × String))) :
    (omitEmptyLabels labels).getD [] = labels.getD [] := by
  rcases labels with _ | _ | ⟨l, labels⟩ <;> simp [omitEmptyLabels]

section Insertable

variable {pf : EventPlatform} {gen : Generated} {tenantID sourceID traceParent : String}
  {options : ProcessOptions} {e : Events.Event}

/-- **What the inserts ask of an event out of its envelope**, given a known
severity and the texts that the program makes itself: its own texts without
U+0000, and a label. -/
theorem insertable_iff (hseverity : ∀ text, e.severity ≠ .other text)
    (hschema : textStorable e.schemaVersion = true) (hprint : textStorable e.fingerprint = true)
    (htrace : textStorable traceParent = true) :
    Insertable pf gen tenantID sourceID options (e.carried traceParent)
      ↔ (∀ s ∈ e.texts, textStorable s = true) ∧ e.labels.getD [] ≠ []
        ∧ ∀ l ∈ e.labels.getD [], Events.LabelStorable l := by
  have hknown : e.severity.known = true := by
    cases hs : e.severity with
    | other text => exact absurd hs (hseverity text)
    | _ => rfl
  simp only [Insertable, RawEvent.storable, rawEvent, EventDB.acceptsNormalized,
    NormalizedEvent.storable, canonicalRow, normalizedEvent, Events.Event.carried,
    Events.Event.texts, hknown, hschema, hprint, htrace, omitEmptyLabels_isSome,
    omitEmptyLabels_getD, Events.LabelStorable, List.all_cons, List.all_nil, List.all_eq_true,
    Bool.and_eq_true, List.forall_mem_cons, List.not_mem_nil, false_imp_iff, forall_const,
    and_true, true_and]
  constructor
  · rintro ⟨⟨hcontent, hrequest⟩, ⟨⟨hid, hevent, hkey, -, hsource, htype, hsubject, -⟩, hlabels⟩,
      hsome⟩
    exact ⟨⟨hid, hsource, htype, hsubject, hcontent, hevent, hkey, hrequest⟩, hsome, hlabels⟩
  · rintro ⟨⟨hid, hsource, htype, hsubject, hcontent, hevent, hkey, hrequest⟩, hsome, hlabels⟩
    exact ⟨⟨hcontent, hrequest⟩, ⟨⟨hid, hevent, hkey, dedupeKey_storable hkey hevent hprint,
      hsource, htype, hsubject, hcontent⟩, hlabels⟩, hsome⟩

end Insertable

/-! ### Which requests give events that can be stored -/

namespace Events

structure StorableObject (data : List (String × Json)) : Prop where
  labelled : HasLabel data
  type : textStorable (stringValue data ["type", "event_type", "alert_type"]) = true
  subject : textStorable (stringValue data ["subject", "alertname", "title"]) = true
  fields : ∀ key ∈ labelFields, textStorable (stringValue data [key]) = true
  labels : ∀ l ∈ givenLabels data, (l.1 ∈ labelFields → stringValue data [l.1] = "") →
    LabelStorable l

structure StorableCloudEvent (ce : CloudEvent) : Prop where
  labelled : ce.labels.getD [] ≠ []
  texts : ∀ s ∈ [ce.id, ce.source, ce.type, ce.subject, ce.dataContentType], textStorable s = true
  labels : ∀ l ∈ ce.labels.getD [], LabelStorable l

def isCloudEvent (pf : Platform) (input : NormalizeInput) : Bool :=
  contains (pf.toLower input.contentType) "application/cloudevents+json"

/-- A request whose event can be stored: it has a label, and there is no U+0000 in
its headers, in the path text of a generic request, or in the members of its
body that are stored. -/
structure StorableRequest (pf : Platform) (input : NormalizeInput) : Prop where
  idempotencyKey : textStorable input.idempotencyKey = true
  requestID : textStorable input.requestID = true
  cloudEvent : isCloudEvent pf input = true →
    ∀ ce, pf.decodeCloudEvent input.body = .ok ce → StorableCloudEvent ce
  generic : isCloudEvent pf input = false →
    (∀ s ∈ [input.sourceID, input.contentType, input.sourceEventID], textStorable s = true)
      ∧ ∀ data, pf.decodeObject input.body = .ok data → StorableObject data

section Normalize

variable {pf : Platform} {now : Time} {newID : Except String String} {input : NormalizeInput}
  {e : Event}

theorem fingerprint_storable (pf : Platform) (source eventType subject : String)
    (labels : List (String × String)) (raw : List UInt8) :
    textStorable (fingerprint pf source eventType subject labels raw) = true :=
  textStorable_hexEncode _

theorem normalizeStructuredCloudEvent_inv {receivedAt : Time}
    (h : normalizeStructuredCloudEvent pf input receivedAt = .ok e) :
    ∃ ce, pf.decodeCloudEvent input.body = .ok ce ∧ e.labels = some (ce.labels.getD [])
      ∧ e.texts = [ce.id, ce.source, ce.type, ce.subject,
        defaultString ce.dataContentType "application/json", ce.id, input.idempotencyKey,
        input.requestID]
      ∧ textStorable e.fingerprint = true := by
  rw [normalizeStructuredCloudEvent] at h
  split at h
  · cases h
  rename_i ce hce
  split at h
  · cases h
  rw [← Except.ok.inj h]
  refine ⟨ce, hce, ?_⟩
  dsimp only [Event.texts]
  exact ⟨rfl, rfl, fingerprint_storable pf _ _ _ _ _⟩

def genericType (data : List (String × Json)) : String :=
  let named := stringValue data ["type", "event_type", "alert_type"]
  if named = "" then "com.stormrelay.generic" else named

theorem normalizeGeneric_inv {receivedAt : Time}
    (h : normalizeGeneric pf newID input receivedAt = .ok e) :
    ∃ data eventID, pf.decodeObject input.body = .ok data
      ∧ genericEventID newID input = .ok eventID ∧ e.labels = some (extractLabels data)
      ∧ e.texts = [eventID, "urn:stormrelay:source:" ++ input.sourceID, genericType data,
        stringValue data ["subject", "alertname", "title"],
        defaultString input.contentType "application/json", input.sourceEventID,
        input.idempotencyKey, input.requestID]
      ∧ textStorable e.fingerprint = true := by
  rw [normalizeGeneric] at h
  split at h
  · cases h
  rcases hdata : pf.decodeObject input.body with err | data
  · rw [hdata] at h
    cases h
  rcases hid : genericEventID newID input with err | eventID
  · rw [hdata, hid] at h
    cases h
  rw [hdata, hid] at h
  rw [← Except.ok.inj h]
  refine ⟨data, eventID, rfl, rfl, ?_⟩
  dsimp only [Event.texts]
  exact ⟨rfl, rfl, fingerprint_storable pf _ _ _ _ _⟩

theorem genericType_storable (data : List (String × Json)) :
    textStorable (genericType data)
      = textStorable (stringValue data ["type", "event_type", "alert_type"]) := by
  rw [genericType]
  split
  · rename_i hblank
    rw [hblank]
    decide
  · rfl

theorem genericEventID_storable {eventID : String}
    (hnew : ∀ id, newID = .ok id → textStorable id = true)
    (h : genericEventID newID input = .ok eventID)
    (hevent : textStorable input.sourceEventID = true) : textStorable eventID = true := by
  rw [genericEventID] at h
  split at h
  · exact hnew eventID h
  · rw [← Except.ok.inj h, textStorable_trimSpace, hevent]

theorem storableRequest_cloudEvent {ce : CloudEvent} (hcloud : isCloudEvent pf input = true)
    (hce : pf.decodeCloudEvent input.body = .ok ce) (hlabels : e.labels = some (ce.labels.getD []))
    (htexts : e.texts = [ce.id, ce.source, ce.type, ce.subject,
      defaultString ce.dataContentType "application/json", ce.id, input.idempotencyKey,
      input.requestID]) :
    ((∀ s ∈ e.texts, textStorable s = true) ∧ e.labels.getD [] ≠ []
        ∧ ∀ l ∈ e.labels.getD [], LabelStorable l)
      ↔ StorableRequest pf input := by
  have hjson : textStorable "application/json" = true := by decide
  have hcontent := textStorable_defaultString hjson ce.dataContentType
  rw [htexts, hlabels]
  simp only [List.forall_mem_cons, List.not_mem_nil, false_imp_iff, forall_const, and_true,
    Option.getD_some, hcontent]
  constructor
  · rintro ⟨⟨hid, hsource, htype, hsubject, hct, -, hkey, hrequest⟩, hlabelled, hl⟩
    refine ⟨hkey, hrequest, fun _ ce' hce' => ?_, fun hgeneric => ?_⟩
    · obtain rfl := Except.ok.inj (hce.symm.trans hce')
      refine ⟨hlabelled, ?_, hl⟩
      simp only [List.forall_mem_cons, List.not_mem_nil, false_imp_iff, forall_const, and_true]
      exact ⟨hid, hsource, htype, hsubject, hct⟩
    · rw [hcloud] at hgeneric
      cases hgeneric
  intro h
  have hsc := h.cloudEvent hcloud ce hce
  have hall := hsc.texts
  simp only [List.forall_mem_cons, List.not_mem_nil, false_imp_iff, forall_const, and_true]
    at hall
  obtain ⟨hid, hsource, htype, hsubject, hct⟩ := hall
  exact ⟨⟨hid, hsource, htype, hsubject, hct, hid, h.idempotencyKey, h.requestID⟩,
    hsc.labelled, hsc.labels⟩

theorem storableRequest_generic {data : List (String × Json)} {eventID : String}
    (hnew : ∀ id, newID = .ok id → textStorable id = true) (hcloud : isCloudEvent pf input = false)
    (hdata : pf.decodeObject input.body = .ok data)
    (hid : genericEventID newID input = .ok eventID)
    (hlabels : e.labels = some (extractLabels data))
    (htexts : e.texts = [eventID, "urn:stormrelay:source:" ++ input.sourceID, genericType data,
      stringValue data ["subject", "alertname", "title"],
      defaultString input.contentType "application/json", input.sourceEventID,
      input.idempotencyKey, input.requestID]) :
    ((∀ s ∈ e.texts, textStorable s = true) ∧ e.labels.getD [] ≠ []
        ∧ ∀ l ∈ e.labels.getD [], LabelStorable l)
      ↔ StorableRequest pf input := by
  have hjson : textStorable "application/json" = true := by decide
  have hcontent := textStorable_defaultString hjson input.contentType
  have hurn : textStorable ("urn:stormrelay:source:" ++ input.sourceID)
      = textStorable input.sourceID := by
    rw [textStorable_append, show textStorable "urn:stormrelay:source:" = true by decide,
      Bool.true_and]
  rw [htexts, hlabels]
  simp only [List.forall_mem_cons, List.not_mem_nil, false_imp_iff, forall_const, and_true,
    Option.getD_some, hcontent, hurn, genericType_storable, extractLabels_ne_nil,
    extractLabels_storable]
  constructor
  · rintro ⟨⟨-, hsource, htype, hsubject, hct, hevent, hkey, hrequest⟩, hlabelled, hfields, hgiven⟩
    refine ⟨hkey, hrequest, fun hce => ?_, fun _ => ⟨?_, fun data' hdata' => ?_⟩⟩
    · rw [hcloud] at hce
      cases hce
    · simp only [List.forall_mem_cons, List.not_mem_nil, false_imp_iff, forall_const, and_true]
      exact ⟨hsource, hct, hevent⟩
    · obtain rfl := Except.ok.inj (hdata.symm.trans hdata')
      exact ⟨hlabelled, htype, hsubject, hfields, hgiven⟩
  intro h
  obtain ⟨hall, hobject⟩ := h.generic hcloud
  simp only [List.forall_mem_cons, List.not_mem_nil, false_imp_iff, forall_const, and_true]
    at hall
  obtain ⟨hsource, hct, hevent⟩ := hall
  have ho := hobject data hdata
  exact ⟨⟨genericEventID_storable hnew hid hevent, hsource, ho.type, ho.subject, hct, hevent,
    h.idempotencyKey, h.requestID⟩, ho.labelled, ho.fields, ho.labels⟩

end Normalize

end Events

/-- **Accepted events that can be stored, exactly.**  For every request that
`Normalize` accepts and the event a worker decodes from its envelope: the rows of
the `raw_events` and `normalized_events` inserts satisfy their constraints if and
only if the request has a label and no U+0000 in a text that is stored.  The
identifier that `id.New` writes in hexadecimal and the trace of the publishing
span have none. -/
theorem accepted_storable_iff {pf : Events.Platform} {received : Time}
    {newID : Except String String} (hnew : ∀ id, newID = .ok id → textStorable id = true)
    {traceParent : String} (htrace : textStorable traceParent = true)
    {input : Events.NormalizeInput} {e e' : Events.Event}
    (hnorm : Events.normalize pf received newID input = .ok e)
    (hdelivered : e.delivered pf traceParent = some e') (evpf : EventPlatform) (gen : Generated)
    (tenantID sourceID : String) (options : ProcessOptions) :
    Insertable evpf gen tenantID sourceID options e' ↔ Events.StorableRequest pf input := by
  have hdescribes := Events.normalize_ok hnorm
  have hschema : textStorable e.schemaVersion = true := by
    rw [hdescribes.schemaVersion]
    decide
  rw [Events.Event.delivered] at hdelivered
  split at hdelivered
  swap
  · cases hdelivered
  obtain rfl := Option.some.inj hdelivered
  rw [Events.normalize] at hnorm
  split at hnorm
  · cases hnorm
  split at hnorm
  · rename_i hcloud
    obtain ⟨ce, hce, hlabels, htexts, hprint⟩ :=
      Events.normalizeStructuredCloudEvent_inv hnorm
    rw [insertable_iff hdescribes.severity hschema hprint htrace]
    exact Events.storableRequest_cloudEvent hcloud hce hlabels htexts
  rename_i hcloud
  obtain ⟨data, eventID, hdata, hid, hlabels, htexts, hprint⟩ :=
    Events.normalizeGeneric_inv hnorm
  rw [insertable_iff hdescribes.severity hschema hprint htrace]
  exact Events.storableRequest_generic hnew (Bool.eq_false_of_not_eq_true hcloud) hdata hid
    hlabels htexts

/-! ### A request that can be stored and two that cannot -/

/-- The event of `{"service":"web"}` can be stored. -/
theorem accepted_storable_plain :
    Insertable pagePlatform pageIDs "t" "s" { dedupeWindow := 0, correlationWindow := 0 }
      ((webEvent plainBody).carried "") := by
  have hnorm : Events.normalize webPlatform 0 (.ok "1") (webInput plainBody)
      = .ok (webEvent plainBody) := by rfl
  have hnew : ∀ id, (Except.ok "1" : Except String String) = .ok id → textStorable id = true := by
    intro id h
    rw [← Except.ok.inj h]
    decide
  have htrace : textStorable "" = true := rfl
  refine (accepted_storable_iff hnew htrace hnorm (by rfl) _ _ _ _ _).mpr ?_
  have hobject : Events.StorableObject [("service", .str "web")] := by
    refine ⟨.inr ⟨"service", by decide, by decide⟩, by decide, by decide, by decide, ?_⟩
    intro l hl
    cases hl
  refine ⟨by decide, by decide, fun h => ?_, fun _ => ⟨by decide, fun data hdata => ?_⟩⟩
  · exact absurd h (by decide +kernel)
  · rw [← Except.ok.inj hdata]
    exact hobject

/-- `{}`, and `{"service":"web","title":"\u0000"}`. -/
def emptyBody : List UInt8 := Policy.utf8 "\x7b\x7d"

def nulBody : List UInt8 := Policy.utf8 "\x7b\"service\":\"web\",\"title\":\"\\u0000\"\x7d"

/-- The two bodies as `encoding/json` reads them. -/
def sparsePlatform : Events.Platform :=
  { webPlatform with
    valid := fun body => body = emptyBody || body = nulBody
    decodeObject := fun body =>
      if body = emptyBody then .ok []
      else .ok [("service", .str "web"), ("title", .str (String.ofList [Char.ofNat 0]))] }

def sparseEvent (body : List UInt8) (labels : List (String × String)) (subject : String) :
    Events.Event :=
  { webEvent body with
    labels := some labels, subject := subject
    fingerprint := Events.fingerprint sparsePlatform "" "com.stormrelay.generic" subject labels
      body }

def emptyEvent : Events.Event := sparseEvent emptyBody [] ""

def nulEvent : Events.Event :=
  sparseEvent nulBody [("service", "web")] (String.ofList [Char.ofNat 0])

def sparseWorker (e : Events.Event) : Worker :=
  { webWorker [] with decode := fun _ => e.delivered sparsePlatform "" }

/-- **Two accepted events that cannot be stored.**  `{}` has no label: its labels
are left out of the envelope, come back nil and are bound as `NULL`.
`{"service":"web","title":"\u0000"}` has a subject that PostgreSQL does not
store.  Both are accepted and delivered, and the worker commits neither. -/
theorem accepted_not_storable :
    (Events.normalize sparsePlatform 0 (.ok "1") (webInput emptyBody) = .ok emptyEvent
        ∧ emptyEvent.delivered sparsePlatform "" = some (emptyEvent.carried "")
        ∧ ¬ Insertable pagePlatform pageIDs "t" "s" (webWorker []).options (emptyEvent.carried "")
        ∧ (handleMessage (sparseWorker emptyEvent) 0 pageIDs .up [] mockDB).committed = false)
      ∧ Events.normalize sparsePlatform 0 (.ok "1") (webInput nulBody) = .ok nulEvent
      ∧ nulEvent.delivered sparsePlatform "" = some (nulEvent.carried "")
      ∧ ¬ Insertable pagePlatform pageIDs "t" "s" (webWorker []).options (nulEvent.carried "")
      ∧ (handleMessage (sparseWorker nulEvent) 0 pageIDs .up [] mockDB).committed = false := by
  refine ⟨⟨by rfl, by rfl, ?_, by decide +kernel⟩, by rfl, by rfl, ?_, by decide +kernel⟩
  · rintro ⟨-, h⟩
    exact absurd h (by decide +kernel)
  · rintro ⟨-, h⟩
    exact absurd h (by decide +kernel)

end StormRelay
