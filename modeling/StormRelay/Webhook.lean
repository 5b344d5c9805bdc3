/-
The webhook endpoint (`ingestWebhook` in `internal/api/sources.go`).

One server process answers webhook requests concurrently.  A request is
authenticated when it arrives, reserves its replay key at some later moment, and
is concluded later still: published and answered 202, or answered with an error,
which releases the reservation.  The environment decides when each of these
happens and how normalisation and publishing turn out.

* `signed_request_accepted_once` — a signed request is accepted once in every
  run that reserves no key whose entry has expired.
-/
import StormRelay.Ingestion
import StormRelay.Transition
import StormRelay.Tx

namespace StormRelay.Webhook

open Ingestion Transition GoStd

/-! ### The server -/

/-- A row of `event_sources`.  `createSource` stores an encrypted secret with
every HMAC source. -/
structure Source where
  id : String
  tenantID : String
  name : String
  kind : String
  authMode : AuthMode
  enabled : Bool
  encryptedSecret : List UInt8
  bearerHash : List UInt8
  secret_stored : authMode = .hmac → encryptedSecret ≠ []

/-- A webhook request: its path, the headers the endpoint reads, and its body. -/
structure Request where
  sourceID : String
  body : List UInt8
  signature : String := ""
  authorization : String := ""
  timestamp : String := ""
  idempotencyKey : String := ""
  contentType : String := ""

/-- A server process: its configuration, the sources, and what it takes from
outside the repository.  `uuid` is PostgreSQL's reading of a `uuid` (its stored
form) and `decrypt` opens a ciphertext under additional data.

`sealed` is the authenticity of the encryption: a stored secret is sealed under
one text of its source's id and opens under no other. -/
structure Server where
  sources : List Source
  replayWindow : ℤ
  maxPayloadBytes : ℕ
  allowUnauthenticatedSources : Bool
  crypto : Crypto
  uuid : String → Option String
  decrypt : List UInt8 → String → Option (List UInt8)
  toLower : String → String
  sealed : ∀ source ∈ sources, ∀ a b, uuid a = some source.id → uuid b = some source.id →
    (decrypt source.encryptedSecret a).isSome → (decrypt source.encryptedSecret b).isSome → a = b

/-- An error response. -/
structure Answer where
  status : ℕ
  code : String
  message : String
deriving DecidableEq, Repr

structure SourceCredentials where
  source : Source
  hmacSecret : List UInt8

/-- `GetSourceCredentials`. -/
def getSourceCredentials (srv : Server) (sourceID : String) : Except TxError SourceCredentials :=
  match srv.uuid sourceID with
  | none => .error (.failed "invalid input syntax for type uuid")
  | some id =>
    match srv.sources.find? (fun source => source.id = id) with
    | none => .error .noRows
    | some source =>
      if source.encryptedSecret = [] then .ok ⟨source, []⟩
      else
        match srv.decrypt source.encryptedSecret sourceID with
        | none => .error (.failed "decrypt source secret: invalid ciphertext")
        | some secret => .ok ⟨source, secret⟩

def mapStoreError : TxError → Answer
  | .noRows => ⟨404, "not_found", "resource not found"⟩
  | .connBusy => ⟨500, "storage_error", "storage operation failed"⟩
  | .failed message =>
    if contains message "version conflict" then ⟨409, "version_conflict", message⟩
    else if contains message "invalid incident transition"
      || contains message "already" then ⟨409, "invalid_transition", message⟩
    else ⟨500, "storage_error", "storage operation failed"⟩

/-- A request as it arrives, and what the environment makes of it: the database
may be unavailable, the source's rate limiter may refuse it, and its body may
break off. -/
structure Arrival where
  request : Request
  databaseError : Option String := none
  limited : Bool := false
  unreadable : Bool := false

/-- `ingestWebhook` up to and including `Verify`, at the time `now`. -/
def authenticate (srv : Server) (now : Time) (a : Arrival) : Except Answer Source :=
  match a.databaseError with
  | some message => .error (mapStoreError (.failed message))
  | none =>
    match getSourceCredentials srv a.request.sourceID with
    | .error err => .error (mapStoreError err)
    | .ok creds =>
      if creds.source.name = "manual-api" then .error ⟨404, "not_found", "resource not found"⟩
      else if creds.source.authMode = .none ∧ srv.allowUnauthenticatedSources = false then
        .error ⟨403, "unauthenticated_source_disabled",
          "unauthenticated webhook ingestion is disabled"⟩
      else if creds.source.enabled = false then
        .error ⟨410, "source_disabled", "event source is disabled"⟩
      else if a.limited then .error ⟨429, "rate_limited", "source rate limit exceeded"⟩
      else if a.request.body.length > srv.maxPayloadBytes then
        .error ⟨413, "payload_too_large", "payload exceeds configured limit"⟩
      else if a.unreadable then .error ⟨400, "read_failed", "unable to read request body"⟩
      else
        let x : VerifyInput :=
          { credentials := ⟨creds.source.authMode, creds.hmacSecret, creds.source.bearerHash⟩
            body := a.request.body, signature := a.request.signature
            authorization := a.request.authorization, timestamp := a.request.timestamp
            now := now, replayWindow := srv.replayWindow }
        match verify srv.crypto x with
        | .error .replay => .error ⟨409, "replay_rejected", AuthError.replay.text⟩
        | .error .unauthorized => .error ⟨401, "signature_invalid", AuthError.unauthorized.text⟩
        | .ok () => .ok creds.source

/-- How `Normalize` and `PublishEvent` turn out for a request. -/
inductive Outcome where
  | invalid (message : String)
  | unpublished
  | published
deriving DecidableEq, Repr

/-- `ingestWebhook` after the reservation. -/
def conclude (srv : Server) (source : Source) (request : Request) (outcome : Outcome) :
    Except Answer Unit :=
  if source.authMode = .bearer ∧ trimSpace request.idempotencyKey = "" then
    .error ⟨400, "idempotency_key_required",
      "bearer-authenticated sources require Idempotency-Key for replay protection"⟩
  else if source.kind = "cloudevents"
      ∧ contains (srv.toLower request.contentType) "application/cloudevents+json" = false then
    .error ⟨415, "content_type_required",
      "CloudEvents source requires application/cloudevents+json"⟩
  else
    match outcome with
    | .invalid message => .error ⟨422, "invalid_event", message⟩
    | .unpublished =>
      .error ⟨503, "event_bus_unavailable", "event could not be durably accepted"⟩
    | .published => .ok ()

def Request.replayKey (request : Request) : Except String String :=
  canonicalHMACReplayKey request.sourceID request.timestamp request.signature

/-! ### The endpoint as a system -/

/-- Where a request is: authenticated, holding its reservation (the empty key
when its source does not use one), answered 202, or answered with an error. -/
inductive Stage where
  | verified
  | reserved (key : String)
  | accepted (key : String)
  | rejected (answer : Answer)
deriving DecidableEq, Repr

structure Session where
  request : Request
  source : Source
  stage : Stage

structure Gateway where
  clock : Time
  cache : ReplayCache
  sessions : List Session

inductive Move where
  | tick (elapsed : ℕ)
  | arrive (a : Arrival)
  | reserve (n : ℕ)
  | conclude (n : ℕ) (outcome : Outcome)

namespace Gateway

/-- Request `n` moves on to `stage`. -/
def setStage (s : Gateway) (n : ℕ) (x : Session) (stage : Stage) (cache : ReplayCache) :
    Gateway :=
  { s with cache := cache, sessions := s.sessions.set n { x with stage := stage } }

/-- The reservation of request `n`: for a signed request `Reserve` until one
replay window from now. -/
def reserveStage (srv : Server) (s : Gateway) (n : ℕ) (x : Session) : Gateway :=
  if x.source.authMode = .hmac then
    match x.request.replayKey with
    | .error _ =>
      s.setStage n x (.rejected ⟨401, "signature_invalid", "invalid signed request"⟩) s.cache
    | .ok key =>
      match s.cache.reserve key (s.clock + srv.replayWindow) s.clock with
      | (.duplicate, cache) =>
        s.setStage n x (.rejected ⟨409, "replay_rejected", "request was already accepted"⟩) cache
      | (.capacityExceeded, cache) =>
        s.setStage n x (.rejected ⟨503, "replay_protection_unavailable",
          "replay protection is temporarily unavailable"⟩) cache
      | (.reserved, cache) => s.setStage n x (.reserved key) cache
  else s.setStage n x (.reserved "") s.cache

/-- The end of request `n`; the deferred function releases the reservation
unless the event was published. -/
def concludeStage (srv : Server) (s : Gateway) (n : ℕ) (x : Session) (key : String)
    (outcome : Outcome) : Gateway :=
  match Webhook.conclude srv x.source x.request outcome with
  | .ok () => s.setStage n x (.accepted key) s.cache
  | .error answer =>
    s.setStage n x (.rejected answer)
      (if x.source.authMode = .hmac then s.cache.release key else s.cache)

/-- One move of the endpoint.  A request refused by `authenticate` has its
answer and leaves nothing behind. -/
def step (srv : Server) (move : Move) (s : Gateway) : Gateway :=
  match move with
  | .tick elapsed => { s with clock := s.clock + elapsed }
  | .arrive a =>
    match authenticate srv s.clock a with
    | .error _ => s
    | .ok source => { s with sessions := s.sessions ++ [⟨a.request, source, .verified⟩] }
  | .reserve n =>
    match s.sessions[n]? with
    | none => s
    | some x => if x.stage = .verified then s.reserveStage srv n x else s
  | .conclude n outcome =>
    match s.sessions[n]? with
    | none => s
    | some x =>
      match x.stage with
      | .reserved key => s.concludeStage srv n x key outcome
      | _ => s

/-- A server that has just started. -/
def Init (s : Gateway) : Prop :=
  s.sessions = [] ∧ s.cache.seen = []

end Gateway

/-! ### What a signed request is -/

def SameSigned (x y : Session) : Prop :=
  x.source.authMode = .hmac ∧ x.source.id = y.source.id ∧ x.request.body = y.request.body
    ∧ signedTimestamp x.request.timestamp = signedTimestamp y.request.timestamp
    ∧ signatureDigest x.request.signature = signatureDigest y.request.signature

instance (x y : Session) : Decidable (SameSigned x y) :=
  inferInstanceAs (Decidable (_ ∧ _ ∧ _ ∧ _ ∧ _))

def Session.accepted (x : Session) : Bool :=
  match x.stage with
  | .accepted _ => true
  | _ => false

/-- No two requests that sign the same were both answered 202. -/
def Gateway.AcceptedOnce (s : Gateway) : Prop :=
  s.sessions.Pairwise fun x y => ¬ (x.accepted ∧ y.accepted ∧ SameSigned x y)

instance (s : Gateway) : Decidable s.AcceptedOnce :=
  inferInstanceAs (Decidable (List.Pairwise _ _))

/-- The signed request carries `key`: it reserved it and was not refused. -/
def Session.Carries (x : Session) (key : String) : Prop :=
  x.source.authMode = .hmac ∧ (x.stage = .reserved key ∨ x.stage = .accepted key)

/-- The source of the session is the one its path names, and its secret opened
under that path. -/
def Session.Authentic (srv : Server) (x : Session) : Prop :=
  ∃ creds, getSourceCredentials srv x.request.sourceID = .ok creds ∧ creds.source = x.source

section Credentials

variable {srv : Server}

theorem authenticate_authentic {now : Time} {a : Arrival} {source : Source}
    (h : authenticate srv now a = .ok source) :
    Session.Authentic srv ⟨a.request, source, .verified⟩ := by
  rw [authenticate] at h
  split at h
  · cases h
  split at h
  · cases h
  rename_i creds hcreds
  refine ⟨creds, hcreds, ?_⟩
  iterate 6
    split at h
    · cases h
  simp only at h
  split at h
  · cases h
  · cases h
  · cases h
    rfl

theorem getSourceCredentials_ok {sourceID : String} {creds : SourceCredentials}
    (h : getSourceCredentials srv sourceID = .ok creds) :
    srv.uuid sourceID = some creds.source.id
      ∧ srv.sources.find? (fun source => source.id = creds.source.id) = some creds.source
      ∧ (creds.source.authMode = .hmac →
        (srv.decrypt creds.source.encryptedSecret sourceID).isSome) := by
  rw [getSourceCredentials] at h
  split at h
  · cases h
  rename_i id huuid
  split at h
  · cases h
  rename_i source hfind
  have hid : source.id = id := by simpa using List.find?_some hfind
  subst hid
  split at h
  · rename_i hempty
    cases h
    exact ⟨huuid, hfind, fun hmac => absurd hempty (source.secret_stored hmac)⟩
  split at h
  · cases h
  · rename_i secret hsecret
    cases h
    exact ⟨huuid, hfind, fun _ => by simp [hsecret]⟩

/-- Two authentic requests that sign the same name their source by the same
text, hence have the same replay key. -/
theorem SameSigned.replayKey_eq {x y : Session} (h : SameSigned x y) (hx : x.Authentic srv)
    (hy : y.Authentic srv) : x.request.replayKey = y.request.replayKey := by
  obtain ⟨hmac, hid, -, htime, hsig⟩ := h
  obtain ⟨cx, hcx, hxs⟩ := hx
  obtain ⟨cy, hcy, hys⟩ := hy
  obtain ⟨hux, hfx, hdx⟩ := getSourceCredentials_ok hcx
  obtain ⟨huy, hfy, hdy⟩ := getSourceCredentials_ok hcy
  rw [hxs] at hux hfx hdx
  rw [hys] at huy hfy hdy
  -- Both ids select the same row, so both texts opened the same ciphertext.
  have hrow : x.source = y.source := by
    rw [← hid] at hfy
    exact Option.some.inj (hfx.symm.trans hfy)
  rw [← hrow] at huy hdy
  have htext : x.request.sourceID = y.request.sourceID :=
    srv.sealed x.source (List.mem_of_find?_eq_some hfx) _ _ hux huy (hdx hmac) (hdy hmac)
  rw [Request.replayKey, Request.replayKey, htext]
  exact canonicalHMACReplayKey_congr htime hsig

end Credentials

/-! ### The invariant -/

namespace Gateway

variable {srv : Server} {s : Gateway}

/-- The replay cache does its work: every carried key is the request's own and
is held by the cache, and no two requests carry one key. -/
structure Sound (srv : Server) (s : Gateway) : Prop where
  authentic : ∀ x ∈ s.sessions, x.Authentic srv
  own : ∀ x ∈ s.sessions, ∀ key, x.Carries key → x.request.replayKey = .ok key
  held : ∀ x ∈ s.sessions, ∀ key, x.Carries key → s.cache.Holds key
  once : ∀ (i j : ℕ) (x y : Session) (key : String), s.sessions[i]? = some x →
    s.sessions[j]? = some y → x.Carries key → y.Carries key → i = j

theorem Init.sound (h : s.Init) : s.Sound srv := by
  have hno : ∀ x, x ∉ s.sessions := by simp [h.1]
  exact ⟨fun x hx => absurd hx (hno x), fun x hx => absurd hx (hno x),
    fun x hx => absurd hx (hno x), fun i j x y key hx => absurd (List.mem_of_getElem? hx) (hno x)⟩

theorem Sound.acceptedOnce (h : s.Sound srv) : s.AcceptedOnce := by
  rw [AcceptedOnce, List.pairwise_iff_getElem]
  rintro i j hi hj hlt ⟨hx, hy, hsame⟩
  have hxmem := List.getElem_mem hi
  have hymem := List.getElem_mem hj
  -- Both requests carry a key, and it is the same one.
  have hcarries : ∀ x : Session, x.accepted → x.source.authMode = .hmac → ∃ key, x.Carries key := by
    intro x hx hmac
    rw [Session.accepted] at hx
    split at hx
    · rename_i key hstage
      exact ⟨key, hmac, .inr hstage⟩
    · cases hx
  have hsource : s.sessions[i].source.authMode = s.sessions[j].source.authMode := by
    obtain ⟨cx, hcx, hxs⟩ := h.authentic _ hxmem
    obtain ⟨cy, hcy, hys⟩ := h.authentic _ hymem
    have hfx := (getSourceCredentials_ok hcx).2.1
    have hfy := (getSourceCredentials_ok hcy).2.1
    rw [hxs] at hfx
    rw [hys, ← hsame.2.1] at hfy
    rw [Option.some.inj (hfx.symm.trans hfy)]
  obtain ⟨key, hkey⟩ := hcarries _ hx hsame.1
  obtain ⟨key', hkey'⟩ := hcarries _ hy (hsource ▸ hsame.1)
  have heq := hsame.replayKey_eq (h.authentic _ hxmem) (h.authentic _ hymem)
  rw [h.own _ hxmem _ hkey, h.own _ hymem _ hkey'] at heq
  cases heq
  have hij := h.once i j _ _ key (List.getElem?_eq_getElem hi) (List.getElem?_eq_getElem hj)
    hkey hkey'
  omega

variable {n : ℕ} {x : Session}

/-- Request `n` moves to a stage: what it carries there must be its own, held by
the cache and carried by no other request, and the cache must keep the keys of
the others. -/
theorem Sound.setStage (h : s.Sound srv) (hn : s.sessions[n]? = some x)
    {stage : Stage} {cache : ReplayCache}
    (hcarried : ∀ key, Session.Carries { x with stage := stage } key →
      x.request.replayKey = .ok key ∧ cache.Holds key
        ∧ ∀ m y, s.sessions[m]? = some y → y.Carries key → m = n)
    (hcache : ∀ m y key, m ≠ n → s.sessions[m]? = some y → y.Carries key → cache.Holds key) :
    (s.setStage n x stage cache).Sound srv := by
  have hget : ∀ m y, (s.setStage n x stage cache).sessions[m]? = some y →
      m = n ∧ y = { x with stage := stage } ∨ m ≠ n ∧ s.sessions[m]? = some y := by
    intro m y hm
    rw [Gateway.setStage, List.getElem?_set] at hm
    by_cases hmn : n = m
    · rw [if_pos hmn] at hm
      split at hm
      · cases hm
        exact .inl ⟨hmn.symm, rfl⟩
      · cases hm
    · rw [if_neg hmn] at hm
      exact .inr ⟨fun h => hmn h.symm, hm⟩
  constructor
  · intro y hy
    obtain ⟨m, hm⟩ := List.mem_iff_getElem?.mp hy
    rcases hget m y hm with ⟨-, rfl⟩ | ⟨-, hm⟩
    · exact h.authentic x (List.mem_of_getElem? hn)
    · exact h.authentic y (List.mem_of_getElem? hm)
  · intro y hy key hkey
    obtain ⟨m, hm⟩ := List.mem_iff_getElem?.mp hy
    rcases hget m y hm with ⟨-, rfl⟩ | ⟨-, hm⟩
    · exact (hcarried key hkey).1
    · exact h.own y (List.mem_of_getElem? hm) key hkey
  · intro y hy key hkey
    obtain ⟨m, hm⟩ := List.mem_iff_getElem?.mp hy
    rcases hget m y hm with ⟨-, rfl⟩ | ⟨hne, hm⟩
    · exact (hcarried key hkey).2.1
    · exact hcache m y key hne hm hkey
  intro i j y z key hi hj hy hz
  rcases hget i y hi with ⟨rfl, rfl⟩ | ⟨-, hi'⟩
  · rcases hget j z hj with ⟨rfl, rfl⟩ | ⟨-, hj'⟩
    · rfl
    · exact ((hcarried key hy).2.2 j z hj' hz).symm
  · rcases hget j z hj with ⟨rfl, rfl⟩ | ⟨-, hj'⟩
    · exact (hcarried key hz).2.2 i y hi' hy
    · exact h.once i j y z key hi' hj' hy hz

theorem Sound.reject (h : s.Sound srv) (hn : s.sessions[n]? = some x) (answer : Answer)
    {cache : ReplayCache}
    (hcache : ∀ m y key, m ≠ n → s.sessions[m]? = some y → y.Carries key → cache.Holds key) :
    (s.setStage n x (.rejected answer) cache).Sound srv := by
  refine h.setStage hn ?_ hcache
  rintro key ⟨-, hstage | hstage⟩ <;> cases hstage

theorem Sound.keeps (h : s.Sound srv) :
    ∀ m y key, m ≠ n → s.sessions[m]? = some y → y.Carries key → s.cache.Holds key :=
  fun _ y key _ hm hy => h.held y (List.mem_of_getElem? hm) key hy

/-! ### One move -/

/-- The replay cache is below capacity when a request reserves its key. -/
def HasRoom (move : Move) (s : Gateway) : Prop :=
  match move with
  | .reserve _ => s.cache.seen.length < s.cache.max
  | _ => True

/-- A signed request reserves its key while the cache still has an entry of that
key which has expired. -/
def Revives (move : Move) (s : Gateway) : Prop :=
  match move with
  | .reserve n => ∃ x ∈ s.sessions[n]?, x.source.authMode = .hmac
      ∧ ∃ key ∈ x.request.replayKey.toOption, ∃ old ∈ s.cache.seen.lookup key, old ≤ s.clock
  | _ => False

theorem Sound.reserve (h : s.Sound srv) (hn : s.sessions[n]? = some x)
    (hroom : HasRoom (.reserve n) s) (hlive : ¬ Revives (.reserve n) s) :
    (s.reserveStage srv n x).Sound srv := by
  rw [reserveStage]
  split
  · rename_i hmac
    split
    · exact h.reject hn _ h.keeps
    rename_i key hkey
    by_cases hheld : s.cache.Holds key
    · -- The entry has not expired, so the request is a duplicate.
      obtain ⟨old, hold⟩ := Option.isSome_iff_exists.mp hheld
      have hafter : s.clock < old := by
        by_contra hle
        exact hlive ⟨x, hn, hmac, key, by rw [hkey]; rfl, old, hold, not_lt.mp hle⟩
      rw [ReplayCache.reserve_live hold hafter]
      exact h.reject hn _ h.keeps
    -- The cache does not hold the key, so nobody carries it.
    rw [ReplayCache.reserve_fresh hroom hheld]
    refine h.setStage hn ?_ fun m y other hne hm hy =>
      ReplayCache.holds_put (h.keeps m y other hne hm hy)
    rintro other ⟨-, hstage | hstage⟩
    · cases hstage
      refine ⟨hkey, ReplayCache.holds_put_self, fun m y hm hy => ?_⟩
      exact absurd (h.held y (List.mem_of_getElem? hm) key hy) hheld
    · cases hstage
  · rename_i hmac
    exact h.setStage hn (fun key hkey => absurd hkey.1 hmac) h.keeps

theorem Sound.conclude (h : s.Sound srv) {key : String} (hn : s.sessions[n]? = some x)
    (hstage : x.stage = .reserved key) (outcome : Outcome) :
    (s.concludeStage srv n x key outcome).Sound srv := by
  rw [concludeStage]
  split
  · -- The request keeps the key it reserved.
    refine h.setStage hn ?_ h.keeps
    rintro other ⟨hmac, hother | hother⟩
    · cases hother
    cases hother
    have hkey : x.Carries key := ⟨hmac, .inl hstage⟩
    have hx := List.mem_of_getElem? hn
    exact ⟨h.own x hx key hkey, h.held x hx key hkey,
      fun m y hm hy => h.once m n y x key hm hn hy hkey⟩
  split
  · -- The released key was carried by this request alone.
    rename_i hmac
    have hkey : x.Carries key := ⟨hmac, .inl hstage⟩
    refine h.reject hn _ fun m y other hne hm hy => ?_
    have hother : other ≠ key := by
      rintro rfl
      exact hne (h.once m n y x other hm hn hy hkey)
    exact ReplayCache.holds_release hother (h.keeps m y other hne hm hy)
  · exact h.reject hn _ h.keeps

theorem Sound.arrive (h : s.Sound srv) (hx : x.Authentic srv) (hstage : x.stage = .verified) :
    Sound srv { s with sessions := s.sessions ++ [x] } := by
  have hnew : ∀ key, ¬ x.Carries key := by
    rintro key ⟨-, hkey | hkey⟩ <;> rw [hstage] at hkey <;> cases hkey
  have hmem : ∀ y ∈ s.sessions ++ [x], y ∈ s.sessions ∨ y = x := by simp
  have hget : ∀ (m : ℕ) (y : Session) (key : String), (s.sessions ++ [x])[m]? = some y →
      y.Carries key →
      s.sessions[m]? = some y := by
    intro m y key hm hy
    rcases Nat.lt_trichotomy m s.sessions.length with hlt | heq | hgt
    · rwa [List.getElem?_append_left hlt] at hm
    · rw [heq, List.getElem?_concat_length] at hm
      cases hm
      exact absurd hy (hnew key)
    · rw [List.getElem?_eq_none (by rw [List.length_append]; exact hgt)] at hm
      cases hm
  constructor
  · intro y hy
    rcases hmem y hy with hy | rfl
    · exact h.authentic y hy
    · exact hx
  · intro y hy key hkey
    rcases hmem y hy with hy | rfl
    · exact h.own y hy key hkey
    · exact absurd hkey (hnew key)
  · intro y hy key hkey
    rcases hmem y hy with hy | rfl
    · exact h.held y hy key hkey
    · exact absurd hkey (hnew key)
  · intro i j y z key hi hj hy hz
    exact h.once i j y z key (hget i y key hi hy) (hget j z key hj hz) hy hz

/-- **One move keeps the replay cache sound**, unless it reserves at capacity or
reserves a key whose entry has expired. -/
theorem Sound.step (h : s.Sound srv) (move : Move) (hroom : HasRoom move s)
    (hlive : ¬ Revives move s) : (s.step srv move).Sound srv := by
  cases move with
  | tick elapsed => exact ⟨h.authentic, h.own, h.held, h.once⟩
  | arrive a =>
    rw [Gateway.step]
    split
    · exact h
    · rename_i source hauth
      exact h.arrive (authenticate_authentic hauth) rfl
  | reserve n =>
    rw [Gateway.step]
    split
    · exact h
    rename_i x hn
    split
    · exact h.reserve hn hroom hlive
    · exact h
  | conclude n outcome =>
    rw [Gateway.step]
    split
    · exact h
    rename_i x hn
    split
    · rename_i key hstage
      exact h.conclude hn hstage outcome
    · exact h

end Gateway

open Gateway in
/-- **A signed webhook is accepted at most once.**  In every run of a server from
its start in which the cache stays below capacity and no request reserves a key
whose entry has expired, no two requests with the same source, signed timestamp,
body and signature are both answered 202, in any state of the run. -/
theorem signed_request_accepted_once (srv : Server) (moves : List Move) (s : Gateway)
    (hinit : s.Init)
    (hrun : Along (Gateway.step srv) (fun move s => HasRoom move s ∧ ¬ Revives move s)
      moves s) :
    Throughout (Gateway.step srv) AcceptedOnce moves s := by
  have hsound : Throughout (Gateway.step srv) (Sound srv) moves s :=
    hrun.throughout (fun move _ h hmove => h.step move hmove.1 hmove.2) moves hinit.sound
  exact hsound.imp (fun _ h => h.acceptedOnce) moves

/-! ### A request sent twice -/

/-- A server that has just started at the time `t`. -/
def started (t : Time) : Gateway :=
  { clock := t, cache := ReplayCache.new 100000, sessions := [] }

/-- The request is sent and published, and sent again `elapsed` nanoseconds
later. -/
def sentTwice (r : Request) (elapsed : ℕ) : List Move :=
  [.arrive { request := r }, .reserve 0, .conclude 0 .published, .tick elapsed,
    .arrive { request := r }, .reserve 1, .conclude 1 .published]

/-- A signed request that `authenticate` lets through at both of its times. -/
structure Resent (srv : Server) (r : Request) (source : Source) (key : String) (t : Time)
    (elapsed : ℕ) : Prop where
  first : authenticate srv t { request := r } = .ok source
  second : authenticate srv (t + elapsed) { request := r } = .ok source
  signed : source.authMode = .hmac
  key : r.replayKey = .ok key
  publishes : Webhook.conclude srv source r .published = .ok ()

section Resent

variable {srv : Server} {r : Request} {source : Source} {key : String} {t : Time} {elapsed : ℕ}

def resentState (srv : Server) (r : Request) (source : Source) (key : String) (t : Time)
    (elapsed : ℕ) : Gateway :=
  { clock := t + elapsed, cache := { seen := [(key, t + srv.replayWindow)], max := 100000 }
    sessions := [⟨r, source, .accepted key⟩, ⟨r, source, .verified⟩] }

theorem Resent.reaches (h : Resent srv r source key t elapsed) :
    run (Gateway.step srv) ((sentTwice r elapsed).take 5) (started t)
      = resentState srv r source key t elapsed := by
  simp [sentTwice, started, run, Gateway.step, h.first, h.second, Gateway.reserveStage,
    h.signed, h.key, ReplayCache.new, ReplayCache.reserve, Gateway.setStage, ReplayCache.put,
    ReplayCache.delete, Gateway.concludeStage, h.publishes, resentState]

theorem Resent.accepted (h : Resent srv r source key t elapsed)
    (hlate : srv.replayWindow ≤ elapsed) :
    ¬ (run (Gateway.step srv) (sentTwice r elapsed) (started t)).AcceptedOnce := by
  have hsplit : sentTwice r elapsed
      = (sentTwice r elapsed).take 5 ++ [.reserve 1, .conclude 1 .published] := rfl
  -- The entry of the first request is not after the clock any more.
  have hexpired : ¬ t + (elapsed : ℤ) < t + srv.replayWindow :=
    not_lt.mpr (Int.add_le_add_left hlate t)
  rw [hsplit, run_append, h.reaches]
  simp [resentState, run, Gateway.step, Gateway.reserveStage, h.signed, h.key,
    ReplayCache.reserve, hexpired, Gateway.setStage, ReplayCache.put, ReplayCache.delete,
    Gateway.concludeStage, h.publishes, Gateway.AcceptedOnce, Session.accepted, SameSigned]

theorem Resent.along (h : Resent srv r source key t elapsed) (hearly : elapsed < srv.replayWindow) :
    Along (Gateway.step srv)
      (fun move s => Gateway.HasRoom move s ∧ ¬ Gateway.Revives move s) (sentTwice r elapsed)
      (started t) := by
  have hsplit : sentTwice r elapsed
      = (sentTwice r elapsed).take 5 ++ [.reserve 1, .conclude 1 .published] := rfl
  rw [hsplit, along_append, h.reaches]
  constructor
  · -- The first time, the cache is empty.
    simp [sentTwice, Along, Gateway.HasRoom, Gateway.Revives, started, Gateway.step,
      h.first, ReplayCache.new]
  · -- The second time, the entry ends after the clock.
    simp [Along, Gateway.HasRoom, Gateway.Revives, resentState, h.key, Except.toOption,
      hearly]

end Resent

def signedSource : Source :=
  { id := "s", tenantID := "t", name := "alerts", kind := "generic", authMode := .hmac
    enabled := true, encryptedSecret := [1], bearerHash := [], secret_stored := fun _ => by simp }

/-- A server with a replay window of five minutes; its HMAC is constant, so that
the signature of 32 zero bytes is right for every request. -/
def signedServer : Server :=
  { sources := [signedSource], replayWindow := 300000000000, maxPayloadBytes := 1000
    allowUnauthenticatedSources := false
    crypto := { hmacSHA256 := fun _ _ => List.replicate 32 0, hashSecret := fun _ => [] }
    uuid := some, decrypt := fun _ _ => some [], toLower := id
    sealed := by
      intro source _ a b ha hb _ _
      exact Option.some.inj (ha.trans hb.symm) }

def aheadRequest (signature : String) : Request :=
  { sourceID := "s", body := [123, 125], timestamp := "60", signature := signature }

section Ahead

variable {signature : String} (hdigest : signatureDigest signature = some (List.replicate 32 0))
include hdigest

theorem aheadRequest_authentic {now : ℤ} (hfrom : 0 ≤ now) (hto : now ≤ 360000000000) :
    authenticate signedServer now { request := aheadRequest signature } = .ok signedSource := by
  have hcreds : getSourceCredentials signedServer "s" = .ok ⟨signedSource, []⟩ := rfl
  have hdate : parseInt "60" = some 60 := by decide
  have hpast : ¬ timeSub now (unixTime 60) > signedServer.replayWindow := by
    simp only [timeSub, unixTime, signedServer]
    omega
  have hahead : ¬ timeSub (unixTime 60) now > signedServer.replayWindow := by
    simp only [timeSub, unixTime, signedServer]
    omega
  have hmac : ∀ secret data, signedServer.crypto.hmacSHA256 secret data = List.replicate 32 0 :=
    fun _ _ => rfl
  have hmax : signedServer.maxPayloadBytes = 1000 := rfl
  simp [authenticate, aheadRequest, hcreds, signedSource, hmax, verify, hdate, hpast, hahead,
    hdigest, hmac]

theorem aheadRequest_resent {elapsed : ℕ} (h : elapsed ≤ 360000000000) :
    Resent signedServer (aheadRequest signature) signedSource
      ("s" ++ ":" ++ toString (60 : ℤ) ++ ":" ++ hexEncode (List.replicate 32 0)) 0
      elapsed where
  first := aheadRequest_authentic hdigest (by omega) (by omega)
  second := aheadRequest_authentic hdigest (by omega) (by omega)
  signed := rfl
  key := by
    have hid : trimSpace "s" = "s" := by decide
    have hdate : signedTimestamp "60" = some 60 := by decide
    simp [Request.replayKey, canonicalHMACReplayKey, aheadRequest, hid, hdate, hdigest]
  publishes := rfl

end Ahead

def zeroSignature : String :=
  "0000000000000000000000000000000000000000000000000000000000000000"

theorem zeroSignature_digest : signatureDigest zeroSignature = some (List.replicate 32 0) := by
  decide +kernel

/-- A replay four minutes later is refused. -/
theorem signed_request_refused_again :
    Throughout (Gateway.step signedServer) Gateway.AcceptedOnce
      (sentTwice (aheadRequest zeroSignature) 240000000000) (started 0) :=
  signed_request_accepted_once signedServer _ (started 0) ⟨rfl, rfl⟩
    ((aheadRequest_resent zeroSignature_digest (by decide)).along (by decide))

/-- The reservation of a request dated one minute ahead ends five minutes after
it arrived, but the request stays inside the replay window for six: five and a
half minutes after the first time it is accepted again. -/
theorem replay_accepted_after_expiry :
    ¬ (run (Gateway.step signedServer)
      (sentTwice (aheadRequest zeroSignature) 330000000000) (started 0)).AcceptedOnce :=
  (aheadRequest_resent zeroSignature_digest (by decide)).accepted (by decide)

end StormRelay.Webhook
