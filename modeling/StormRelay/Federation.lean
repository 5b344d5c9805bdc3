/-
Authentication with OpenID tokens (`internal/oidcauth/service.go`).

The issuer and the audiences of a token, read without any check, choose the provider whose
verifier then checks the token.  Verifiers are kept in a cache, under the identifier and the
version of the provider they were built from.

* `one_tenant_selected` — **a principal belongs to the tenant of the only provider that the
  token can mean**, and for tokens of like size the order and the repetitions of the audiences
  do not matter.
-/
import StormRelay.Base64
import StormRelay.IdentityStore
import StormRelay.Transition
import StormRelay.Separators

namespace StormRelay.OIDC

open Auth GoStd Table Ownership Snapshots

/-! ### Tokens -/

/-- The `aud` member of a token: a text, a list of texts (a null in it reads as the empty
text), null, or anything else. -/
inductive Audience where
  | text (value : String)
  | texts (values : List String)
  | null
  | other
deriving DecidableEq, Repr

def Audience.values : Audience → List String
  | .text value => [value]
  | .texts values => values
  | .null | .other => []

structure TokenClaims where
  iss : String
  aud : Audience
deriving DecidableEq, Repr

/-- What the package takes from outside the repository: `encoding/json` on a payload, beside
what the store takes. -/
structure Env extends IdentityEnv where
  unmarshal : List UInt8 → Option TokenClaims

def maxTokenBytes : ℕ := 131072

def maxPayloadBytes : ℕ := 65536

def tokenPayload (rawToken : String) : Option (List UInt8) :=
  match splitDots rawToken with
  | [_, payload, _] => if payload = "" then none else Base64.decode payload
  | _ => none

/-- What a token says. -/
def tokenClaims (env : Env) (rawToken : String) : Option TokenClaims :=
  (tokenPayload rawToken).bind env.unmarshal

structure RoutingClaims where
  issuer : String
  audiences : List String
deriving DecidableEq, Repr

def parseAudiences : Audience → Option (List String)
  | .text value => if trimSpace value = "" then none else some [trimSpace value]
  | .texts values => some ((values.map trimSpace).filter (· ≠ "")).eraseDups
  -- null leaves the text as it was, empty
  | .null | .other => none

/-- The claims of a payload as a hint: the last checks of `parseUnverifiedRoutingClaims`. -/
def hintOf (env : Env) (claims : TokenClaims) : Option RoutingClaims :=
  let issuer := trimSpace claims.iss
  match validateHTTPSURL env.toIdentityEnv (trimSpace issuer) with
  | .error _ => none
  | .ok () =>
    match parseAudiences claims.aud with
    | none | some [] => none
    | some audiences => some { issuer := issuer, audiences := audiences }

def parseUnverifiedRoutingClaims (env : Env) (rawToken : String) : Option RoutingClaims :=
  if rawToken.utf8ByteSize = 0 ∨ rawToken.utf8ByteSize > maxTokenBytes then none
  else match tokenPayload rawToken with
  | none => none
  | some payload =>
    if payload.length > maxPayloadBytes then none
    else (env.unmarshal payload).bind (hintOf env)

/-! ### Verifiers -/

/-- What `oidc.NewVerifier` is given. -/
structure VerifierConfig where
  issuer : String
  jwksURI : String
  clientID : String
  supportedSigningAlgs : List String
deriving DecidableEq, Repr

def configOf (p : OIDCProvider) : VerifierConfig :=
  { issuer := p.issuer, jwksURI := p.jwksURI, clientID := p.audience
    supportedSigningAlgs := p.supportedSigningAlgs }

/-- A verifier, with the record it was built from. -/
structure TokenVerifier where
  builtFrom : OIDCProvider
  config : VerifierConfig
  built : config = configOf builtFrom

/-- `newRemoteVerifier`; `guard` is the network guard's answer for an endpoint. -/
def newRemoteVerifier (env : Env) (guard : String → Except String Unit) (provider : OIDCProvider) :
    Except String TokenVerifier :=
  match validateHTTPSURL env.toIdentityEnv (trimSpace provider.jwksURI) with
  | .error message => .error message
  | .ok () =>
    match guard provider.jwksURI with
    | .error message => .error ("guard OIDC key endpoint: " ++ message)
    | .ok () => .ok ⟨provider, configOf provider, rfl⟩

abbrev Cache := List (String × TokenVerifier)

def cacheKey (provider : OIDCProvider) : String :=
  provider.id ++ ":" ++ toString provider.version

/-- `verifier`: the cache is consulted and written under a lock. -/
def verifier (env : Env) (guard : String → Except String Unit) (provider : OIDCProvider)
    (cache : Cache) : Except String TokenVerifier × Cache :=
  match cache.lookup (cacheKey provider) with
  | some verifier => (.ok verifier, cache)
  | none =>
    match newRemoteVerifier env guard provider with
    | .error message => (.error message, cache)
    | .ok verifier =>
      (.ok verifier,
        (cacheKey provider, verifier)
          :: cache.filter fun entry => hasHead entry.1 (provider.id ++ ":") = false)

/-! ### Authentication -/

/-- What `Authenticate` reads of a verified token. -/
structure IDToken where
  issuer : String
  subject : String
deriving DecidableEq, Repr

/-- What the world outside answers during one authentication.  A verifier accepts a token only
if it is signed and its issuer and audience are those of the verifier. -/
structure Outside (env : Env) where
  guard : String → Except String Unit
  signed : VerifierConfig → String → Prop
  verify : VerifierConfig → String → Option IDToken
  sound : ∀ config rawToken token, verify config rawToken = some token →
    signed config rawToken ∧ ∃ claims, tokenClaims env rawToken = some claims
      ∧ claims.iss = config.issuer ∧ config.clientID ∈ claims.aud.values

inductive AuthError where
  | invalidCredential
  | store (error : TxError)
  | other (message : String)
deriving DecidableEq, Repr

/-- The part of `Authenticate` after the verifier is found. -/
def conclude {env : Env} (out : Outside env) (rawToken : String) (provider : OIDCProvider)
    (verifier : TokenVerifier) (db : IdentityDB) : Except AuthError Principal :=
  match out.verify verifier.config rawToken with
  | none => .error .invalidCredential
  | some verified =>
    if verified.subject = "" ∨ verified.issuer ≠ provider.issuer then .error .invalidCredential
    else match authenticateOIDCIdentity provider.id verified.subject db with
    | .error .noRows => .error .invalidCredential
    | .error e => .error (.store e)
    | .ok principal => .ok principal

/-- `Authenticate`, with the cache it leaves. -/
def authenticate (env : Env) (out : Outside env) (rawToken : String) (db : IdentityDB)
    (cache : Cache) : Except AuthError Principal × Cache :=
  match parseUnverifiedRoutingClaims env rawToken with
  | none => (.error .invalidCredential, cache)
  | some hint =>
    match findOIDCProvider hint.issuer hint.audiences db with
    | .error .noRows => (.error .invalidCredential, cache)
    | .error e => (.error (.store e), cache)
    | .ok provider =>
      match verifier env out.guard provider cache with
      | (.error message, cache) => (.error (.other message), cache)
      | (.ok verifier, cache) => (conclude out rawToken provider verifier db, cache)

/-! ### What a hint says of its token -/

theorem mem_parseAudiences {aud : Audience} {audiences : List String}
    (h : parseAudiences aud = some audiences) (a : String) :
    a ∈ audiences ↔ a ≠ "" ∧ ∃ value ∈ aud.values, trimSpace value = a := by
  cases aud with
  | text value =>
    simp only [parseAudiences] at h
    split at h
    · cases h
    next hne =>
    obtain rfl := Option.some.inj h
    constructor
    · intro ha
      obtain rfl := List.mem_singleton.mp ha
      exact ⟨hne, value, List.mem_singleton_self _, rfl⟩
    · rintro ⟨-, b, hb, rfl⟩
      obtain rfl := List.mem_singleton.mp hb
      exact List.mem_singleton_self _
  | texts values =>
    obtain rfl := Option.some.inj h
    rw [List.mem_eraseDups, List.mem_filter, List.mem_map, decide_eq_true_eq]
    exact and_comm
  | null | other => cases h

/-- The two bounds on the size of a token. -/
def withinLimits (rawToken : String) : Bool :=
  rawToken.utf8ByteSize ≤ maxTokenBytes
    && (tokenPayload rawToken).all fun payload => payload.length ≤ maxPayloadBytes

theorem parseUnverifiedRoutingClaims_eq (env : Env) (rawToken : String) :
    parseUnverifiedRoutingClaims env rawToken =
      if withinLimits rawToken = true then (tokenClaims env rawToken).bind (hintOf env)
      else none := by
  unfold parseUnverifiedRoutingClaims withinLimits tokenClaims
  rcases hpayload : tokenPayload rawToken with _ | payload
  · simp
  -- the empty text has no payload
  have hne : rawToken.utf8ByteSize ≠ 0 := by
    intro hzero
    have hnone : tokenPayload "" = none := by decide
    rw [String.utf8ByteSize_eq_zero_iff.mp hzero, hnone] at hpayload
    cases hpayload
  simp only [hne, false_or, gt_iff_lt, Option.all_some, Option.bind_some, Bool.and_eq_true,
    decide_eq_true_eq]
  by_cases htoken : rawToken.utf8ByteSize ≤ maxTokenBytes
  · by_cases hsize : payload.length ≤ maxPayloadBytes
    · rw [if_neg (not_lt.mpr htoken), if_neg (not_lt.mpr hsize), if_pos ⟨htoken, hsize⟩]
    · rw [if_neg (not_lt.mpr htoken), if_pos (not_le.mp hsize), if_neg fun h => hsize h.2]
  · rw [if_pos (not_le.mp htoken), if_neg fun h => htoken h.1]

variable {env : Env} {claims : TokenClaims} {hint : RoutingClaims}

theorem hintOf_some (h : hintOf env claims = some hint) :
    hint.issuer = trimSpace claims.iss ∧ parseAudiences claims.aud = some hint.audiences := by
  unfold hintOf at h
  dsimp only at h
  split at h
  · cases h
  split at h
  · cases h
  · cases h
  · next haudiences =>
    obtain rfl := Option.some.inj h
    exact ⟨rfl, haudiences⟩

/-- The provider that a token finds does not depend on the order and the repetitions of its
audiences. -/
theorem route_congr {iss : String} {values values' : List String}
    (hsame : ∀ a, a ∈ values ↔ a ∈ values') (db : IdentityDB) :
    ((hintOf env ⟨iss, .texts values⟩).map fun hint =>
        findOIDCProvider hint.issuer hint.audiences db)
      = (hintOf env ⟨iss, .texts values'⟩).map fun hint =>
        findOIDCProvider hint.issuer hint.audiences db := by
  obtain ⟨audiences, haudiences⟩ : ∃ audiences, parseAudiences (.texts values) = some audiences :=
    ⟨_, rfl⟩
  obtain ⟨audiences', haudiences'⟩ :
      ∃ audiences', parseAudiences (.texts values') = some audiences' :=
    ⟨_, rfl⟩
  have hmem : ∀ a, a ∈ audiences ↔ a ∈ audiences' := by
    intro a
    rw [mem_parseAudiences haudiences, mem_parseAudiences haudiences']
    simp only [Audience.values, hsame]
  simp only [hintOf, haudiences, haudiences']
  rcases validateHTTPSURL env.toIdentityEnv (trimSpace (trimSpace iss)) with message | ⟨⟩
  · rfl
  rcases audiences with _ | ⟨a, rest⟩
  · obtain rfl : audiences' = [] :=
      List.eq_nil_iff_forall_not_mem.mpr fun a ha => List.not_mem_nil ((hmem a).mpr ha)
    rfl
  · rcases audiences' with _ | ⟨b, rest'⟩
    · exact absurd ((hmem a).mp List.mem_cons_self) List.not_mem_nil
    · exact congrArg some (findOIDCProvider_congr hmem)

variable {rawToken : String}

theorem conclude_congr {out : Outside env} {rawToken' : String}
    (hverify : ∀ config, out.verify config rawToken = out.verify config rawToken')
    (p : OIDCProvider) (v : TokenVerifier) (db : IdentityDB) :
    conclude out rawToken p v db = conclude out rawToken' p v db := by
  rw [conclude, conclude, hverify]

/-- **Two tokens with the same audiences fare alike**, if both or neither is within the limits
and every verifier judges them alike. -/
theorem authenticate_congr {out : Outside env} {rawToken' iss : String}
    {values values' : List String} (hclaims : tokenClaims env rawToken = some ⟨iss, .texts values⟩)
    (hclaims' : tokenClaims env rawToken' = some ⟨iss, .texts values'⟩)
    (hsame : ∀ a, a ∈ values ↔ a ∈ values') (hsize : withinLimits rawToken = withinLimits rawToken')
    (hverify : ∀ config, out.verify config rawToken = out.verify config rawToken') (db : IdentityDB)
    (cache : Cache) :
    authenticate env out rawToken db cache = authenticate env out rawToken' db cache := by
  have hroute := @route_congr env iss values values' hsame db
  unfold authenticate
  rw [parseUnverifiedRoutingClaims_eq, parseUnverifiedRoutingClaims_eq, hclaims, hclaims', hsize,
    Option.bind_some, Option.bind_some]
  by_cases hlimits : withinLimits rawToken' = true
  · rw [if_pos hlimits, if_pos hlimits]
    generalize hintOf env ⟨iss, .texts values⟩ = hint at hroute ⊢
    generalize hintOf env ⟨iss, .texts values'⟩ = hint' at hroute ⊢
    rcases hint with _ | hint <;> rcases hint' with _ | hint'
    · rfl
    · cases hroute
    · cases hroute
    have hfind : findOIDCProvider hint.issuer hint.audiences db
        = findOIDCProvider hint'.issuer hint'.audiences db := Option.some.inj hroute
    dsimp only
    rw [hfind]
    simp only [conclude_congr hverify]
  · rw [if_neg hlimits, if_neg hlimits]

/-! ### What an authentication went through -/

variable {db : IdentityDB} {cache : Cache}

theorem authenticate_ok {out : Outside env} {principal : Principal}
    (h : (authenticate env out rawToken db cache).1 = .ok principal) :
    ∃ claims hint p v verified,
      tokenClaims env rawToken = some claims ∧ hintOf env claims = some hint
        ∧ findOIDCProvider hint.issuer hint.audiences db = .ok p
        ∧ (verifier env out.guard p cache).1 = .ok v
        ∧ out.verify v.config rawToken = some verified
        ∧ authenticateOIDCIdentity p.id verified.subject db = .ok principal := by
  unfold authenticate at h
  rw [parseUnverifiedRoutingClaims_eq] at h
  split at h
  · cases h
  next hint hparse =>
  have hparse : (tokenClaims env rawToken).bind (hintOf env) = some hint := by
    split at hparse
    · exact hparse
    · cases hparse
  obtain ⟨claims, hclaims, hhint⟩ := Option.bind_eq_some_iff.mp hparse
  split at h
  · cases h
  · cases h
  next p hfind =>
  rcases hverifier : verifier env out.guard p cache with ⟨message | v, cache'⟩
  · rw [hverifier] at h
    cases h
  rw [hverifier] at h
  dsimp only [conclude] at h
  rcases hverify : out.verify v.config rawToken with _ | verified
  · rw [hverify] at h
    cases h
  rw [hverify] at h
  dsimp only at h
  split at h
  · cases h
  split at h
  · cases h
  · cases h
  next hidentity =>
  exact ⟨claims, hint, p, v, verified, hclaims, hhint, hfind, congrArg Prod.fst hverifier, hverify,
    hidentity.trans (congrArg Except.ok (Except.ok.inj h))⟩

variable {p : OIDCProvider} {v : TokenVerifier}

theorem authenticate_of_steps (out : Outside env) {cache' : Cache} {verified : IDToken}
    {principal : Principal} (hlimits : withinLimits rawToken = true)
    (hclaims : tokenClaims env rawToken = some claims) (hhint : hintOf env claims = some hint)
    (hfind : findOIDCProvider hint.issuer hint.audiences db = .ok p)
    (hverifier : verifier env out.guard p cache = (.ok v, cache'))
    (hverify : out.verify v.config rawToken = some verified) (hsubject : verified.subject ≠ "")
    (hissuer : verified.issuer = p.issuer)
    (hidentity : authenticateOIDCIdentity p.id verified.subject db = .ok principal) :
    (authenticate env out rawToken db cache).1 = .ok principal := by
  have hparse : parseUnverifiedRoutingClaims env rawToken = some hint := by
    rw [parseUnverifiedRoutingClaims_eq, if_pos hlimits, hclaims, Option.bind_some, hhint]
  have hgood : ¬ (verified.subject = "" ∨ verified.issuer ≠ p.issuer) := by
    rintro (h | h)
    · exact hsubject h
    · exact h hissuer
  simp only [authenticate, hparse, hfind, hverifier, conclude, hverify, if_neg hgood, hidentity]

/-! ### The cache -/

/-- A key tells the identifier from the version: digits are not colons. -/
theorem cacheKey_inj {q : OIDCProvider} (h : cacheKey p = cacheKey q) :
    p.id = q.id ∧ p.version = q.version := by
  have hcolon : ∀ version : ℕ, ':' ∉ (toString version).toList := by
    intro version hmem
    exact absurd (Separators.mem_toString_nat hmem) (by decide)
  have hlist : ∀ r : OIDCProvider,
      (cacheKey r).toList = r.id.toList ++ ':' :: (toString r.version).toList := by
    intro r
    rw [cacheKey, String.toList_append, String.toList_append, List.append_assoc]
    rfl
  have hkeys := congrArg String.toList h
  rw [hlist, hlist] at hkeys
  obtain ⟨hid, hversion⟩ := Separators.cut_inj_right
    (Separators.count_eq_of_not_mem (hcolon p.version) (hcolon q.version)) hkeys
  exact ⟨String.toList_inj.mp hid, Separators.toString_nat_inj (String.toList_inj.mp hversion)⟩

/-- The entries of the cache stand under their keys, and their records were read from the
table. -/
def CacheSound (db : IdentityDB) (cache : Cache) : Prop :=
  ∀ entry ∈ cache, entry.1 = cacheKey entry.2.builtFrom ∧ db.KnowsProvider entry.2.builtFrom

theorem mem_of_lookup {α : Type} {cache : List (String × α)} {key : String} {v : α}
    (h : cache.lookup key = some v) : (key, v) ∈ cache := by
  obtain ⟨l₁, l₂, rfl, -⟩ := List.lookup_eq_some_iff.mp h
  exact List.mem_append_right _ List.mem_cons_self

variable {guard : String → Except String Unit}

theorem newRemoteVerifier_ok (h : newRemoteVerifier env guard p = .ok v) :
    v.builtFrom = p := by
  unfold newRemoteVerifier at h
  split at h
  · cases h
  split at h
  · cases h
  · rw [← Except.ok.inj h]

/-- **The verifier of a provider in the table was built from its current record.** -/
theorem verifier_builtFrom (hdb : db.Sound) (hcache : CacheSound db cache) (hp : p ∈ db.providers)
    (h : (verifier env guard p cache).1 = .ok v) : v.builtFrom = p := by
  unfold verifier at h
  split at h
  · next hit =>
    obtain ⟨hkey, hknown⟩ := hcache _ (mem_of_lookup hit)
    obtain rfl := Except.ok.inj h
    obtain ⟨hid, hversion⟩ := cacheKey_inj hkey
    exact (Known.eq_of_version hdb.keyed hknown hp hid hversion).symm
  split at h
  · cases h
  · next hbuilt =>
    rw [← Except.ok.inj h]
    exact newRemoteVerifier_ok hbuilt

theorem CacheSound.verifier (hcache : CacheSound db cache) (hp : db.KnowsProvider p) :
    CacheSound db (verifier env guard p cache).2 := by
  unfold OIDC.verifier
  split
  · exact hcache
  split
  · exact hcache
  next hbuilt =>
  have hfrom := newRemoteVerifier_ok hbuilt
  refine List.forall_mem_cons.mpr ⟨⟨by rw [hfrom], by rwa [hfrom]⟩, fun entry hentry => ?_⟩
  exact hcache entry (List.mem_filter.mp hentry).1

/-! ### The service over time -/

/-- The tables, the provider records that requests have read and the cache of verifiers. -/
structure Office where
  db : IdentityDB
  seen : List OIDCProvider
  cache : Cache

/-- What can happen between two authentications, and within those of other requests: an
operation on the tables, the two steps of a request that touch what requests share, and a
restart of the process. -/
inductive Happening where
  | call (now : Time) (call : IdentityCall)
  | find (issuer : String) (audiences : List String)
  | verifier (provider : OIDCProvider) (guard : String → Except String Unit)
  | restart

namespace Office

def step (env : Env) : Happening → Office → Office
  | .call now call, o => { o with db := call.perform env.toIdentityEnv now o.db }
  | .find issuer audiences, o =>
    match findOIDCProvider issuer audiences o.db with
    | .ok provider => { o with seen := provider :: o.seen }
    | .error _ => o
  | .verifier provider guard, o =>
    if provider ∈ o.seen then { o with cache := (OIDC.verifier env guard provider o.cache).2 }
    else o
  | .restart, o => { o with seen := [], cache := [] }

/-- No provider is registered and the process has just started. -/
def Init (o : Office) : Prop :=
  o.db.providers = [] ∧ o.db.identities = [] ∧ o.db.identityRoles = [] ∧ o.seen = []
    ∧ o.cache = []

def Reachable (env : Env) : Office → Prop :=
  Transition.Reachable (step env) Init

structure Inv (o : Office) : Prop where
  tables : o.db.Sound
  seen : ∀ p ∈ o.seen, o.db.KnowsProvider p
  cache : CacheSound o.db o.cache

variable {o : Office}

theorem Inv.init (h : o.Init) : o.Inv := by
  obtain ⟨hproviders, hidentities, -, hseen, hcache⟩ := h
  refine ⟨⟨?_, ?_, ?_⟩, ?_, ?_⟩
  · rw [hproviders]
    exact List.Pairwise.nil
  · rw [hproviders]
    exact List.forall_mem_nil _
  · rw [hidentities]
    exact List.forall_mem_nil _
  · rw [hseen]
    exact List.forall_mem_nil _
  · rw [hcache]
    exact List.forall_mem_nil _

theorem Inv.step (env : Env) (a : Happening) (h : o.Inv) : (o.step env a).Inv := by
  cases a with
  | call now call =>
    have hfollows := call.follows env.toIdentityEnv now o.db
    exact ⟨hfollows.sound h.tables, fun p hp => hfollows.known p (h.seen p hp),
      fun entry hentry => ⟨(h.cache entry hentry).1, hfollows.known _ (h.cache entry hentry).2⟩⟩
  | find issuer audiences =>
    simp only [Office.step]
    split
    · next p hp =>
      have hmem : p ∈ o.db.matching issuer audiences := by
        rw [findOIDCProvider_ok hp]
        exact List.mem_singleton_self p
      exact ⟨h.tables, List.forall_mem_cons.mpr
        ⟨known_of_mem (mem_matching.mp hmem).1, h.seen⟩, h.cache⟩
    · exact h
  | verifier provider guard =>
    simp only [Office.step]
    split
    · next hseen => exact ⟨h.tables, h.seen, h.cache.verifier (h.seen provider hseen)⟩
    · exact h
  | restart => exact ⟨h.tables, List.forall_mem_nil _, List.forall_mem_nil _⟩

theorem inv_of_reachable {env : Env} (ho : o.Reachable env) : o.Inv :=
  Transition.Reachable.invariant (I := Office.Inv) (fun _ => Inv.init)
    (fun a _ => Inv.step env a) ho

end Office

/-! ### One tenant -/

/-- An enabled provider that the token can mean. -/
def Serves (claims : TokenClaims) (p : OIDCProvider) : Prop :=
  p.enabled = true ∧ p.issuer = claims.iss ∧ p.audience ∈ claims.aud.values

/-- The provider a hint finds is the only one its token can mean, once the token is known to
carry the issuer of the provider. -/
theorem eq_of_serves {q : OIDCProvider} (hdb : db.Sound) (hhint : hintOf env claims = some hint)
    (hfind : findOIDCProvider hint.issuer hint.audiences db = .ok p) (hiss : claims.iss = p.issuer)
    (hq : q ∈ db.providers) (hserves : Serves claims q) : q = p := by
  have hmatching := findOIDCProvider_ok hfind
  have hp : p ∈ db.matching hint.issuer hint.audiences := by
    rw [hmatching]
    exact List.mem_singleton_self p
  obtain ⟨-, hpissuer, -, -⟩ := mem_matching.mp hp
  obtain ⟨henabled, hissuer, haudience⟩ := hserves
  -- the audience of a provider is trimmed, so the hint has it as the token does
  have haudiences : q.audience ∈ hint.audiences := by
    obtain ⟨htrim, hne⟩ := hdb.trimmed q hq
    exact (mem_parseAudiences (hintOf_some hhint).2 _).mpr ⟨hne, q.audience, haudience, htrim⟩
  have hmem : q ∈ db.matching hint.issuer hint.audiences :=
    mem_matching.mpr ⟨hq, (hissuer.trans hiss).trans hpissuer, haudiences, henabled⟩
  rw [hmatching] at hmem
  exact List.mem_singleton.mp hmem

/-- **OpenID authentication selects one tenant.**  In every reachable state, a principal is
handed out only for a token that exactly one enabled provider serves; the token was checked by
a verifier built from the current record of that provider; the identity is enabled, is one of
that provider and has a role; the tenant is the provider's.  Two tokens with the same issuer and
the same audiences, in whatever order and with whatever repetitions, have the same outcome if
both or neither is within the size limits and every verifier judges them alike. -/
theorem one_tenant_selected {env : Env} {o : Office} (ho : o.Reachable env) (out : Outside env) :
    (∀ rawToken principal, (authenticate env out rawToken o.db o.cache).1 = .ok principal →
      ∃ claims, tokenClaims env rawToken = some claims
        ∧ ∃ p ∈ o.db.providers, Serves claims p
        ∧ (∀ q ∈ o.db.providers, Serves claims q → q = p)
        ∧ ∃ v verified, (verifier env out.guard p o.cache).1 = .ok v ∧ v.builtFrom = p
        ∧ out.signed v.config rawToken ∧ out.verify v.config rawToken = some verified
        ∧ ∃ i ∈ o.db.identities, i.enabled = true ∧ i.providerID = p.id
        ∧ i.subject = verified.subject ∧ readRoles i.id o.db ≠ []
        ∧ principal = { tenantID := p.tenantID, actorType := "oidc-user", actorID := i.userID
                        roles := readRoles i.id o.db })
    ∧ ∀ rawToken rawToken' iss values values',
      tokenClaims env rawToken = some ⟨iss, .texts values⟩ →
      tokenClaims env rawToken' = some ⟨iss, .texts values'⟩ →
      (∀ a, a ∈ values ↔ a ∈ values') →
      withinLimits rawToken = withinLimits rawToken' →
      (∀ config, out.verify config rawToken = out.verify config rawToken') →
      authenticate env out rawToken o.db o.cache = authenticate env out rawToken' o.db o.cache := by
  have hinv := Office.inv_of_reachable ho
  constructor
  · intro rawToken principal h
    obtain ⟨claims, hint, p, v, verified, hclaims, hhint, hfind, hverifier, hverify, hidentity⟩ :=
      authenticate_ok h
    have hp : p ∈ o.db.matching hint.issuer hint.audiences := by
      rw [findOIDCProvider_ok hfind]
      exact List.mem_singleton_self p
    obtain ⟨hp, -, -, henabled⟩ := mem_matching.mp hp
    have hbuilt : v.builtFrom = p := verifier_builtFrom hinv.tables hinv.cache hp hverifier
    -- what the verifier vouches for, in terms of the provider
    obtain ⟨hsigned, claims', hclaims', hiss, haud⟩ := out.sound _ _ _ hverify
    obtain rfl : claims' = claims := Option.some.inj (hclaims'.symm.trans hclaims)
    rw [v.built, hbuilt] at hiss haud
    refine ⟨claims', hclaims, p, hp, ⟨henabled, hiss.symm, haud⟩, fun q hq hserves => ?_, v,
      verified, hverifier, hbuilt, hsigned, hverify, ?_⟩
    · exact eq_of_serves hinv.tables hhint hfind hiss hq hserves
    obtain ⟨i, hi, hprovider, hsubject, hon, hroles, rfl⟩ := authenticateOIDCIdentity_ok hidentity
    have htenant : p.tenantID = i.tenantID :=
      (hinv.tables.owned i hi).owner_eq hinv.tables.keyed hp hprovider.symm
    refine ⟨i, hi, hon, hprovider, hsubject, hroles, ?_⟩
    rw [htenant]
  · intro rawToken rawToken' iss values values' hclaims hclaims' hsame hsize hverify
    exact authenticate_congr hclaims hclaims' hsame hsize hverify o.db o.cache

/-! ### A token that repeats its audience -/

section Repeated

def ascii (text : String) : List UInt8 :=
  text.toUTF8.data.toList

def payloadHead : List UInt8 :=
  ascii "\x7b\"iss\":\"https://id.example\",\"sub\":\"ada\",\"aud\":[\"storm\""

/-- The claims of the issuer `https://id.example` for the audience `storm`, named once and then
`n` times again. -/
def repeatedPayload (n : ℕ) : List UInt8 :=
  payloadHead ++ (List.replicate n (ascii ",\"storm\"")).flatten ++ ascii "]\x7d"

def repeatedToken (n : ℕ) : String :=
  "eyJhbGciOiJSUzI1NiJ9" ++ "." ++ Base64.encode (repeatedPayload n) ++ "." ++ "c2ln"

def storm : Env where
  parseURL text :=
    if text = "https://id.example" ∨ text = "https://id.example/keys" then
      some { scheme := "https", hostname := "id.example", hasUser := false, rawQuery := ""
             fragment := "" }
    else none
  toUpper := id
  toLower := id
  unmarshal payload :=
    let n := (payload.length - (payloadHead.length + 2)) / 8
    if payload = repeatedPayload n then
      some ⟨"https://id.example", .texts (List.replicate (n + 1) "storm")⟩
    else none

def trusting : Outside storm where
  guard _ := .ok ()
  signed _ _ := True
  verify config rawToken :=
    match tokenClaims storm rawToken with
    | none => none
    | some claims =>
      if claims.iss = config.issuer ∧ config.clientID ∈ claims.aud.values then
        some { issuer := claims.iss, subject := "ada" }
      else none
  sound := by
    intro config rawToken token h
    rcases hclaims : tokenClaims storm rawToken with _ | claims
    · rw [hclaims] at h
      cases h
    rw [hclaims] at h
    dsimp only at h
    split at h
    · next hmatch => exact ⟨trivial, claims, rfl, hmatch⟩
    · cases h

def emptyOffice : Office where
  db := { tenants := ["acme"], users := [], providers := [], identities := [], identityRoles := []
          audit := [] }
  seen := []
  cache := []

def registration : List Happening :=
  [ .call 0 (.createProvider "p1"
      { tenantID := "acme", name := "Example", issuer := "https://id.example", audience := "storm"
        jwksURI := "https://id.example/keys", supportedSigningAlgs := ["RS256"] }),
    .call 1 (.createIdentity "u1" "i1"
      { tenantID := "acme", providerID := "p1", subject := "ada", email := "ada@example"
        displayName := "Ada", roles := ["viewer"] }) ]

def openOffice : Office :=
  Transition.run (Office.step storm) registration emptyOffice

theorem reachable_openOffice : openOffice.Reachable storm :=
  ⟨emptyOffice, registration, ⟨rfl, rfl, rfl, rfl, rfl⟩, rfl⟩

def exampleProvider : OIDCProvider :=
  { id := "p1", tenantID := "acme", name := "Example", issuer := "https://id.example"
    audience := "storm", jwksURI := "https://id.example/keys", supportedSigningAlgs := ["RS256"]
    createdAt := 0, updatedAt := 0 }

def exampleVerifier : TokenVerifier :=
  ⟨exampleProvider, configOf exampleProvider, rfl⟩

def ada : Principal :=
  { tenantID := "acme", actorType := "oidc-user", actorID := "u1", roles := [.viewer] }

theorem length_repeatedPayload (n : ℕ) :
    (repeatedPayload n).length = payloadHead.length + 2 + n * 8 := by
  have hitem : (ascii ",\"storm\"").length = 8 := by decide
  have htail : (ascii "]\x7d").length = 2 := by decide
  rw [repeatedPayload, List.length_append, List.length_append, htail, List.length_flatten,
    List.map_replicate, List.sum_replicate_nat, hitem]
  omega

theorem splitDots_token {payload : String} (h : '.' ∉ payload.toList) :
    splitDots ("eyJhbGciOiJSUzI1NiJ9" ++ "." ++ payload ++ "." ++ "c2ln")
      = ["eyJhbGciOiJSUzI1NiJ9", payload, "c2ln"] := by
  have hheader : splitDots "eyJhbGciOiJSUzI1NiJ9" = ["eyJhbGciOiJSUzI1NiJ9"] := by
    decide +kernel
  have hsignature : splitDots "c2ln" = ["c2ln"] := by
    decide +kernel
  rw [splitDots_append, splitDots_append, hheader, hsignature, splitDots_of_not_mem h]
  rfl

theorem tokenPayload_repeatedToken (n : ℕ) :
    tokenPayload (repeatedToken n) = some (repeatedPayload n) := by
  have hparts : splitDots (repeatedToken n)
      = ["eyJhbGciOiJSUzI1NiJ9", Base64.encode (repeatedPayload n), "c2ln"] := by
    refine splitDots_token fun hmem => ?_
    exact absurd (Base64.mem_alphabet_of_mem_encode hmem) (by decide)
  have hne : Base64.encode (repeatedPayload n) ≠ "" := by
    rw [Ne, Base64.encode_eq_empty_iff, ← List.length_eq_zero_iff, length_repeatedPayload]
    omega
  rw [tokenPayload, hparts]
  dsimp only
  rw [if_neg hne, Base64.decode_encode]

theorem tokenClaims_repeatedToken (n : ℕ) :
    tokenClaims storm (repeatedToken n)
      = some ⟨"https://id.example", .texts (List.replicate (n + 1) "storm")⟩ := by
  have hcount : ((repeatedPayload n).length - (payloadHead.length + 2)) / 8 = n := by
    rw [length_repeatedPayload]
    omega
  rw [tokenClaims, tokenPayload_repeatedToken, Option.bind_some]
  simp only [storm, hcount, if_true]

theorem trusting_verify {rawToken : String} {claims : TokenClaims}
    (h : tokenClaims storm rawToken = some claims) (config : VerifierConfig) :
    trusting.verify config rawToken =
      if claims.iss = config.issuer ∧ config.clientID ∈ claims.aud.values then
        some { issuer := claims.iss, subject := "ada" }
      else none := by
  unfold trusting
  dsimp only
  rw [h]

theorem verify_repeatedToken (n m : ℕ) (config : VerifierConfig) :
    trusting.verify config (repeatedToken n) = trusting.verify config (repeatedToken m) := by
  rw [trusting_verify (tokenClaims_repeatedToken n), trusting_verify (tokenClaims_repeatedToken m)]
  simp only [Audience.values, List.mem_replicate, ne_eq, Nat.add_one_ne_zero, not_false_eq_true,
    true_and]

theorem withinLimits_repeatedToken (n : ℕ) :
    withinLimits (repeatedToken n)
      = (decide ((repeatedToken n).utf8ByteSize ≤ maxTokenBytes)
        && decide (payloadHead.length + 2 + n * 8 ≤ maxPayloadBytes)) := by
  rw [withinLimits, tokenPayload_repeatedToken, Option.all_some, length_repeatedPayload]

theorem authenticate_once :
    (authenticate storm trusting (repeatedToken 0) openOffice.db openOffice.cache).1 = .ok ada := by
  have hlimits : withinLimits (repeatedToken 0) = true := by
    rw [withinLimits_repeatedToken]
    decide +kernel
  have hfind : findOIDCProvider "https://id.example" ["storm"] openOffice.db
      = .ok exampleProvider := by
    decide +kernel
  have hurl : validateHTTPSURL storm.toIdentityEnv (trimSpace exampleProvider.jwksURI)
      = .ok () := by
    decide +kernel
  have hverifier : verifier storm trusting.guard exampleProvider openOffice.cache
      = (.ok exampleVerifier, [(cacheKey exampleProvider, exampleVerifier)]) := by
    have hempty : openOffice.cache = [] := rfl
    rw [verifier, newRemoteVerifier, hempty, hurl]
    rfl
  have hidentity : authenticateOIDCIdentity exampleProvider.id "ada" openOffice.db = .ok ada := by
    decide +kernel
  have hclaims : tokenClaims storm (repeatedToken 0)
      = some ⟨"https://id.example", .texts ["storm"]⟩ := tokenClaims_repeatedToken 0
  have hhint : hintOf storm ⟨"https://id.example", .texts ["storm"]⟩
      = some ⟨"https://id.example", ["storm"]⟩ := by
    decide +kernel
  have hverify : trusting.verify exampleVerifier.config (repeatedToken 0)
      = some ⟨"https://id.example", "ada"⟩ := by
    rw [trusting_verify hclaims]
    exact if_pos ⟨rfl, List.mem_singleton_self _⟩
  exact authenticate_of_steps trusting hlimits hclaims hhint hfind hverifier hverify (by decide)
    rfl hidentity

/-- Sixty-six kilobytes of one audience, where the token that names it once gets in. -/
theorem repeated_audience_refused :
    openOffice.Reachable storm
      ∧ tokenClaims storm (repeatedToken 0)
        = some ⟨"https://id.example", .texts (List.replicate 1 "storm")⟩
      ∧ tokenClaims storm (repeatedToken 8200)
        = some ⟨"https://id.example", .texts (List.replicate 8201 "storm")⟩
      ∧ (∀ config, trusting.verify config (repeatedToken 0)
        = trusting.verify config (repeatedToken 8200))
      ∧ (authenticate storm trusting (repeatedToken 0) openOffice.db openOffice.cache).1 = .ok ada
      ∧ (authenticate storm trusting (repeatedToken 8200) openOffice.db openOffice.cache).1
        = .error .invalidCredential := by
  refine ⟨reachable_openOffice, tokenClaims_repeatedToken 0, tokenClaims_repeatedToken 8200,
    verify_repeatedToken 0 8200, authenticate_once, ?_⟩
  have hlimits : withinLimits (repeatedToken 8200) = false := by
    have hsize : ¬ payloadHead.length + 2 + 8200 * 8 ≤ maxPayloadBytes := by decide +kernel
    rw [withinLimits_repeatedToken, decide_eq_false hsize, Bool.and_false]
  have hnone : parseUnverifiedRoutingClaims storm (repeatedToken 8200) = none := by
    rw [parseUnverifiedRoutingClaims_eq, hlimits]
    rfl
  rw [authenticate, hnone]

/-- Ada, by a token that names the audience once, and by one that names it twice. -/
theorem ada_selected :
    (∃ p ∈ openOffice.db.providers, p.tenantID = "acme"
      ∧ Serves ⟨"https://id.example", .texts ["storm"]⟩ p)
    ∧ authenticate storm trusting (repeatedToken 0) openOffice.db openOffice.cache
      = authenticate storm trusting (repeatedToken 1) openOffice.db openOffice.cache := by
  have hselected := one_tenant_selected reachable_openOffice trusting
  constructor
  · obtain ⟨claims, hclaims, p, hp, hserves, -, v, verified, -, -, -, -, i, -, -, -, -, -, hada⟩ :=
      hselected.1 (repeatedToken 0) ada authenticate_once
    obtain rfl := Option.some.inj ((tokenClaims_repeatedToken 0).symm.trans hclaims)
    exact ⟨p, hp, (congrArg Principal.tenantID hada).symm, hserves⟩
  have hlimits : withinLimits (repeatedToken 0) = withinLimits (repeatedToken 1) := by
    rw [withinLimits_repeatedToken, withinLimits_repeatedToken]
    decide +kernel
  refine hselected.2 _ _ _ _ _ (tokenClaims_repeatedToken 0) (tokenClaims_repeatedToken 1)
    (fun a => ?_) hlimits (verify_repeatedToken 0 1)
  simp

end Repeated

end StormRelay.OIDC
