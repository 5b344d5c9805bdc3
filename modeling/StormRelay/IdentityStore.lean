/-
Identity providers and federated identities (`internal/storage/oidc.go`).

A tenant registers OpenID providers and, under a provider, the identities that may
authenticate with it.  A provider is found by the issuer and the audiences of a token; more
than one match counts as none.

* `IdentityDB.Sound`, `IdentityCall.follows` — **every operation keeps the tables sound**, an
  identity in the tenant of its provider in particular, and a provider that was read stays
  known.
-/
import StormRelay.Auth
import StormRelay.Ownership
import StormRelay.Schema
import StormRelay.Snapshots
import StormRelay.Tx

namespace StormRelay

open Tx Auth GoStd Table Ownership Snapshots

/-! ### Tables -/

structure OIDCProvider where
  id : String
  tenantID : String
  name : String
  issuer : String
  audience : String
  jwksURI : String
  supportedSigningAlgs : List String
  enabled : Bool := true
  createdAt : Time
  updatedAt : Time
  version : ℕ := 1
deriving DecidableEq, Repr

/-- A row of `oidc_identities`. -/
structure IdentityRow where
  id : String
  tenantID : String
  providerID : String
  userID : String
  subject : String
  enabled : Bool := true
  createdAt : Time
  updatedAt : Time
  version : ℕ := 1
deriving DecidableEq, Repr

structure UserRow where
  id : String
  tenantID : String
  email : String
  displayName : String
deriving DecidableEq, Repr

structure IdentityDB where
  tenants : List String
  users : List UserRow
  providers : List OIDCProvider
  identities : List IdentityRow
  identityRoles : List (String × Role)
  audit : List AuditEntry

namespace IdentityDB

def checkViolation : String := "new row violates check constraint"

def foreignKeyViolation : String := "insert or update violates foreign key constraint"

def insertProvider (p : OIDCProvider) (db : IdentityDB) : Except String IdentityDB :=
  if (textStorable p.name && textStorable p.issuer && textStorable p.audience
      && textStorable p.jwksURI) = false then
    .error "invalid byte sequence for encoding \"UTF8\": 0x00"
  else if p.name.length = 0 ∨ p.name.length > 200 ∨ hasHead p.issuer "https://" = false
      ∨ p.audience.length = 0 ∨ p.audience.length > 500
      ∨ hasHead p.jwksURI "https://" = false then
    .error checkViolation
  else if p.tenantID ∉ db.tenants then .error foreignKeyViolation
  else if db.providers.any fun q => q.id = p.id || (q.tenantID = p.tenantID && q.name = p.name)
      || (q.issuer = p.issuer && q.audience = p.audience) then
    .error DB.uniqueViolation
  else .ok { db with providers := db.providers ++ [p] }

/-- `UPDATE oidc_providers … RETURNING` through `QueryRow`. -/
def updateProviderReturning (sel : OIDCProvider → Bool) (f : OIDCProvider → OIDCProvider)
    (db : IdentityDB) : Except String (OIDCProvider × IdentityDB) :=
  match db.providers.find? sel with
  | none => .error "no rows in result set"
  | some p =>
    if textStorable (f p).name = false then
      .error "invalid byte sequence for encoding \"UTF8\": 0x00"
    else if (f p).name.length = 0 ∨ (f p).name.length > 200 then .error checkViolation
    else if db.providers.any fun q => q.id ≠ p.id && q.tenantID = p.tenantID
        && q.name = (f p).name then
      .error DB.uniqueViolation
    else .ok (f p, { db with providers := Table.update sel f db.providers })

def insertUser (u : UserRow) (db : IdentityDB) : Except String IdentityDB :=
  if (textStorable u.email && textStorable u.displayName) = false then
    .error "invalid byte sequence for encoding \"UTF8\": 0x00"
  else if u.tenantID ∉ db.tenants then .error foreignKeyViolation
  else if db.users.any fun v => v.id = u.id || (v.tenantID = u.tenantID && v.email = u.email) then
    .error DB.uniqueViolation
  else .ok { db with users := db.users ++ [u] }

def insertIdentity (i : IdentityRow) (db : IdentityDB) : Except String IdentityDB :=
  if textStorable i.subject = false then
    .error "invalid byte sequence for encoding \"UTF8\": 0x00"
  else if i.subject.length = 0 ∨ i.subject.length > 1000 then .error checkViolation
  else if i.tenantID ∉ db.tenants ∨ (db.providers.any fun p => p.id = i.providerID) = false
      ∨ (db.users.any fun u => u.id = i.userID) = false then
    .error foreignKeyViolation
  else if db.identities.any fun j => j.id = i.id
      || (j.providerID = i.providerID && (j.subject = i.subject || j.userID = i.userID)) then
    .error DB.uniqueViolation
  else .ok { db with identities := db.identities ++ [i] }

/-- `UPDATE oidc_identities … RETURNING` through `QueryRow`. -/
def updateIdentityReturning (sel : IdentityRow → Bool) (f : IdentityRow → IdentityRow)
    (db : IdentityDB) : Except String (IdentityRow × IdentityDB) :=
  match db.identities.find? sel with
  | none => .error "no rows in result set"
  | some i => .ok (f i, { db with identities := Table.update sel f db.identities })

def deleteRoles (identityID : String) (db : IdentityDB) : ℕ × IdentityDB :=
  (db.identityRoles.countP fun r => r.1 = identityID,
    { db with identityRoles := db.identityRoles.filter fun r => r.1 ≠ identityID })

def insertRole (identityID : String) (role : Role) (db : IdentityDB) : Except String IdentityDB :=
  if (db.identities.any fun i => i.id = identityID) = false then .error foreignKeyViolation
  else if (identityID, role) ∈ db.identityRoles then .error DB.uniqueViolation
  else .ok { db with identityRoles := db.identityRoles ++ [(identityID, role)] }

def insertAudit (entry : AuditEntry) (db : IdentityDB) : Except String IdentityDB :=
  if entry.tenantID ∈ db.tenants then .ok { db with audit := db.audit ++ [entry] }
  else .error foreignKeyViolation

end IdentityDB

/-! ### Operations -/

/-- What `net/url` reads in a text. -/
structure URLParts where
  scheme : String
  hostname : String
  hasUser : Bool
  rawQuery : String
  fragment : String

/-- What the package takes from outside the repository: `url.Parse`, and the case mappings of
package `strings`. -/
structure IdentityEnv where
  parseURL : String → Option URLParts
  toUpper : String → String
  toLower : String → String

/-- `validateHTTPSURL`. -/
def validateHTTPSURL (env : IdentityEnv) (raw : String) : Except String Unit :=
  match env.parseURL raw with
  | none => .error "must be an absolute HTTPS URL"
  | some parsed =>
    if parsed.scheme ≠ "https" ∨ parsed.hostname = "" then .error "must be an absolute HTTPS URL"
    else if parsed.hasUser = true ∨ parsed.rawQuery ≠ "" ∨ parsed.fragment ≠ "" then
      .error "must not contain userinfo, query, or fragment"
    else .ok ()

def allowedSigningAlgs : List String :=
  ["RS256", "RS384", "RS512", "PS256", "PS384", "PS512", "ES256", "ES384", "ES512"]

def normalizeSigningAlgs (env : IdentityEnv) (values : List String) : List String :=
  ((values.map fun value => env.toUpper (trimSpace value)).filter
    (· ∈ allowedSigningAlgs)).eraseDups

structure CreateOIDCProviderInput where
  tenantID : String
  name : String
  issuer : String
  audience : String
  jwksURI : String
  supportedSigningAlgs : List String
  actorID : String := ""
  requestID : String := ""
  traceID : String := ""

/-- The audit entry of an operation on `resource`. -/
def identityAudit (tenantID actorID action resource resourceID requestID traceID : String) :
    Tx IdentityDB Unit :=
  insert (IdentityDB.insertAudit
    { tenantID := tenantID, actorType := "api-key", actorID := defaultText actorID "unknown"
      action := action, resourceType := resource, resourceID := resourceID
      requestID := requestID, traceID := traceID })

def createOIDCProvider (env : IdentityEnv) (now : Time) (providerID : String)
    (input : CreateOIDCProviderInput) : Tx IdentityDB OIDCProvider :=
  let name := trimSpace input.name
  let issuer := trimSpace input.issuer
  let audience := trimSpace input.audience
  let jwksURI := trimSpace input.jwksURI
  if name = "" ∨ name.utf8ByteSize > 200 then fail "provider name must contain 1 to 200 bytes"
  else match validateHTTPSURL env issuer with
  | .error message => fail ("issuer: " ++ message)
  | .ok () =>
    if audience = "" ∨ audience.utf8ByteSize > 500 then
      fail "audience must contain 1 to 500 bytes"
    else match validateHTTPSURL env jwksURI with
    | .error message => fail ("jwks URI: " ++ message)
    | .ok () =>
      let algs := normalizeSigningAlgs env input.supportedSigningAlgs
      if algs = [] then fail "at least one supported signing algorithm is required"
      else do
        let row : OIDCProvider :=
          { id := providerID, tenantID := input.tenantID, name := name, issuer := issuer
            audience := audience, jwksURI := jwksURI, supportedSigningAlgs := algs
            createdAt := now, updatedAt := now }
        insert (IdentityDB.insertProvider row)
        identityAudit input.tenantID input.actorID "oidc_provider.created" "oidc_provider"
          providerID input.requestID input.traceID
        pure row

structure UpdateOIDCProviderInput where
  tenantID : String
  id : String
  name : String
  enabled : Bool
  expectedVersion : ℤ
  actorID : String := ""
  requestID : String := ""
  traceID : String := ""

def updateOIDCProvider (now : Time) (input : UpdateOIDCProviderInput) :
    Tx IdentityDB OIDCProvider :=
  let name := trimSpace input.name
  if input.expectedVersion < 1 then fail "expected version is required"
  else if name = "" ∨ name.utf8ByteSize > 200 then
    fail "provider name must contain 1 to 200 bytes"
  else do
    let before ← queryRow fun db =>
      db.providers.find? fun p => p.tenantID = input.tenantID && p.id = input.id
    if (before.version : ℤ) ≠ input.expectedVersion then
      fail ("version conflict: current=" ++ toString before.version)
    else do
      let out ← statement (IdentityDB.updateProviderReturning
        (fun p => p.tenantID = input.tenantID && p.id = input.id
          && (p.version : ℤ) = input.expectedVersion)
        fun p => { p with
          name := name, enabled := input.enabled, updatedAt := now, version := p.version + 1 })
      identityAudit input.tenantID input.actorID "oidc_provider.updated" "oidc_provider" input.id
        input.requestID input.traceID
      pure out

/-- `replaceOIDCIdentityRoles`. -/
def replaceRoles (identityID : String) (roles : List Role) : Tx IdentityDB Unit := do
  let _ ← exec (IdentityDB.deleteRoles identityID)
  each roles fun role => insert (IdentityDB.insertRole identityID role)

structure CreateOIDCIdentityInput where
  tenantID : String
  providerID : String
  subject : String
  email : String
  displayName : String
  roles : List String
  actorID : String := ""
  requestID : String := ""
  traceID : String := ""

def createOIDCIdentity (env : IdentityEnv) (now : Time) (userID identityID : String)
    (input : CreateOIDCIdentityInput) : Tx IdentityDB IdentityRow :=
  let subject := trimSpace input.subject
  let email := env.toLower (trimSpace input.email)
  let displayName := trimSpace input.displayName
  if subject = "" ∨ subject.utf8ByteSize > 1000 then fail "subject must contain 1 to 1000 bytes"
  else if email = "" ∨ email.utf8ByteSize > 320 ∨ contains email "@" = false then
    fail "valid email is required"
  else if displayName = "" ∨ displayName.utf8ByteSize > 200 then
    fail "display name must contain 1 to 200 bytes"
  else match normalizeRoles input.roles with
  | .error message => fail message
  | .ok roles => do
    let _ ← queryRow fun db =>
      db.providers.find? fun p => p.tenantID = input.tenantID && p.id = input.providerID
    insert (IdentityDB.insertUser
      { id := userID, tenantID := input.tenantID, email := email, displayName := displayName })
    let row : IdentityRow :=
      { id := identityID, tenantID := input.tenantID, providerID := input.providerID
        userID := userID, subject := subject, createdAt := now, updatedAt := now }
    insert (IdentityDB.insertIdentity row)
    replaceRoles identityID roles
    identityAudit input.tenantID input.actorID "oidc_identity.created" "oidc_identity" identityID
      input.requestID input.traceID
    pure row

structure UpdateOIDCIdentityInput where
  tenantID : String
  id : String
  enabled : Bool
  roles : List String
  expectedVersion : ℤ
  actorID : String := ""
  requestID : String := ""
  traceID : String := ""

def updateOIDCIdentity (now : Time) (input : UpdateOIDCIdentityInput) :
    Tx IdentityDB IdentityRow :=
  if input.expectedVersion < 1 then fail "expected version is required"
  else match normalizeRoles input.roles with
  | .error message => fail message
  | .ok roles => do
    let before ← queryRow fun db =>
      db.identities.find? fun i => i.tenantID = input.tenantID && i.id = input.id
        && db.users.any fun u => u.id = i.userID
    if (before.version : ℤ) ≠ input.expectedVersion then
      fail ("version conflict: current=" ++ toString before.version)
    else do
      let out ← statement (IdentityDB.updateIdentityReturning
        (fun i => i.tenantID = input.tenantID && i.id = input.id
          && (i.version : ℤ) = input.expectedVersion)
        fun i => { i with
          enabled := input.enabled, updatedAt := now, version := i.version + 1 })
      replaceRoles input.id roles
      identityAudit input.tenantID input.actorID "oidc_identity.updated" "oidc_identity" input.id
        input.requestID input.traceID
      pure out

/-! ### The queries of an authentication -/

/-- `FindOIDCProvider`. -/
def findOIDCProvider (issuer : String) (audiences : List String) (db : IdentityDB) :
    Except TxError OIDCProvider :=
  if audiences = [] then .error .noRows
  else if (textStorable issuer && audiences.all textStorable) = false then
    .error (.failed "invalid byte sequence for encoding \"UTF8\": 0x00")
  else
    let rows := (db.providers.filter fun p =>
      p.issuer = issuer && p.audience ∈ audiences && p.enabled).insertionSort
        fun p q => audiences.idxOf p.audience ≤ audiences.idxOf q.audience
    match rows.take 2 with
    | [p] => .ok p
    | _ => .error .noRows

/-- `readOIDCIdentityRoles`. -/
def readRoles (identityID : String) (db : IdentityDB) : List Role :=
  ((db.identityRoles.filter fun r => r.1 = identityID).map Prod.snd).insertionSort
    fun a b => a.text ≤ b.text

/-- `AuthenticateOIDCIdentity`. -/
def authenticateOIDCIdentity (providerID subject : String) (db : IdentityDB) :
    Except TxError Principal :=
  if textStorable subject = false then
    .error (.failed "invalid byte sequence for encoding \"UTF8\": 0x00")
  else
    match db.identities.find? fun i => i.providerID = providerID && i.subject = subject
        && i.enabled && db.providers.any fun p => p.id = i.providerID && p.enabled with
    | none => .error .noRows
    | some i =>
      if readRoles i.id db = [] then .error .noRows
      else .ok
        { tenantID := i.tenantID, actorType := "oidc-user", actorID := i.userID
          roles := readRoles i.id db }

/-! ### What the queries find -/

def IdentityDB.matching (db : IdentityDB) (issuer : String) (audiences : List String) :
    List OIDCProvider :=
  db.providers.filter fun p => p.issuer = issuer && p.audience ∈ audiences && p.enabled

variable {db db' : IdentityDB} {issuer : String} {audiences : List String} {p : OIDCProvider}

theorem mem_matching :
    p ∈ db.matching issuer audiences ↔
      p ∈ db.providers ∧ p.issuer = issuer ∧ p.audience ∈ audiences ∧ p.enabled = true := by
  simp only [IdentityDB.matching, List.mem_filter, Bool.and_eq_true, decide_eq_true_eq, and_assoc]

/-- Sorting and cutting after two rows keep whether there is exactly one row. -/
theorem findOIDCProvider_eq (issuer : String) (audiences : List String) (db : IdentityDB) :
    findOIDCProvider issuer audiences db =
      if audiences = [] then .error .noRows
      else if (textStorable issuer && audiences.all textStorable) = false then
        .error (.failed "invalid byte sequence for encoding \"UTF8\": 0x00")
      else match db.matching issuer audiences with
        | [p] => .ok p
        | _ => .error .noRows := by
  unfold findOIDCProvider
  rw [← IdentityDB.matching]
  refine if_congr Iff.rfl rfl (if_congr Iff.rfl rfl ?_)
  rcases hrows : db.matching issuer audiences with _ | ⟨p, _ | ⟨q, rest⟩⟩
  · rfl
  · rfl
  have hlength : (((p :: q :: rest).insertionSort fun p q =>
      audiences.idxOf p.audience ≤ audiences.idxOf q.audience).take 2).length = 2 := by
    rw [List.length_take, List.length_insertionSort]
    exact Nat.min_eq_left (by simp)
  obtain ⟨x, y, hxy⟩ := List.length_eq_two.mp hlength
  dsimp only
  rw [hxy]

/-- **A provider that is found is the only one that matches.** -/
theorem findOIDCProvider_ok (h : findOIDCProvider issuer audiences db = .ok p) :
    db.matching issuer audiences = [p] := by
  rw [findOIDCProvider_eq] at h
  split at h
  · cases h
  split at h
  · cases h
  split at h
  · next hsole => rw [hsole, Except.ok.inj h]
  · cases h

theorem findOIDCProvider_congr {audiences' : List String}
    (hsame : ∀ a, a ∈ audiences ↔ a ∈ audiences') :
    findOIDCProvider issuer audiences db = findOIDCProvider issuer audiences' db := by
  have hempty : audiences = [] ↔ audiences' = [] := by
    simp only [List.eq_nil_iff_forall_not_mem, hsame]
  have hsend : audiences.all textStorable = audiences'.all textStorable := by
    rw [Bool.eq_iff_iff, List.all_eq_true, List.all_eq_true]
    exact forall_congr' fun a => imp_congr_left (hsame a)
  have hmatching : db.matching issuer audiences = db.matching issuer audiences' := by
    refine List.filter_congr fun p _ => ?_
    rw [decide_eq_decide.mpr (hsame p.audience)]
  rw [findOIDCProvider_eq, findOIDCProvider_eq, hsend, hmatching]
  exact if_congr hempty rfl rfl

theorem authenticateOIDCIdentity_ok {providerID subject : String} {principal : Principal}
    (h : authenticateOIDCIdentity providerID subject db = .ok principal) :
    ∃ i ∈ db.identities, i.providerID = providerID ∧ i.subject = subject ∧ i.enabled = true
      ∧ readRoles i.id db ≠ []
      ∧ principal = { tenantID := i.tenantID, actorType := "oidc-user", actorID := i.userID
                      roles := readRoles i.id db } := by
  unfold authenticateOIDCIdentity at h
  split at h
  · cases h
  split at h
  · cases h
  next i hi =>
  have hkey := List.find?_some hi
  simp only [Bool.and_eq_true, decide_eq_true_eq] at hkey
  split at h
  · cases h
  · next hroles =>
    exact ⟨i, List.mem_of_find?_eq_some hi, hkey.1.1.1, hkey.1.1.2, hkey.1.2, hroles,
      (Except.ok.inj h).symm⟩

/-! ### What every operation preserves -/

/-- **Sound tables**: provider identifiers are unique, audiences are trimmed texts, and an
identity belongs to the tenant of its provider. -/
structure IdentityDB.Sound (db : IdentityDB) : Prop where
  keyed : Keyed OIDCProvider.id db.providers
  trimmed : ∀ p ∈ db.providers, trimSpace p.audience = p.audience ∧ p.audience ≠ ""
  owned : ∀ i ∈ db.identities,
    Owns OIDCProvider.id OIDCProvider.tenantID db.providers i.tenantID i.providerID

def IdentityDB.KnowsProvider (db : IdentityDB) (p : OIDCProvider) : Prop :=
  Known OIDCProvider.id OIDCProvider.version db.providers p

/-- The tables go on: they stay sound, and the records that were read stay known. -/
structure Follows (db db' : IdentityDB) : Prop where
  sound : db.Sound → db'.Sound
  known : ∀ p, db.KnowsProvider p → db'.KnowsProvider p

instance : Std.Refl Follows :=
  ⟨fun _ => ⟨id, fun _ => id⟩⟩

instance : IsTrans IdentityDB Follows :=
  ⟨fun _ _ _ h h' => ⟨h'.sound ∘ h.sound, fun p => h'.known p ∘ h.known p⟩⟩

def IdentityDB.federation (db : IdentityDB) : List OIDCProvider × List IdentityRow :=
  (db.providers, db.identities)

theorem follows_of_federation (h : db'.federation = db.federation) :
    Follows db db' := by
  obtain ⟨hproviders, hidentities⟩ := Prod.mk.inj h
  refine ⟨fun hsound => ⟨?_, ?_, ?_⟩, fun p hp => ?_⟩
  · rw [hproviders]
    exact hsound.keyed
  · rw [hproviders]
    exact hsound.trimmed
  · rw [hproviders, hidentities]
    exact hsound.owned
  · rw [IdentityDB.KnowsProvider, hproviders]
    exact hp

theorem federation_insertUser {u : UserRow} (h : db.insertUser u = .ok db') :
    db'.federation = db.federation := by
  unfold IdentityDB.insertUser at h
  split_ifs at h
  obtain rfl := Except.ok.inj h
  rfl

theorem federation_identityAudit {tenantID actorID action resource id requestID traceID : String} :
    Keeps IdentityDB.federation
      (identityAudit tenantID actorID action resource id requestID traceID) := by
  refine keeps_insert fun db db' h => ?_
  unfold IdentityDB.insertAudit at h
  split_ifs at h
  obtain rfl := Except.ok.inj h
  rfl

theorem federation_replaceRoles {identityID : String} {roles : List Role} :
    Keeps IdentityDB.federation (replaceRoles identityID roles) := by
  refine keeps_bind (keeps_exec fun _ => rfl) fun _ => keeps_each (fun role => ?_) roles
  refine keeps_insert fun db db' h => ?_
  unfold IdentityDB.insertRole at h
  split_ifs at h
  obtain rfl := Except.ok.inj h
  rfl

theorem Follows.of_keeps {α : Type} {m : Tx IdentityDB α} (h : Keeps IdentityDB.federation m) :
    Relates Follows m :=
  h.relates fun _ _ => follows_of_federation

theorem follows_insertProvider (htrim : trimSpace p.audience = p.audience)
    (h : db.insertProvider p = .ok db') : Follows db db' := by
  unfold IdentityDB.insertProvider at h
  split_ifs at h with hsend hcheck htenant hunique
  obtain rfl := Except.ok.inj h
  refine ⟨fun hsound => ⟨?_, ?_, fun i hi => (hsound.owned i hi).append⟩, fun _ hp => hp.append⟩
  · refine hsound.keyed.append_singleton fun q hq hid => hunique ?_
    exact List.any_eq_true.mpr ⟨q, hq, by simp [hid]⟩
  · refine List.forall_mem_append.mpr ⟨hsound.trimmed, List.forall_mem_singleton.mpr ⟨htrim, ?_⟩⟩
    rintro hempty
    exact hcheck (.inr (.inr (.inr (.inl (by rw [hempty]; rfl)))))

theorem follows_updateProvider {sel : OIDCProvider → Bool} {f : OIDCProvider → OIDCProvider}
    (hf : ∀ p, (f p).id = p.id ∧ (f p).tenantID = p.tenantID ∧ (f p).audience = p.audience
      ∧ p.version < (f p).version)
    {out : OIDCProvider} (h : db.updateProviderReturning sel f = .ok (out, db')) :
    Follows db db' := by
  unfold IdentityDB.updateProviderReturning at h
  split at h
  · cases h
  split_ifs at h
  obtain ⟨-, rfl⟩ := ok_inj h
  have hid : ∀ p, (patch sel f p).id = p.id := fun p => patch_column _ (hf p).1
  refine ⟨fun hsound => ⟨?_, ?_, fun i hi => ?_⟩, fun p hp => ?_⟩
  · exact hsound.keyed.map fun p _ => hid p
  · rintro p' hp'
    obtain ⟨p, hp, rfl⟩ := List.mem_map.mp hp'
    have haudience : (patch sel f p).audience = p.audience := patch_column _ (hf p).2.2.1
    rw [haudience]
    exact hsound.trimmed p hp
  · exact (hsound.owned i hi).map fun p _ => ⟨hid p, patch_column _ (hf p).2.1⟩
  · exact hp.update fun p => ⟨(hf p).1, (hf p).2.2.2⟩

/-- The one statement that relates two tables: it keeps them sound if the provider is the
tenant's. -/
theorem follows_insertIdentity {i : IdentityRow}
    (howns : Owns OIDCProvider.id OIDCProvider.tenantID db.providers i.tenantID i.providerID)
    (h : db.insertIdentity i = .ok db') : Follows db db' := by
  unfold IdentityDB.insertIdentity at h
  split_ifs at h
  obtain rfl := Except.ok.inj h
  exact ⟨fun hsound => ⟨hsound.keyed, hsound.trimmed,
    List.forall_mem_append.mpr ⟨hsound.owned, List.forall_mem_singleton.mpr howns⟩⟩, fun _ => id⟩

theorem follows_updateIdentity {sel : IdentityRow → Bool} {f : IdentityRow → IdentityRow}
    (hf : ∀ i, (f i).tenantID = i.tenantID ∧ (f i).providerID = i.providerID) {out : IdentityRow}
    (h : db.updateIdentityReturning sel f = .ok (out, db')) : Follows db db' := by
  unfold IdentityDB.updateIdentityReturning at h
  split at h
  · cases h
  obtain ⟨-, rfl⟩ := ok_inj h
  refine ⟨fun hsound => ⟨hsound.keyed, hsound.trimmed, fun i' hi' => ?_⟩, fun _ => id⟩
  obtain ⟨i, hi, rfl⟩ := List.mem_map.mp hi'
  have htenant : (patch sel f i).tenantID = i.tenantID := patch_column _ (hf i).1
  have hprovider : (patch sel f i).providerID = i.providerID := patch_column _ (hf i).2
  rw [htenant, hprovider]
  exact hsound.owned i hi

section Operations

variable (now : Time)

theorem follows_createOIDCProvider (env : IdentityEnv) (providerID : String)
    (input : CreateOIDCProviderInput) :
    Relates Follows (createOIDCProvider env now providerID input) := by
  unfold createOIDCProvider
  dsimp only
  split
  · exact relates_fail _
  rcases validateHTTPSURL env (trimSpace input.issuer) with message | ⟨⟩
  · exact relates_fail _
  dsimp only
  split
  · exact relates_fail _
  rcases validateHTTPSURL env (trimSpace input.jwksURI) with message | ⟨⟩
  · exact relates_fail _
  dsimp only
  split
  · exact relates_fail _
  refine relates_bind (relates_insert fun db db' h => ?_) fun _ => relates_bind
    (Follows.of_keeps federation_identityAudit) fun _ => relates_pure _
  refine follows_insertProvider ?_ h
  exact trimSpace_trimSpace input.audience

theorem follows_updateOIDCProvider (input : UpdateOIDCProviderInput) :
    Relates Follows (updateOIDCProvider now input) := by
  unfold updateOIDCProvider
  dsimp only
  split
  · exact relates_fail _
  split
  · exact relates_fail _
  refine relates_bind (relates_queryRow _) fun before => ?_
  split
  · exact relates_fail _
  refine relates_bind (relates_statement fun db out db' h => ?_) fun _ => relates_bind
    (Follows.of_keeps federation_identityAudit) fun _ => relates_pure _
  refine follows_updateProvider (fun p => ?_) h
  exact ⟨rfl, rfl, rfl, Nat.lt_succ_self _⟩

theorem follows_updateOIDCIdentity (input : UpdateOIDCIdentityInput) :
    Relates Follows (updateOIDCIdentity now input) := by
  unfold updateOIDCIdentity
  split
  · exact relates_fail _
  split
  · exact relates_fail _
  refine relates_bind (relates_queryRow _) fun before => ?_
  split
  · exact relates_fail _
  refine relates_bind (relates_statement fun db out db' h => ?_) fun _ => relates_bind
    (Follows.of_keeps federation_replaceRoles) fun _ => relates_bind
    (Follows.of_keeps federation_identityAudit) fun _ => relates_pure _
  refine follows_updateIdentity (fun i => ?_) h
  exact ⟨rfl, rfl⟩

/-- The check of the tenant and the insertion are two statements of one transaction, and the
one between them leaves the providers alone. -/
theorem follows_createOIDCIdentity (env : IdentityEnv) (userID identityID : String)
    (input : CreateOIDCIdentityInput) (x : Bool) (db : IdentityDB) :
    Follows db (Tx.after x (createOIDCIdentity env now userID identityID input) db) := by
  rcases after_cases (createOIDCIdentity env now userID identityID input) x db with
    hsame | ⟨row, c, hrun, hafter⟩
  · rw [hsame]
    exact Std.Refl.refl db
  rw [hafter]
  unfold createOIDCIdentity at hrun
  dsimp only at hrun
  split at hrun
  · cases hrun
  split at hrun
  · cases hrun
  split at hrun
  · cases hrun
  rcases hroles : normalizeRoles input.roles with message | roles
  · rw [hroles] at hrun
    cases hrun
  rw [hroles] at hrun
  dsimp only at hrun
  obtain ⟨p, c₁, hquery, hrun⟩ := run_ok hrun
  obtain ⟨hfind, rfl⟩ := queryRow_inv hquery
  obtain ⟨_, c₂, huser, hrun⟩ := run_ok hrun
  obtain ⟨db₂, hinsertUser, rfl⟩ := insert_inv huser
  obtain ⟨_, c₃, hidentity, hrun⟩ := run_ok hrun
  obtain ⟨db₃, hinsertIdentity, rfl⟩ := insert_inv hidentity
  have hfederation := federation_insertUser hinsertUser
  have howns : Owns OIDCProvider.id OIDCProvider.tenantID db₂.providers input.tenantID
      input.providerID := by
    have hp := List.find?_some hfind
    simp only [Bool.and_eq_true, decide_eq_true_eq] at hp
    rw [(Prod.mk.inj hfederation).1]
    exact ⟨p, List.mem_of_find?_eq_some hfind, hp.2, hp.1⟩
  have hrest : Follows db₃ c.db := by
    refine relates_bind (Follows.of_keeps federation_replaceRoles) (fun _ => relates_bind
      (Follows.of_keeps federation_identityAudit) fun _ => relates_pure _) _ _ _ hrun
  exact IsTrans.trans _ _ _ (follows_of_federation hfederation)
    (IsTrans.trans _ _ _ (follows_insertIdentity howns hinsertIdentity) hrest)

end Operations

/-- A call of one of the operations, with the identifiers it draws. -/
inductive IdentityCall where
  | createProvider (providerID : String) (input : CreateOIDCProviderInput)
  | updateProvider (input : UpdateOIDCProviderInput)
  | createIdentity (userID identityID : String) (input : CreateOIDCIdentityInput)
  | updateIdentity (input : UpdateOIDCIdentityInput)

/-- The tables after a call at the time `now`. -/
def IdentityCall.perform (env : IdentityEnv) (now : Time) :
    IdentityCall → IdentityDB → IdentityDB
  | .createProvider providerID input => Tx.after true (createOIDCProvider env now providerID input)
  | .updateProvider input => Tx.after true (updateOIDCProvider now input)
  | .createIdentity userID identityID input =>
    Tx.after true (createOIDCIdentity env now userID identityID input)
  | .updateIdentity input => Tx.after true (updateOIDCIdentity now input)

/-- **Every operation keeps the tables sound.** -/
theorem IdentityCall.follows (env : IdentityEnv) (now : Time) (call : IdentityCall)
    (db : IdentityDB) : Follows db (call.perform env now db) := by
  cases call with
  | createProvider providerID input =>
    exact (follows_createOIDCProvider now env providerID input).after true db
  | updateProvider input => exact (follows_updateOIDCProvider now input).after true db
  | createIdentity userID identityID input =>
    exact follows_createOIDCIdentity now env userID identityID input true db
  | updateIdentity input => exact (follows_updateOIDCIdentity now input).after true db

end StormRelay
