/-
The administrative transactions of the store
(`internal/storage/policies.go`, `runbook_definitions.go`, `plugins.go`,
`service_accounts.go`, `oidc.go`, `sources.go`, `manual.go`, `store.go`).

Each body is written statement by statement, with what its statements do to the
tables left open: a `Stmt` is any SQL statement, of which only its result and
its failure matter to the body.  What is proved about these bodies therefore
holds for every content of the tables.

* `Call.quiet_body` — none of them sends a statement while it reads rows.
-/
import StormRelay.Schema

namespace StormRelay.Admin

open Tx

/-- The effect of one SQL statement on the tables `σ`. -/
abbrev Stmt (σ α : Type) := σ → Except String (α × σ)

variable {σ ρ : Type}

/-! ### Versioned documents -/

/-- `ApplyPolicy`; `version` is the version the document carries. -/
def applyPolicy (version : ℤ) (lock : Stmt σ Unit) (current : Stmt σ (Option ℤ))
    (create addVersion activate audit : Stmt σ Unit) : Tx σ Unit := do
  statement lock
  let found ← statement current
  match found with
  | none =>
    if version ≠ 1 then fail "first policy version must be 1" else statement create
  | some active =>
    if version ≠ active + 1 then fail ("policy version must be " ++ toString (active + 1))
    else pure ()
  statement addVersion
  statement activate
  statement audit

/-- `ApplyRunbook`: the first version is active from its insertion. -/
def applyRunbook (version : ℤ) (lock : Stmt σ Unit) (current : Stmt σ (Option ℤ))
    (create addVersion activate audit : Stmt σ Unit) : Tx σ Unit := do
  statement lock
  let found ← statement current
  match found with
  | none =>
    if version ≠ 1 then fail "first runbook version must be 1" else statement create
  | some active =>
    if version ≠ active + 1 then fail ("runbook version must be " ++ toString (active + 1))
    else pure ()
  statement addVersion
  if version > 1 then statement activate else pure ()
  statement audit

/-- `RegisterPlugin`; `prepared` is the encoding of the manifest and the
credential, which may fail between the lookup and the write. -/
def registerPlugin (lock : Stmt σ Unit) (current : Stmt σ (Option ℤ))
    (prepared : Except String Unit)
    (create update addVersion audit : Stmt σ Unit) : Tx σ Unit := do
  statement lock
  let found ← statement current
  match prepared with
  | .error message => fail message
  | .ok () =>
    if found.getD 0 = 0 then statement create else statement update
    statement addVersion
    statement audit

/-! ### Roles -/

/-- `replaceServiceAccountRoles`, `replaceOIDCIdentityRoles`. -/
def replaceRoles (roles : List ρ) (delete : Stmt σ Unit) (insertRole : ρ → Stmt σ Unit) :
    Tx σ Unit := do
  statement delete
  each roles fun role => statement (insertRole role)

/-- `readServiceAccountRoles`, `readOIDCIdentityRoles`: the rows are read to
their end. -/
def readRoles (stored : σ → List ρ) : Tx σ (List ρ) := do
  let rows ← query fun db => (stored db, db)
  scanAll rows

/-- `version conflict: current=…`. -/
def checkVersion (expected current : ℤ) : Tx σ Unit :=
  if current ≠ expected then fail ("version conflict: current=" ++ toString current) else pure ()

def createServiceAccount (roles : List ρ) (create delete : Stmt σ Unit)
    (insertRole : ρ → Stmt σ Unit) (audit : Stmt σ Unit) : Tx σ Unit := do
  statement create
  replaceRoles roles delete insertRole
  statement audit

/-- `UpdateServiceAccount`; `current` reads the stored version. -/
def updateServiceAccount (expected : ℤ) (roles : List ρ) (current : Stmt σ ℤ)
    (stored : σ → List ρ) (update delete : Stmt σ Unit) (insertRole : ρ → Stmt σ Unit)
    (audit : Stmt σ Unit) : Tx σ Unit := do
  let version ← statement current
  let _ ← readRoles stored
  checkVersion expected version
  statement update
  replaceRoles roles delete insertRole
  statement audit

def createServiceAccountKey (accountEnabled : Stmt σ Bool) (insertKey audit : Stmt σ Unit) :
    Tx σ Unit := do
  let enabled ← statement accountEnabled
  if enabled = false then fail "service account is disabled"
  else
    statement insertKey
    statement audit

def revokeServiceAccountKey (revoke audit : Stmt σ Unit) : Tx σ Unit := do
  statement revoke
  statement audit

def createOIDCProvider (create audit : Stmt σ Unit) : Tx σ Unit := do
  statement create
  statement audit

def updateOIDCProvider (expected : ℤ) (current : Stmt σ ℤ) (update audit : Stmt σ Unit) :
    Tx σ Unit := do
  let version ← statement current
  checkVersion expected version
  statement update
  statement audit

def createOIDCIdentity (roles : List ρ) (providerExists : Stmt σ Bool)
    (insertUser insertIdentity delete : Stmt σ Unit) (insertRole : ρ → Stmt σ Unit)
    (audit : Stmt σ Unit) : Tx σ Unit := do
  let exists_ ← statement providerExists
  if exists_ = false then fail "not found"
  else
    statement insertUser
    statement insertIdentity
    replaceRoles roles delete insertRole
    statement audit

/-- `UpdateOIDCIdentity`, with `getOIDCIdentityForUpdate`. -/
def updateOIDCIdentity (expected : ℤ) (roles : List ρ) (current : Stmt σ ℤ) (stored : σ → List ρ)
    (update delete : Stmt σ Unit) (insertRole : ρ → Stmt σ Unit) (audit : Stmt σ Unit) :
    Tx σ Unit := do
  let version ← statement current
  let _ ← readRoles stored
  checkVersion expected version
  statement update
  replaceRoles roles delete insertRole
  statement audit

/-! ### Sources, channels and migrations -/

def createAudited (create : Stmt σ Unit) (audit : Option (Stmt σ Unit)) : Tx σ Unit := do
  statement create
  match audit with
  | some entry => statement entry
  | none => pure ()

def createSource (create : Stmt σ Unit) (audit : Option (Stmt σ Unit)) : Tx σ Unit :=
  createAudited create audit

def createNotificationChannel (create : Stmt σ Unit) (audit : Option (Stmt σ Unit)) : Tx σ Unit :=
  createAudited create audit

/-- The transaction `Migrate` runs for one migration file. -/
def applyMigration (script record : Stmt σ Unit) : Tx σ Unit := do
  statement script
  statement record

/-! ### All of them -/

/-- A call of one of the administrative methods. -/
inductive Call (σ ρ : Type) where
  | applyPolicy (version : ℤ) (lock : Stmt σ Unit) (current : Stmt σ (Option ℤ))
      (create addVersion activate audit : Stmt σ Unit)
  | applyRunbook (version : ℤ) (lock : Stmt σ Unit) (current : Stmt σ (Option ℤ))
      (create addVersion activate audit : Stmt σ Unit)
  | registerPlugin (lock : Stmt σ Unit) (current : Stmt σ (Option ℤ))
      (prepared : Except String Unit) (create update addVersion audit : Stmt σ Unit)
  | createServiceAccount (roles : List ρ) (create delete : Stmt σ Unit)
      (insertRole : ρ → Stmt σ Unit) (audit : Stmt σ Unit)
  | updateServiceAccount (expected : ℤ) (roles : List ρ) (current : Stmt σ ℤ) (stored : σ → List ρ)
      (update delete : Stmt σ Unit) (insertRole : ρ → Stmt σ Unit) (audit : Stmt σ Unit)
  | createServiceAccountKey (accountEnabled : Stmt σ Bool) (insertKey audit : Stmt σ Unit)
  | revokeServiceAccountKey (revoke audit : Stmt σ Unit)
  | createOIDCProvider (create audit : Stmt σ Unit)
  | updateOIDCProvider (expected : ℤ) (current : Stmt σ ℤ) (update audit : Stmt σ Unit)
  | createOIDCIdentity (roles : List ρ) (providerExists : Stmt σ Bool)
      (insertUser insertIdentity delete : Stmt σ Unit) (insertRole : ρ → Stmt σ Unit)
      (audit : Stmt σ Unit)
  | updateOIDCIdentity (expected : ℤ) (roles : List ρ) (current : Stmt σ ℤ) (stored : σ → List ρ)
      (update delete : Stmt σ Unit) (insertRole : ρ → Stmt σ Unit) (audit : Stmt σ Unit)
  | createSource (create : Stmt σ Unit) (audit : Option (Stmt σ Unit))
  | createNotificationChannel (create : Stmt σ Unit) (audit : Option (Stmt σ Unit))
  | applyMigration (script record : Stmt σ Unit)

/-- The transaction a call runs. -/
def Call.body : Call σ ρ → Tx σ Unit
  | .applyPolicy version lock current create addVersion activate audit =>
    Admin.applyPolicy version lock current create addVersion activate audit
  | .applyRunbook version lock current create addVersion activate audit =>
    Admin.applyRunbook version lock current create addVersion activate audit
  | .registerPlugin lock current prepared create update addVersion audit =>
    Admin.registerPlugin lock current prepared create update addVersion audit
  | .createServiceAccount roles create delete insertRole audit =>
    Admin.createServiceAccount roles create delete insertRole audit
  | .updateServiceAccount expected roles current stored update delete insertRole audit =>
    Admin.updateServiceAccount expected roles current stored update delete insertRole audit
  | .createServiceAccountKey accountEnabled insertKey audit =>
    Admin.createServiceAccountKey accountEnabled insertKey audit
  | .revokeServiceAccountKey revoke audit => Admin.revokeServiceAccountKey revoke audit
  | .createOIDCProvider create audit => Admin.createOIDCProvider create audit
  | .updateOIDCProvider expected current update audit =>
    Admin.updateOIDCProvider expected current update audit
  | .createOIDCIdentity roles providerExists insertUser insertIdentity delete insertRole audit =>
    Admin.createOIDCIdentity roles providerExists insertUser insertIdentity delete insertRole audit
  | .updateOIDCIdentity expected roles current stored update delete insertRole audit =>
    Admin.updateOIDCIdentity expected roles current stored update delete insertRole audit
  | .createSource create audit => Admin.createSource create audit
  | .createNotificationChannel create audit => Admin.createNotificationChannel create audit
  | .applyMigration script record => Admin.applyMigration script record

@[grind ←] theorem quiet_replaceRoles (roles : List ρ) (delete : Stmt σ Unit)
    (insertRole : ρ → Stmt σ Unit) : Quiet (replaceRoles roles delete insertRole) := by
  grind [replaceRoles]

@[grind ←] theorem quiet_readRoles (stored : σ → List ρ) : Quiet (readRoles stored) :=
  quiet_query_rows _

@[grind ←] theorem quiet_checkVersion (expected current : ℤ) :
    Quiet (checkVersion expected current : Tx σ Unit) := by
  grind [checkVersion]

@[grind ←] theorem quiet_createAudited (create : Stmt σ Unit) (audit : Option (Stmt σ Unit)) :
    Quiet (createAudited create audit) := by
  cases audit <;> grind [createAudited]

/-- **No administrative method sends a statement while it reads.** -/
theorem Call.quiet_body (call : Call σ ρ) : Quiet call.body := by
  cases call with
  | applyPolicy version lock current | applyRunbook version lock current =>
    refine quiet_bind (quiet_statement lock) fun _ => quiet_bind (quiet_statement current) ?_
    intro found
    cases found <;> grind
  | registerPlugin => grind [body, Admin.registerPlugin]
  | createServiceAccount => grind [body, Admin.createServiceAccount]
  | updateServiceAccount => grind [body, Admin.updateServiceAccount]
  | createServiceAccountKey => grind [body, Admin.createServiceAccountKey]
  | revokeServiceAccountKey => grind [body, Admin.revokeServiceAccountKey]
  | createOIDCProvider => grind [body, Admin.createOIDCProvider]
  | updateOIDCProvider => grind [body, Admin.updateOIDCProvider]
  | createOIDCIdentity => grind [body, Admin.createOIDCIdentity]
  | updateOIDCIdentity => grind [body, Admin.updateOIDCIdentity]
  | createSource => grind [body, Admin.createSource]
  | createNotificationChannel => grind [body, Admin.createNotificationChannel]
  | applyMigration => grind [body, Admin.applyMigration]

/-! ### The two phases of an application -/

def lookUp (lock : Stmt σ Unit) (current : Stmt σ (Option ℤ)) : Tx σ (Option ℤ) := do
  statement lock
  statement current

theorem lookUp_inv {lock : Stmt σ Unit} {current : Stmt σ (Option ℤ)} {x : Bool} {db : σ}
    {found : Option ℤ} {c : Conn σ} (h : lookUp lock current ⟨x, false, db⟩ = .ok (found, c)) :
    ∃ db₁, lock db = .ok ((), db₁) ∧ ∃ db₂, current db₁ = .ok (found, db₂)
      ∧ c = ⟨x, false, db₂⟩ := by
  obtain ⟨_, c₁, h₁, h⟩ := run_ok h
  obtain ⟨db₁, hlock, rfl⟩ := statement_inv h₁
  obtain ⟨db₂, hfound, hc⟩ := statement_inv h
  exact ⟨db₁, hlock, db₂, hfound, hc⟩

/-- What both calls do after their lookup; they differ in the word for their
document and in its activation. -/
def enter (kind : String) (version : ℤ) (create addVersion : Stmt σ Unit) (activation : Tx σ Unit)
    (audit : Stmt σ Unit) (found : Option ℤ) : Tx σ Unit := do
  match found with
  | none =>
    if version ≠ 1 then fail ("first " ++ kind ++ " version must be 1") else statement create
  | some active =>
    if version ≠ active + 1 then fail (kind ++ " version must be " ++ toString (active + 1))
    else pure ()
  statement addVersion
  activation
  statement audit

theorem applyPolicy_eq (version : ℤ) (lock : Stmt σ Unit) (current : Stmt σ (Option ℤ))
    (create addVersion activate audit : Stmt σ Unit) :
    applyPolicy version lock current create addVersion activate audit
      = lookUp lock current
        >>= enter "policy" version create addVersion (statement activate) audit := by
  rw [lookUp, bind_bind]
  rfl

theorem applyRunbook_eq (version : ℤ) (lock : Stmt σ Unit) (current : Stmt σ (Option ℤ))
    (create addVersion activate audit : Stmt σ Unit) :
    applyRunbook version lock current create addVersion activate audit
      = lookUp lock current
        >>= enter "runbook" version create addVersion
          (if version > 1 then statement activate else pure ()) audit := by
  rw [lookUp, bind_bind]
  by_cases hlater : version > 1
  · simp only [applyRunbook, if_pos hlater]
    rfl
  · simp only [applyRunbook, if_neg hlater]
    rfl

/-- A first version creates its row; a later one follows the version that was
found. -/
theorem enter_inv {kind : String} {version : ℤ} {create addVersion audit : Stmt σ Unit}
    {activation : Tx σ Unit} {found : Option ℤ} {x : Bool} {db : σ} {u : Unit} {c : Conn σ}
    (h : enter kind version create addVersion activation audit found ⟨x, false, db⟩ = .ok (u, c)) :
    ∃ db₁ db₂, (match found with
        | none => version = 1 ∧ create db = .ok ((), db₁)
        | some active => version = active + 1 ∧ db₁ = db)
      ∧ addVersion db₁ = .ok ((), db₂)
      ∧ (activation >>= fun _ => statement audit) ⟨x, false, db₂⟩ = .ok (u, c) := by
  have hrest : ∃ db₁, (match found with
        | none => version = 1 ∧ create db = .ok ((), db₁)
        | some active => version = active + 1 ∧ db₁ = db)
      ∧ (statement addVersion >>= fun _ => activation >>= fun _ => statement audit)
        ⟨x, false, db₁⟩ = .ok (u, c) := by
    cases found with
    | none =>
      simp only [enter] at h
      split at h
      · cases h
      rename_i hversion
      obtain ⟨_, c₁, h₁, h⟩ := run_ok h
      obtain ⟨db₁, hcreate, rfl⟩ := statement_inv h₁
      exact ⟨db₁, ⟨not_not.mp hversion, hcreate⟩, h⟩
    | some active =>
      simp only [enter] at h
      split at h
      · cases h
      · rename_i hversion
        exact ⟨db, ⟨not_not.mp hversion, rfl⟩, h⟩
  obtain ⟨db₁, hfound, h⟩ := hrest
  obtain ⟨_, c₂, h₂, h⟩ := run_ok h
  obtain ⟨db₂, hadd, rfl⟩ := statement_inv h₂
  exact ⟨db₁, db₂, hfound, hadd, h⟩

end StormRelay.Admin
