/-
The permission table and the routes agree.

`requiredPermission` and `apiRoutes` are two case analyses over methods and paths, written
apart from each other.  Each call of a handler belongs to a family of resources and to a
level of access; a permission is one level of one family.

* `permission_matches_calls` — the permission of a method and path has the family of all
  calls made there and the highest of their levels; what no branch serves ends in 404 or
  405 without a call, or is refused with the refusal recorded.
-/
import Mathlib.Data.List.Infix
import StormRelay.Routes

namespace StormRelay.Api

open GoStd Auth Dialogue

/-! ### Families and levels -/

inductive Family where
  | version
  | incidents
  | events
  | policies
  | runbooks
  | executions
  | approvals
  | integrations
  | audit
  | serviceAccounts
  | identity
deriving DecidableEq, Repr

inductive Level where
  | read
  | write
  | run
  | control
  | decide
  | manage
deriving DecidableEq, Repr

/-- Whoever may act may also read what the action needs. -/
def Level.covers (held needed : Level) : Prop :=
  needed = held ∨ needed = .read

instance : DecidableRel Level.covers :=
  fun _ _ => inferInstanceAs (Decidable (_ ∨ _))

/-- The family and the level a permission stands for; the deny permission stands for
nothing. -/
def scopeOf : Permission → Option (Family × Level)
  | .versionRead => some (.version, .read)
  | .incidentsRead => some (.incidents, .read)
  | .incidentsWrite => some (.incidents, .write)
  | .eventsRead => some (.events, .read)
  | .policiesRead => some (.policies, .read)
  | .policiesWrite => some (.policies, .write)
  | .runbooksRead => some (.runbooks, .read)
  | .runbooksWrite => some (.runbooks, .write)
  | .runbooksRun => some (.runbooks, .run)
  | .executionsRead => some (.executions, .read)
  | .executionsControl => some (.executions, .control)
  | .approvalsRead => some (.approvals, .read)
  | .approvalsDecide => some (.approvals, .decide)
  | .integrationsRead => some (.integrations, .read)
  | .integrationsWrite => some (.integrations, .write)
  | .auditRead => some (.audit, .read)
  | .serviceAccounts => some (.serviceAccounts, .manage)
  | .identityManage => some (.identity, .manage)
  | .deny => none

/-- The family of resources a call touches. -/
def Call.family : Call → Family
  | .listServiceAccounts | .createServiceAccount | .getServiceAccount _
  | .updateServiceAccount _ | .listServiceAccountKeys _ | .createServiceAccountKey _
  | .revokeServiceAccountKey _ => .serviceAccounts
  | .listOIDCProviders | .discoverIssuer | .createOIDCProvider | .getOIDCProvider _
  | .updateOIDCProvider _ | .listOIDCIdentities _ | .createOIDCIdentity _
  | .updateOIDCIdentity _ => .identity
  | .listSources | .createSource | .getSourceCredentials _ | .publishEvent (.sourceTest _)
  | .listNotificationChannels | .createNotificationChannel | .listPlugins | .discoverPlugin
  | .registerPlugin | .getPlugin _ | .pluginCredential _ | .callPlugin _ => .integrations
  | .listIncidents | .ensureManualSource | .publishEvent .manualIncident | .getIncident _
  | .listIncidentEvents _ | .transitionIncident _ _ => .incidents
  | .listPolicies | .applyPolicy => .policies
  | .exportAudit | .recordAudit _ _ => .audit
  | .listRunbooks | .applyRunbook | .startExecution _ => .runbooks
  | .listExecutions | .getExecution _ | .changeExecutionState _ _ | .startExecutionRollback _
  | .retryExecutionStep _ _ => .executions
  | .listApprovals | .decideApproval _ _ => .approvals

/-- A call that changes the tables, publishes an event or reaches a plugin. -/
def Call.changes : Call → Bool
  | .createServiceAccount | .updateServiceAccount _ | .createServiceAccountKey _
  | .revokeServiceAccountKey _ | .createOIDCProvider | .updateOIDCProvider _
  | .createOIDCIdentity _ | .updateOIDCIdentity _ | .createSource | .publishEvent _
  | .ensureManualSource | .transitionIncident _ _ | .applyPolicy | .createNotificationChannel
  | .applyRunbook | .startExecution _ | .changeExecutionState _ _ | .startExecutionRollback _
  | .retryExecutionStep _ _ | .decideApproval _ _ | .discoverPlugin | .registerPlugin
  | .callPlugin _ | .recordAudit _ _ => true
  | _ => false

/-- The level at which the resources of a family are read; service accounts and identities
are managed as a whole. -/
def Family.readLevel : Family → Level
  | .serviceAccounts | .identity => .manage
  | _ => .read

def Family.changeLevel : Family → Level
  | .serviceAccounts | .identity => .manage
  | .executions => .control
  | .approvals => .decide
  | _ => .write

/-- The level of access of a call.  Starting an execution runs a runbook and does not change
it. -/
def Call.level : Call → Level
  | .startExecution _ => .run
  | c => if c.changes then c.family.changeLevel else c.family.readLevel

theorem level_ne_read_of_changes {c : Call} (h : c.changes = true) : c.level ≠ .read := by
  have hchange : c.family.changeLevel ≠ .read := by
    cases c.family <;> decide
  unfold Call.level
  split
  · decide
  · rwa [if_pos h]

/-! ### Branches and their calls -/

def Branch.purpose : Branch → Option Call
  | .version | .listRoles | .validatePolicy | .validateRunbook | .notFound _
  | .methodNotAllowed => none
  | .listServiceAccounts => some .listServiceAccounts
  | .createServiceAccount => some .createServiceAccount
  | .getServiceAccount id => some (.getServiceAccount id)
  | .updateServiceAccount id => some (.updateServiceAccount id)
  | .listServiceAccountKeys id => some (.listServiceAccountKeys id)
  | .createServiceAccountKey id => some (.createServiceAccountKey id)
  | .revokeServiceAccountKey id => some (.revokeServiceAccountKey id)
  | .listOIDCProviders => some .listOIDCProviders
  | .createOIDCProvider => some .createOIDCProvider
  | .getOIDCProvider id => some (.getOIDCProvider id)
  | .updateOIDCProvider id => some (.updateOIDCProvider id)
  | .listOIDCIdentities providerID => some (.listOIDCIdentities providerID)
  | .createOIDCIdentity providerID => some (.createOIDCIdentity providerID)
  | .updateOIDCIdentity id => some (.updateOIDCIdentity id)
  | .listSources => some .listSources
  | .createSource => some .createSource
  | .testSource id => some (.publishEvent (.sourceTest id))
  | .listIncidents => some .listIncidents
  | .createManualIncident => some (.publishEvent .manualIncident)
  | .getIncident id => some (.getIncident id)
  | .listIncidentEvents id => some (.listIncidentEvents id)
  | .transitionIncident id action => some (.transitionIncident id action)
  | .listPolicies => some .listPolicies
  | .applyPolicy => some .applyPolicy
  | .listNotificationChannels => some .listNotificationChannels
  | .createNotificationChannel => some .createNotificationChannel
  | .exportAudit => some .exportAudit
  | .listRunbooks => some .listRunbooks
  | .applyRunbook => some .applyRunbook
  | .startExecution key => some (.startExecution key)
  | .listExecutions => some .listExecutions
  | .getExecution id => some (.getExecution id)
  | .changeExecutionState id action => some (.changeExecutionState id action)
  | .startExecutionRollback id => some (.startExecutionRollback id)
  | .retryExecutionStep id stepID => some (.retryExecutionStep id stepID)
  | .listApprovals => some .listApprovals
  | .decideApproval id decision => some (.decideApproval id decision)
  | .listPlugins => some .listPlugins
  | .registerPlugin => some .registerPlugin
  | .testPlugin key => some (.callPlugin key)

/-- A branch that no request is served by. -/
def Branch.unserved : Branch → Bool
  | .notFound _ | .methodNotAllowed => true
  | _ => false

section Calls

variable {P : Call → Prop} {c : Call} {tenantID : String} {checks : Checks}

theorem only_callThen {onError : TxError → Webhook.Answer} {next : Found → Handler} :
    Only P (callThen c onError next) ↔ P c ∧ ∀ found, Only P (next found) := by
  constructor
  · rintro ⟨hc, hnext⟩
    exact ⟨hc, fun found => hnext (.ok found)⟩
  rintro ⟨hc, hnext⟩
  refine ⟨hc, fun reply => ?_⟩
  cases reply with
  | ok found => exact hnext found
  | invalid message | failed err => trivial

theorem only_storeCall {status : ℕ} : Only P (storeCall c status) ↔ P c := by
  simp [storeCall, only_callThen]

theorem only_unprocessable {code : String} : Only P (unprocessable c code) ↔ P c := by
  simp [unprocessable, only_callThen]

theorem only_creation {code code' message : String} :
    Only P (creation c code code' message) ↔ P c := by
  refine ⟨fun h => h.1, fun h => ⟨h, fun reply => ?_⟩⟩
  cases reply <;> trivial

theorem only_checked {answer : Option Webhook.Answer} {handler : Handler}
    (h : Only P handler) : Only P (checked answer handler) := by
  cases answer with
  | none => exact h
  | some answer => trivial

def Within (purpose c : Call) : Prop :=
  c.family = purpose.family ∧ purpose.level.covers c.level

theorem within_self (c : Call) : Within c c :=
  ⟨rfl, .inl rfl⟩

/-- **What a branch calls is within the reach of its purpose.** -/
theorem calls_within (b : Branch) (tenantID : String) (checks : Checks) :
    Only (fun c => ∃ purpose, b.purpose = some purpose ∧ Within purpose c)
      (b.handle tenantID checks) := by
  cases b with
  | version | listRoles | notFound | methodNotAllowed => trivial
  | validatePolicy | validateRunbook => exact only_checked trivial
  | listServiceAccounts | getServiceAccount | listServiceAccountKeys | revokeServiceAccountKey
  | listOIDCProviders | getOIDCProvider | listOIDCIdentities | listSources | getIncident
  | listIncidentEvents | listPolicies | listNotificationChannels | listRunbooks
  | listExecutions | getExecution | changeExecutionState | startExecutionRollback
  | listApprovals | listPlugins =>
    exact only_storeCall.mpr ⟨_, rfl, within_self _⟩
  | updateServiceAccount | updateOIDCProvider | createOIDCIdentity | updateOIDCIdentity
  | listIncidents | transitionIncident | exportAudit | startExecution | retryExecutionStep
  | decideApproval =>
    exact only_checked (only_storeCall.mpr ⟨_, rfl, within_self _⟩)
  | createServiceAccount | createServiceAccountKey | applyPolicy | applyRunbook =>
    exact only_checked (only_unprocessable.mpr ⟨_, rfl, within_self _⟩)
  | createSource | createNotificationChannel =>
    exact only_checked (only_creation.mpr ⟨_, rfl, within_self _⟩)
  | createOIDCProvider =>
    refine only_checked (only_callThen.mpr ⟨⟨_, rfl, rfl, .inl rfl⟩, fun _ => ?_⟩)
    exact only_storeCall.mpr ⟨_, rfl, within_self _⟩
  | testSource id =>
    refine only_callThen.mpr ⟨⟨_, rfl, rfl, .inr rfl⟩, fun found => ?_⟩
    split
    · trivial
    split
    · trivial
    split
    · trivial
    exact only_callThen.mpr ⟨⟨_, rfl, within_self _⟩, fun _ => trivial⟩
  | createManualIncident =>
    refine only_checked (only_callThen.mpr ⟨⟨_, rfl, rfl, .inl rfl⟩, fun _ => ?_⟩)
    split
    · trivial
    exact only_callThen.mpr ⟨⟨_, rfl, within_self _⟩, fun _ => trivial⟩
  | registerPlugin =>
    refine only_checked (only_callThen.mpr ⟨⟨_, rfl, rfl, .inl rfl⟩, fun _ => ?_⟩)
    exact only_unprocessable.mpr ⟨_, rfl, within_self _⟩
  | testPlugin key =>
    refine only_callThen.mpr ⟨⟨_, rfl, rfl, .inr rfl⟩, fun found => only_checked ?_⟩
    split
    · trivial
    refine only_callThen.mpr ⟨⟨_, rfl, rfl, .inr rfl⟩, fun _ => ?_⟩
    exact only_callThen.mpr ⟨⟨_, rfl, within_self _⟩, fun _ => trivial⟩

theorem mayCall_purpose {b : Branch} (h : b.purpose = some c) :
    ∃ tenantID checks, MayCall (b.handle tenantID checks) c := by
  refine ⟨"", {}, ?_⟩
  cases b with
  | version | listRoles | notFound | methodNotAllowed | validatePolicy | validateRunbook =>
    cases h
  | createOIDCProvider | registerPlugin | createManualIncident | testSource =>
    obtain rfl := Option.some.inj h
    exact MayCall.after (.ok {}) mayCall_first
  | testPlugin key =>
    obtain rfl := Option.some.inj h
    exact MayCall.after (.ok {}) (MayCall.after (.ok {}) mayCall_first)
  | _ =>
    obtain rfl := Option.some.inj h
    exact mayCall_first

end Calls

/-! ### Paths

A path is compared as a whole with one of `places`, or read on behind one of `heads`.  One
path, that of the check of a runbook, is compared as a whole and lies behind a head. -/

def heads : List String :=
  ["/api/v1/service-accounts/", "/api/v1/service-account-keys/", "/api/v1/oidc/providers/",
    "/api/v1/oidc/identities/", "/api/v1/sources/", "/api/v1/incidents/", "/api/v1/runbooks/",
    "/api/v1/executions/", "/api/v1/approvals/", "/api/v1/plugins/"]

def places : List String :=
  ["/api/v1/version", "/api/v1/auth/roles", "/api/v1/service-accounts",
    "/api/v1/oidc/providers", "/api/v1/sources", "/api/v1/incidents",
    "/api/v1/policies/validate", "/api/v1/policies", "/api/v1/notification-channels",
    "/api/v1/audit/export", "/api/v1/runbooks", "/api/v1/executions", "/api/v1/approvals",
    "/api/v1/plugins"]

theorem hasHead_iff {s head : String} : hasHead s head = true ↔ head.toList <+: s.toList := by
  rw [hasHead, List.isPrefixOf_iff_prefix]

theorem heads_apart : ∀ head ∈ heads, ∀ other ∈ heads,
    head = other ∨ (hasHead head other || hasHead other head) = false := by
  decide +kernel

theorem places_apart : ∀ head ∈ heads, ∀ place ∈ places, hasHead place head = false := by
  decide +kernel

theorem head_unique {path head : String} (hhead : head ∈ heads)
    (h : hasHead path head = true) :
    (∀ other ∈ heads, other ≠ head → hasHead path other = false)
      ∧ ∀ place ∈ places, path ≠ place := by
  refine ⟨fun other hother hne => ?_, ?_⟩
  · -- two heads of one path would be comparable
    rw [← Bool.not_eq_true]
    intro hboth
    have hcomp := List.prefix_or_prefix_of_prefix (hasHead_iff.mp h) (hasHead_iff.mp hboth)
    rw [← hasHead_iff, ← hasHead_iff, or_comm, ← Bool.or_eq_true] at hcomp
    rw [(heads_apart head hhead other hother).resolve_left (Ne.symm hne)] at hcomp
    cases hcomp
  · rintro place hplace rfl
    rw [places_apart head hhead path hplace] at h
    cases h

section Routes

variable {method path : String} {c : Call}

def Agree (branch : Branch) (permission : Permission) : Prop :=
  ∀ c, branch.purpose = some c → scopeOf permission = some (c.family, c.level)

variable {permission : Permission}

theorem agree_none {branch : Branch} (h : branch.purpose = none) :
    Agree branch permission := by
  intro c hc
  rw [h] at hc
  cases hc

theorem agree_call {branch : Branch} (h : branch.purpose = some c)
    (hscope : scopeOf permission = some (c.family, c.level)) : Agree branch permission := by
  intro c' hc'
  obtain rfl := Option.some.inj (h.symm.trans hc')
  exact hscope

theorem agree_ite {p : Prop} [Decidable p] {yes no : Branch} (hyes : p → Agree yes permission)
    (hno : ¬p → Agree no permission) :
    Agree (if p then yes else no) permission := by
  by_cases h : p
  · rw [if_pos h]
    exact hyes h
  · rw [if_neg h]
    exact hno h

theorem agree_split {p : Prop} [Decidable p] {yes no : Branch} {whenYes whenNo : Permission}
    (hyes : Agree yes whenYes) (hno : Agree no whenNo) :
    Agree (if p then yes else no) (if p then whenYes else whenNo) := by
  by_cases h : p
  · rw [if_pos h, if_pos h]
    exact hyes
  · rw [if_neg h, if_neg h]
    exact hno

theorem serviceAccountRoute_agree :
    Agree (serviceAccountRoute method path) .serviceAccounts := by
  unfold serviceAccountRoute
  split
  · exact agree_ite (fun _ => agree_call rfl rfl) fun _ =>
      agree_ite (fun _ => agree_call rfl rfl) fun _ => agree_none rfl
  · exact agree_ite (fun _ => agree_call rfl rfl) fun _ =>
      agree_ite (fun _ => agree_call rfl rfl) fun _ => agree_none rfl
  · exact agree_none rfl

theorem serviceAccountKeyRoute_agree :
    Agree (serviceAccountKeyRoute method path) .serviceAccounts := by
  unfold serviceAccountKeyRoute
  split
  · exact agree_ite (fun _ => agree_call rfl rfl) fun _ => agree_none rfl
  · exact agree_none rfl

theorem oidcProviderRoute_agree : Agree (oidcProviderRoute method path) .identityManage := by
  unfold oidcProviderRoute
  split
  · exact agree_ite (fun _ => agree_none rfl) fun _ =>
      agree_ite (fun _ => agree_call rfl rfl) fun _ =>
        agree_ite (fun _ => agree_call rfl rfl) fun _ => agree_none rfl
  · refine agree_ite (fun _ => agree_none rfl) fun _ => agree_ite (fun _ => ?_) fun _ =>
      agree_none rfl
    exact agree_ite (fun _ => agree_call rfl rfl) fun _ =>
      agree_ite (fun _ => agree_call rfl rfl) fun _ => agree_none rfl
  · exact agree_none rfl

theorem oidcIdentityRoute_agree : Agree (oidcIdentityRoute method path) .identityManage := by
  unfold oidcIdentityRoute
  exact agree_ite (fun _ => agree_none rfl) fun _ => agree_call rfl rfl

theorem incidentRoute_agree :
    Agree (incidentRoute method path)
      (if method = "GET" then .incidentsRead else .incidentsWrite) := by
  have hget : ∀ {b : Branch} {c : Call}, b.purpose = some c → c.family = .incidents →
      c.level = .read → method = "GET" →
      Agree b (if method = "GET" then .incidentsRead else .incidentsWrite) := by
    intro b c hb hfamily hlevel hmethod
    rw [if_pos hmethod]
    exact agree_call hb (by rw [hfamily, hlevel]; rfl)
  have hpost : ∀ {b : Branch} {c : Call}, b.purpose = some c → c.family = .incidents →
      c.level = .write → method = "POST" →
      Agree b (if method = "GET" then .incidentsRead else .incidentsWrite) := by
    intro b c hb hfamily hlevel hmethod
    rw [if_neg (by rw [hmethod]; decide)]
    exact agree_call hb (by rw [hfamily, hlevel]; rfl)
  unfold incidentRoute
  split
  · exact agree_none rfl
  exact agree_ite (fun _ => agree_none rfl) fun _ =>
    agree_ite (fun h => hget rfl rfl rfl h.2) fun _ =>
    agree_ite (fun h => hget rfl rfl rfl h.2) fun _ =>
    agree_ite (fun h => hpost rfl rfl rfl h.2) fun _ =>
    agree_ite (fun h => hpost rfl rfl rfl h.2) fun _ => agree_none rfl

theorem runbookRoute_agree : Agree (runbookRoute method path) .runbooksRun := by
  unfold runbookRoute
  split
  · exact agree_ite (fun _ => agree_call rfl rfl) fun _ => agree_none rfl
  · exact agree_none rfl

theorem executionRoute_agree :
    Agree (executionRoute method path)
      (if method = "GET" then .executionsRead else .executionsControl) := by
  have hpost : ∀ {b : Branch} {c : Call}, b.purpose = some c → c.family = .executions →
      c.level = .control → method = "POST" →
      Agree b (if method = "GET" then .executionsRead else .executionsControl) := by
    intro b c hb hfamily hlevel hmethod
    rw [if_neg (by rw [hmethod]; decide)]
    exact agree_call hb (by rw [hfamily, hlevel]; rfl)
  unfold executionRoute
  split
  · refine agree_ite (fun h => ?_) fun _ => agree_none rfl
    rw [if_pos h]
    exact agree_call rfl rfl
  · exact agree_ite (fun h => hpost rfl rfl rfl h.1) fun _ =>
      agree_ite (fun h => hpost rfl rfl rfl h.1) fun _ => agree_none rfl
  · exact agree_ite (fun h => hpost rfl rfl rfl h.2.2) fun _ => agree_none rfl
  · exact agree_none rfl

theorem approvalRoute_agree : Agree (approvalRoute method path) .approvalsDecide := by
  unfold approvalRoute
  split
  · exact agree_ite (fun _ => agree_none rfl) fun _ => agree_call rfl rfl
  · exact agree_none rfl

theorem pluginRoute_agree : Agree (pluginRoute method path) .integrationsWrite := by
  unfold pluginRoute
  split
  · exact agree_ite (fun _ => agree_call rfl rfl) fun _ => agree_none rfl
  · exact agree_none rfl

theorem agree_behind_head {head : String} (hhead : head ∈ heads) (h : hasHead path head = true)
    (hcheck : path ≠ "/api/v1/runbooks/validate") :
    Agree (apiRoutes method path) (requiredPermission method path) := by
  obtain ⟨hothers, hplaces⟩ := head_unique hhead h
  simp only [places, List.forall_mem_cons, ne_eq] at hplaces
  simp only [heads, List.mem_cons, List.not_mem_nil, or_false] at hhead
  rcases hhead with rfl | rfl | rfl | rfl | rfl | rfl | rfl | rfl | rfl | rfl
  all_goals
    simp only [heads, List.forall_mem_cons, ne_eq, String.reduceEq, not_false_eq_true,
      not_true_eq_false, forall_const, IsEmpty.forall_iff, true_and] at hothers
    simp only [apiRoutes, requiredPermission, h, hothers, hplaces, hcheck, and_false, false_and,
      if_false, if_true, Bool.false_eq_true, false_or, or_false, or_true, true_and]
  · exact serviceAccountRoute_agree
  · exact serviceAccountKeyRoute_agree
  · exact oidcProviderRoute_agree
  · exact oidcIdentityRoute_agree
  · exact agree_ite (fun _ => agree_call rfl rfl) fun _ => agree_none rfl
  · exact incidentRoute_agree
  · exact runbookRoute_agree
  · exact executionRoute_agree
  · exact approvalRoute_agree
  · exact pluginRoute_agree

theorem agree_at_place (hplace : path ∈ places) :
    Agree (apiRoutes method path) (requiredPermission method path) := by
  have hheads : ∀ head ∈ heads, hasHead path head = false :=
    fun head hhead => places_apart head hhead path hplace
  simp only [heads, List.forall_mem_cons] at hheads
  -- one call for `GET`, and one for each of `GET` and `POST` under one permission or two
  have hget : ∀ {b : Branch} {p : Permission}, Agree b p →
      Agree (if method = "GET" then b else .notFound "route not found") p :=
    fun hb => agree_ite (fun _ => hb) fun _ => agree_none rfl
  have hboth : ∀ {b b' : Branch} {p : Permission}, Agree b p → Agree b' p →
      Agree (if method = "GET" then b
        else if method = "POST" then b' else .notFound "route not found") p :=
    fun hb hb' => agree_ite (fun _ => hb) fun _ => agree_ite (fun _ => hb') fun _ => agree_none rfl
  have htwo : ∀ {b b' : Branch} {p p' : Permission}, Agree b p → Agree b' p' →
      Agree (if method = "GET" then b
        else if method = "POST" then b' else .notFound "route not found")
        (if method = "GET" then p else p') :=
    fun hb hb' => agree_split hb (agree_ite (fun _ => hb') fun _ => agree_none rfl)
  simp only [places, List.mem_cons, List.not_mem_nil, or_false] at hplace
  rcases hplace with rfl | rfl | rfl | rfl | rfl | rfl | rfl | rfl | rfl | rfl | rfl | rfl | rfl
    | rfl
  all_goals
    simp only [apiRoutes, requiredPermission, hheads, String.reduceEq, and_false, false_and,
      if_false, if_true, Bool.false_eq_true, or_false, or_true, and_true, true_and]
  · exact hget (agree_none rfl)
  · exact hget (agree_none rfl)
  · exact hboth (agree_call rfl rfl) (agree_call rfl rfl)
  · exact hboth (agree_call rfl rfl) (agree_call rfl rfl)
  · exact htwo (agree_call rfl rfl) (agree_call rfl rfl)
  · -- incidents: a method other than these two is denied
    exact agree_split (agree_call rfl rfl) (agree_split (agree_call rfl rfl) (agree_none rfl))
  · exact agree_ite (fun _ => agree_none rfl) fun _ => agree_none rfl
  · exact htwo (agree_call rfl rfl) (agree_call rfl rfl)
  · exact htwo (agree_call rfl rfl) (agree_call rfl rfl)
  · exact hget (agree_call rfl rfl)
  · exact htwo (agree_call rfl rfl) (agree_call rfl rfl)
  · exact hget (agree_call rfl rfl)
  · exact hget (agree_call rfl rfl)
  · exact htwo (agree_call rfl rfl) (agree_call rfl rfl)

theorem agree_at_check :
    Agree (apiRoutes method "/api/v1/runbooks/validate")
      (requiredPermission method "/api/v1/runbooks/validate") := by
  have hhead : hasHead "/api/v1/runbooks/validate" "/api/v1/runbooks/" = true := by decide +kernel
  have hothers := (head_unique (by simp only [heads, List.mem_cons, true_or, or_true]) hhead).1
  simp only [heads, List.forall_mem_cons, ne_eq, String.reduceEq, not_false_eq_true,
    not_true_eq_false, forall_const, IsEmpty.forall_iff, true_and] at hothers
  have hroute : runbookRoute method "/api/v1/runbooks/validate"
      = .notFound "runbook route not found" := by
    have hsegments : segments "/api/v1/runbooks/validate" "/api/v1/runbooks/" = ["validate"] := by
      decide +kernel
    unfold runbookRoute
    rw [hsegments]
  simp only [apiRoutes, hhead, hothers, hroute, String.reduceEq, and_false, false_and, if_false,
    if_true, Bool.false_eq_true, true_and]
  exact agree_ite (fun _ => agree_none rfl) fun _ => agree_none rfl

theorem apiRoutes_elsewhere (hplaces : path ∉ places)
    (hheads : ∀ head ∈ heads, hasHead path head = false)
    (hcheck : path ≠ "/api/v1/runbooks/validate") :
    apiRoutes method path = .notFound "route not found" := by
  simp only [heads, List.forall_mem_cons] at hheads
  simp only [places, List.mem_cons, List.not_mem_nil, or_false, not_or] at hplaces
  simp only [apiRoutes, hheads, hplaces, hcheck, and_false, false_and, if_false,
    Bool.false_eq_true]

/-- **The two case analyses agree.** -/
theorem apiRoutes_scope (method path : String) :
    Agree (apiRoutes method path) (requiredPermission method path) := by
  by_cases hcheck : path = "/api/v1/runbooks/validate"
  · rw [hcheck]
    exact agree_at_check
  by_cases hplace : path ∈ places
  · exact agree_at_place hplace
  by_cases hhead : ∃ head ∈ heads, hasHead path head = true
  · obtain ⟨head, hmem, h⟩ := hhead
    exact agree_behind_head hmem h hcheck
  · push Not at hhead
    rw [apiRoutes_elsewhere hplace (by simpa using hhead) hcheck]
    exact agree_none rfl

/-! ### Requests -/

/-- The calls that a request of this method and path may lead to. -/
def Calls (method path : String) (c : Call) : Prop :=
  ∃ tenantID checks, MayCall ((apiRoutes method path).handle tenantID checks) c

theorem Calls.purpose {c : Call} (h : Calls method path c) :
    ∃ purpose, (apiRoutes method path).purpose = some purpose ∧ Within purpose c
      ∧ Calls method path purpose := by
  obtain ⟨tenantID, checks, hcall⟩ := h
  obtain ⟨purpose, hpurpose, hwithin⟩ := hcall.of_only (calls_within _ tenantID checks)
  exact ⟨purpose, hpurpose, hwithin, mayCall_purpose hpurpose⟩

variable {checks : Checks}

theorem requireAuth_cases {identity : Principal} {calls : List Call} {response : Response}
    (h : Runs (requireAuth identity method path checks) calls response) :
    (identity.allowed (requiredPermission method path) = false
        ∧ calls = [.recordAudit "authorization.denied" (safePath path)] ∧ response.status = 403)
      ∨ Runs ((apiRoutes method path).handle identity.tenantID checks) calls response := by
  unfold requireAuth at h
  split at h
  · next hdenied =>
    left
    cases h with
    | ask reply hdone =>
      obtain ⟨rfl, rfl⟩ := runs_done_iff.mp hdone
      exact ⟨hdenied, rfl, rfl⟩
  · exact .inr h

theorem runs_refused {identity : Principal}
    (h : identity.allowed (requiredPermission method path) = false) :
    Runs (requireAuth identity method path checks)
      [.recordAudit "authorization.denied" (safePath path)]
      (.error ⟨403, "forbidden", "permission denied"⟩) := by
  rw [requireAuth, if_pos h]
  exact .ask default .done

theorem unserved_run {b : Branch} (hb : b.unserved = true) {tenantID : String} {calls : List Call}
    {response : Response} (h : Runs (b.handle tenantID checks) calls response) :
    calls = [] ∧ (response.status = 404 ∨ response.status = 405) := by
  cases b with
  | notFound message =>
    obtain ⟨rfl, rfl⟩ := runs_done_iff.mp h
    exact ⟨rfl, .inl rfl⟩
  | methodNotAllowed =>
    obtain ⟨rfl, rfl⟩ := runs_done_iff.mp h
    exact ⟨rfl, .inr rfl⟩
  | _ => cases hb

end Routes

/-- **The permission table and the routes agree.**  If a method and path lead to calls, the
permission they require is not the deny permission: it has the family of all the calls and
the level of one of them that covers the others, and it is no read permission if a call
changes something.  What no branch serves ends, once authenticated, in 404 or 405 without
a call, or is refused with 403, for which the record of the refusal is the only call. -/
theorem permission_matches_calls (method path : String) :
    ((∃ c, Calls method path c) →
      requiredPermission method path ≠ .deny
        ∧ ∃ family level, scopeOf (requiredPermission method path) = some (family, level)
          ∧ (∀ c, Calls method path c → c.family = family ∧ level.covers c.level)
          ∧ (∃ c, Calls method path c ∧ c.level = level)
          ∧ ((∃ c, Calls method path c ∧ c.changes = true) → level ≠ .read))
      ∧ ((apiRoutes method path).unserved = true →
        ∀ identity checks calls response,
          Runs (requireAuth identity method path checks) calls response →
          (calls = [] ∧ (response.status = 404 ∨ response.status = 405))
            ∨ (calls = [.recordAudit "authorization.denied" (safePath path)]
              ∧ response.status = 403
              ∧ identity.allowed (requiredPermission method path) = false)) := by
  constructor
  · rintro ⟨c, hc⟩
    obtain ⟨purpose, hpurpose, -, hcalled⟩ := hc.purpose
    have hscope := apiRoutes_scope method path purpose hpurpose
    have hwithin : ∀ c, Calls method path c → Within purpose c := by
      intro c hc
      obtain ⟨purpose', hpurpose', hin, -⟩ := hc.purpose
      obtain rfl := Option.some.inj (hpurpose'.symm.trans hpurpose)
      exact hin
    refine ⟨fun hdeny => ?_, purpose.family, purpose.level, hscope, hwithin,
      ⟨purpose, hcalled, rfl⟩, ?_⟩
    · rw [hdeny] at hscope
      cases hscope
    rintro ⟨c, hc, hchanges⟩ hread
    -- only reading is covered by a read permission
    rcases (hwithin c hc).2 with hlevel | hlevel
    · exact level_ne_read_of_changes hchanges (hlevel.trans hread)
    · exact level_ne_read_of_changes hchanges hlevel
  intro hunserved identity checks calls response h
  rcases requireAuth_cases h with ⟨hdenied, hcalls, hstatus⟩ | h
  · exact .inr ⟨hcalls, hstatus, hdenied⟩
  · exact .inl (unserved_run hunserved h)

/-- A responder that starts a runbook. -/
theorem run_permission_matches :
    requiredPermission "POST" "/api/v1/runbooks/failover/run" ≠ .deny
      ∧ ∃ family level, scopeOf (requiredPermission "POST" "/api/v1/runbooks/failover/run")
          = some (family, level)
        ∧ ((∃ c, Calls "POST" "/api/v1/runbooks/failover/run" c ∧ c.changes = true) →
          level ≠ .read) := by
  have hbranch : apiRoutes "POST" "/api/v1/runbooks/failover/run" = .startExecution "failover" := by
    decide +kernel
  have hcalled : ∃ c, Calls "POST" "/api/v1/runbooks/failover/run" c := by
    refine ⟨.startExecution "failover", mayCall_purpose ?_⟩
    rw [hbranch]
    rfl
  obtain ⟨hdeny, family, level, hscope, -, -, hlevel⟩ :=
    (permission_matches_calls "POST" "/api/v1/runbooks/failover/run").1 hcalled
  exact ⟨hdeny, family, level, hscope, hlevel⟩

/-- A request for a path that nothing serves, made by a viewer, changes the audit table. -/
theorem unserved_request_recorded :
    (apiRoutes "GET" "/api/v1/teams").unserved = true
      ∧ ∃ calls response, Runs (requireAuth ⟨"t1", "service-account", "a1", [.viewer], "k1"⟩ "GET"
          "/api/v1/teams" {}) calls response
        ∧ response.status = 403 ∧ ∃ c ∈ calls, c.changes = true := by
  have hdeny : requiredPermission "GET" "/api/v1/teams" = .deny := by decide +kernel
  refine ⟨by decide +kernel, _, _, runs_refused ?_, rfl, _, List.mem_cons_self, rfl⟩
  rw [hdeny]
  exact not_allowed_deny _

end StormRelay.Api
