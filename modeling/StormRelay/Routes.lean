/-
The routes of the API (`apiRoutes` and its sub-routers in `internal/api`).

A request that passed authentication is routed by its method and path to a branch of a
handler.  What a branch does is a dialogue: it calls the store, the event bus, a plugin or
an identity provider, and answers.

* `requireAuth` — the check of the permission before the routes.
-/
import StormRelay.Auth
import StormRelay.Dialogue
import StormRelay.Webhook

namespace StormRelay.Api

open GoStd Auth
open Webhook (mapStoreError)

/-! ### Branches -/

/-- The branches of the handlers, with what they take from the path. -/
inductive Branch where
  | version
  | listRoles
  | listServiceAccounts
  | createServiceAccount
  | getServiceAccount (id : String)
  | updateServiceAccount (id : String)
  | listServiceAccountKeys (id : String)
  | createServiceAccountKey (id : String)
  | revokeServiceAccountKey (id : String)
  | listOIDCProviders
  | createOIDCProvider
  | getOIDCProvider (id : String)
  | updateOIDCProvider (id : String)
  | listOIDCIdentities (providerID : String)
  | createOIDCIdentity (providerID : String)
  | updateOIDCIdentity (id : String)
  | listSources
  | createSource
  | testSource (id : String)
  | listIncidents
  | createManualIncident
  | getIncident (id : String)
  | listIncidentEvents (id : String)
  | transitionIncident (id action : String)
  | validatePolicy
  | listPolicies
  | applyPolicy
  | listNotificationChannels
  | createNotificationChannel
  | exportAudit
  | validateRunbook
  | listRunbooks
  | applyRunbook
  | startExecution (runbookKey : String)
  | listExecutions
  | getExecution (id : String)
  | changeExecutionState (id action : String)
  | startExecutionRollback (id : String)
  | retryExecutionStep (id stepID : String)
  | listApprovals
  | decideApproval (id decision : String)
  | listPlugins
  | registerPlugin
  | testPlugin (key : String)
  | notFound (message : String)
  | methodNotAllowed
deriving DecidableEq, Repr

/-- The segments of a path behind `head`. -/
def segments (path head : String) : List String :=
  splitSlashes (trimSlashes (trimHead path head))

def serviceAccountRoute (method path : String) : Branch :=
  match segments path "/api/v1/service-accounts/" with
  | [id] =>
    if method = "GET" then .getServiceAccount id
    else if method = "PUT" then .updateServiceAccount id
    else .notFound "service account route not found"
  | [id, sub] =>
    if sub = "keys" ∧ method = "GET" then .listServiceAccountKeys id
    else if sub = "keys" ∧ method = "POST" then .createServiceAccountKey id
    else .notFound "service account route not found"
  | _ => .notFound "service account route not found"

def serviceAccountKeyRoute (method path : String) : Branch :=
  match segments path "/api/v1/service-account-keys/" with
  | [id, sub] =>
    if sub = "revoke" ∧ method = "POST" then .revokeServiceAccountKey id
    else .notFound "service account key route not found"
  | _ => .notFound "service account key route not found"

def oidcProviderRoute (method path : String) : Branch :=
  match segments path "/api/v1/oidc/providers/" with
  | [id] =>
    if id = "" then .notFound "route not found"
    else if method = "GET" then .getOIDCProvider id
    else if method = "PUT" then .updateOIDCProvider id
    else .methodNotAllowed
  | [id, sub] =>
    if id = "" then .notFound "route not found"
    else if sub = "identities" then
      if method = "GET" then .listOIDCIdentities id
      else if method = "POST" then .createOIDCIdentity id
      else .methodNotAllowed
    else .notFound "route not found"
  | _ => .notFound "route not found"

def oidcIdentityRoute (method path : String) : Branch :=
  let id := trimSlashes (trimHead path "/api/v1/oidc/identities/")
  if id = "" ∨ contains id "/" = true ∨ method ≠ "PUT" then .notFound "route not found"
  else .updateOIDCIdentity id

def incidentRoute (method path : String) : Branch :=
  match segments path "/api/v1/incidents/" with
  | [] => .notFound "incident not found"
  | id :: rest =>
    if id = "" then .notFound "incident not found"
    else if rest = [] ∧ method = "GET" then .getIncident id
    else if rest = ["events"] ∧ method = "GET" then .listIncidentEvents id
    else if rest = ["ack"] ∧ method = "POST" then .transitionIncident id "ack"
    else if rest = ["resolve"] ∧ method = "POST" then .transitionIncident id "resolve"
    else .notFound "incident route not found"

def runbookRoute (method path : String) : Branch :=
  match segments path "/api/v1/runbooks/" with
  | [key, sub] =>
    if sub = "run" ∧ method = "POST" then .startExecution key
    else .notFound "runbook route not found"
  | _ => .notFound "runbook route not found"

def executionRoute (method path : String) : Branch :=
  match segments path "/api/v1/executions/" with
  | [id] => if method = "GET" then .getExecution id else .notFound "execution route not found"
  | [id, action] =>
    if method = "POST" ∧ action ∈ ["pause", "resume", "cancel"] then
      .changeExecutionState id action
    else if method = "POST" ∧ action = "rollback" then .startExecutionRollback id
    else .notFound "execution route not found"
  | [id, steps, stepID, retry] =>
    if steps = "steps" ∧ retry = "retry" ∧ method = "POST" then .retryExecutionStep id stepID
    else .notFound "execution route not found"
  | _ => .notFound "execution route not found"

def approvalRoute (method path : String) : Branch :=
  match segments path "/api/v1/approvals/" with
  | [id, verb] =>
    if method ≠ "POST" ∨ (verb ≠ "approve" ∧ verb ≠ "reject") then
      .notFound "approval route not found"
    else .decideApproval id (if verb = "reject" then "rejected" else "approved")
  | _ => .notFound "approval route not found"

/-- The route of `testPlugin`. -/
def pluginRoute (method path : String) : Branch :=
  match segments path "/api/v1/plugins/" with
  | [key, sub] =>
    if sub = "test" ∧ method = "POST" then .testPlugin key
    else .notFound "plugin route not found"
  | _ => .notFound "plugin route not found"

/-- The source that `testSource` takes from the path. -/
def testedSource (path : String) : String :=
  trimTail (trimHead path "/api/v1/sources/") "/test"

def apiRoutes (method path : String) : Branch :=
  if method = "GET" ∧ path = "/api/v1/version" then .version
  else if path = "/api/v1/auth/roles" ∧ method = "GET" then .listRoles
  else if path = "/api/v1/service-accounts" ∧ method = "GET" then .listServiceAccounts
  else if path = "/api/v1/service-accounts" ∧ method = "POST" then .createServiceAccount
  else if hasHead path "/api/v1/service-accounts/" then serviceAccountRoute method path
  else if hasHead path "/api/v1/service-account-keys/" then serviceAccountKeyRoute method path
  else if path = "/api/v1/oidc/providers" ∧ method = "GET" then .listOIDCProviders
  else if path = "/api/v1/oidc/providers" ∧ method = "POST" then .createOIDCProvider
  else if hasHead path "/api/v1/oidc/providers/" then oidcProviderRoute method path
  else if hasHead path "/api/v1/oidc/identities/" then oidcIdentityRoute method path
  else if path = "/api/v1/sources" ∧ method = "GET" then .listSources
  else if path = "/api/v1/sources" ∧ method = "POST" then .createSource
  else if hasHead path "/api/v1/sources/" ∧ hasTail path "/test" ∧ method = "POST" then
    .testSource (testedSource path)
  else if path = "/api/v1/incidents" ∧ method = "GET" then .listIncidents
  else if path = "/api/v1/incidents" ∧ method = "POST" then .createManualIncident
  else if hasHead path "/api/v1/incidents/" then incidentRoute method path
  else if path = "/api/v1/policies/validate" ∧ method = "POST" then .validatePolicy
  else if path = "/api/v1/policies" ∧ method = "GET" then .listPolicies
  else if path = "/api/v1/policies" ∧ method = "POST" then .applyPolicy
  else if path = "/api/v1/notification-channels" ∧ method = "GET" then .listNotificationChannels
  else if path = "/api/v1/notification-channels" ∧ method = "POST" then
    .createNotificationChannel
  else if path = "/api/v1/audit/export" ∧ method = "GET" then .exportAudit
  else if path = "/api/v1/runbooks/validate" ∧ method = "POST" then .validateRunbook
  else if path = "/api/v1/runbooks" ∧ method = "GET" then .listRunbooks
  else if path = "/api/v1/runbooks" ∧ method = "POST" then .applyRunbook
  else if hasHead path "/api/v1/runbooks/" then runbookRoute method path
  else if path = "/api/v1/executions" ∧ method = "GET" then .listExecutions
  else if hasHead path "/api/v1/executions/" then executionRoute method path
  else if path = "/api/v1/approvals" ∧ method = "GET" then .listApprovals
  else if hasHead path "/api/v1/approvals/" then approvalRoute method path
  else if path = "/api/v1/plugins" ∧ method = "GET" then .listPlugins
  else if path = "/api/v1/plugins" ∧ method = "POST" then .registerPlugin
  else if hasHead path "/api/v1/plugins/" then pluginRoute method path
  else .notFound "route not found"

/-! ### Permissions -/

def requiredPermission (method path : String) : Permission :=
  if path = "/api/v1/version" then .versionRead
  else if path = "/api/v1/auth/roles" then .versionRead
  else if path = "/api/v1/service-accounts" ∨ hasHead path "/api/v1/service-accounts/"
      ∨ hasHead path "/api/v1/service-account-keys/" then .serviceAccounts
  else if path = "/api/v1/oidc/providers" ∨ hasHead path "/api/v1/oidc/providers/"
      ∨ hasHead path "/api/v1/oidc/identities/" then .identityManage
  else if path = "/api/v1/sources" ∧ method = "GET" then .integrationsRead
  else if path = "/api/v1/sources" ∨ hasHead path "/api/v1/sources/" then .integrationsWrite
  else if path = "/api/v1/incidents" ∧ method = "GET" then .incidentsRead
  else if path = "/api/v1/incidents" ∧ method = "POST" then .incidentsWrite
  else if hasHead path "/api/v1/incidents/" ∧ method = "GET" then .incidentsRead
  else if hasHead path "/api/v1/incidents/" then .incidentsWrite
  else if path = "/api/v1/policies" ∧ method = "GET" then .policiesRead
  else if path = "/api/v1/policies" ∨ path = "/api/v1/policies/validate" then .policiesWrite
  else if path = "/api/v1/notification-channels" ∧ method = "GET" then .integrationsRead
  else if path = "/api/v1/notification-channels" then .integrationsWrite
  else if path = "/api/v1/audit/export" then .auditRead
  else if path = "/api/v1/runbooks" ∧ method = "GET" then .runbooksRead
  else if path = "/api/v1/runbooks" ∨ path = "/api/v1/runbooks/validate" then .runbooksWrite
  else if hasHead path "/api/v1/runbooks/" then .runbooksRun
  else if path = "/api/v1/executions" ∨ (hasHead path "/api/v1/executions/" ∧ method = "GET") then
    .executionsRead
  else if hasHead path "/api/v1/executions/" then .executionsControl
  else if path = "/api/v1/approvals" then .approvalsRead
  else if hasHead path "/api/v1/approvals/" then .approvalsDecide
  else if path = "/api/v1/plugins" ∧ method = "GET" then .integrationsRead
  else if path = "/api/v1/plugins" ∨ hasHead path "/api/v1/plugins/" then .integrationsWrite
  else .deny

/-! ### Calls -/

inductive Origin where
  | manualIncident
  | sourceTest (sourceID : String)
deriving DecidableEq, Repr

/-- The calls of the handlers: on the store, on the event bus (`publishEvent`), on the
endpoint of a plugin (`discoverPlugin`, `callPlugin`) and on an identity provider
(`discoverIssuer`). -/
inductive Call where
  | listServiceAccounts
  | createServiceAccount
  | getServiceAccount (id : String)
  | updateServiceAccount (id : String)
  | listServiceAccountKeys (id : String)
  | createServiceAccountKey (id : String)
  | revokeServiceAccountKey (id : String)
  | listOIDCProviders
  | discoverIssuer
  | createOIDCProvider
  | getOIDCProvider (id : String)
  | updateOIDCProvider (id : String)
  | listOIDCIdentities (providerID : String)
  | createOIDCIdentity (providerID : String)
  | updateOIDCIdentity (id : String)
  | listSources
  | createSource
  | getSourceCredentials (id : String)
  | publishEvent (origin : Origin)
  | listIncidents
  | ensureManualSource
  | getIncident (id : String)
  | listIncidentEvents (id : String)
  | transitionIncident (id action : String)
  | listPolicies
  | applyPolicy
  | listNotificationChannels
  | createNotificationChannel
  | exportAudit
  | listRunbooks
  | applyRunbook
  | startExecution (runbookKey : String)
  | listExecutions
  | getExecution (id : String)
  | changeExecutionState (id action : String)
  | startExecutionRollback (id : String)
  | retryExecutionStep (id stepID : String)
  | listApprovals
  | decideApproval (id decision : String)
  | listPlugins
  | discoverPlugin
  | registerPlugin
  | getPlugin (key : String)
  | pluginCredential (key : String)
  | callPlugin (key : String)
  | recordAudit (action resourceID : String)
deriving DecidableEq, Repr

/-- What a handler reads in a reply: the source that `getSourceCredentials` found, and
whether a plugin declares an action. -/
structure Found where
  sourceTenant : String := ""
  sourceName : String := ""
  sourceEnabled : Bool := true
  hasAction : Bool := true

/-- The reply to a call; `invalid` is an error that `IsInvalidCreateInput` recognises. -/
inductive Reply where
  | ok (found : Found)
  | invalid (message : String)
  | failed (err : TxError)

instance : Inhabited Reply := ⟨.ok {}⟩

/-- `err.Error()` of a reply. -/
def errorText : TxError → String
  | .connBusy => "conn busy"
  | .noRows => "not found"
  | .failed message => message

inductive Response where
  | ok (status : ℕ)
  | error (answer : Webhook.Answer)
deriving DecidableEq, Repr

def Response.status : Response → ℕ
  | .ok status => status
  | .error answer => answer.status

abbrev Handler := Dialogue Call Reply Response

/-- What the checks of a request came to: those of its parameters and body, whether the body
names the action of a plugin, and the normalisation of the event it makes. -/
structure Checks where
  request : Option Webhook.Answer := none
  namesAction : Bool := true
  event : Option String := none

/-! ### Handlers -/

/-- One call, whose error goes to `onError`. -/
def callThen (c : Call) (onError : TxError → Webhook.Answer) (next : Found → Handler) : Handler :=
  .ask c fun reply =>
    match reply with
    | .ok found => next found
    | .invalid message => .done (.error (onError (.failed message)))
    | .failed err => .done (.error (onError err))

def storeCall (c : Call) (status : ℕ) : Handler :=
  callThen c mapStoreError fun _ => .done (.ok status)

def unprocessable (c : Call) (code : String) : Handler :=
  callThen c (fun err => ⟨422, code, errorText err⟩) fun _ => .done (.ok 201)

def creation (c : Call) (invalidCode failedCode message : String) : Handler :=
  .ask c fun reply =>
    match reply with
    | .ok _ => .done (.ok 201)
    | .invalid _ => .done (.error ⟨400, invalidCode, message⟩)
    | .failed _ => .done (.error ⟨500, failedCode, message⟩)

def checked (checks : Option Webhook.Answer) (handler : Handler) : Handler :=
  match checks with
  | some answer => .done (.error answer)
  | none => handler

def Handler.createManualIncident (checks : Checks) : Handler :=
  checked checks.request
    (callThen .ensureManualSource mapStoreError fun _ =>
      match checks.event with
      | some message => .done (.error ⟨400, "invalid_incident", message⟩)
      | none =>
        callThen (.publishEvent .manualIncident)
          (fun _ => ⟨503, "event_bus_unavailable", "incident could not be durably accepted"⟩)
          fun _ => .done (.ok 202))

def Handler.testSource (tenantID id : String) (checks : Checks) : Handler :=
  callThen (.getSourceCredentials id) mapStoreError fun found =>
    if found.sourceTenant ≠ tenantID ∨ found.sourceName = "manual-api" then
      .done (.error ⟨404, "not_found", "resource not found"⟩)
    else if found.sourceEnabled = false then
      .done (.error ⟨410, "source_disabled", "event source is disabled"⟩)
    else
      match checks.event with
      | some _ => .done (.error ⟨500, "normalization_failed", "failed to build test event"⟩)
      | none =>
        callThen (.publishEvent (.sourceTest id))
          (fun _ => ⟨503, "nats_unavailable", "event bus unavailable"⟩)
          fun _ => .done (.ok 202)

def Handler.createOIDCProvider (checks : Checks) : Handler :=
  checked checks.request
    (callThen .discoverIssuer
      (fun _ => ⟨422, "invalid_oidc_provider", "OIDC discovery validation failed"⟩)
      fun _ => storeCall .createOIDCProvider 201)

def Handler.registerPlugin (checks : Checks) : Handler :=
  checked checks.request
    (callThen .discoverPlugin (fun err => ⟨502, "plugin_discovery_failed", errorText err⟩)
      fun _ => unprocessable .registerPlugin "invalid_plugin")

def Handler.testPlugin (key : String) (checks : Checks) : Handler :=
  callThen (.getPlugin key) mapStoreError fun found =>
    checked checks.request
      (if checks.namesAction = false ∧ found.hasAction = false then
        .done (.error ⟨409, "plugin_manifest_invalid", "plugin has no declared actions"⟩)
      else
        callThen (.pluginCredential key) mapStoreError fun _ =>
          callThen (.callPlugin key) (fun err => ⟨502, "plugin_test_failed", errorText err⟩)
            fun _ => .done (.ok 200))

def Branch.handle (tenantID : String) (checks : Checks) : Branch → Handler
  | .version => .done (.ok 200)
  | .listRoles => .done (.ok 200)
  | .listServiceAccounts => storeCall .listServiceAccounts 200
  | .createServiceAccount =>
    checked checks.request (unprocessable .createServiceAccount "invalid_service_account")
  | .getServiceAccount id => storeCall (.getServiceAccount id) 200
  | .updateServiceAccount id =>
    checked checks.request (storeCall (.updateServiceAccount id) 200)
  | .listServiceAccountKeys id => storeCall (.listServiceAccountKeys id) 200
  | .createServiceAccountKey id =>
    checked checks.request
      (unprocessable (.createServiceAccountKey id) "invalid_service_account_key")
  | .revokeServiceAccountKey id => storeCall (.revokeServiceAccountKey id) 200
  | .listOIDCProviders => storeCall .listOIDCProviders 200
  | .createOIDCProvider => Handler.createOIDCProvider checks
  | .getOIDCProvider id => storeCall (.getOIDCProvider id) 200
  | .updateOIDCProvider id => checked checks.request (storeCall (.updateOIDCProvider id) 200)
  | .listOIDCIdentities providerID => storeCall (.listOIDCIdentities providerID) 200
  | .createOIDCIdentity providerID =>
    checked checks.request (storeCall (.createOIDCIdentity providerID) 201)
  | .updateOIDCIdentity id => checked checks.request (storeCall (.updateOIDCIdentity id) 200)
  | .listSources => storeCall .listSources 200
  | .createSource =>
    checked checks.request (creation .createSource "invalid_source" "source_creation_failed"
      "event source could not be created")
  | .testSource id => Handler.testSource tenantID id checks
  | .listIncidents => checked checks.request (storeCall .listIncidents 200)
  | .createManualIncident => Handler.createManualIncident checks
  | .getIncident id => storeCall (.getIncident id) 200
  | .listIncidentEvents id => storeCall (.listIncidentEvents id) 200
  | .transitionIncident id action =>
    checked checks.request (storeCall (.transitionIncident id action) 200)
  | .validatePolicy => checked checks.request (.done (.ok 200))
  | .listPolicies => storeCall .listPolicies 200
  | .applyPolicy => checked checks.request (unprocessable .applyPolicy "invalid_policy")
  | .listNotificationChannels => storeCall .listNotificationChannels 200
  | .createNotificationChannel =>
    checked checks.request (creation .createNotificationChannel "invalid_channel"
      "channel_creation_failed" "notification channel could not be created")
  | .exportAudit => checked checks.request (storeCall .exportAudit 200)
  | .validateRunbook => checked checks.request (.done (.ok 200))
  | .listRunbooks => storeCall .listRunbooks 200
  | .applyRunbook => checked checks.request (unprocessable .applyRunbook "invalid_runbook")
  | .startExecution key => checked checks.request (storeCall (.startExecution key) 201)
  | .listExecutions => storeCall .listExecutions 200
  | .getExecution id => storeCall (.getExecution id) 200
  | .changeExecutionState id action => storeCall (.changeExecutionState id action) 200
  | .startExecutionRollback id => storeCall (.startExecutionRollback id) 200
  | .retryExecutionStep id stepID =>
    checked checks.request (storeCall (.retryExecutionStep id stepID) 200)
  | .listApprovals => storeCall .listApprovals 200
  | .decideApproval id decision =>
    checked checks.request (storeCall (.decideApproval id decision) 200)
  | .listPlugins => storeCall .listPlugins 200
  | .registerPlugin => Handler.registerPlugin checks
  | .testPlugin key => Handler.testPlugin key checks
  | .notFound message => .done (.error ⟨404, "not_found", message⟩)
  | .methodNotAllowed => .done (.error ⟨405, "method_not_allowed", "method not allowed"⟩)

def safePath (path : String) : String :=
  if hasHead path "/api/v1/ack/" then "/api/v1/ack/[REDACTED]" else path

/-- `requireAuth` around `apiRoutes`, for a principal that was authenticated: a principal
without the permission is refused and the refusal recorded. -/
def requireAuth (identity : Principal) (method path : String) (checks : Checks) : Handler :=
  if identity.allowed (requiredPermission method path) = false then
    .ask (.recordAudit "authorization.denied" (safePath path)) fun _ =>
      .done (.error ⟨403, "forbidden", "permission denied"⟩)
  else (apiRoutes method path).handle identity.tenantID checks

end StormRelay.Api
