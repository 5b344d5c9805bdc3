/-
Permissions, roles and principals (`internal/auth`).

* `Principal.allowed` — whether some role of a principal grants a permission.
-/
import Mathlib.Data.List.Dedup
import Mathlib.Data.List.Sort
import Mathlib.Data.String.Basic
import StormRelay.GoStd

namespace StormRelay.Auth

/-- `auth.Permission`; `deny` is the constant `permissionDeny` of the API package, which no
role grants. -/
inductive Permission where
  | versionRead
  | incidentsRead
  | incidentsWrite
  | eventsRead
  | policiesRead
  | policiesWrite
  | runbooksRead
  | runbooksWrite
  | runbooksRun
  | executionsRead
  | executionsControl
  | approvalsRead
  | approvalsDecide
  | integrationsRead
  | integrationsWrite
  | auditRead
  | serviceAccounts
  | identityManage
  | deny
deriving DecidableEq, Repr

inductive Role where
  | viewer
  | operator
  | responder
  | runbookEditor
  | integrationAdmin
  | tenantAdmin
deriving DecidableEq, Repr

def Role.text : Role → String
  | .viewer => "viewer"
  | .operator => "operator"
  | .responder => "responder"
  | .runbookEditor => "runbook-editor"
  | .integrationAdmin => "integration-admin"
  | .tenantAdmin => "tenant-admin"

def allRoles : List Role :=
  [.viewer, .operator, .responder, .runbookEditor, .integrationAdmin, .tenantAdmin]

def Role.grants : Role → List Permission
  | .viewer =>
    [.versionRead, .incidentsRead, .eventsRead, .policiesRead, .runbooksRead, .executionsRead,
      .auditRead, .integrationsRead]
  | .operator =>
    [.versionRead, .incidentsRead, .incidentsWrite, .eventsRead, .policiesRead, .runbooksRead,
      .executionsRead, .auditRead, .integrationsRead]
  | .responder =>
    [.versionRead, .incidentsRead, .incidentsWrite, .eventsRead, .policiesRead, .runbooksRead,
      .runbooksRun, .executionsRead, .executionsControl, .approvalsRead, .approvalsDecide,
      .auditRead, .integrationsRead]
  | .runbookEditor =>
    [.versionRead, .incidentsRead, .eventsRead, .policiesRead, .policiesWrite, .runbooksRead,
      .runbooksWrite, .runbooksRun, .executionsRead, .auditRead, .integrationsRead]
  | .integrationAdmin =>
    [.versionRead, .incidentsRead, .eventsRead, .policiesRead, .runbooksRead, .executionsRead,
      .auditRead, .integrationsRead, .integrationsWrite]
  | .tenantAdmin =>
    [.versionRead, .incidentsRead, .incidentsWrite, .eventsRead, .policiesRead, .policiesWrite,
      .runbooksRead, .runbooksWrite, .runbooksRun, .executionsRead, .executionsControl,
      .approvalsRead, .approvalsDecide, .integrationsRead, .integrationsWrite, .auditRead,
      .serviceAccounts, .identityManage]

/-- The role a text names; `ValidRole` asks whether there is one. -/
def Role.ofText (text : String) : Option Role :=
  allRoles.find? fun role => role.text = text

/-- `NormalizeRoles`. -/
def normalizeRoles (values : List String) : Except String (List Role) :=
  if values = [] then .error "at least one role is required"
  else
    match values.find? fun value => (Role.ofText value).isNone with
    | some value => .error ("unknown role " ++ GoStd.quote value)
    | none => .ok ((values.filterMap Role.ofText).dedup.insertionSort fun a b => a.text ≤ b.text)

structure Principal where
  tenantID : String
  actorType : String
  actorID : String
  roles : List Role
  keyID : String := ""
deriving DecidableEq, Repr

def Principal.allowed (p : Principal) (permission : Permission) : Bool :=
  p.roles.any fun role => permission ∈ role.grants

theorem not_allowed_deny (p : Principal) : p.allowed .deny = false := by
  refine List.any_eq_false.mpr fun role _ => ?_
  cases role <;> decide

example : normalizeRoles ["responder", "viewer", "responder"] = .ok [.responder, .viewer] := by
  decide

end StormRelay.Auth
