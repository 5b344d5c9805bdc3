/-
Versions of runbooks and policies
(`internal/storage/runbook_definitions.go`, `policies.go`).

`ApplyRunbook` and `ApplyPolicy` parse a document, look the row of its key up and
write the next version.  Both calls are cut at their lookup, so that any number
of them can be in progress at once; a call that waits for its advisory lock is
one that has not begun.

* `versions_immutable` — **in every interleaving, the versions of every runbook and
  every policy are `1, …, active_version` with the texts they were accepted with,
  no version is accepted twice, and a failed call changes nothing**.
-/
import StormRelay.Routing
import StormRelay.Provenance
import StormRelay.Versioned

namespace StormRelay

open Tx Table Shelves Transition

/-! ### `ApplyRunbook` -/

structure ApplyRunbookInput where
  tenantID : String
  documentYAML : String
  actorID : String := ""
  requestID : String := ""
  traceID : String := ""

namespace DB

def runbookRow (tenantID key : String) (db : DB) : Option Runbook :=
  db.runbooks.find? fun r => r.tenantID = tenantID && r.runbookKey = key

/-- `INSERT INTO runbooks`; `tenants` holds the primary keys of the tenants. -/
def insertRunbook (tenants : List String) (r : Runbook) (db : DB) : Except String DB :=
  if db.runbooks.any fun x =>
      x.id = r.id || (x.tenantID = r.tenantID && x.runbookKey = r.runbookKey)
  then .error uniqueViolation
  else if r.tenantID ∉ tenants then .error EventDB.foreignKeyViolation
  else .ok { db with runbooks := db.runbooks ++ [r] }

/-- `INSERT INTO runbook_versions`. -/
def insertRunbookVersion (v : RunbookVersion) (db : DB) : Except String DB :=
  if textStorable v.documentYAML = false then .error EventDB.invalidByteSequence
  else if db.runbookVersions.any fun x =>
      x.id = v.id || (x.runbookID = v.runbookID && x.version = v.version)
  then .error uniqueViolation
  else if db.runbooks.all fun r => r.id ≠ v.runbookID then .error EventDB.foreignKeyViolation
  else .ok { db with runbookVersions := db.runbookVersions ++ [v] }

/-- `UPDATE runbooks SET active_version=$2,… WHERE id=$1`. -/
def activateRunbook (runbookID : String) (version : ℤ) (db : DB) : DB :=
  { db with
    runbooks := update (fun r => r.id = runbookID) (fun r => { r with activeVersion := version })
      db.runbooks }

end DB

/-- A statement on the tenant's runbook with the given key, whose identifier
`ApplyRunbook` holds. -/
def onRunbook (tenantID key : String) (f : Runbook → DB → Except String DB) : Admin.Stmt DB Unit :=
  onRow (DB.runbookRow tenantID key) f

section Runbook

variable (pf : Platform) (uuid : String → Option String) (tenants : List String)

/-- `pg_advisory_xact_lock` on the text of the key. -/
def runbookLock (input : ApplyRunbookInput) (doc : Document) : Admin.Stmt DB Unit :=
  fun db => if textStorable (input.tenantID ++ "|runbook|" ++ doc.metadata.id) then .ok ((), db)
    else .error EventDB.invalidByteSequence

def currentRunbook (tenantID key : String) : Admin.Stmt DB (Option ℤ) :=
  fun db => .ok ((db.runbookRow tenantID key).map Runbook.activeVersion, db)

def createRunbook (runbookID tenantID key : String) : Admin.Stmt DB Unit :=
  written (DB.insertRunbook tenants
    { id := runbookID, tenantID := tenantID, runbookKey := key, enabled := true
      activeVersion := 1 })

def addRunbookVersion (versionID : String) (input : ApplyRunbookInput) (tenantID key : String)
    (version : ℤ) : Admin.Stmt DB Unit :=
  onRunbook tenantID key fun r => DB.insertRunbookVersion
    { id := versionID, runbookID := r.id, version := version, documentYAML := input.documentYAML }

def activateRunbook (tenantID key : String) (version : ℤ) : Admin.Stmt DB Unit :=
  onRunbook tenantID key fun r db => .ok (db.activateRunbook r.id version)

def auditRunbook (input : ApplyRunbookInput) (tenantID key : String) : Admin.Stmt DB Unit :=
  onRunbook tenantID key fun r db => .ok (db.appendAudit
    { tenantID := tenantID, actorType := "api-key"
      actorID := defaultText input.actorID "unknown", action := "runbook.applied"
      resourceType := "runbook", resourceID := r.id, requestID := input.requestID
      traceID := input.traceID }).2

/-- `ApplyRunbook`; `runbookID` and `versionID` are the identifiers it generates. -/
def applyRunbook (runbookID versionID : String) (input : ApplyRunbookInput) : Tx DB Unit :=
  match parse pf input.documentYAML with
  | .error message => fail message
  | .ok doc => do
    let tenantID ← bindUUID uuid input.tenantID
    Admin.applyRunbook doc.metadata.version (runbookLock input doc)
      (currentRunbook tenantID doc.metadata.id)
      (createRunbook tenants runbookID tenantID doc.metadata.id)
      (addRunbookVersion versionID input tenantID doc.metadata.id doc.metadata.version)
      (activateRunbook tenantID doc.metadata.id doc.metadata.version)
      (auditRunbook input tenantID doc.metadata.id)

end Runbook

/-! ### Calls in progress -/

/-- `ApplyRunbook` up to its lookup. -/
def openRunbook (pf : Platform) (uuid : String → Option String) (input : ApplyRunbookInput) :
    Tx DB Opened :=
  match parse pf input.documentYAML with
  | .error message => fail message
  | .ok doc => do
    let tenantID ← bindUUID uuid input.tenantID
    let found ← Admin.lookUp (runbookLock input doc) (currentRunbook tenantID doc.metadata.id)
    pure { tenantID := tenantID, key := doc.metadata.id, version := doc.metadata.version
           found := found }

/-- `ApplyRunbook` from its lookup on. -/
def closeRunbook (tenants : List String) (runbookID versionID : String) (input : ApplyRunbookInput)
    (o : Opened) : Tx DB Unit :=
  Admin.enter "runbook" o.version (createRunbook tenants runbookID o.tenantID o.key)
    (addRunbookVersion versionID input o.tenantID o.key o.version)
    (if o.version > 1 then statement (activateRunbook o.tenantID o.key o.version) else pure ())
    (auditRunbook input o.tenantID o.key) o.found

/-- **`ApplyRunbook` is its two phases.** -/
theorem applyRunbook_eq_phases (pf : Platform) (uuid : String → Option String)
    (tenants : List String) (runbookID versionID : String) (input : ApplyRunbookInput) :
    applyRunbook pf uuid tenants runbookID versionID input
      = openRunbook pf uuid input >>= closeRunbook tenants runbookID versionID input := by
  rw [applyRunbook, openRunbook]
  cases parse pf input.documentYAML with
  | error message => rfl
  | ok doc =>
    dsimp only
    rw [bind_bind]
    refine congrArg (bindUUID uuid input.tenantID >>= ·) (funext fun tenantID => ?_)
    rw [bind_bind, Admin.applyRunbook_eq]
    rfl

/-! ### Shelves -/

def Runbook.head (r : Runbook) : Head String (String × String) :=
  { id := r.id, key := (r.tenantID, r.runbookKey), active := r.activeVersion }

def RunbookVersion.entry (v : RunbookVersion) : Entry String String :=
  { head := v.runbookID, version := v.version, text := v.documentYAML }

def PolicyRow.head (p : PolicyRow) : Head String (String × String) :=
  { id := p.id, key := (p.tenantID, p.policyKey), active := p.activeVersion }

def PolicyVersion.entry (v : PolicyVersion) : Entry String String :=
  { head := v.policyID, version := v.version, text := v.documentYAML }

def DB.runbookShelf (db : DB) : Shelf String (String × String) String :=
  { heads := db.runbooks.map Runbook.head
    entries := db.runbookVersions.map RunbookVersion.entry }

def EventDB.policyShelf (db : EventDB) : Shelf String (String × String) String :=
  { heads := db.policies.map PolicyRow.head
    entries := db.policyVersions.map PolicyVersion.entry }

section Policy

variable {x : Bool} {db db' : EventDB} {pf : EventPlatform}
  {input : ApplyPolicyInput} {o : Opened} {c : Conn EventDB}

/-- What the call found is what a writer sees that looks its key up. -/
theorem openPolicy_seen (hs : db.policyShelf.GapFree)
    (h : openPolicy pf input ⟨x, false, db⟩ = .ok (o, c)) :
    db.policyShelf.Seen (o.tenantID, o.key) o.found := by
  rw [(openPolicy_inv h).2.2.1]
  rcases hrow : db.policyRow o.tenantID o.key with _ | p
  · exact trivial
  · obtain ⟨hp, htenant, hkey⟩ := policyRow_some hrow
    have hhead : p.head ∈ db.policyShelf.heads := List.mem_map_of_mem hp
    exact ⟨(hs.exact _ hhead).1, p.head, hhead, by rw [PolicyRow.head, htenant, hkey], le_refl _⟩

/-- **`ApplyPolicy` enters its document on the shelf**, whatever has happened since its
lookup. -/
theorem closePolicy_accepts {policyID : String} {u : Unit}
    (h : closePolicy policyID input o ⟨x, false, db⟩ = .ok (u, c)) :
    db.policyShelf.Accepts o.found (o.tenantID, o.key) o.version input.documentYAML
      c.db.policyShelf := by
  obtain ⟨policies, p, hcreated, hmem, htenant, hkey, hnew, -, hrouting⟩ := closePolicy_inv h
  have hshelf : c.db.policyShelf
      = { heads := update (fun g => g.id = p.id) (fun g => { g with active := o.version })
            (policies.map PolicyRow.head)
          entries := db.policyShelf.entries
            ++ [{ head := p.id, version := o.version, text := input.documentYAML }] } := by
    obtain ⟨-, hrest⟩ := Prod.mk.inj hrouting
    obtain ⟨hpolicies, hrest⟩ := Prod.mk.inj hrest
    rw [EventDB.policyShelf, hpolicies, (Prod.mk.inj hrest).1]
    refine congrArg₂ Shelves.Shelf.mk ?_ List.map_append
    refine map_update (c := PolicyRow.head) (q := fun g => g.id = p.id)
      (g := fun g => { g with active := o.version }) ?_ ?_ policies <;> exact fun _ => rfl
  rw [hshelf]
  refine Shelf.accepts_of_writes policyID (h := p.head) ?_ (List.mem_map_of_mem hmem)
    (by rw [PolicyRow.head, htenant, hkey]) ?_ (.inl rfl)
  · cases hcreated with
    | old hfound hnext =>
      rw [hfound]
      exact ⟨hnext, rfl⟩
    | new hfound hfirst hfresh hunique =>
      rw [hfound]
      refine ⟨hfirst, ?_, ?_, List.map_append⟩
      · rintro g hg
        obtain ⟨r, hr, rfl⟩ := List.mem_map.mp hg
        exact hfresh r hr
      · rintro g hg heq
        obtain ⟨r, hr, rfl⟩ := List.mem_map.mp hg
        exact hunique r hr (Prod.mk.inj heq)
  · intro e he hconflict
    obtain ⟨v, hv, rfl⟩ := List.mem_map.mp he
    exact hnew v hv hconflict

end Policy

section Runbook

variable {x : Bool} {db db' : DB} {pf : Platform} {uuid : String → Option String}
  {tenants : List String} {c : Conn DB}

theorem onRunbook_inv {tenantID key : String} {f : Runbook → DB → Except String DB} {u : Unit}
    (h : onRunbook tenantID key f db = .ok (u, db')) :
    ∃ r, db.runbookRow tenantID key = some r ∧ f r db = .ok db' :=
  onRow_inv h

theorem runbookRow_some {tenantID key : String} {r : Runbook}
    (h : db.runbookRow tenantID key = some r) :
    r ∈ db.runbooks ∧ r.tenantID = tenantID ∧ r.runbookKey = key := by
  refine ⟨List.mem_of_find?_eq_some h, ?_⟩
  simpa only [Bool.and_eq_true, decide_eq_true_eq] using List.find?_some h

theorem insertRunbook_inv {r : Runbook} (h : db.insertRunbook tenants r = .ok db') :
    (∀ q ∈ db.runbooks, q.id ≠ r.id)
      ∧ (∀ q ∈ db.runbooks, ¬ (q.tenantID = r.tenantID ∧ q.runbookKey = r.runbookKey))
      ∧ db' = { db with runbooks := db.runbooks ++ [r] } := by
  rw [DB.insertRunbook] at h
  split_ifs at h with hfresh
  simp only [Bool.not_eq_true, List.any_eq_false, Bool.or_eq_true, Bool.and_eq_true,
    decide_eq_true_eq, not_or] at hfresh
  exact ⟨fun q hq => (hfresh q hq).1, fun q hq => (hfresh q hq).2, (Except.ok.inj h).symm⟩

theorem insertRunbookVersion_inv {v : RunbookVersion}
    (h : db.insertRunbookVersion v = .ok db') :
    (∀ w ∈ db.runbookVersions, w.id ≠ v.id)
      ∧ (∀ w ∈ db.runbookVersions, ¬ (w.runbookID = v.runbookID ∧ w.version = v.version))
      ∧ db' = { db with runbookVersions := db.runbookVersions ++ [v] } := by
  rw [DB.insertRunbookVersion] at h
  split_ifs at h with _ hunique
  simp only [Bool.not_eq_true, List.any_eq_false, Bool.or_eq_true, Bool.and_eq_true,
    decide_eq_true_eq, not_or] at hunique
  exact ⟨fun w hw => (hunique w hw).1, fun w hw => (hunique w hw).2, (Except.ok.inj h).symm⟩

variable {input : ApplyRunbookInput} {o : Opened}

theorem openRunbook_inv (h : openRunbook pf uuid input ⟨x, false, db⟩ = .ok (o, c)) :
    (∃ doc, parse pf input.documentYAML = .ok doc ∧ doc.metadata.id = o.key
        ∧ doc.metadata.version = o.version)
      ∧ o.found = (db.runbookRow o.tenantID o.key).map Runbook.activeVersion := by
  rcases hdoc : parse pf input.documentYAML with message | doc
  · simp only [openRunbook, hdoc] at h
    cases h
  simp only [openRunbook, hdoc] at h
  obtain ⟨tenantID, c₁, h₁, h⟩ := run_ok h
  obtain ⟨-, rfl⟩ := bindUUID_inv h₁
  obtain ⟨found, c₂, h₂, h⟩ := run_ok h
  obtain ⟨rfl, rfl⟩ := ok_inj h
  obtain ⟨db₃, hlock, db₄, hfound, -⟩ := Admin.lookUp_inv h₂
  obtain rfl : db = db₃ := by
    rw [runbookLock] at hlock
    split at hlock
    · exact (ok_inj hlock).2
    · cases hlock
  exact ⟨⟨doc, rfl, rfl, rfl⟩, (ok_inj hfound).1.symm⟩

theorem openRunbook_seen (hs : db.runbookShelf.GapFree)
    (h : openRunbook pf uuid input ⟨x, false, db⟩ = .ok (o, c)) :
    db.runbookShelf.Seen (o.tenantID, o.key) o.found := by
  rw [(openRunbook_inv h).2]
  rcases hrow : db.runbookRow o.tenantID o.key with _ | r
  · exact trivial
  · obtain ⟨hr, htenant, hkey⟩ := runbookRow_some hrow
    have hhead : r.head ∈ db.runbookShelf.heads := List.mem_map_of_mem hr
    exact ⟨(hs.exact _ hhead).1, r.head, hhead, by rw [Runbook.head, htenant, hkey], le_refl _⟩

theorem heads_activateRunbook (runbookID : String) (version : ℤ) :
    (db.activateRunbook runbookID version).runbookShelf.heads
      = update (fun g => g.id = runbookID) (fun g => { g with active := version })
        db.runbookShelf.heads := by
  refine map_update (c := Runbook.head) ?_ ?_ db.runbooks <;> exact fun _ => rfl

/-- A first version is active from the start. -/
theorem activation_inv {tenantID key : String} {version : ℤ} {r : Runbook} {u : Unit}
    (hr : db.runbookRow tenantID key = some r)
    (h : (if version > 1 then statement (activateRunbook tenantID key version) else pure ())
      ⟨x, false, db⟩ = .ok (u, c)) :
    c = ⟨x, false, db.activateRunbook r.id version⟩ ∨ version ≤ 1 ∧ c = ⟨x, false, db⟩ := by
  split at h
  · obtain ⟨db', hactivate, rfl⟩ := statement_inv h
    obtain ⟨r', hr', hactive⟩ := onRunbook_inv hactivate
    obtain rfl : r' = r := Option.some.inj (hr'.symm.trans hr)
    obtain rfl := Except.ok.inj hactive
    exact .inl rfl
  · rename_i hfirst
    exact .inr ⟨not_lt.mp hfirst, (ok_inj h).2.symm⟩

/-- **What `ApplyRunbook` writes**, whatever has happened since its lookup.  The
version after one that was found is activated because it is not the first. -/
theorem closeRunbook_accepts {runbookID versionID : String} {u : Unit}
    (hpos : ∀ a, o.found = some a → 1 ≤ a)
    (h : closeRunbook tenants runbookID versionID input o ⟨x, false, db⟩ = .ok (u, c)) :
    db.runbookShelf.Accepts o.found (o.tenantID, o.key) o.version input.documentYAML
      c.db.runbookShelf := by
  obtain ⟨db₁, db₂, hfound, hadd, h⟩ := Admin.enter_inv h
  obtain ⟨r, hr, hinsert⟩ := onRunbook_inv hadd
  obtain ⟨-, hnew, rfl⟩ := insertRunbookVersion_inv hinsert
  obtain ⟨hmem, htenant, hkey⟩ := runbookRow_some hr
  have hversions : db₁.runbookVersions = db.runbookVersions := by
    cases hcase : o.found with
    | none =>
      rw [hcase] at hfound
      obtain ⟨-, -, rfl⟩ := insertRunbook_inv (written_inv hfound.2)
      rfl
    | some active =>
      rw [hcase] at hfound
      rw [hfound.2]
  have hold : db₁.runbookShelf.entries = db.runbookShelf.entries :=
    congrArg (List.map RunbookVersion.entry) hversions
  obtain ⟨_, c₃, h₃, h⟩ := run_ok h
  have hthird : ∃ db₃, c₃ = ⟨x, false, db₃⟩
      ∧ db₃.runbookShelf.entries = db.runbookShelf.entries
        ++ [{ head := r.id, version := o.version, text := input.documentYAML }]
      ∧ (db₃.runbookShelf.heads
          = update (fun g => g.id = r.id) (fun g => { g with active := o.version })
            db₁.runbookShelf.heads
        ∨ o.found = none ∧ db₃.runbookShelf.heads = db₁.runbookShelf.heads) := by
    rw [← hold]
    rcases activation_inv (by exact hr) h₃ with rfl | ⟨hfirst, rfl⟩
    · exact ⟨_, rfl, List.map_append, .inl (heads_activateRunbook r.id o.version)⟩
    refine ⟨_, rfl, List.map_append, .inr ⟨?_, rfl⟩⟩
    rcases hcase : o.found with _ | active
    · rfl
    rw [hcase] at hfound
    have := hpos active hcase
    have := hfound.1
    omega
  obtain ⟨db₃, rfl, hentries, hheads⟩ := hthird
  obtain ⟨db₄, haudit, rfl⟩ := statement_inv h
  obtain ⟨_, -, hentry⟩ := onRunbook_inv haudit
  obtain rfl := Except.ok.inj hentry
  have hshelf := congrArg (Shelves.Shelf.mk db₃.runbookShelf.heads) hentries
  refine (congrArg _ hshelf).mpr ?_
  refine Shelf.accepts_of_writes runbookID (h := r.head) ?_ (List.mem_map_of_mem hmem)
    (by rw [Runbook.head, htenant, hkey]) ?_ hheads
  · cases hcase : o.found with
    | none =>
      rw [hcase] at hfound
      obtain ⟨hid, hfresh, rfl⟩ := insertRunbook_inv (written_inv hfound.2)
      refine ⟨hfound.1, ?_, ?_, List.map_append⟩
      · rintro g hg
        obtain ⟨q, hq, rfl⟩ := List.mem_map.mp hg
        exact hid q hq
      · rintro g hg heq
        obtain ⟨q, hq, rfl⟩ := List.mem_map.mp hg
        exact hfresh q hq (Prod.mk.inj heq)
    | some active =>
      rw [hcase] at hfound
      exact ⟨hfound.1, congrArg (fun d => d.runbookShelf.heads) hfound.2⟩
  · intro e he hconflict
    obtain ⟨v, hv, rfl⟩ := List.mem_map.mp he
    exact hnew v (hversions ▸ hv) hconflict

end Runbook

/-! ### Interleavings -/

structure PendingRunbook where
  runbookID : String
  versionID : String
  input : ApplyRunbookInput
  opened : Opened

structure PendingPolicy where
  policyID : String
  input : ApplyPolicyInput
  opened : Opened

/-- The tables with the calls in progress, and the versions that have been accepted
(tenant and key, version, submitted text), in their order. -/
structure Desk where
  db : DB
  events : EventDB
  runbookCalls : List PendingRunbook
  policyCalls : List PendingPolicy
  acceptedRunbooks : List ((String × String) × ℤ × String)
  acceptedPolicies : List ((String × String) × ℤ × String)

structure DeskEnv where
  platform : Platform
  events : EventPlatform
  exclusive : Bool

/-- A call looks its document up, commits, or ends without having committed
(`abandon`: its context is cancelled, its connection or its worker is lost). -/
inductive DeskOp where
  | openRunbook (runbookID versionID : String) (input : ApplyRunbookInput)
  | closeRunbook (index : ℕ)
  | abandonRunbook (index : ℕ)
  | openPolicy (policyID : String) (input : ApplyPolicyInput)
  | closePolicy (index : ℕ)
  | abandonPolicy (index : ℕ)

namespace Desk

variable (env : DeskEnv)

def openedRunbook (input : ApplyRunbookInput) (s : Desk) : Except TxError Opened :=
  (commit env.exclusive (StormRelay.openRunbook env.platform env.events.uuid input) s.db).1

def closedRunbook (call : PendingRunbook) (s : Desk) : Except TxError Unit × DB :=
  commit env.exclusive
    (StormRelay.closeRunbook s.events.tenants call.runbookID call.versionID call.input call.opened)
    s.db

def openedPolicy (input : ApplyPolicyInput) (s : Desk) : Except TxError Opened :=
  (commit env.exclusive (StormRelay.openPolicy env.events input) s.events).1

def closedPolicy (call : PendingPolicy) (s : Desk) : Except TxError Unit × EventDB :=
  commit env.exclusive (StormRelay.closePolicy call.policyID call.input call.opened) s.events

/-- One step of one call. -/
def perform (op : DeskOp) (s : Desk) : Desk :=
  match op with
  | .openRunbook runbookID versionID input =>
    match s.openedRunbook env input with
    | .ok o =>
      { s with runbookCalls := s.runbookCalls ++
          [{ runbookID := runbookID, versionID := versionID, input := input, opened := o }] }
    | .error _ => s
  | .closeRunbook index =>
    match s.runbookCalls[index]? with
    | none => s
    | some call =>
      match s.closedRunbook env call with
      | (.ok _, db) =>
        { s with
          db := db, runbookCalls := s.runbookCalls.eraseIdx index
          acceptedRunbooks := s.acceptedRunbooks
            ++ [((call.opened.tenantID, call.opened.key), call.opened.version,
              call.input.documentYAML)] }
      | (.error _, db) => { s with db := db, runbookCalls := s.runbookCalls.eraseIdx index }
  | .abandonRunbook index => { s with runbookCalls := s.runbookCalls.eraseIdx index }
  | .openPolicy policyID input =>
    match s.openedPolicy env input with
    | .ok o =>
      { s with policyCalls := s.policyCalls ++
          [{ policyID := policyID, input := input, opened := o }] }
    | .error _ => s
  | .closePolicy index =>
    match s.policyCalls[index]? with
    | none => s
    | some call =>
      match s.closedPolicy env call with
      | (.ok _, events) =>
        { s with
          events := events, policyCalls := s.policyCalls.eraseIdx index
          acceptedPolicies := s.acceptedPolicies
            ++ [((call.opened.tenantID, call.opened.key), call.opened.version,
              call.input.documentYAML)] }
      | (.error _, events) =>
        { s with events := events, policyCalls := s.policyCalls.eraseIdx index }
  | .abandonPolicy index => { s with policyCalls := s.policyCalls.eraseIdx index }

/-- The answer to the caller, once there is one. -/
def answer (op : DeskOp) (s : Desk) : Option (Except TxError Unit) :=
  match op with
  | .openRunbook _ _ input =>
    match s.openedRunbook env input with
    | .ok _ => none
    | .error e => some (.error e)
  | .closeRunbook index => s.runbookCalls[index]?.map fun call => (s.closedRunbook env call).1
  | .openPolicy _ input =>
    match s.openedPolicy env input with
    | .ok _ => none
    | .error e => some (.error e)
  | .closePolicy index => s.policyCalls[index]?.map fun call => (s.closedPolicy env call).1
  | .abandonRunbook _ | .abandonPolicy _ => none

/-- Tables without runbooks and policies, and no call in progress. -/
structure Initial (s : Desk) : Prop where
  runbooks : s.db.runbooks = [] ∧ s.db.runbookVersions = []
  policies : s.events.policies = [] ∧ s.events.policyVersions = []
  calls : s.runbookCalls = [] ∧ s.policyCalls = []
  accepted : s.acceptedRunbooks = [] ∧ s.acceptedPolicies = []

end Desk

def RunbookText (pf : Platform) (key : String × String) (version : ℤ) (text : String) : Prop :=
  ∃ doc, parse pf text = .ok doc ∧ doc.metadata.id = key.2 ∧ doc.metadata.version = version

def PolicyText (pf : EventPlatform) (key : String × String) (version : ℤ) (text : String) : Prop :=
  ∃ doc, Policy.parse pf.policy text = .ok doc ∧ doc.id = key.2 ∧ doc.version = version

def PendingRunbook.pending (call : PendingRunbook) : Pending (String × String) String :=
  { key := (call.opened.tenantID, call.opened.key), version := call.opened.version
    text := call.input.documentYAML, seen := call.opened.found }

def PendingPolicy.pending (call : PendingPolicy) : Pending (String × String) String :=
  { key := (call.opened.tenantID, call.opened.key), version := call.opened.version
    text := call.input.documentYAML, seen := call.opened.found }

namespace Desk

structure Sound (env : DeskEnv) (s : Desk) : Prop where
  runbooks : Shelves.Sound (RunbookText env.platform) s.db.runbookShelf s.acceptedRunbooks
    (s.runbookCalls.map PendingRunbook.pending)
  policies : Shelves.Sound (PolicyText env.events) s.events.policyShelf s.acceptedPolicies
    (s.policyCalls.map PendingPolicy.pending)

variable {env : DeskEnv} {s : Desk}

theorem Initial.sound (h : s.Initial) : s.Sound env := by
  constructor
  · rw [DB.runbookShelf, h.runbooks.1, h.runbooks.2, h.accepted.1, h.calls.1]
    exact sound_empty
  · rw [EventDB.policyShelf, h.policies.1, h.policies.2, h.accepted.2, h.calls.2]
    exact sound_empty

variable {index : ℕ}

theorem pending_eraseIdx {α β : Type} (f : α → β) {calls : List α} :
    ∀ q ∈ (calls.eraseIdx index).map f, q ∈ calls.map f := by
  intro q hq
  obtain ⟨call, hcall, rfl⟩ := List.mem_map.mp hq
  exact List.mem_map_of_mem (List.mem_of_mem_eraseIdx hcall)

theorem sound_openRunbook (h : s.Sound env) {call : PendingRunbook}
    (ho : s.openedRunbook env call.input = .ok call.opened) :
    Shelves.Sound (RunbookText env.platform) s.db.runbookShelf s.acceptedRunbooks
      ((s.runbookCalls ++ [call]).map PendingRunbook.pending) := by
  obtain ⟨c, hrun, -⟩ := commit_ok_inv ho
  rw [List.map_append]
  exact h.runbooks.begin (openRunbook_seen h.runbooks.gapFree hrun) (openRunbook_inv hrun).1

theorem sound_openPolicy (h : s.Sound env) {call : PendingPolicy}
    (ho : s.openedPolicy env call.input = .ok call.opened) :
    Shelves.Sound (PolicyText env.events) s.events.policyShelf s.acceptedPolicies
      ((s.policyCalls ++ [call]).map PendingPolicy.pending) := by
  obtain ⟨c, hrun, -⟩ := commit_ok_inv ho
  rw [List.map_append]
  exact h.policies.begin (openPolicy_seen h.policies.gapFree hrun) (openPolicy_inv hrun).1

theorem sound_closeRunbook (h : s.Sound env) {call : PendingRunbook}
    (hcall : s.runbookCalls[index]? = some call) {u : Unit} {db : DB}
    (hclosed : s.closedRunbook env call = (.ok u, db)) :
    Shelves.Sound (RunbookText env.platform) db.runbookShelf
      (s.acceptedRunbooks ++ [((call.opened.tenantID, call.opened.key), call.opened.version,
        call.input.documentYAML)])
      ((s.runbookCalls.eraseIdx index).map PendingRunbook.pending) := by
  have hpending : call.pending ∈ s.runbookCalls.map PendingRunbook.pending :=
    List.mem_map_of_mem (List.mem_of_getElem? hcall)
  obtain ⟨c, hrun, hdb⟩ := commit_ok_inv (congrArg Prod.fst hclosed)
  obtain rfl : db = c.db := (congrArg Prod.snd hclosed).symm.trans hdb
  have hpos : ∀ a, call.opened.found = some a → 1 ≤ a := by
    intro a ha
    have hseen : s.db.runbookShelf.Seen call.pending.key call.opened.found :=
      (h.runbooks.seen _ hpending).1
    rw [ha] at hseen
    exact hseen.1
  exact (h.runbooks.accept hpending (closeRunbook_accepts hpos hrun)).drop (pending_eraseIdx _)

theorem sound_closePolicy (h : s.Sound env) {call : PendingPolicy}
    (hcall : s.policyCalls[index]? = some call) {u : Unit} {events : EventDB}
    (hclosed : s.closedPolicy env call = (.ok u, events)) :
    Shelves.Sound (PolicyText env.events) events.policyShelf
      (s.acceptedPolicies ++ [((call.opened.tenantID, call.opened.key), call.opened.version,
        call.input.documentYAML)])
      ((s.policyCalls.eraseIdx index).map PendingPolicy.pending) := by
  have hpending : call.pending ∈ s.policyCalls.map PendingPolicy.pending :=
    List.mem_map_of_mem (List.mem_of_getElem? hcall)
  obtain ⟨c, hrun, hdb⟩ := commit_ok_inv (congrArg Prod.fst hclosed)
  obtain rfl : events = c.db := (congrArg Prod.snd hclosed).symm.trans hdb
  exact (h.policies.accept hpending (closePolicy_accepts hrun)).drop (pending_eraseIdx _)

/-- **Every step of every call keeps both shelves sound.** -/
theorem sound_perform (h : s.Sound env) (op : DeskOp) : (s.perform env op).Sound env := by
  cases op with
  | openRunbook runbookID versionID input =>
    rw [perform]
    split
    · rename_i o ho
      exact ⟨sound_openRunbook h ho, h.policies⟩
    · exact h
  | closeRunbook index =>
    rw [perform]
    split
    · exact h
    rename_i call hcall
    split
    · rename_i u db hclosed
      exact ⟨sound_closeRunbook h hcall hclosed, h.policies⟩
    rename_i e db hclosed
    obtain rfl : db = s.db :=
      (congrArg Prod.snd hclosed).symm.trans (commit_error_inv (congrArg Prod.fst hclosed))
    exact ⟨h.runbooks.drop (pending_eraseIdx _), h.policies⟩
  | abandonRunbook index => exact ⟨h.runbooks.drop (pending_eraseIdx _), h.policies⟩
  | openPolicy policyID input =>
    rw [perform]
    split
    · rename_i o ho
      exact ⟨h.runbooks, sound_openPolicy h ho⟩
    · exact h
  | closePolicy index =>
    rw [perform]
    split
    · exact h
    rename_i call hcall
    split
    · rename_i u events hclosed
      exact ⟨h.runbooks, sound_closePolicy h hcall hclosed⟩
    rename_i e events hclosed
    obtain rfl : events = s.events :=
      (congrArg Prod.snd hclosed).symm.trans (commit_error_inv (congrArg Prod.fst hclosed))
    exact ⟨h.runbooks, h.policies.drop (pending_eraseIdx _)⟩
  | abandonPolicy index => exact ⟨h.runbooks, h.policies.drop (pending_eraseIdx _)⟩

theorem unchanged_of_error {op : DeskOp} {e : TxError} (h : s.answer env op = some (.error e)) :
    (s.perform env op).db = s.db ∧ (s.perform env op).events = s.events := by
  cases op with
  | openRunbook runbookID versionID input | openPolicy policyID input =>
    rw [perform]
    split <;> exact ⟨rfl, rfl⟩
  | closeRunbook index =>
    rw [answer] at h
    rw [perform]
    obtain ⟨call, hcall, hanswer⟩ := Option.map_eq_some_iff.mp h
    simp only [hcall]
    split
    · rename_i u db hclosed
      rw [hclosed] at hanswer
      cases hanswer
    · rename_i e' db hclosed
      exact ⟨(congrArg Prod.snd hclosed).symm.trans
        (commit_error_inv (congrArg Prod.fst hclosed)), rfl⟩
  | abandonRunbook index | abandonPolicy index => exact ⟨rfl, rfl⟩
  | closePolicy index =>
    rw [answer] at h
    rw [perform]
    obtain ⟨call, hcall, hanswer⟩ := Option.map_eq_some_iff.mp h
    simp only [hcall]
    split
    · rename_i u events hclosed
      rw [hclosed] at hanswer
      cases hanswer
    · rename_i e' events hclosed
      exact ⟨rfl, (congrArg Prod.snd hclosed).symm.trans
        (commit_error_inv (congrArg Prod.fst hclosed))⟩

/-! ### The result -/

/-- Versions are immutable and free of gaps. -/
structure Immutable (env : DeskEnv) (s : Desk) : Prop where
  /-- The stored versions of a runbook are `1, …, active_version`, each once. -/
  runbookVersions : ∀ r ∈ s.db.runbooks,
    ((s.db.runbookVersions.filter fun v => v.runbookID = r.id).map fun v => v.version)
      = upTo r.activeVersion
  policyVersions : ∀ p ∈ s.events.policies,
    ((s.events.policyVersions.filter fun v => v.policyID = p.id).map fun v => v.version)
      = upTo p.activeVersion
  /-- A text is stored as a version of a runbook if and only if it was submitted by
  the call that was accepted with this version. -/
  runbookTexts : ∀ tenantID key version text,
    ((tenantID, key), version, text) ∈ s.acceptedRunbooks ↔
    ∃ r ∈ s.db.runbooks, r.tenantID = tenantID ∧ r.runbookKey = key
      ∧ ∃ v ∈ s.db.runbookVersions, v.runbookID = r.id ∧ v.version = version
        ∧ v.documentYAML = text
  policyTexts : ∀ tenantID key version text, ((tenantID, key), version, text) ∈ s.acceptedPolicies ↔
    ∃ p ∈ s.events.policies, p.tenantID = tenantID ∧ p.policyKey = key
      ∧ ∃ v ∈ s.events.policyVersions, v.policyID = p.id ∧ v.version = version
        ∧ v.documentYAML = text
  /-- Every stored text parses to the key and the version it is stored under. -/
  runbooksParse : ∀ r ∈ s.db.runbooks, ∀ v ∈ s.db.runbookVersions, v.runbookID = r.id →
    ∃ doc, parse env.platform v.documentYAML = .ok doc ∧ doc.metadata.id = r.runbookKey
      ∧ doc.metadata.version = v.version
  policiesParse : ∀ p ∈ s.events.policies, ∀ v ∈ s.events.policyVersions, v.policyID = p.id →
    ∃ doc, Policy.parse env.events.policy v.documentYAML = .ok doc ∧ doc.id = p.policyKey
      ∧ doc.version = v.version
  /-- No version of a document is accepted twice. -/
  runbooksOnce : (s.acceptedRunbooks.map fun a => (a.1, a.2.1)).Nodup
  policiesOnce : (s.acceptedPolicies.map fun a => (a.1, a.2.1)).Nodup

theorem Sound.immutable (h : s.Sound env) : s.Immutable env where
  runbookVersions := by
    intro r hr
    have hexact : s.db.runbookShelf.versionsOf r.id = upTo r.activeVersion :=
      (h.runbooks.gapFree.exact r.head (List.mem_map_of_mem hr)).2
    rw [← hexact, Shelf.versionsOf, DB.runbookShelf, List.filter_map, List.map_map]
    rfl
  policyVersions := by
    intro p hp
    have hexact : s.events.policyShelf.versionsOf p.id = upTo p.activeVersion :=
      (h.policies.gapFree.exact p.head (List.mem_map_of_mem hp)).2
    rw [← hexact, Shelf.versionsOf, EventDB.policyShelf, List.filter_map, List.map_map]
    rfl
  runbookTexts := by
    intro tenantID key version text
    rw [h.runbooks.recorded.stored]
    simp only [DB.runbookShelf, List.mem_map, Runbook.head, RunbookVersion.entry]
    constructor
    · rintro ⟨_, ⟨r, hr, rfl⟩, hkey, v, hv, hentry⟩
      obtain ⟨hid, hversion, htext⟩ := Entry.mk.inj hentry
      exact ⟨r, hr, (Prod.mk.inj hkey).1, (Prod.mk.inj hkey).2, v, hv, hid, hversion, htext⟩
    · rintro ⟨r, hr, rfl, rfl, v, hv, hid, rfl, rfl⟩
      exact ⟨_, ⟨r, hr, rfl⟩, rfl, v, hv, by rw [hid]⟩
  policyTexts := by
    intro tenantID key version text
    rw [h.policies.recorded.stored]
    simp only [EventDB.policyShelf, List.mem_map, PolicyRow.head, PolicyVersion.entry]
    constructor
    · rintro ⟨_, ⟨p, hp, rfl⟩, hkey, v, hv, hentry⟩
      obtain ⟨hid, hversion, htext⟩ := Entry.mk.inj hentry
      exact ⟨p, hp, (Prod.mk.inj hkey).1, (Prod.mk.inj hkey).2, v, hv, hid, hversion, htext⟩
    · rintro ⟨p, hp, rfl, rfl, v, hv, hid, rfl, rfl⟩
      exact ⟨_, ⟨p, hp, rfl⟩, rfl, v, hv, by rw [hid]⟩
  runbooksParse := fun r hr v hv hid =>
    h.runbooks.stored (g := r.head) (List.mem_map_of_mem hr) (e := v.entry)
      (List.mem_map_of_mem hv) hid
  policiesParse := fun p hp v hv hid =>
    h.policies.stored (g := p.head) (List.mem_map_of_mem hp) (e := v.entry)
      (List.mem_map_of_mem hv) hid
  runbooksOnce := h.runbooks.recorded.once
  policiesOnce := h.policies.recorded.once

end Desk

/-- **Versioned documents are immutable and gap free**, in every state of every
interleaving of calls of `ApplyRunbook` and `ApplyPolicy`.  No two calls are
accepted with one version, and a call that returns an error, in one piece or
interleaved with others, leaves the tables unchanged. -/
theorem versions_immutable (env : DeskEnv) {s : Desk} (h : s.Initial) (ops : List DeskOp) :
    (run (Desk.perform env) ops s).Immutable env
      ∧ (∀ op e, Desk.answer env op (run (Desk.perform env) ops s) = some (.error e) →
        (run (Desk.perform env) (ops ++ [op]) s).db
            = (run (Desk.perform env) ops s).db
          ∧ (run (Desk.perform env) (ops ++ [op]) s).events
            = (run (Desk.perform env) ops s).events)
      ∧ (∀ tenants runbookID versionID input db, succeeds env.exclusive
          (applyRunbook env.platform env.events.uuid tenants runbookID versionID input) db = false →
        after env.exclusive
          (applyRunbook env.platform env.events.uuid tenants runbookID versionID input) db = db)
      ∧ (∀ policyID input db,
        succeeds env.exclusive (applyPolicy env.events policyID input) db = false →
        after env.exclusive (applyPolicy env.events policyID input) db = db) := by
  refine ⟨?_, ?_, fun _ _ _ _ _ => after_of_not_succeeds, fun _ _ _ => after_of_not_succeeds⟩
  · exact (run_invariant (I := Desk.Sound env) (fun op s hs => Desk.sound_perform hs op)
      ops h.sound).immutable
  · intro op e hanswer
    rw [run_append]
    exact Desk.unchanged_of_error hanswer

/-- A platform that reads the text `2` as the second version of a runbook and every
other text as the first. -/
def editions : Platform :=
  { plainPlatform (runbookWith []) with
    decodeYAML := fun text =>
      .ok { runbookWith [{ id := "pause", type := .wait, inputs := { duration := "5s" } }] with
            metadata := { id := "restart", version := if text = "2" then 2 else 1 } } }

def deskEnv : DeskEnv :=
  { platform := editions, events := pagePlatform, exclusive := true }

def emptyDesk : Desk :=
  { db := { oneRunbook.db with runbooks := [], runbookVersions := [] }
    events := { pageDB with policies := [], policyVersions := [] }
    runbookCalls := [], policyCalls := [], acceptedRunbooks := [], acceptedPolicies := [] }

/-- Two calls look the same runbook up before the first of them commits; then comes
the second version, and a policy. -/
def contendedRun : List DeskOp :=
  [.openRunbook "a" "va" { tenantID := "t", documentYAML := "1" },
    .openRunbook "b" "vb" { tenantID := "t", documentYAML := "one" },
    .closeRunbook 0, .closeRunbook 0,
    .openRunbook "c" "vc" { tenantID := "t", documentYAML := "2" },
    .openPolicy "p" { tenantID := "t", documentYAML := "page" }, .closeRunbook 0, .closePolicy 0]

theorem versions_immutable_contended :
    (run (Desk.perform deskEnv) contendedRun emptyDesk).acceptedRunbooks
        = [(("t", "restart"), 1, "1"), (("t", "restart"), 2, "2")]
      ∧ (run (Desk.perform deskEnv) contendedRun emptyDesk).acceptedPolicies
        = [(("t", "page"), 1, "page")]
      ∧ (run (Desk.perform deskEnv) contendedRun emptyDesk).Immutable deskEnv :=
  ⟨by decide +kernel, by decide +kernel,
    (versions_immutable deskEnv ⟨⟨rfl, rfl⟩, ⟨rfl, rfl⟩, ⟨rfl, rfl⟩, ⟨rfl, rfl⟩⟩ contendedRun).1⟩

end StormRelay
