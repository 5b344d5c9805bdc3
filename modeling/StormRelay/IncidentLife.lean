/-
The life of an incident (`internal/storage/incidents.go`, `process.go`,
`internal/incidents/state.go`).

Three calls write an incident: an event joins it, an operator moves it, a
notification link acknowledges it.

* `incident_life_consistent` — **the life of every incident in every run**.
-/
import StormRelay.Cases
import StormRelay.History

namespace StormRelay

open Tx Table Transition

/-! ### The life of a case -/

def IncidentState.Edge (from_ to_ : IncidentState) : Prop :=
  to_ ∈ from_.transitions

theorem edge_of_validateTransition {from_ to_ : IncidentState}
    (h : from_.validateTransition to_ = .ok ()) : from_.Edge to_ := by
  rw [IncidentState.validateTransition] at h
  split at h
  · cases h
  split at h
  · cases h
  · rename_i hedge
    exact not_not.mp hedge

/-- Only a resolved incident is closed, and one that is resolved or closed can
only be closed or reopened. -/
theorem IncidentState.Edge.ended {from_ to_ : IncidentState} (h : from_.Edge to_)
    (hreopened : to_ ≠ .reopened) (hresolved : to_ ≠ .resolved) :
    from_ = .resolved ∨ from_ = .closed ↔ to_ = .resolved ∨ to_ = .closed := by
  rw [IncidentState.Edge] at h
  cases from_ <;> cases to_ <;> simp_all [IncidentState.transitions]

/-- **A consistent life**: its moves, its end and its acknowledgement. -/
structure Case.Lived (c : Case) : Prop where
  history : History.Records IncidentState.Edge .detected c.row.state c.moves
  resolved : c.row.resolvedAt.isSome ↔ c.row.state = .resolved ∨ c.row.state = .closed
  acknowledged : c.row.state = .acknowledged → c.row.acknowledgedAt.isSome

variable {c : Case}

theorem lived_opened (h : CaseOpened c) : c.Lived := by
  obtain ⟨⟩ := h
  exact ⟨.begun, by simp [newIncident], by simp [newIncident]⟩

theorem Case.Lived.moved (h : c.Lived) (now : Time) {to_ : IncidentState}
    (hvalid : c.row.state.validateTransition to_ = .ok ()) : (c.moved now to_).Lived where
  history := h.history.move (edge_of_validateTransition hvalid)
  resolved := by
    have hedge := edge_of_validateTransition hvalid
    by_cases hreopened : to_ = .reopened
    · simp [Case.moved, transitionedRow, hreopened]
    by_cases hresolved : to_ = .resolved
    · simp [Case.moved, transitionedRow, hresolved]
    -- The stamp is kept: the incident had ended exactly if it is closed now.
    have hstamp : (c.moved now to_).row.resolvedAt = c.row.resolvedAt := by
      simp [Case.moved, transitionedRow, hreopened, hresolved]
    rw [hstamp, h.resolved]
    exact hedge.ended hreopened hresolved
  acknowledged := by
    intro hstate
    have hto : to_ = .acknowledged := hstate
    simp [Case.moved, transitionedRow, hto]

variable {db : EventDB} {op : EventOp}

theorem Case.Lived.change {x : Bool} {c' : Case} (h : c.Lived) (hchange : CaseChange x db op c c') :
    c'.Lived := by
  cases hchange with
  | joined hjoins => exact ⟨h.history, h.resolved, h.acknowledged⟩
  | moved hvalid => exact h.moved _ hvalid

/-! ### Versions -/

/-- The row with identifier `id` has been updated `n` times since it was
inserted. -/
structure Versioned (id : String) (n : ℕ) (db : EventDB) : Prop where
  filed : db.Filed
  version : ∀ i ∈ db.incidents, i.id = id → i.version = 1 + n
  absent : (∀ i ∈ db.incidents, i.id ≠ id) → n = 0

theorem CaseChange.version {x : Bool} {c' : Case} (h : CaseChange x db op c c') :
    c'.row.version = c.row.version + 1 := by
  cases h <;> rfl

theorem CaseOpened.version (h : CaseOpened c) : c.row.version = 1 := by
  cases h
  rfl

theorem Versioned.perform {id : String} {n : ℕ} (h : Versioned id n db) (x : Bool) (op : EventOp) :
    Versioned id (n + (Writes x id op db).toNat) (db.perform x op) where
  filed := h.filed.perform x op
  version := by
    intro i' hi' hid'
    have hstep := fileStep_perform h.filed x op
    cases hstep.case h.filed hi' with
    | kept hi hno hcase =>
      rw [hid'] at hno
      rw [hno, h.version i' hi hid']
      rfl
    | changed i hi hid hyes hcase =>
      have hmine : i.id = id := hid.symm.trans hid'
      have hbump : i'.version = i.version + 1 := hcase.version
      rw [hmine] at hyes
      rw [hyes, hbump, h.version i hi hmine]
      rfl
    | opened hnew hcase =>
      have habsent : ∀ i ∈ db.incidents, i.id ≠ id := fun i hi => hid' ▸ hnew i hi
      have hone : i'.version = 1 := hcase.version
      rw [hstep.writes_absent habsent, h.absent habsent, hone]
      rfl
  absent := by
    intro habsent
    have hstep := fileStep_perform h.filed x op
    have hbefore : ∀ i ∈ db.incidents, i.id ≠ id := by
      intro i hi hid
      obtain ⟨i', hi', hid'⟩ := hstep.persists hi
      exact habsent i' hi' (hid'.trans hid)
    rw [hstep.writes_absent hbefore, h.absent hbefore]
    rfl

/-! ### Acknowledgement links -/

/-- The step follows the link of the token `tokenID` and records a transition. -/
def Acknowledges (x : Bool) (tokenID : String) : EventOp → EventDB → Bool
  | .call (.acknowledgeByToken pf now transitionID rawToken requestID traceID), db =>
    ((liveToken pf now rawToken db).any fun token => token.id = tokenID)
      && db.transitions.length
        < (db.perform x (.call
            (.acknowledgeByToken pf now transitionID rawToken requestID
              traceID))).transitions.length
  | _, _ => false

/-- **What a step does to the tokens**: it issues new ones, or uses one up that
was unused. -/
inductive TokenStep (x : Bool) (db : EventDB) (op : EventOp) (tokens : List AckToken) : Prop
  | issued (hno : ∀ tokenID, Acknowledges x tokenID op db = false)
      (hgrows : Grows AckToken.id (fun t => t.usedAt = none) db.ackTokens tokens)
  | used {token : AckToken} {now : Time}
      (hyes : ∀ tokenID, Acknowledges x tokenID op db = decide (token.id = tokenID))
      (htoken : token ∈ db.ackTokens) (hunused : token.usedAt = none)
      (htokens : tokens
        = update (fun t => t.id = token.id) (fun t => { t with usedAt := some now }) db.ackTokens)

theorem tokenStep_acknowledgeByToken (x : Bool) (pf : EventPlatform) (now : Time)
    (transitionID rawToken requestID traceID : String) (db : EventDB) :
    TokenStep x db (.call (.acknowledgeByToken pf now transitionID rawToken requestID traceID))
      (after x (acknowledgeByToken pf now transitionID rawToken requestID traceID) db).ackTokens
      := by
  have hout := acknowledge_outcome x pf now transitionID rawToken requestID traceID db
  have hack : ∀ tokenID,
      Acknowledges x tokenID
          (.call (.acknowledgeByToken pf now transitionID rawToken requestID traceID)) db
        = (((liveToken pf now rawToken db).any fun token => token.id = tokenID)
          && decide (db.transitions.length
            < (after x (acknowledgeByToken pf now transitionID rawToken requestID traceID)
              db).transitions.length)) := fun _ => rfl
  generalize after x (acknowledgeByToken pf now transitionID rawToken requestID traceID) db = db'
    at hout hack ⊢
  generalize (commit x (acknowledgeByToken pf now transitionID rawToken requestID traceID) db).1
    = answer at hout
  cases hout with
  | refused | settled htoken hi hdone => exact .issued (fun tokenID => by simp [hack]) (.refl _)
  | @acknowledged token i answer t _ htoken hi hdue hvalid ht hfile htokens =>
    have hgrown : db'.transitions = db.transitions ++ [t] := congrArg Casefile.transitions hfile
    refine .used (fun tokenID => ?_) (List.mem_of_find?_eq_some htoken) ?_ htokens
    · rw [hack, htoken, hgrown]
      simp
    · rw [settledFor, not_or, Bool.not_eq_true, Option.isSome_eq_false_iff,
        Option.isNone_iff_eq_none] at hdue
      exact hdue.1

theorem tokenStep_perform (x : Bool) (op : EventOp) (db : EventDB) :
    TokenStep x db op (db.perform x op).ackTokens := by
  have hkept : (db.perform x op).ackTokens = db.ackTokens →
      Grows AckToken.id (fun t => t.usedAt = none) db.ackTokens (db.perform x op).ackTokens :=
    fun h => h ▸ .refl _
  cases op with
  | configure config => exact .issued (fun _ => rfl) (.refl _)
  | call call =>
    cases call with
    | processEvent pf now gen e options =>
      exact .issued (fun _ => rfl) ((issues_processEvent pf now gen e options).after x db).tokens
    | claimDeliveries pf now locked limit =>
      exact .issued (fun _ => rfl) (hkept
        ((keeps_claimDeliveries (f := EventDB.ackTokens) (fun _ _ => rfl) pf now locked limit).after
          x db))
    | completeDelivery now deliveryID providerRef deliveryErr =>
      exact .issued (fun _ => rfl) (hkept
        ((keeps_completeDelivery (f := EventDB.ackTokens) (fun _ _ => rfl) (fun _ _ => rfl) now
          deliveryID providerRef deliveryErr).after x db))
    | transitionIncident now transitionID input =>
      exact .issued (fun _ => rfl) (hkept
        ((keeps_transitionIncident (f := EventDB.ackTokens) (fun _ _ _ _ _ _ _ => rfl)
          (fun _ _ => rfl) now transitionID input).after x db))
    | acknowledgeByToken pf now transitionID rawToken requestID traceID =>
      exact tokenStep_acknowledgeByToken x pf now transitionID rawToken requestID traceID db
    | recordAudit entry =>
      exact .issued (fun _ => rfl) (hkept
        ((keeps_auditEvent (f := EventDB.ackTokens) (fun _ _ => rfl) entry).after x db))

/-- The token `tokenID` has moved an incident `n` times: never, or once and it
is used. -/
structure UsedOnce (tokenID : String) (n : ℕ) (db : EventDB) : Prop where
  keyed : Keyed AckToken.id db.ackTokens
  atMost : n ≤ 1
  used : n = 1 → ∃ t ∈ db.ackTokens, t.id = tokenID ∧ t.usedAt.isSome

theorem UsedOnce.perform {tokenID : String} {n : ℕ} (h : UsedOnce tokenID n db) (x : Bool)
    (op : EventOp) :
    UsedOnce tokenID (n + (Acknowledges x tokenID op db).toNat) (db.perform x op) := by
  cases tokenStep_perform x op db with
  | issued hno hgrows =>
    rw [hno]
    refine ⟨hgrows.keyed h.keyed, h.atMost, fun hn => ?_⟩
    obtain ⟨t, ht, hid, hused⟩ := h.used hn
    exact ⟨t, hgrows.mem ht, hid, hused⟩
  | @used token now hyes htoken hunused htokens =>
    have hkeyed : Keyed AckToken.id (db.perform x op).ackTokens := by
      rw [htokens]
      exact h.keyed.map fun t _ => patch_column AckToken.id rfl
    by_cases hid : token.id = tokenID
    · -- The token was unused, so it had not moved anything yet.
      have hzero : n = 0 := by
        by_contra hne
        obtain ⟨t, ht, htid, hused⟩ := h.used (by have := h.atMost; omega)
        rw [h.keyed.eq_of_key ht htoken (htid.trans hid.symm), hunused] at hused
        cases hused
      rw [hyes, decide_eq_true hid, hzero]
      refine ⟨hkeyed, Nat.le_refl 1, fun _ => ?_⟩
      rw [htokens]
      exact ⟨_, mem_update_pos htoken (decide_eq_true rfl), hid, rfl⟩
    rw [hyes, decide_eq_false hid]
    refine ⟨hkeyed, h.atMost, fun hn => ?_⟩
    obtain ⟨t, ht, htid, hused⟩ := h.used hn
    rw [htokens]
    refine ⟨t, mem_update_neg ht (decide_eq_false fun he => hid ?_), htid, hused⟩
    exact he.symm.trans htid

/-! ### Failing calls -/

def EventOp.fails (x : Bool) : EventOp → EventDB → Bool
  | .call (.processEvent pf now gen e options), db =>
    !succeeds x (StormRelay.processEvent pf now gen e options) db
  | .call (.claimDeliveries pf now locked limit), db =>
    !succeeds x (StormRelay.claimDeliveries pf now locked limit) db
  | .call (.completeDelivery now deliveryID providerRef deliveryErr), db =>
    !succeeds x (StormRelay.completeDelivery now deliveryID providerRef deliveryErr) db
  | .call (.transitionIncident now transitionID input), db =>
    !succeeds x (StormRelay.transitionIncident now transitionID input) db
  | .call (.acknowledgeByToken pf now transitionID rawToken requestID traceID), db =>
    !succeeds x (StormRelay.acknowledgeByToken pf now transitionID rawToken requestID traceID) db
  | .call (.recordAudit entry), db => !succeeds x (StormRelay.recordAudit entry) db
  | .configure _, _ => false

theorem perform_of_fails {x : Bool} (h : op.fails x db = true) :
    db.perform x op = db := by
  cases op with
  | configure config => cases h
  | call call => cases call <;> exact after_of_not_succeeds (by simpa [EventOp.fails] using h)

/-! ### Whole runs -/

/-- The tables before the first event. -/
structure EventDB.Fresh (db : EventDB) : Prop extends db.NoEvents where
  transitions : db.transitions = []
  tokens : db.ackTokens = []

theorem EventDB.Fresh.everyCase (h : db.Fresh) (P : Case → Prop) :
    EveryCase P db where
  filed := ⟨h.toNoEvents.conserved, by simp [h.transitions]⟩
  holds := by simp [h.incidents]

theorem mockDB_fresh : mockDB.Fresh := ⟨⟨rfl, rfl, rfl, rfl, rfl⟩, rfl, rfl⟩

/-- The incidents after the run `ops` from `start`. -/
structure LivesConsistent (x : Bool) (start : EventDB) (ops : List EventOp) (db : EventDB) :
    Prop where
  lived : ∀ i ∈ db.incidents, (db.casefile.caseOf i).Lived
  version : ∀ i ∈ db.incidents,
    i.version = 1 + tally (EventDB.perform x) (Writes x i.id) ops start
  tokens : ∀ tokenID, tally (EventDB.perform x) (Acknowledges x tokenID) ops start ≤ 1
  errors : ∀ op : EventOp, op.fails x db = true → db.perform x op = db

/-- **The life of every incident is consistent.**  After every run of calls of
the store from fresh tables: the transitions of every incident are one walk
along the transition table from `detected` to its state; it has a resolution
time exactly when it is resolved or closed, and an acknowledgement time when it
is acknowledged; its version is one more than the number of committed updates
of its row; every token has moved an incident at most once; and a call that
returns an error changes nothing. -/
theorem incident_life_consistent (x : Bool) {start : EventDB} (hfresh : start.Fresh)
    (ops : List EventOp) :
    LivesConsistent x start ops (run (EventDB.perform x) ops start) where
  lived := by
    have hstep : ∀ op (db : EventDB), EveryCase Case.Lived db →
        EveryCase Case.Lived (db.perform x op) :=
      fun op db h => h.perform (fun _ hopened => lived_opened hopened)
        fun _ _ _ hc hchange => hc.change hchange
    exact (run_invariant hstep ops (hfresh.everyCase _)).holds
  version := by
    intro i hi
    have hinit : Versioned i.id 0 start :=
      ⟨(hfresh.everyCase fun _ => True).filed, by simp [hfresh.incidents], fun _ => rfl⟩
    exact (tally_invariant (J := Versioned i.id) (fun op n db h => h.perform x op) ops
      hinit).version i hi rfl
  tokens := by
    intro tokenID
    have hinit : UsedOnce tokenID 0 start :=
      ⟨by simp [hfresh.tokens, Keyed], Nat.zero_le 1, nofun⟩
    exact (tally_invariant (J := UsedOnce tokenID) (fun op n db h => h.perform x op) ops
      hinit).atMost
  errors := fun op h => perform_of_fails h

def acknowledgedTwice : List EventOp :=
  [.call (.processEvent pagePlatform 0 pageIDs pageEvent
      { dedupeWindow := 0, correlationWindow := 0 }),
    .call (.acknowledgeByToken pagePlatform 1 "t1" pageIDs.rawToken "" ""),
    .call (.acknowledgeByToken pagePlatform 2 "t2" pageIDs.rawToken "" "")]

/-- The second use of a link finds its incident acknowledged. -/
theorem incident_life_acknowledged :
    ((run (EventDB.perform true) acknowledgedTwice mockDB).incidents.map fun i =>
        (i.state, i.version)) = [(.acknowledged, 2)]
      ∧ LivesConsistent true mockDB acknowledgedTwice
        (run (EventDB.perform true) acknowledgedTwice mockDB) :=
  ⟨by decide +kernel,
    incident_life_consistent true mockDB_fresh acknowledgedTwice⟩

end StormRelay
