/-
The delivery outbox and its workers (`internal/storage/notifications.go`,
`deliveryLoop` in `internal/worker/worker.go`).

Workers claim deliveries in batches, send them one after another, and report
each of them; a report names the delivery and nothing else.  A claim may be lost
on its way to the worker, a worker may stall between any two calls, or go away.

* `Outbox.refines` — **a delivery over an external channel is an entry of leased
  retries** with five attempts;
* `deliveries_bounded` — **such a delivery has one holder at a time, is claimed at
  most five times, and stays delivered**;
* `lapsed_not_replayed` — **when no failure is reported late, a delivery whose lease
  ran out is not claimed again**.
-/
import StormRelay.Conservation
import StormRelay.Retry

namespace StormRelay

open Tx Table Transition

/-! ### What the calls do to the rows -/

def lapsedRows (now : Time) (db : EventDB) : List DeliveryAttempt :=
  update (leaseLapsed now) lapsedRow db.deliveries

/-- **Everything a `ClaimDeliveries` can do to the rows.** -/
inductive ClaimOutcome (now : Time) (db : EventDB) :
    Except TxError (List Storage.Delivery) → EventDB → Prop
  | refused {err : TxError} : ClaimOutcome now db (.error err) db
  | claimed {due : List DeliveryAttempt} {out : List Storage.Delivery} {db' : EventDB}
      (hdue : ∀ d ∈ due, d ∈ lapsedRows now db ∧ (d.status = .pending ∨ d.status = .failed))
      (hkeyed : Keyed DeliveryAttempt.id due)
      (hout : out.map Storage.Delivery.id = due.map DeliveryAttempt.id)
      (hrows : db'.deliveries = (lapsedRows now db).map fun d =>
        if d.id ∈ due.map DeliveryAttempt.id then deliveringRow now d else d) :
      ClaimOutcome now db (.ok out) db'

variable {db : EventDB}

theorem claimLoop_inv {pf : EventPlatform} {now : Time} {x : Bool} {c : Conn EventDB}
    (items : List (DeliveryAttempt × Option Json)) {out out' : List Storage.Delivery}
    (h : fold (claimDelivery pf now) out items ⟨x, false, db⟩ = .ok (out', c)) :
    out'.map Storage.Delivery.id
        = out.map Storage.Delivery.id ++ (items.map fun item => item.1.id)
      ∧ c.db.deliveries
        = items.foldl (fun t item => update (fun y => y.id = item.1.id) (deliveringRow now) t)
          db.deliveries := by
  induction items generalizing out db with
  | nil =>
    obtain ⟨rfl, rfl⟩ := ok_inj h
    exact ⟨(List.append_nil _).symm, rfl⟩
  | cons item items ih =>
    rw [fold] at h
    obtain ⟨out₁, c₁, h₁, h⟩ := run_ok h
    rw [claimDelivery, run_exec] at h₁
    cases hdecrypt : pf.decrypt item.1.ackTokenCiphertext item.1.incidentID with
    | none =>
      rw [hdecrypt] at h₁
      cases h₁
    | some token =>
      rw [hdecrypt] at h₁
      cases hprepare : prepareDeliveryPayload item.1.payload token with
      | error message =>
        simp only [hprepare] at h₁
        cases h₁
      | ok prepared =>
        simp only [hprepare] at h₁
        obtain ⟨rfl, rfl⟩ := ok_inj h₁
        obtain ⟨hids, hrows⟩ := ih h
        refine ⟨?_, hrows⟩
        rw [hids, List.map_append, List.append_assoc]
        rfl

theorem keyed_due (now : Time) (locked : List String) (limit : ℕ) (db : EventDB)
    (h : Keyed DeliveryAttempt.id db.deliveries) :
    Keyed (fun item : DeliveryAttempt × Option Json => item.1.id)
      (dueDeliveries now locked limit db) := by
  rw [Keyed, dueDeliveries, List.map_map]
  have hsorted := (List.perm_insertionSort
    (fun a b : DeliveryAttempt => a.nextAttemptAt ≤ b.nextAttemptAt)
    (db.deliveries.filter fun d => deliverable now d && d.id ∉ locked)).map DeliveryAttempt.id
  refine List.Nodup.sublist ((List.take_sublist _ _).map _) (hsorted.nodup_iff.mpr ?_)
  exact h.sublist (List.filter_sublist.map _)

theorem status_of_due (now : Time) (locked : List String) (limit : ℕ) (db : EventDB)
    (item : DeliveryAttempt × Option Json) (h : item ∈ dueDeliveries now locked limit db) :
    item.1 ∈ db.deliveries ∧ (item.1.status = .pending ∨ item.1.status = .failed) := by
  rw [dueDeliveries, List.mem_map] at h
  obtain ⟨d, hd, rfl⟩ := h
  have hmem := List.mem_of_mem_take hd
  rw [List.mem_insertionSort, List.mem_filter] at hmem
  simp only [deliverable, Bool.and_eq_true, Bool.or_eq_true, decide_eq_true_eq] at hmem
  exact ⟨hmem.1, hmem.2.1.1⟩

theorem keyed_lapsedRows {now : Time} (h : Keyed DeliveryAttempt.id db.deliveries) :
    Keyed DeliveryAttempt.id (lapsedRows now db) :=
  h.map fun _ _ => patch_column DeliveryAttempt.id rfl

/-- **A claim is refused, or takes back leases and claims rows that are due.** -/
theorem claim_outcome (x : Bool) (pf : EventPlatform) (now : Time) (locked : List String)
    (limit : ℤ) (hk : Keyed DeliveryAttempt.id db.deliveries) :
    ClaimOutcome now db (commit x (claimDeliveries pf now locked limit) db).1
      (after x (claimDeliveries pf now locked limit) db) := by
  rw [after]
  obtain ⟨err, hcommit⟩ | ⟨out, c, h, hcommit⟩ :=
    commit_cases (claimDeliveries pf now locked limit) x db
  · rw [hcommit]
    exact .refused
  rw [hcommit]
  rw [claimDeliveries, run_exec, run_query, run_scanAll] at h
  have hkeyed := keyed_due now locked (deliveryLimit limit)
    (db.updateDeliveries (leaseLapsed now) lapsedRow).2 (keyed_lapsedRows hk)
  have hstatus := status_of_due now locked (deliveryLimit limit)
    (db.updateDeliveries (leaseLapsed now) lapsedRow).2
  obtain ⟨hids, hrows⟩ := claimLoop_inv _ h
  generalize dueDeliveries now locked (deliveryLimit limit)
    (db.updateDeliveries (leaseLapsed now) lapsedRow).2 = items at hkeyed hstatus hids hrows
  have hnames : (items.map Prod.fst).map DeliveryAttempt.id = items.map fun item => item.1.id :=
    List.map_map
  refine @ClaimOutcome.claimed now db (items.map Prod.fst) out c.db (fun d hd => ?_) ?_ ?_ ?_
  · obtain ⟨item, hitem, rfl⟩ := List.mem_map.mp hd
    exact hstatus item hitem
  · rw [Keyed, hnames]
    exact hkeyed
  · rw [hids, hnames]
    rfl
  rw [hrows, foldl_update, hnames]
  refine List.map_congr_left fun d _ => ?_
  -- Every row of the batch is rewritten by its own pass.
  split
  · rename_i hin
    obtain ⟨item, hitem, hid⟩ := List.mem_map.mp hin
    exact foldl_patch_of_mem (f := fun _ => deliveringRow now) (fun _ _ => rfl) hkeyed hitem
      hid.symm
  · rename_i hout
    exact foldl_patch_of_not_mem (fun _ => deliveringRow now) hout

theorem bindText_inv {value : Option String} {text : String} {c c' : Conn EventDB}
    (h : bindText value c = .ok (text, c')) : c' = c := by
  cases value with
  | none => cases h
  | some v =>
    rw [bindText] at h
    split at h
    · exact (ok_inj h).2.symm
    · cases h

/-- **Everything a `CompleteDelivery` can do to the rows.** -/
inductive CompletionOutcome (now : Time) (deliveryID : String) (deliveryErr : Option String)
    (db : EventDB) : List DeliveryAttempt → Prop
  | refused : CompletionOutcome now deliveryID deliveryErr db db.deliveries
  | delivered {providerRef : String} (hok : deliveryErr = none) :
      CompletionOutcome now deliveryID deliveryErr db
        (update (fun d => d.id = deliveryID) (deliveredRow now providerRef) db.deliveries)
  | undelivered {message : String} (herr : deliveryErr.isSome) :
      CompletionOutcome now deliveryID deliveryErr db
        (update (fun d => d.id = deliveryID) (undeliveredRow now message) db.deliveries)

/-- **A report is refused or writes the outcome into the row it names.** -/
theorem completion_outcome (x : Bool) (now : Time) (deliveryID providerRef : String)
    (deliveryErr : Option String) (db : EventDB) :
    CompletionOutcome now deliveryID deliveryErr db
      (after x (completeDelivery now deliveryID providerRef deliveryErr) db).deliveries := by
  rw [after]
  obtain ⟨err, hcommit⟩ | ⟨u, c, h, hcommit⟩ :=
    commit_cases (completeDelivery now deliveryID providerRef deliveryErr) x db
  · rw [hcommit]
    exact .refused
  rw [hcommit]
  rw [completeDelivery] at h
  obtain ⟨d, c₁, h₁, h⟩ := run_ok h
  obtain ⟨-, rfl⟩ := queryRow_inv h₁
  have haudit : ∀ entry c c' u, auditEvent entry c = .ok (u, c') →
      c'.db.deliveries = c.db.deliveries :=
    fun entry c c' u h => keeps_auditEvent (f := EventDB.deliveries) (fun _ _ => rfl) entry c u c' h
  cases deliveryErr with
  | none =>
    obtain ⟨ref, c₂, h₂, h⟩ := run_ok h
    obtain rfl := bindText_inv h₂
    rw [run_exec] at h
    rw [haudit _ _ _ _ h]
    exact .delivered rfl
  | some err =>
    obtain ⟨message, c₂, h₂, h⟩ := run_ok h
    obtain rfl := bindText_inv h₂
    rw [run_exec] at h
    rw [haudit _ _ _ _ h]
    exact .undelivered rfl

/-! ### The outbox and its workers -/

/-- The tables, the claims that workers hold (a report consumes one), every claim
there has been, and the deliveries that were moved from `delivering` to
`ambiguous`. -/
structure Outbox where
  db : EventDB
  held : List String
  claims : List String
  lapsed : List String

inductive OutboxOp where
  /-- A worker claims deliveries; `lost` when the answer does not reach it. -/
  | claim (pf : EventPlatform) (now : Time) (locked : List String) (limit : ℤ) (lost : Bool)
  /-- A worker reports a delivery it holds. -/
  | complete (now : Time) (deliveryID providerRef : String) (deliveryErr : Option String)
  /-- A worker goes away with a delivery it holds. -/
  | leave (deliveryID : String)
  /-- Any other call of the store. -/
  | other (op : EventOp)

def EventOp.drains : EventOp → Bool
  | .call (.claimDeliveries ..) => true
  | .call (.completeDelivery ..) => true
  | _ => false

namespace Outbox

def claimed (x : Bool) (s : Outbox) : OutboxOp → List String
  | .claim pf now locked limit _ =>
    match (commit x (claimDeliveries pf now locked limit) s.db).1 with
    | .ok out => out.map Storage.Delivery.id
    | .error _ => []
  | _ => []

/-- The deliveries in work in `db` that are in doubt in `db'`. -/
def doubted (db db' : EventDB) : List String :=
  (db.deliveries.filter fun d => d.status = .delivering
    && db'.deliveries.any fun d' => d'.id = d.id && d'.status = .ambiguous).map DeliveryAttempt.id

/-- The outbox after the deliveries `ids` were claimed. -/
def withClaims (s : Outbox) (db : EventDB) (ids : List String) (lost : Bool) : Outbox :=
  { db := db, held := if lost then s.held else s.held ++ ids, claims := s.claims ++ ids
    lapsed := s.lapsed ++ doubted s.db db }

def withoutClaim (s : Outbox) (db : EventDB) (deliveryID : String) : Outbox :=
  { s with db := db, held := s.held.erase deliveryID }

def step (x : Bool) : OutboxOp → Outbox → Outbox
  | .claim pf now locked limit lost, s =>
    s.withClaims (after x (claimDeliveries pf now locked limit) s.db)
      (s.claimed x (.claim pf now locked limit lost)) lost
  | .complete now deliveryID providerRef deliveryErr, s =>
    if deliveryID ∈ s.held then
      s.withoutClaim (after x (completeDelivery now deliveryID providerRef deliveryErr) s.db)
        deliveryID
    else s
  | .leave deliveryID, s =>
    if deliveryID ∈ s.held then s.withoutClaim s.db deliveryID else s
  | .other op, s => if op.drains then s else { s with db := s.db.perform x op }

/-- Before any claim. -/
def init (db : EventDB) : Outbox :=
  ⟨db, [], [], []⟩

end Outbox

/-! ### Deliveries as entries of leased retries -/

def DeliveryStatus.stage : DeliveryStatus → Retry.Stage
  | .pending => .waiting
  | .failed => .waiting
  | .delivering => .working
  | .delivered => .done
  | .ambiguous => .doubtful

namespace Outbox

def entry (s : Outbox) (d : DeliveryAttempt) : Retry.Entry :=
  ⟨d.status.stage, d.attempt, s.held.count d.id, s.claims.count d.id, d.id ∈ s.lapsed⟩

/-- Every row has its own identifier, and claims are of stored deliveries. -/
structure Tracked (s : Outbox) : Prop where
  keyed : Keyed DeliveryAttempt.id s.db.deliveries
  known : ∀ id ∈ s.held ++ s.claims ++ s.lapsed, ∃ d ∈ s.db.deliveries, d.id = id

def LateFailure (s : Outbox) (op : OutboxOp) (d : DeliveryAttempt) : Prop :=
  d.status = .ambiguous ∧ d.attempt < 5 ∧ d.id ∈ s.held
    ∧ ∃ now providerRef err, op = .complete now d.id providerRef (some err)

/-- What the step `op` from `s` to `s'` does to the row `d'` of `s'`. -/
inductive RowStep (s : Outbox) (op : OutboxOp) (s' : Outbox) (d' : DeliveryAttempt) : Prop
  | old (d : DeliveryAttempt) (hd : d ∈ s.db.deliveries) (hid : d'.id = d.id)
      (hkind : d'.channelKind = d.channelKind)
      (hacts : d.channelKind ≠ "mock" → Retry.Acts 5 (s.entry d) (s'.entry d'))
      (hlate : d.status = .ambiguous → d'.status.stage = .waiting → s.LateFailure op d)
  | new (hnew : ∀ d ∈ s.db.deliveries, d.id ≠ d'.id) (hentry : s'.entry d' = .new)

variable {x : Bool} {s : Outbox} {op : OutboxOp} {d d' : DeliveryAttempt}

theorem RowStep.same {s' : Outbox} (hd : d ∈ s.db.deliveries)
    (hacts : Retry.Acts 5 (s.entry d) (s'.entry d)) : RowStep s op s' d :=
  .old d hd rfl rfl (fun _ => hacts) fun hst hstage => by rw [hst] at hstage; cases hstage

/-! The other components. -/

theorem grows_perform (x : Bool) {op : EventOp} (h : op.drains = false) (db : EventDB) :
    Grows DeliveryAttempt.id (fun d => d.status = .pending ∧ d.attempt = 0) db.deliveries
      (db.perform x op).deliveries := by
  have hkept : (db.perform x op).deliveries = db.deliveries →
      Grows DeliveryAttempt.id (fun d => d.status = .pending ∧ d.attempt = 0) db.deliveries
        (db.perform x op).deliveries := fun h => h ▸ .refl _
  cases op with
  | configure config => exact .refl _
  | call call =>
    cases call with
    | processEvent pf now gen e options =>
      exact ((issues_processEvent pf now gen e options).after x db).deliveries
    | claimDeliveries | completeDelivery => cases h
    | transitionIncident now transitionID input =>
      exact hkept ((keeps_transitionIncident (f := EventDB.deliveries) (fun _ _ _ _ _ _ _ => rfl)
        (fun _ _ => rfl) now transitionID input).after x db)
    | acknowledgeByToken pf now transitionID rawToken requestID traceID =>
      exact hkept ((keeps_acknowledgeByToken (f := EventDB.deliveries)
        (fun _ _ _ _ _ _ _ => rfl) (fun _ _ => rfl) (fun _ _ => rfl) pf now transitionID rawToken
        requestID traceID).after x db)
    | recordAudit entry =>
      exact hkept ((keeps_auditEvent (f := EventDB.deliveries) (fun _ _ => rfl) entry).after x db)

variable {db : EventDB}

theorem rowStep_other (h : s.Tracked)
    (hgrows : Grows DeliveryAttempt.id
      (fun d => d.status = .pending ∧ d.attempt = 0) s.db.deliveries db.deliveries)
    (hd' : d' ∈ db.deliveries) :
    RowStep s op { s with db := db } d' := by
  rcases hgrows.mem_cases h.keyed hd' with hold | ⟨⟨hstatus, hattempt⟩, hnew⟩
  · exact .same hold (.inl rfl)
  -- Nobody can have claimed a delivery that was not there.
  have hunknown : d'.id ∉ s.held ++ s.claims ++ s.lapsed := by
    intro hin
    obtain ⟨d, hd, hid⟩ := h.known _ hin
    exact hnew d hd hid
  simp only [List.mem_append, not_or] at hunknown
  have hheld := List.count_eq_zero_of_not_mem hunknown.1.1
  have hclaims := List.count_eq_zero_of_not_mem hunknown.1.2
  refine .new hnew ?_
  simp [entry, Retry.Entry.new, hstatus, hattempt, DeliveryStatus.stage, hheld, hclaims,
    hunknown.2]

/-! Reports. -/

theorem entry_withoutClaim (db : EventDB) (d d' : DeliveryAttempt) (hid : d'.id = d.id)
    (hattempt : d'.attempt = d.attempt) :
    (s.withoutClaim db d.id).entry d'
      = ⟨d'.status.stage, d.attempt, s.held.count d.id - 1, s.claims.count d.id,
        d.id ∈ s.lapsed⟩ := by
  simp only [entry, withoutClaim, hid, hattempt, List.count_erase_self]

variable {deliveryID : String}

theorem rowStep_withoutClaim (db : EventDB) (hd : d ∈ s.db.deliveries)
    (hheld : deliveryID ∈ s.held) :
    RowStep s op (s.withoutClaim db deliveryID) d := by
  refine .same hd ?_
  by_cases hmine : d.id = deliveryID
  · subst hmine
    rw [entry_withoutClaim db d d rfl rfl]
    exact .inr (.leave (List.count_pos_iff.mpr hheld))
  · left
    have hcount := List.count_erase_of_ne (l := s.held) hmine
    rw [entry, entry, withoutClaim, hcount]

variable {now : Time}

theorem rowStep_report {providerRef : String} {deliveryErr : Option String}
    (hheld : deliveryID ∈ s.held) {rows : List DeliveryAttempt} (db : EventDB)
    (hout : CompletionOutcome now deliveryID deliveryErr s.db rows) (hd' : d' ∈ rows) :
    RowStep s (.complete now deliveryID providerRef deliveryErr) (s.withoutClaim db deliveryID)
      d' := by
  cases hout with
  | refused => exact rowStep_withoutClaim db hd' hheld
  | @delivered ref hok =>
    rcases mem_update_cases hd' with ⟨d, hd, hmine, rfl⟩ | ⟨hd, -⟩
    · obtain rfl := of_decide_eq_true hmine
      refine .old d hd rfl rfl (fun _ => ?_) fun _ hstage => by cases hstage
      rw [entry_withoutClaim db d (deliveredRow now ref d) rfl rfl]
      exact .inr (.succeed (List.count_pos_iff.mpr hheld))
    · exact rowStep_withoutClaim db hd hheld
  | @undelivered message herr =>
    rcases mem_update_cases hd' with ⟨d, hd, hmine, rfl⟩ | ⟨hd, -⟩
    · obtain rfl := of_decide_eq_true hmine
      obtain ⟨err, rfl⟩ := Option.isSome_iff_exists.mp herr
      have hstage : (undeliveredRow now message d).status.stage
          = if 5 ≤ d.attempt then .doubtful else .waiting := by
        rw [undeliveredRow]
        split <;> rfl
      refine .old d hd rfl rfl (fun _ => ?_) fun hst hwaiting => ?_
      · rw [entry_withoutClaim db d (undeliveredRow now message d) rfl rfl, hstage]
        exact .inr (.fail (List.count_pos_iff.mpr hheld))
      refine ⟨hst, ?_, hheld, now, providerRef, err, rfl⟩
      by_contra hcap
      rw [hstage, if_pos (Nat.not_lt.mp hcap)] at hwaiting
      cases hwaiting
    · exact rowStep_withoutClaim db hd hheld

/-! Claims. -/

theorem mem_doubted {db' : EventDB} (hk : Keyed DeliveryAttempt.id db.deliveries)
    (hk' : Keyed DeliveryAttempt.id db'.deliveries) (hd : d ∈ db.deliveries)
    (hd' : d' ∈ db'.deliveries) (hid : d'.id = d.id) :
    d.id ∈ doubted db db' ↔ d.status = .delivering ∧ d'.status = .ambiguous := by
  rw [doubted, List.mem_map]
  simp only [List.mem_filter, Bool.and_eq_true, decide_eq_true_eq, List.any_eq_true]
  constructor
  · rintro ⟨e, ⟨he, hst, e', he', heid, hst'⟩, hed⟩
    obtain rfl := hk.eq_of_key he hd hed
    obtain rfl := hk'.eq_of_key he' hd' (heid.trans hid.symm)
    exact ⟨hst, hst'⟩
  · rintro ⟨hst, hst'⟩
    exact ⟨d, ⟨hd, hst, d', hd', hid, hst'⟩, rfl⟩

/-- The row `d` after leases were taken back and the batch `ids` was claimed. -/
def claimedRow (now : Time) (ids : List String) (d : DeliveryAttempt) : DeliveryAttempt :=
  let d := patch (leaseLapsed now) lapsedRow d
  if d.id ∈ ids then deliveringRow now d else d

theorem claimedRow_column {β : Type} (c : DeliveryAttempt → β) (hlapsed : c (lapsedRow d) = c d)
    (hclaimed : ∀ d, c (deliveringRow now d) = c d) (ids : List String) :
    c (claimedRow now ids d) = c d := by
  have hfirst : c (patch (leaseLapsed now) lapsedRow d) = c d := patch_column c hlapsed
  rw [claimedRow]
  split
  · rw [hclaimed, hfirst]
  · exact hfirst

theorem doubtful_claimed {ids : List String} (hst : d.status = .ambiguous)
    (hstage : (claimedRow now ids d).status.stage = .waiting) :
    False := by
  have hquiet : leaseLapsed now d = false := by simp [leaseLapsed, hst]
  rw [claimedRow, patch_neg hquiet] at hstage
  split at hstage
  · cases hstage
  · rw [hst] at hstage
    cases hstage

structure Batch (now : Time) (s : Outbox) (due : List DeliveryAttempt) : Prop where
  waits : ∀ d ∈ due, d ∈ lapsedRows now s.db ∧ (d.status = .pending ∨ d.status = .failed)
  keyed : Keyed DeliveryAttempt.id due

theorem Batch.waiting {due : List DeliveryAttempt} (hbatch : Batch now s due) (h : s.Tracked)
    (hd : d ∈ s.db.deliveries) (hkind : d.channelKind ≠ "mock")
    (hin : d.id ∈ due.map DeliveryAttempt.id) :
    (d.status = .pending ∨ d.status = .failed) ∧ leaseLapsed now d = false := by
  obtain ⟨r, hr, hrid⟩ := List.mem_map.mp hin
  obtain ⟨hmem, hst⟩ := hbatch.waits r hr
  have hsame : r = patch (leaseLapsed now) lapsedRow d :=
    (keyed_lapsedRows h.keyed).eq_of_key hmem (mem_update_of_mem hd)
      (hrid.trans (patch_column DeliveryAttempt.id rfl).symm)
  by_cases hlapse : leaseLapsed now d = true
  · rw [hsame, patch_pos hlapse] at hst
    simp [lapsedRow, hkind] at hst
  · rw [Bool.not_eq_true] at hlapse
    rw [hsame, patch_neg hlapse] at hst
    exact ⟨hst, hlapse⟩

section Claim

variable {now : Time} {due : List DeliveryAttempt} {db : EventDB} {d : DeliveryAttempt}
  (h : s.Tracked) (hbatch : Batch now s due)
  (hrows : db.deliveries = s.db.deliveries.map (claimedRow now (due.map DeliveryAttempt.id)))
  (hd : d ∈ s.db.deliveries)

include h hrows hd

theorem mem_doubted_claim :
    d.id ∈ doubted s.db db ↔ d.status = .delivering
      ∧ (claimedRow now (due.map DeliveryAttempt.id) d).status = .ambiguous := by
  have hid : (claimedRow now (due.map DeliveryAttempt.id) d).id = d.id :=
    claimedRow_column DeliveryAttempt.id rfl (fun _ => rfl) _
  have hk : Keyed DeliveryAttempt.id db.deliveries := by
    rw [hrows]
    exact h.keyed.map fun d _ => claimedRow_column DeliveryAttempt.id rfl (fun _ => rfl) _
  exact mem_doubted h.keyed hk hd (hrows ▸ List.mem_map_of_mem hd) hid

include hbatch

theorem acts_claimed (hkind : d.channelKind ≠ "mock") (lost : Bool)
    (hin : d.id ∈ due.map DeliveryAttempt.id) :
    Retry.Acts 5 (s.entry d) ((s.withClaims db (due.map DeliveryAttempt.id) lost).entry
      (claimedRow now (due.map DeliveryAttempt.id) d)) := by
  obtain ⟨hwaiting, hquiet⟩ := hbatch.waiting h hd hkind hin
  have hrow : claimedRow now (due.map DeliveryAttempt.id) d = deliveringRow now d := by
    rw [claimedRow, patch_neg hquiet, if_pos hin]
  have hcount : (due.map DeliveryAttempt.id).count d.id = 1 :=
    List.count_eq_one_of_mem hbatch.keyed hin
  have hclear : d.id ∉ doubted s.db db := by
    rw [mem_doubted_claim h hrows hd]
    rcases hwaiting with hst | hst <;> simp [hst]
  have hentry : (s.withClaims db (due.map DeliveryAttempt.id) lost).entry
        (claimedRow now (due.map DeliveryAttempt.id) d)
      = ⟨.working, d.attempt + 1, s.held.count d.id + (!lost).toNat, s.claims.count d.id + 1,
        d.id ∈ s.lapsed⟩ := by
    cases lost <;>
      simp [entry, withClaims, hrow, deliveringRow, DeliveryStatus.stage, List.count_append, hcount,
        hclear]
  have hstage : (s.entry d).stage = .waiting := by
    rcases hwaiting with hst | hst <;> simp [entry, hst, DeliveryStatus.stage]
  rw [hentry]
  exact .inr (.claim lost hstage)

omit hbatch in
theorem acts_unclaimed (hkind : d.channelKind ≠ "mock") (lost : Bool)
    (hout : d.id ∉ due.map DeliveryAttempt.id) :
    Retry.Acts 5 (s.entry d) ((s.withClaims db (due.map DeliveryAttempt.id) lost).entry
      (claimedRow now (due.map DeliveryAttempt.id) d)) := by
  have hid : (claimedRow now (due.map DeliveryAttempt.id) d).id = d.id :=
    claimedRow_column DeliveryAttempt.id rfl (fun _ => rfl) _
  have hsame : (patch (leaseLapsed now) lapsedRow d).id = d.id :=
    patch_column DeliveryAttempt.id rfl
  have hcount : (due.map DeliveryAttempt.id).count d.id = 0 := List.count_eq_zero_of_not_mem hout
  have hheld : (s.withClaims db (due.map DeliveryAttempt.id) lost).held.count d.id
      = s.held.count d.id := by
    cases lost <;> simp [withClaims, List.count_append, hcount]
  have hclaims : (s.withClaims db (due.map DeliveryAttempt.id) lost).claims.count d.id
      = s.claims.count d.id := by
    simp [withClaims, List.count_append, hcount]
  by_cases hlapse : leaseLapsed now d = true
  · have hrow : claimedRow now (due.map DeliveryAttempt.id) d = lapsedRow d := by
      rw [claimedRow, hsame, if_neg hout, patch_pos hlapse]
    have hworking : d.status = .delivering := by
      simp only [leaseLapsed, Bool.and_eq_true, decide_eq_true_eq] at hlapse
      exact hlapse.1
    have hstatus : (lapsedRow d).status = .ambiguous := by simp [lapsedRow, hkind]
    have hdoubted : d.id ∈ s.lapsed ++ doubted s.db db := by
      rw [List.mem_append, mem_doubted_claim h hrows hd, hrow]
      exact .inr ⟨hworking, hstatus⟩
    have hentry : (s.withClaims db (due.map DeliveryAttempt.id) lost).entry
          (claimedRow now (due.map DeliveryAttempt.id) d)
        = ⟨.doubtful, d.attempt, s.held.count d.id, s.claims.count d.id, true⟩ := by
      rw [entry, hid, hheld, hclaims, hrow, hstatus]
      exact congrArg (Retry.Entry.mk _ _ _ _) (decide_eq_true hdoubted)
    rw [hentry]
    exact .inr (.lapse (by simp [entry, hworking, DeliveryStatus.stage]))
  have hrow : claimedRow now (due.map DeliveryAttempt.id) d = d := by
    rw [claimedRow, hsame, if_neg hout, patch_neg (by simpa using hlapse)]
  have hclear : d.id ∉ doubted s.db db := by
    rw [mem_doubted_claim h hrows hd, hrow]
    rintro ⟨hst, hst'⟩
    rw [hst] at hst'
    cases hst'
  left
  rw [entry, hrow, hheld, hclaims, entry]
  simp [withClaims, hclear]

end Claim

theorem rowStep_claim (h : s.Tracked) {due : List DeliveryAttempt} (lost : Bool)
    (hbatch : Batch now s due)
    (hrows : db.deliveries = s.db.deliveries.map (claimedRow now (due.map DeliveryAttempt.id)))
    (hd' : d' ∈ db.deliveries) :
    RowStep s op (s.withClaims db (due.map DeliveryAttempt.id) lost) d' := by
  obtain ⟨d, hd, rfl⟩ := List.mem_map.mp (hrows ▸ hd')
  refine .old d hd (claimedRow_column DeliveryAttempt.id rfl (fun _ => rfl) _)
    (claimedRow_column DeliveryAttempt.channelKind rfl (fun _ => rfl) _) (fun hkind => ?_)
    fun hst hstage => (doubtful_claimed hst hstage).elim
  by_cases hin : d.id ∈ due.map DeliveryAttempt.id
  · exact acts_claimed h hbatch hrows hd hkind lost hin
  · exact acts_unclaimed h hrows hd hkind lost hin

/-! All steps. -/

/-- What a step from `s` to `s'` guarantees. -/
structure Refines (s : Outbox) (op : OutboxOp) (s' : Outbox) : Prop where
  tracked : s'.Tracked
  persists : ∀ d ∈ s.db.deliveries, ∃ d' ∈ s'.db.deliveries, d'.id = d.id
  rows : ∀ d' ∈ s'.db.deliveries, RowStep s op s' d'

/-- The claims and leases that a step adds are those of stored deliveries. -/
theorem Refines.of_rows {s' : Outbox} (h : s.Tracked)
    (hkeyed : Keyed DeliveryAttempt.id s'.db.deliveries)
    (hpersists : ∀ d ∈ s.db.deliveries, ∃ d' ∈ s'.db.deliveries, d'.id = d.id)
    (hadded : ∀ id ∈ s'.held ++ s'.claims ++ s'.lapsed,
      id ∈ s.held ++ s.claims ++ s.lapsed ∨ ∃ d ∈ s.db.deliveries, d.id = id)
    (hrows : ∀ d' ∈ s'.db.deliveries, RowStep s op s' d') : Refines s op s' where
  tracked := by
    refine ⟨hkeyed, fun id hid => ?_⟩
    obtain ⟨d, hd, hdid⟩ : ∃ d ∈ s.db.deliveries, d.id = id := by
      rcases hadded id hid with hold | hstored
      · exact h.known id hold
      · exact hstored
    obtain ⟨d', hd', hid'⟩ := hpersists d hd
    exact ⟨d', hd', hid'.trans hdid⟩
  persists := hpersists
  rows := hrows

theorem erase_known (db : EventDB) :
    ∀ id ∈ (s.withoutClaim db deliveryID).held ++ (s.withoutClaim db deliveryID).claims
        ++ (s.withoutClaim db deliveryID).lapsed,
      id ∈ s.held ++ s.claims ++ s.lapsed ∨ ∃ d ∈ s.db.deliveries, d.id = id := by
  intro id hid
  left
  simp only [withoutClaim, List.mem_append] at hid ⊢
  rcases hid with (hheld | hclaims) | hlapsed
  · exact .inl (.inl (List.mem_of_mem_erase hheld))
  · exact .inl (.inr hclaims)
  · exact .inr hlapsed

theorem refines_refl (h : s.Tracked) : Refines s op s :=
  ⟨h, fun d hd => ⟨d, hd, rfl⟩, fun _ hd' => .same hd' (.inl rfl)⟩

theorem refines_complete (h : s.Tracked) (x : Bool) (now : Time) (deliveryID providerRef : String)
    (deliveryErr : Option String) (hheld : deliveryID ∈ s.held) :
    Refines s (.complete now deliveryID providerRef deliveryErr)
      (s.withoutClaim (after x (completeDelivery now deliveryID providerRef deliveryErr) s.db)
        deliveryID) := by
  have hout := completion_outcome x now deliveryID providerRef deliveryErr s.db
  generalize after x (completeDelivery now deliveryID providerRef deliveryErr) s.db = db at hout ⊢
  have hids : ∃ p f, db.deliveries = update p f s.db.deliveries ∧ ∀ d, (f d).id = d.id := by
    generalize db.deliveries = rows at hout
    cases hout with
    | refused => exact ⟨fun _ => false, id, (update_eq_self fun _ _ => rfl).symm, fun _ => rfl⟩
    | @delivered ref hok => exact ⟨_, deliveredRow now ref, rfl, fun _ => rfl⟩
    | @undelivered message herr => exact ⟨_, undeliveredRow now message, rfl, fun _ => rfl⟩
  obtain ⟨p, f, hrows, hf⟩ := hids
  refine .of_rows h ?_ (fun d hd => ?_) (erase_known db) fun d' hd' =>
    rowStep_report hheld db hout hd'
  · rw [withoutClaim, hrows]
    exact h.keyed.map fun d _ => patch_column DeliveryAttempt.id (hf d)
  · rw [withoutClaim, hrows]
    exact ⟨_, mem_update_of_mem hd, patch_column DeliveryAttempt.id (hf d)⟩

theorem refines_claim (h : s.Tracked) (x : Bool) (pf : EventPlatform) (now : Time)
    (locked : List String) (limit : ℤ) (lost : Bool) :
    Refines s (.claim pf now locked limit lost) (s.step x (.claim pf now locked limit lost)) := by
  have hout := claim_outcome x pf now locked limit h.keyed
  rw [step, claimed]
  generalize after x (claimDeliveries pf now locked limit) s.db = db at hout ⊢
  generalize (commit x (claimDeliveries pf now locked limit) s.db).1 = answer at hout ⊢
  cases hout with
  | refused =>
    -- Nothing is put in doubt when the tables stay as they are.
    have hclear : doubted s.db s.db = [] := by
      rw [doubted, List.map_eq_nil_iff, List.filter_eq_nil_iff]
      intro d hd hdoubt
      simp only [Bool.and_eq_true, decide_eq_true_eq, List.any_eq_true] at hdoubt
      obtain ⟨hst, d', hd', hid, hst'⟩ := hdoubt
      rw [h.keyed.eq_of_key hd' hd hid, hst] at hst'
      cases hst'
    have hsame : s.withClaims s.db [] lost = s := by
      cases lost <;> simp [withClaims, hclear]
    simp only
    rw [hsame]
    exact refines_refl h
  | @claimed due out _ hdue hkeyed hids hrows =>
    have hbatch : Batch now s due := ⟨hdue, hkeyed⟩
    have hrows' : db.deliveries
        = s.db.deliveries.map (claimedRow now (due.map DeliveryAttempt.id)) := by
      rw [hrows, lapsedRows, update, List.map_map]
      rfl
    have hid : ∀ d, (claimedRow now (due.map DeliveryAttempt.id) d).id = d.id :=
      fun _ => claimedRow_column DeliveryAttempt.id rfl (fun _ => rfl) _
    simp only [hids]
    refine .of_rows h ?_ (fun d hd => ?_) (fun id hin => ?_) fun d' hd' =>
      rowStep_claim h lost hbatch hrows' hd'
    · rw [withClaims, hrows']
      exact h.keyed.map fun d _ => hid d
    · rw [withClaims, hrows']
      exact ⟨_, List.mem_map_of_mem hd, hid d⟩
    have hdueid : ∀ id ∈ due.map DeliveryAttempt.id, ∃ d ∈ s.db.deliveries, d.id = id := by
      intro id hin
      obtain ⟨r, hr, rfl⟩ := List.mem_map.mp hin
      obtain ⟨d, hd, rfl⟩ := mem_update.mp (hdue r hr).1
      exact ⟨d, hd, (patch_column DeliveryAttempt.id rfl).symm⟩
    have hdoubtid : ∀ id ∈ doubted s.db db, ∃ d ∈ s.db.deliveries, d.id = id := by
      intro id hin
      obtain ⟨d, hd, rfl⟩ := List.mem_map.mp hin
      exact ⟨d, List.mem_of_mem_filter hd, rfl⟩
    have hin' : (id ∈ s.held ∨ id ∈ due.map DeliveryAttempt.id)
        ∨ (id ∈ s.claims ∨ id ∈ due.map DeliveryAttempt.id)
        ∨ (id ∈ s.lapsed ∨ id ∈ doubted s.db db) := by
      cases lost <;> simp only [withClaims, List.mem_append, if_true, if_false,
        Bool.false_eq_true, or_assoc] at hin ⊢ <;> tauto
    simp only [List.mem_append]
    rcases hin' with (hin | hin) | (hin | hin) | hin | hin
    · exact .inl (.inl (.inl hin))
    · exact .inr (hdueid id hin)
    · exact .inl (.inl (.inr hin))
    · exact .inr (hdueid id hin)
    · exact .inl (.inr hin)
    · exact .inr (hdoubtid id hin)

/-- **Deliveries are entries of leased retries.**  Every step keeps the outbox
tracked; a row after it is new, or one step of a row before it. -/
theorem refines (h : s.Tracked) (x : Bool) (op : OutboxOp) : Refines s op (s.step x op) := by
  cases op with
  | claim pf now locked limit lost => exact refines_claim h x pf now locked limit lost
  | complete now deliveryID providerRef deliveryErr =>
    rw [step]
    split
    · rename_i hheld
      exact refines_complete h x now deliveryID providerRef deliveryErr hheld
    · exact refines_refl h
  | leave deliveryID =>
    rw [step]
    split
    · rename_i hheld
      exact .of_rows h h.keyed (fun d hd => ⟨d, hd, rfl⟩) (erase_known s.db) fun d' hd' =>
        rowStep_withoutClaim s.db hd' hheld
    · exact refines_refl h
  | other op =>
    rw [step]
    split
    · exact refines_refl h
    rename_i hop
    have hgrows := grows_perform x (by simpa using hop) s.db
    exact .of_rows h (hgrows.keyed h.keyed) (fun d hd => ⟨d, hgrows.mem hd, rfl⟩)
      (fun id hid => .inl hid) fun d' hd' => rowStep_other h hgrows hd'

/-! ### Bounded attempts -/

structure Sound (s : Outbox) : Prop where
  tracked : s.Tracked
  entries : ∀ d ∈ s.db.deliveries, d.channelKind ≠ "mock" → (s.entry d).Sound 5

theorem Sound.step (h : s.Sound) (x : Bool) (op : OutboxOp) : (s.step x op).Sound where
  tracked := (refines h.tracked x op).tracked
  entries := by
    intro d' hd' hkind
    cases (refines h.tracked x op).rows d' hd' with
    | old d hd hid hsame hacts hlate =>
      have hkind' : d.channelKind ≠ "mock" := hsame ▸ hkind
      exact (h.entries d hd hkind').acts (hacts hkind')
    | new hnew hentry =>
      rw [hentry]
      exact .new (by decide)

theorem sound_init (h : db.deliveries = []) : (init db).Sound where
  tracked := ⟨by simp [init, h, Keyed], by simp [init]⟩
  entries := by simp [init, h]

theorem Sound.delivered_step (h : s.Sound) (x : Bool) (op : OutboxOp) (hd : d ∈ s.db.deliveries)
    (hkind : d.channelKind ≠ "mock") (hst : d.status = .delivered) :
    ∃ d' ∈ (s.step x op).db.deliveries,
      d'.id = d.id ∧ d'.channelKind ≠ "mock" ∧ d'.status = .delivered := by
  have href := refines h.tracked x op
  obtain ⟨d', hd', hid⟩ := href.persists d hd
  refine ⟨d', hd', hid, ?_⟩
  cases href.rows d' hd' with
  | new hnew hentry => exact absurd hid.symm (hnew d hd)
  | old r hr hrid hsame hacts hlate =>
    obtain rfl := h.tracked.keyed.eq_of_key hr hd (hrid.symm.trans hid)
    have hdone : (s.entry r).stage = .done := by simp [entry, hst, DeliveryStatus.stage]
    have hleft := (h.entries r hd hkind).finished hdone (hacts hkind)
    have hstage : d'.status.stage = .done := (congrArg Retry.Entry.stage hleft).trans hdone
    refine ⟨hsame ▸ hkind, ?_⟩
    generalize d'.status = status at hstage
    cases status <;> first | rfl | cases hstage

/-- What is guaranteed of the delivery `d` in the state `s`: holders, claims, and
that it stays delivered. -/
structure Bounded (x : Bool) (s : Outbox) (d : DeliveryAttempt) : Prop where
  holders : s.held.count d.id ≤ 1
  attempts : s.claims.count d.id ≤ 5
  final : d.status = .delivered → ∀ more, ∃ d' ∈ (run (step x) more s).db.deliveries,
    d'.id = d.id ∧ d'.status = .delivered

theorem Sound.bounded (h : s.Sound) (x : Bool) (hd : d ∈ s.db.deliveries)
    (hkind : d.channelKind ≠ "mock") : Bounded x s d where
  holders := (h.entries d hd hkind).single
  attempts := by
    have hcounted : s.claims.count d.id = d.attempt := (h.entries d hd hkind).counted
    rw [hcounted]
    exact (h.entries d hd hkind).bounded
  final := by
    intro hst more
    have hrun : (run (Outbox.step x) more s).Sound
        ∧ ∃ d' ∈ (run (Outbox.step x) more s).db.deliveries,
          d'.id = d.id ∧ d'.channelKind ≠ "mock" ∧ d'.status = .delivered := by
      refine run_invariant
        (I := fun s : Outbox => s.Sound ∧ ∃ d' ∈ s.db.deliveries,
          d'.id = d.id ∧ d'.channelKind ≠ "mock" ∧ d'.status = .delivered)
        (fun op s hs => ?_) more ⟨h, d, hd, rfl, hkind, hst⟩
      obtain ⟨hsound, r, hr, hrid, hrkind, hrst⟩ := hs
      obtain ⟨r', hr', hid, hkind', hst'⟩ := hsound.delivered_step x op hr hrkind hrst
      exact ⟨hsound.step x op, r', hr', hid.trans hrid, hkind', hst'⟩
    obtain ⟨d', hd', hid, -, hst'⟩ := hrun.2
    exact ⟨d', hd', hid, hst'⟩

end Outbox

/-- **External deliveries are attempted boundedly and one at a time.**  In every
run of claims, reports, crashes and other calls of the store, from an empty
outbox: of a delivery over a channel that is not `mock` at most one claim is
outstanding, there have been at most five claims, and once it is delivered it is
delivered after every continuation of the run. -/
theorem deliveries_bounded (x : Bool) {db : EventDB} (hstart : db.deliveries = [])
    (ops : List OutboxOp) :
    ∀ d ∈ (run (Outbox.step x) ops (.init db)).db.deliveries, d.channelKind ≠ "mock" →
      Outbox.Bounded x (run (Outbox.step x) ops (.init db)) d := by
  intro d hd hkind
  have hsound : (run (Outbox.step x) ops (.init db)).Sound :=
    run_invariant (I := Outbox.Sound) (fun op s h => h.step x op) ops
      (Outbox.sound_init hstart)
  exact hsound.bounded x hd hkind

def telegramDB : EventDB :=
  { mockDB with
    channels := [{ id := "c", tenantID := "t", channelKey := "local-mock", kind := "telegram"
                   config := .null, enabled := true }] }

def relayPlatform : EventPlatform :=
  { pagePlatform with decrypt := fun _ _ => some "secret" }

/-- An event is enqueued for delivery, a worker claims the delivery and stalls
past its lease, and another worker asks for deliveries. -/
def stalledDelivery : List OutboxOp :=
  [.other (.call (.processEvent relayPlatform 0 pageIDs pageEvent
      { dedupeWindow := 0, correlationWindow := 0 })),
    .claim relayPlatform 0 [] 20 false, .claim relayPlatform (31 * second) [] 20 false]

theorem deliveries_bounded_stalled :
    ((run (Outbox.step true) stalledDelivery (.init telegramDB)).db.deliveries.map
        fun d => (d.id, d.channelKind, d.status)) = [("delivery", "telegram", .ambiguous)]
      ∧ ∀ d ∈ (run (Outbox.step true) stalledDelivery (.init telegramDB)).db.deliveries,
        d.channelKind ≠ "mock" → Outbox.Bounded true
          (run (Outbox.step true) stalledDelivery (.init telegramDB)) d :=
  ⟨by decide +kernel, deliveries_bounded true (show telegramDB.deliveries = [] from rfl)
    stalledDelivery⟩

/-! ### Deliveries in doubt -/

namespace Outbox

variable {x : Bool} {s : Outbox}

/-- The step does not report the failure of an external delivery that is in
doubt and has attempts left. -/
def NoLateFailure (op : OutboxOp) (s : Outbox) : Prop :=
  ∀ d ∈ s.db.deliveries, d.channelKind ≠ "mock" → ¬ s.LateFailure op d

/-- The step claims no external delivery whose lease has run out before. -/
def NoReplay (x : Bool) (op : OutboxOp) (s : Outbox) : Prop :=
  ∀ d ∈ s.db.deliveries, d.channelKind ≠ "mock" → d.id ∈ s.claimed x op → d.id ∉ s.lapsed

structure Withheld (s : Outbox) : Prop where
  sound : s.Sound
  entries : ∀ d ∈ s.db.deliveries, d.channelKind ≠ "mock" → (s.entry d).Withheld

theorem stage_ambiguous {d : DeliveryAttempt} (h : d.status.stage = .doubtful) :
    d.status = .ambiguous := by
  generalize d.status = status at h
  cases status <;> first | rfl | cases h

theorem Withheld.step (h : s.Withheld) (x : Bool) (op : OutboxOp) (hlate : NoLateFailure op s) :
    (s.step x op).Withheld where
  sound := h.sound.step x op
  entries := by
    intro d' hd' hkind
    cases (refines h.sound.tracked x op).rows d' hd' with
    | old d hd hid hsame hacts hrevived =>
      have hkind' : d.channelKind ≠ "mock" := hsame ▸ hkind
      refine (h.entries d hd hkind').acts (h.sound.entries d hd hkind') (hacts hkind') ?_
      exact fun hdoubt hwaiting =>
        hlate d hd hkind' (hrevived (stage_ambiguous hdoubt) hwaiting)
    | new hnew hentry =>
      rw [hentry]
      exact nofun

theorem claims_step (x : Bool) (op : OutboxOp) (s : Outbox) :
    (s.step x op).claims = s.claims ++ s.claimed x op := by
  cases op with
  | claim pf now locked limit lost => rfl
  | complete now deliveryID providerRef deliveryErr | leave deliveryID | other op =>
    rw [step]
    split <;> exact (List.append_nil _).symm

theorem Withheld.noReplay (h : s.Withheld) (x : Bool) (op : OutboxOp) : NoReplay x op s := by
  intro d hd hkind hclaimed hlapsed
  have href := refines h.sound.tracked x op
  obtain ⟨d', hd', hid⟩ := href.persists d hd
  cases href.rows d' hd' with
  | new hnew hentry => exact hnew d hd hid.symm
  | old r hr hrid hsame hacts hlate =>
    obtain rfl := h.sound.tracked.keyed.eq_of_key hr hd (hrid.symm.trans hid)
    have hcount : (s.step x op).claims.count d'.id = s.claims.count r.id :=
      (h.entries r hd hkind).claims (hacts hkind) (decide_eq_true hlapsed)
    have hpos := List.count_pos_iff.mpr hclaimed
    rw [claims_step, hid, List.count_append] at hcount
    omega

end Outbox

/-- **Deliveries in doubt are not replayed.**  In every run from an empty outbox
in which no worker reports the failure of an external delivery that has become
`ambiguous` with fewer than five attempts, no step claims a delivery that a
claim has moved from `delivering` to `ambiguous` before. -/
theorem lapsed_not_replayed (x : Bool) {db : EventDB} (hstart : db.deliveries = [])
    (ops : List OutboxOp)
    (halong : Along (Outbox.step x) Outbox.NoLateFailure ops (.init db)) :
    Along (Outbox.step x) (Outbox.NoReplay x) ops (.init db) := by
  have hinit : (Outbox.init db).Withheld :=
    ⟨Outbox.sound_init hstart, by simp [Outbox.init, hstart]⟩
  exact Along.along (fun op s h hlate => h.step x op hlate)
    (fun op s h _ => h.noReplay x op) ops hinit halong

def deliveredLate : List OutboxOp :=
  stalledDelivery ++ [.complete (35 * second) "delivery" "telegram:1" none,
    .claim relayPlatform (40 * second) [] 20 false]

theorem lapsed_not_replayed_delivered :
    Along (Outbox.step true) (Outbox.NoReplay true) deliveredLate
      (.init telegramDB) := by
  refine lapsed_not_replayed true (show telegramDB.deliveries = [] from rfl) deliveredLate ?_
  refine ⟨?_, ?_, ?_, ?_, ?_, trivial⟩ <;>
  · rintro d - - ⟨-, -, -, now, providerRef, err, hop⟩
    simp at hop

def failedLate : List OutboxOp :=
  stalledDelivery ++ [.complete (35 * second) "delivery" "" (some "telegram request failed")]

/-- A delivery that is in doubt since its lease ran out is claimed again once the
first worker has reported a failure. -/
theorem doubtful_delivery_replayed :
    (run (Outbox.step true) failedLate (.init telegramDB)).lapsed = ["delivery"]
      ∧ (run (Outbox.step true) failedLate (.init telegramDB)).claimed true
        (.claim relayPlatform (40 * second) [] 20 false) = ["delivery"]
      ∧ ¬ Along (Outbox.step true) (Outbox.NoReplay true)
        (failedLate ++ [.claim relayPlatform (40 * second) [] 20 false]) (.init telegramDB) := by
  have hlapsed :
      (run (Outbox.step true) failedLate (.init telegramDB)).lapsed = ["delivery"] := by
    decide +kernel
  have hclaimed : (run (Outbox.step true) failedLate (.init telegramDB)).claimed true
      (.claim relayPlatform (40 * second) [] 20 false) = ["delivery"] := by
    decide +kernel
  have hrow : ∃ d ∈ (run (Outbox.step true) failedLate (.init telegramDB)).db.deliveries,
      d.channelKind ≠ "mock" ∧ d.id = "delivery" := by
    decide +kernel
  refine ⟨hlapsed, hclaimed, fun h => ?_⟩
  obtain ⟨d, hd, hkind, hid⟩ := hrow
  have hlast := (along_append.mp h).2.1 d hd hkind
  rw [hclaimed, hlapsed, hid] at hlast
  exact hlast (List.mem_singleton.mpr rfl) (List.mem_singleton.mpr rfl)

end StormRelay
