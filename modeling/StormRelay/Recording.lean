/-
When a failure can be recorded.

The store keeps the text of a failure in the row it closes: `truncate` cuts the
text at a byte, and PostgreSQL refuses a parameter that is not valid UTF-8 or
holds U+0000.  The statement that would record the failure is then the one that
fails, and the row stays as it was.

* `failure_recorded_iff` — the three completions of a failure commit exactly for
  recordable texts, and otherwise leave the tables alone.
-/
import StormRelay.Outbox
import StormRelay.System

namespace StormRelay

open Tx Table

/-! ### Cutting a text at a byte -/

def charBytes (cs : List Char) : ℕ :=
  (cs.map Char.utf8Size).sum

@[simp] theorem charBytes_nil : charBytes [] = 0 := rfl

@[simp] theorem charBytes_cons (c : Char) (cs : List Char) :
    charBytes (c :: cs) = c.utf8Size + charBytes cs := rfl

theorem charBytes_append (cs ds : List Char) :
    charBytes (cs ++ ds) = charBytes cs + charBytes ds := by
  simp [charBytes]

theorem charBytes_replicate (n : ℕ) (c : Char) :
    charBytes (List.replicate n c) = n * c.utf8Size := by
  simp [charBytes]

theorem utf8ByteSize_ofList (cs : List Char) : (String.ofList cs).utf8ByteSize = charBytes cs := by
  induction cs with
  | nil => rfl
  | cons c cs ih =>
    rw [String.ofList_cons, String.utf8ByteSize_append, String.utf8ByteSize_singleton, ih,
      charBytes_cons]

theorem utf8ByteSize_eq (text : String) : text.utf8ByteSize = charBytes text.toList := by
  rw [← utf8ByteSize_ofList, String.ofList_toList]

theorem takeBytes_append (kept rest : List Char) :
    takeBytes (kept ++ rest) (charBytes kept) = some kept := by
  induction kept with
  | nil => cases rest <;> rfl
  | cons c kept ih =>
    have hpos := c.utf8Size_pos
    rw [List.cons_append, takeBytes, charBytes_cons, if_neg (by omega), if_pos (by omega),
      Nat.add_sub_cancel_left, ih]
    rfl

variable {limit n : ℕ}

theorem takeBytes_inside {kept rest : List Char} {c : Char} (hlow : charBytes kept < n)
    (hhigh : n < charBytes kept + c.utf8Size) : takeBytes (kept ++ c :: rest) n = none := by
  induction kept generalizing n with
  | nil =>
    rw [charBytes_nil] at hlow hhigh
    rw [List.nil_append, takeBytes, if_neg (by omega), if_neg (by omega)]
  | cons a kept ih =>
    rw [charBytes_cons] at hlow hhigh
    rw [List.cons_append, takeBytes, if_neg (by omega), if_pos (by omega),
      ih (by omega) (by omega)]
    rfl

theorem takeBytes_inv {cs kept : List Char} (h : takeBytes cs n = some kept) :
    ∃ rest, cs = kept ++ rest ∧ charBytes kept ≤ n ∧ (rest = [] ∨ charBytes kept = n) := by
  -- The budget shrinks with every character, so it is general in the induction.
  induction cs generalizing n kept with
  | nil =>
    obtain rfl := Option.some.inj h
    exact ⟨[], rfl, Nat.zero_le n, .inl rfl⟩
  | cons c cs ih =>
    rw [takeBytes] at h
    by_cases hn : n = 0
    · rw [if_pos hn] at h
      obtain rfl := Option.some.inj h
      exact ⟨c :: cs, rfl, Nat.zero_le n, .inr hn.symm⟩
    rw [if_neg hn] at h
    by_cases hc : c.utf8Size ≤ n
    · rw [if_pos hc] at h
      obtain ⟨kept', hkept', rfl⟩ := Option.map_eq_some_iff.mp h
      obtain ⟨rest, rfl, hle, hrest⟩ := ih hkept'
      refine ⟨rest, rfl, ?_, hrest.imp_right fun heq => ?_⟩
      · rw [charBytes_cons]
        omega
      · rw [charBytes_cons]
        omega
    · rw [if_neg hc] at h
      cases h

variable {text : String}

/-- **What `truncate` leaves.**  A short text is left alone; of a longer one
`limit` bytes are kept, and they are a text only if a character ends there. -/
theorem truncate_eq_some_iff {kept : String} (hlimit : 0 < limit) :
    truncate text limit = some kept
      ↔ (text.utf8ByteSize ≤ limit ∧ kept = text)
        ∨ (limit < text.utf8ByteSize ∧ kept.utf8ByteSize = limit
          ∧ ∃ rest, text = kept ++ rest) := by
  rw [truncate]
  by_cases hsize : text.utf8ByteSize ≤ limit
  · rw [if_neg (by omega)]
    simp only [hsize, true_and, not_lt.mpr hsize, false_and, or_false, Option.some.injEq]
    exact eq_comm
  rw [if_pos ⟨hlimit, by omega⟩]
  simp only [hsize, false_and, false_or, not_le.mp hsize, true_and]
  constructor
  · intro h
    obtain ⟨cs, hcs, rfl⟩ := Option.map_eq_some_iff.mp h
    obtain ⟨rest, htext, -, hrest⟩ := takeBytes_inv hcs
    have hsplit : text = String.ofList cs ++ String.ofList rest := by
      rw [← String.ofList_append, ← htext, String.ofList_toList]
    refine ⟨?_, String.ofList rest, hsplit⟩
    rw [utf8ByteSize_ofList]
    refine hrest.resolve_left fun hnil => hsize ?_
    -- With nothing left over the text would fit.
    subst hnil
    rw [utf8ByteSize_eq, htext, List.append_nil]
    exact (takeBytes_inv hcs).elim fun _ h => h.2.1
  · rintro ⟨hkept, rest, rfl⟩
    rw [String.toList_append, ← hkept, utf8ByteSize_eq, takeBytes_append, Option.map_some,
      String.ofList_toList]

theorem truncate_inside {kept rest : List Char} {c : Char} (hlow : charBytes kept < limit)
    (hhigh : limit < charBytes kept + c.utf8Size) :
    truncate (String.ofList (kept ++ c :: rest)) limit = none := by
  have hsize : limit < charBytes (kept ++ c :: rest) := by
    rw [charBytes_append, charBytes_cons]
    omega
  rw [truncate, utf8ByteSize_ofList, if_pos ⟨by omega, hsize⟩, String.toList_ofList,
    takeBytes_inside hlow hhigh]
  rfl

/-- The text fits in `limit` bytes, or a character of it ends there. -/
def CutsCleanly (text : String) (limit : ℕ) : Prop :=
  text.utf8ByteSize ≤ limit ∨ ∃ kept rest, text = kept ++ rest ∧ kept.utf8ByteSize = limit

theorem truncate_isSome_iff (hlimit : 0 < limit) :
    (truncate text limit).isSome ↔ CutsCleanly text limit := by
  rw [Option.isSome_iff_exists]
  constructor
  · rintro ⟨kept, h⟩
    rcases (truncate_eq_some_iff hlimit).mp h with ⟨hle, -⟩ | ⟨-, hkept, rest, htext⟩
    · exact .inl hle
    · exact .inr ⟨kept, rest, htext, hkept⟩
  intro h
  by_cases hle : text.utf8ByteSize ≤ limit
  · exact ⟨text, (truncate_eq_some_iff hlimit).mpr (.inl ⟨hle, rfl⟩)⟩
  · obtain ⟨kept, rest, htext, hkept⟩ := h.resolve_left hle
    exact ⟨kept, (truncate_eq_some_iff hlimit).mpr (.inr ⟨by omega, hkept, rest, htext⟩)⟩

theorem truncate_prefix {kept : String} (hlimit : 0 < limit) (h : truncate text limit = some kept) :
    (∃ rest, text = kept ++ rest) ∧ kept.utf8ByteSize ≤ limit := by
  rcases (truncate_eq_some_iff hlimit).mp h with ⟨hle, rfl⟩ | ⟨-, hkept, hrest⟩
  · exact ⟨⟨"", (String.append_empty).symm⟩, hle⟩
  · exact ⟨hrest, hkept.le⟩

/-! ### Texts that can be recorded -/

/-- The beginning of the text that `limit` keeps ends with a character, and
holds no U+0000. -/
def Recordable (text : String) (limit : ℕ) : Prop :=
  ∃ kept rest, text = kept ++ rest ∧ textStorable kept = true
    ∧ ((rest = "" ∧ kept.utf8ByteSize ≤ limit) ∨ kept.utf8ByteSize = limit)

theorem recordable_iff (hlimit : 0 < limit) :
    bindableText (truncate text limit) = true ↔ Recordable text limit := by
  rw [bindableText, Option.any_eq_true]
  constructor
  · rintro ⟨kept, h, hstorable⟩
    rcases (truncate_eq_some_iff hlimit).mp h with ⟨hle, rfl⟩ | ⟨-, hkept, rest, htext⟩
    · exact ⟨kept, "", (String.append_empty).symm, hstorable, .inl ⟨rfl, hle⟩⟩
    · exact ⟨kept, rest, htext, hstorable, .inr hkept⟩
  rintro ⟨kept, rest, rfl, hstorable, hsize⟩
  refine ⟨kept, (truncate_eq_some_iff hlimit).mpr ?_, hstorable⟩
  rw [String.utf8ByteSize_append]
  rcases hsize with ⟨rfl, hle⟩ | hkept
  · exact .inl ⟨by simpa using hle, (String.append_empty).symm⟩
  by_cases hrest : rest.utf8ByteSize = 0
  · refine .inl ⟨by omega, ?_⟩
    rw [String.utf8ByteSize_eq_zero_iff.mp hrest, String.append_empty]
  · exact .inr ⟨by omega, hkept, rest, rfl⟩

section Transactions

variable {σ α : Type} {x : Bool} {db : σ}

/-- A transaction that binds a text and then cannot fail commits exactly when
PostgreSQL accepts the text. -/
theorem succeeds_bindText_iff {m : Tx σ α} {value : Option String} {k : String → Tx σ α}
    (hm : m ⟨x, false, db⟩ = (bindText value >>= k) ⟨x, false, db⟩)
    (hk : ∀ text, ∃ a db', k text ⟨x, false, db⟩ = .ok (a, ⟨x, false, db'⟩)) :
    Tx.succeeds x m db = true ↔ bindableText value = true := by
  rcases value with _ | text
  · -- No text at all: the statement fails and the transaction with it.
    rw [Tx.succeeds, commit_error hm]
    exact iff_of_false Bool.false_ne_true Bool.false_ne_true
  by_cases hstorable : textStorable text = true
  · obtain ⟨a, db', hrun⟩ := hk text
    rw [bindText, if_pos hstorable, run_pure, hrun] at hm
    exact iff_of_true (succeeds_ok hm) hstorable
  · rw [bindText, if_neg hstorable] at hm
    rw [Tx.succeeds, commit_error hm]
    exact iff_of_false Bool.false_ne_true hstorable

end Transactions

section Completions

variable {x : Bool} {db : DB} {edb : EventDB} {c : ClaimedStep} {row : ExecutionStep}
variable {tenantID workerID deliveryID : String} {d : DeliveryAttempt}

theorem complete_recorded_iff (pf : Platform) (now : Time) (workerID : String)
    (status : StepStatus) (output : Option Json) (err : String)
    (h : stepWithTenant c.step.id db = some (row, tenantID)) (hs : row.status.inFlight = true) :
    Tx.succeeds x (completeExecutionStep pf now c workerID status output (some err)) db = true
      ↔ Recordable err 1000 := by
  rw [← recordable_iff (by omega)]
  have hrun : completeExecutionStep pf now c workerID status output (some err) ⟨x, false, db⟩ = _ :=
    run_queryRow_some h
  simp only [hs, Bool.true_eq_false, if_false] at hrun
  refine succeeds_bindText_iff hrun fun text => ?_
  by_cases hlt : (row.attemptCount : ℤ) < row.retryPolicy.maxAttempts
  · simp only [if_pos hlt, run_updateLeased]
    exact ⟨_, _, appendAudit_idle _⟩
  · simp only [if_neg hlt, run_updateLeased, run_exec]
    exact ⟨_, _, appendAudit_idle _⟩

theorem mark_recorded_iff (now : Time) (err : String)
    (h : affected (fun es => leasedTo c.step.id workerID es && es.status.inFlight) db.steps = 1) :
    Tx.succeeds x (markExecutionStepAmbiguous now c workerID (some err)) db = true
      ↔ Recordable err 1000 := by
  rw [← recordable_iff (by omega)]
  refine succeeds_bindText_iff rfl fun text => ?_
  rw [run_exec, DB.updateSteps_fst, if_neg (not_not.mpr h), run_exec]
  exact ⟨_, _, appendAudit_idle _⟩

theorem delivery_recorded_iff (now : Time) (providerRef err : String)
    (h : edb.deliveries.find? (fun d => d.id = deliveryID) = some d)
    (ht : d.tenantID ∈ edb.tenants) :
    Tx.succeeds x (completeDelivery now deliveryID providerRef (some err)) edb = true
      ↔ Recordable err 500 := by
  rw [← recordable_iff (by omega)]
  have hrun : completeDelivery now deliveryID providerRef (some err) ⟨x, false, edb⟩ = _ :=
    run_queryRow_some h
  refine succeeds_bindText_iff hrun fun text => ?_
  rw [run_exec]
  exact ⟨(), _, insert_ok (if_pos ht)⟩

/-- The member of an audit row's metadata that carries a failure. -/
def errorMetadata (message : String) : Json :=
  .obj [("error", .str message)]

theorem errorMetadata_storable {message : String} (h : textStorable message = true) :
    (errorMetadata message).storable = true := by
  have hname : textStorable "error" = true := by decide
  rw [errorMetadata, Json.storable, Json.storableMembers, Json.storable, hname, h]
  rfl

/-- **Which failures are recorded.**  What `truncate` keeps of an error text is
a beginning of it within the limit, and is a text exactly when the cut falls
between two characters.  For a step that is held and in flight, and for a stored
delivery, the failure is recorded exactly when the text is recordable; otherwise
nothing changes, and the row keeps its lease. -/
theorem failure_recorded_iff (x : Bool) (err : String) (pf : Platform) (now : Time)
    (status : StepStatus) (output : Option Json) (providerRef : String)
    (hrow : stepWithTenant c.step.id db = some (row, tenantID)) (hin : row.status.inFlight = true)
    (hheld : affected (fun es => leasedTo c.step.id workerID es && es.status.inFlight) db.steps = 1)
    (hdelivery : edb.deliveries.find? (fun d => d.id = deliveryID) = some d)
    (htenant : d.tenantID ∈ edb.tenants) :
    (∀ limit message, 0 < limit → truncate err limit = some message →
      (∃ rest, err = message ++ rest) ∧ message.utf8ByteSize ≤ limit
        ∧ (textStorable message = true → (errorMetadata message).storable = true))
      ∧ (∀ limit, 0 < limit → ((truncate err limit).isSome ↔ CutsCleanly err limit))
      ∧ (Tx.succeeds x (completeExecutionStep pf now c workerID status output (some err)) db = true
          ↔ Recordable err 1000)
      ∧ (Tx.succeeds x (markExecutionStepAmbiguous now c workerID (some err)) db = true
          ↔ Recordable err 1000)
      ∧ (Tx.succeeds x (completeDelivery now deliveryID providerRef (some err)) edb = true
          ↔ Recordable err 500)
      ∧ (¬ Recordable err 1000 →
          after x (completeExecutionStep pf now c workerID status output (some err)) db = db
            ∧ after x (markExecutionStepAmbiguous now c workerID (some err)) db = db)
      ∧ (¬ Recordable err 500 →
          after x (completeDelivery now deliveryID providerRef (some err)) edb = edb) := by
  have hcomplete := complete_recorded_iff (x := x) pf now workerID status output err hrow hin
  have hmark := mark_recorded_iff (x := x) now err hheld
  have hdeliver := delivery_recorded_iff (x := x) now providerRef err hdelivery htenant
  refine ⟨fun limit message hlimit htr => ?_, fun limit hlimit => truncate_isSome_iff hlimit,
    hcomplete, hmark, hdeliver, fun hno => ⟨?_, ?_⟩, fun hno => ?_⟩
  · obtain ⟨hrest, hsize⟩ := truncate_prefix hlimit htr
    exact ⟨hrest, hsize, errorMetadata_storable⟩
  · exact after_of_not_succeeds (by simpa using fun h => hno (hcomplete.mp h))
  · exact after_of_not_succeeds (by simpa using fun h => hno (hmark.mp h))
  · exact after_of_not_succeeds (by simpa using fun h => hno (hdeliver.mp h))

end Completions

/-! ### A leased step and a claimed delivery -/

/-- Worker `A` holds the only step of a running execution. -/
def leasedRun : Sys :=
  Transition.run (Sys.perform idempotentEnv)
    [starting ["s"], claiming] oneRunbook

theorem leasedRun_issued : leasedRun.issued.map Prod.snd ≠ [] := by decide +kernel

/-- The claim worker `A` holds. -/
def heldClaim : ClaimedStep :=
  (leasedRun.issued.map Prod.snd).head leasedRun_issued

def oneDelivery : EventDB :=
  { tenants := ["t"], sources := [], rawEvents := [], normalizedEvents := [], duplicates := []
    incidents := [], transitions := [], incidentEvents := [], policies := [], policyVersions := []
    channels := [], ackTokens := [], audit := []
    deliveries := [
      { id := "d", tenantID := "t", incidentID := "i", channelID := "c", channelKind := "telegram"
        dedupeKey := "k", status := .delivering, attempt := 1, payload := .null
        ackTokenCiphertext := [], providerReference := none, sanitizedError := none
        nextAttemptAt := 0, leaseExpiresAt := some 30, deliveredAt := none }] }

theorem heldClaim_row : ∃ row tenantID,
    stepWithTenant heldClaim.step.id leasedRun.db = some (row, tenantID)
      ∧ row.status.inFlight = true := by
  have hrow : (stepWithTenant heldClaim.step.id leasedRun.db).map
      (fun r => r.1.status.inFlight) = some true := by decide +kernel
  obtain ⟨⟨row, tenantID⟩, hrow, hin⟩ := Option.map_eq_some_iff.mp hrow
  exact ⟨row, tenantID, hrow, hin⟩

theorem heldClaim_held :
    affected (fun es => leasedTo heldClaim.step.id "A" es && es.status.inFlight)
      leasedRun.db.steps = 1 := by
  decide +kernel

/-- A short failure is recorded by each of the three completions. -/
theorem failure_recorded_refused :
    Tx.succeeds true (completeExecutionStep idempotentEnv.platform 1 heldClaim "A" .completed none
        (some "connection refused")) leasedRun.db = true
      ∧ Tx.succeeds true (markExecutionStepAmbiguous 1 heldClaim "A" (some "connection refused"))
          leasedRun.db = true
      ∧ Tx.succeeds true (completeDelivery 1 "d" "" (some "connection refused")) oneDelivery
          = true := by
  obtain ⟨row, tenantID, hrow, hin⟩ := heldClaim_row
  have hrecord : ∀ limit, 18 ≤ limit → Recordable "connection refused" limit := fun limit hlimit =>
    ⟨"connection refused", "", rfl, by decide, .inl ⟨rfl, hlimit⟩⟩
  obtain ⟨-, -, hcomplete, hmark, hdeliver, -⟩ := failure_recorded_iff true "connection refused"
    idempotentEnv.platform 1 .completed none "" hrow hin heldClaim_held
    (rfl : oneDelivery.deliveries.find? (fun d => d.id = "d") = some _) (List.mem_singleton.mpr rfl)
  exact ⟨hcomplete.mpr (hrecord 1000 (by omega)), hmark.mpr (hrecord 1000 (by omega)),
    hdeliver.mpr (hrecord 500 (by omega))⟩

/-- A two-byte character follows `n` others and the text `start`. -/
def accented (start : String) (n : ℕ) : String :=
  String.ofList (start.toList ++ List.replicate n 'é' ++ ['é'])

theorem truncate_accented {start : String} (h : charBytes start.toList + 2 * n + 1 = limit) :
    truncate (accented start n) limit = none := by
  have htwo : 'é'.utf8Size = 2 := rfl
  have hsize : charBytes (start.toList ++ List.replicate n 'é') + 1 = limit := by
    rw [charBytes_append, charBytes_replicate, htwo]
    omega
  exact truncate_inside (by omega) (by omega)

theorem not_recordable_accented {start : String} (h : charBytes start.toList + 2 * n + 1 = limit) :
    ¬ Recordable (accented start n) limit := by
  rw [← recordable_iff (by omega), truncate_accented h]
  exact Bool.false_ne_true

/-- A message of 979 bytes behind the text the plugin client puts before it, 1001
bytes with a character across the limit, is not recorded: reported as a failure
or as an unknown outcome, it leaves the step running and with its worker.  A
delivery's failure of 501 bytes is lost alike. -/
theorem clipped_failure_lost :
    truncate (accented "plugin action failed: a" 488) 1000 = none
      ∧ after true (completeExecutionStep idempotentEnv.platform 1 heldClaim "A" .completed none
          (some (accented "plugin action failed: a" 488))) leasedRun.db = leasedRun.db
      ∧ after true (markExecutionStepAmbiguous 1 heldClaim "A"
          (some (accented "plugin action failed: a" 488))) leasedRun.db = leasedRun.db
      ∧ (leasedRun.db.steps.map fun es => (es.id, es.status, es.leaseOwner))
          = [("s", .running, some "A")]
      ∧ truncate (accented "a" 249) 500 = none
      ∧ after true (completeDelivery 1 "d" "" (some (accented "a" 249))) oneDelivery
          = oneDelivery := by
  obtain ⟨row, tenantID, hrow, hin⟩ := heldClaim_row
  have hlong : charBytes "plugin action failed: a".toList + 2 * 488 + 1 = 1000 := by decide
  have hshort : charBytes "a".toList + 2 * 249 + 1 = 500 := by decide
  refine ⟨truncate_accented hlong, ?_, ?_, by decide +kernel, truncate_accented hshort, ?_⟩
  · refine after_of_not_succeeds (eq_false_of_ne_true fun h => ?_)
    exact not_recordable_accented hlong ((complete_recorded_iff _ _ _ _ _ _ hrow hin).mp h)
  · refine after_of_not_succeeds (eq_false_of_ne_true fun h => ?_)
    exact not_recordable_accented hlong ((mark_recorded_iff _ _ heldClaim_held).mp h)
  · refine after_of_not_succeeds (eq_false_of_ne_true fun h => ?_)
    exact not_recordable_accented hshort ((delivery_recorded_iff (d := oneDelivery.deliveries.head
      (List.cons_ne_nil _ _)) _ _ _ rfl (List.mem_singleton.mpr rfl)).mp h)

end StormRelay
