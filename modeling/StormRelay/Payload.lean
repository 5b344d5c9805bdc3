/-
Declared and sent payloads (`internal/runbooks/document.go`,
`internal/storage/executions.go`, `internal/runbookengine/engine.go`).

The body of an HTTP step and the input of a plugin step are fields of type `any`.
The value declared in the runbook is encoded into the snapshot, stored as `jsonb`,
decoded by the engine into an untyped value, whose numbers are float64s, and
encoded once more into the request.  A rollback step goes through the store
twice: its action is stored with the forward step.

Integers are followed exactly, as `Binary64` reads and writes them.  A value that
the store refuses or the decoder gives up on is never sent.

* `payload_sent_iff` — **the document sent is the declared one exactly when every
  integer in it survives a float64, and an HTTP body is not null**.
-/
import StormRelay.Provenance
import StormRelay.JsonTree
import StormRelay.Binary64

namespace StormRelay

variable {env : Env} {s : Sys}

/-! ### From the declared value to the request -/

mutual

/-- `json.Marshal` of a decoded value made of nulls, booleans, integers, strings,
lists and string-keyed mappings. -/
def Value.document : Value → Option (JsonTree ℤ)
  | .null => some .null
  | .bool b => some (.bool b)
  | .int n => some (.num n)
  | .str s => some (.str s)
  | .seq items => (Value.documentItems items).map .arr
  | .mapping entries => (Value.documentEntries entries).map .obj
  | .float _ | .nonFinite | .timestamp _ | .anyMapping _ => none

def Value.documentItems : List Value → Option (List (JsonTree ℤ))
  | [] => some []
  | item :: items => do
    let document ← item.document
    let documents ← Value.documentItems items
    pure (document :: documents)

def Value.documentEntries : List (String × Value) → Option (List (String × JsonTree ℤ))
  | [] => some []
  | (name, value) :: entries => do
    let document ← value.document
    let documents ← Value.documentEntries entries
    pure ((name, document) :: documents)

end

namespace Payload

/-- `json.Unmarshal` into an untyped value: every number becomes a float64. -/
def unmarshalAny (document : JsonTree ℤ) : JsonTree ℤ :=
  document.map Binary64.read

/-- `json.Marshal` of an untyped value: a float64 is written with the fewest digits. -/
def marshalAny (value : JsonTree ℤ) : JsonTree ℤ :=
  value.map Binary64.write

/-- A field of type `any` with `omitempty`: only nil is left out. -/
def omitEmpty : JsonTree ℤ → Option (JsonTree ℤ)
  | .null => none
  | document => some document

def readField : Option (JsonTree ℤ) → JsonTree ℤ
  | none => .null
  | some document => unmarshalAny document

/-- The value in the snapshot that the engine decodes.  The action of a rollback
step has been stored, decoded and encoded before, as `rollback_definition`. -/
def snapshotValue (isRollback : Bool) (declared : JsonTree ℤ) : JsonTree ℤ :=
  if isRollback then readField (omitEmpty (marshalAny (readField (omitEmpty declared))))
  else readField (omitEmpty declared)

/-- `marshalOptional`: no body at all for nil. -/
def marshalOptional : JsonTree ℤ → Option (JsonTree ℤ)
  | .null => none
  | value => some (marshalAny value)

/-- The value a stored step declares: `Body` for `executeHTTP`, `Input` for
`executePlugin`. -/
def declaredValue (r : ExecutionStep) : Option Value :=
  match r.immutableInput.step.type with
  | .http => r.immutableInput.step.inputs.body
  | .plugin => r.immutableInput.step.inputs.input
  | _ => none

/-- The document `executeHTTP` or `executePlugin` sends when the declared value
has the given encoding. -/
def sentDocument (r : ExecutionStep) (declared : JsonTree ℤ) : Option (JsonTree ℤ) :=
  match r.immutableInput.step.type with
  | .http => marshalOptional (snapshotValue r.isRollback declared)
  | .plugin => some (marshalAny (snapshotValue r.isRollback declared))
  | _ => none

/-! ### One document -/

theorem readField_omitEmpty (t : JsonTree ℤ) : readField (omitEmpty t) = unmarshalAny t := by
  cases t <;> rfl

/-- **Once or twice through the store is the same**: what was read once is kept. -/
theorem marshalAny_snapshotValue (isRollback : Bool) (t : JsonTree ℤ) :
    marshalAny (snapshotValue isRollback t) = t.map (Binary64.write ∘ Binary64.read) := by
  cases isRollback with
  | false =>
    rw [snapshotValue, if_neg Bool.false_ne_true, readField_omitEmpty, marshalAny, unmarshalAny,
      JsonTree.map_map]
  | true =>
    have hkept : Binary64.read ∘ Binary64.write ∘ Binary64.read = Binary64.read :=
      funext Binary64.read_write_read
    rw [snapshotValue, if_pos rfl, readField_omitEmpty, readField_omitEmpty, marshalAny,
      marshalAny, unmarshalAny, unmarshalAny, JsonTree.map_map, JsonTree.map_map,
      JsonTree.map_map, Function.comp_assoc, Function.comp_assoc, hkept]

theorem snapshotValue_eq_null_iff (isRollback : Bool) (t : JsonTree ℤ) :
    snapshotValue isRollback t = .null ↔ t = .null := by
  rw [← JsonTree.map_eq_null_iff Binary64.write (snapshotValue isRollback t),
    ← JsonTree.map_eq_null_iff (Binary64.write ∘ Binary64.read) t,
    ← marshalAny_snapshotValue isRollback t, marshalAny]

theorem marshalOptional_of_ne {t : JsonTree ℤ} (h : t ≠ .null) :
    marshalOptional t = some (marshalAny t) := by
  cases t with
  | null => exact absurd rfl h
  | _ => rfl

/-- **When the document sent is the declared one.** -/
theorem sentDocument_eq_iff {r : ExecutionStep} {v : Value} (hv : declaredValue r = some v)
    (t : JsonTree ℤ) :
    sentDocument r t = some t ↔ (r.immutableInput.step.type = .http → t ≠ .null)
      ∧ ∀ k ∈ t.nums, Binary64.write (Binary64.read k) = k := by
  have hsame : some (marshalAny (snapshotValue r.isRollback t)) = some t
      ↔ ∀ k ∈ t.nums, Binary64.write (Binary64.read k) = k := by
    rw [Option.some.injEq, marshalAny_snapshotValue, JsonTree.map_eq_self_iff]
    rfl
  rw [sentDocument]
  rw [declaredValue] at hv
  split
  · rename_i htype
    by_cases hnull : t = .null
    · -- a null body is no body
      have hnone : marshalOptional (snapshotValue r.isRollback t) = none := by
        rw [(snapshotValue_eq_null_iff r.isRollback t).mpr hnull]
        rfl
      rw [hnone]
      exact ⟨fun h => (by cases h), fun h => absurd hnull (h.1 htype)⟩
    · rw [marshalOptional_of_ne (mt (snapshotValue_eq_null_iff _ t).mp hnull), hsame]
      exact (and_iff_right fun _ => hnull).symm
  · rename_i htype
    rw [hsame, htype]
    exact (and_iff_right fun h => by cases h).symm
  rename_i hhttp hplugin
  split at hv
  · rename_i htype
    exact absurd htype hhttp
  · rename_i htype
    exact absurd htype hplugin
  · cases hv

/-! ### Whole runs -/

/-- The step carries what a step of a runbook declares, or what its rollback
action does. -/
def Declares (step : Step) (r : ExecutionStep) : Prop :=
  (r.isRollback = false ∧ r.immutableInput.step.type = step.type
      ∧ r.immutableInput.step.inputs = step.inputs)
    ∨ r.isRollback = true ∧ ∃ action, step.rollback = some action
      ∧ r.immutableInput.step.type = action.type ∧ r.immutableInput.step.inputs = action.inputs

/-- The step was declared by a runbook that `Parse` accepted. -/
structure Declared (pf : Platform) (r : ExecutionStep) : Prop where
  source : ∃ text doc, parse pf text = .ok doc ∧ ∃ step ∈ doc.spec.steps, Declares step r
    ∧ (r.isRollback = false → r.rollbackDefinition = step.stored.rollback)

/-- **Every stored step was declared by an accepted runbook.** -/
theorem declared_of_reachable (hs : Sys.Reachable env s) :
    ∀ r ∈ s.db.steps, Declared env.platform r := by
  refine definition_invariant (fun r r' hdef h => ?_) (fun stored r hstored hprepared => ?_) hs
  · obtain ⟨text, doc, hdoc, step, hstep, hdeclares, hrollback⟩ := h.source
    have hinput : r'.immutableInput = r.immutableInput :=
      column_of_definition ExecutionStep.immutableInput (fun _ => rfl) hdef
    have hkind : r'.isRollback = r.isRollback :=
      column_of_definition ExecutionStep.isRollback (fun _ => rfl) hdef
    have haction : r'.rollbackDefinition = r.rollbackDefinition :=
      column_of_definition ExecutionStep.rollbackDefinition (fun _ => rfl) hdef
    refine ⟨text, doc, hdoc, step, hstep, ?_, ?_⟩
    · rw [Declares, hinput, hkind]
      exact hdeclares
    · rw [hkind, haction]
      exact hrollback
  cases hprepared with
  | forward hdoc hstep _ _ =>
    exact ⟨_, _, hdoc, _, hstep, .inl ⟨rfl, rfl, rfl⟩, fun _ => rfl⟩
  | @rollback _ _ _ source action _ _ hsource hforward haction _ _ =>
    -- the action was stored with the forward step, which an accepted runbook declared
    obtain ⟨text, doc, hdoc, step, hstep, -, hrollback⟩ := (hstored source hsource).source
    have hstep' : step.stored.rollback = some action :=
      (hrollback hforward).symm.trans haction
    obtain ⟨declared, hdeclared, rfl⟩ := Option.map_eq_some_iff.mp hstep'
    exact ⟨text, doc, hdoc, step, hstep, .inr ⟨rfl, declared, hdeclared, rfl, rfl⟩,
      fun h => by cases h⟩

/-- **What the engine sends.**  In every run, every claim is for a step that an
accepted runbook declares.  For a declared body or input made of strings,
booleans, nulls, integers, lists and string-keyed mappings, the document sent on
this attempt is its JSON encoding exactly when every integer in it survives being
read as a float64 and written again, and an HTTP body is not null; integers up to
`2 ^ 53` in magnitude do survive. -/
theorem payload_sent_iff (hs : Sys.Reachable env s) {workerID : String} {c : ClaimedStep}
    (hc : (workerID, c) ∈ s.issued) :
    (∃ text doc, parse env.platform text = .ok doc ∧ ∃ step ∈ doc.spec.steps, Declares step c.step)
      ∧ ∀ v t, declaredValue c.step = some v → v.document = some t →
        (sentDocument c.step t = some t ↔ (c.step.immutableInput.step.type = .http → t ≠ .null)
          ∧ ∀ k ∈ t.nums, Binary64.write (Binary64.read k) = k)
        ∧ ((c.step.immutableInput.step.type = .http → t ≠ .null) →
          (∀ k ∈ t.nums, k.natAbs ≤ 2 ^ 53) → sentDocument c.step t = some t) := by
  have hinv : s.Inv := inv_of_reachable hs
  obtain ⟨r, hr, hdef, -⟩ := (hinv.claims _ hc).row
  obtain ⟨text, doc, hdoc, step, hstep, hdeclares, -⟩ := (declared_of_reachable hs r hr).source
  have hinput : c.step.immutableInput = r.immutableInput :=
    column_of_definition ExecutionStep.immutableInput (fun _ => rfl) hdef.symm
  have hkind : c.step.isRollback = r.isRollback :=
    column_of_definition ExecutionStep.isRollback (fun _ => rfl) hdef.symm
  refine ⟨⟨text, doc, hdoc, step, hstep, ?_⟩, fun v t hv _ => ?_⟩
  · rw [Declares, hinput, hkind]
    exact hdeclares
  · have hiff := sentDocument_eq_iff hv t
    refine ⟨hiff, fun hbody hsmall => hiff.mpr ⟨hbody, fun k hk => ?_⟩⟩
    exact Binary64.write_read_of_le (hsmall k hk)

/-! ### A run with a body -/

/-- The body `{"id": n}`. -/
def idBody (n : ℤ) : Value :=
  .mapping [("id", .int n)]

def idDocument (n : ℤ) : JsonTree ℤ :=
  .obj [("id", .num n)]

def bodyEnv (n : ℤ) : Env :=
  { platform := plainPlatform (runbookWith [{ idempotentStep with
      inputs := { url := "https://ops.example/restart", body := some (idBody n) } }])
    exclusive := true }

def bodyRun (n : ℤ) : Sys :=
  Transition.run (Sys.perform (bodyEnv n))
    [starting ["s"], claiming] oneRunbook

theorem bodyRun_reachable (n : ℤ) : Sys.Reachable (bodyEnv n) (bodyRun n) :=
  ⟨oneRunbook, _, ⟨rfl, rfl, rfl, rfl⟩, rfl⟩

def idMember : Option Value → Option (String × ℤ)
  | some (.mapping [(name, .int n)]) => some (name, n)
  | _ => none

theorem eq_idBody_of_idMember {v : Option Value} {n : ℤ} (h : idMember v = some ("id", n)) :
    v = some (idBody n) := by
  rw [idMember.eq_def] at h
  split at h
  · simp only [Option.some.injEq, Prod.mk.injEq] at h
    obtain ⟨rfl, rfl⟩ := h
    rfl
  · cases h

def bodyClaim (w : String × ClaimedStep) : String × StepType × Bool × Option (String × ℤ) :=
  (w.1, w.2.step.immutableInput.step.type, w.2.step.isRollback, idMember (declaredValue w.2.step))

theorem exists_bodyClaim {n : ℤ}
    (h : (bodyRun n).issued.map bodyClaim = [("A", .http, false, some ("id", n))]) :
    ∃ c, ("A", c) ∈ (bodyRun n).issued ∧ c.step.immutableInput.step.type = .http
      ∧ c.step.isRollback = false ∧ declaredValue c.step = some (idBody n) := by
  obtain ⟨⟨workerID, c⟩, hc, heq⟩ := Table.exists_row h List.mem_cons_self
  simp only [bodyClaim, Prod.mk.injEq] at heq
  obtain ⟨rfl, htype, hkind, hmember⟩ := heq
  exact ⟨c, hc, htype, hkind, eq_idBody_of_idMember hmember⟩

/-- The body `{"id": 42}` is sent as declared. -/
theorem payload_sent_small : ∃ c, ("A", c) ∈ (bodyRun 42).issued
    ∧ declaredValue c.step = some (idBody 42) ∧ sentDocument c.step (idDocument 42)
      = some (idDocument 42) := by
  obtain ⟨c, hc, htype, -, hdeclared⟩ := exists_bodyClaim (n := 42) (by decide +kernel)
  refine ⟨c, hc, hdeclared, ?_⟩
  have hsent := ((payload_sent_iff (bodyRun_reachable 42) hc).2 _ (idDocument 42) hdeclared rfl).2
  refine hsent (fun _ h => by cases h) (fun k hk => ?_)
  obtain rfl : k = 42 := List.mem_singleton.mp hk
  decide

/-- **An identifier above `2 ^ 53` is sent as another one**: the runbook declares
`9007199254740993` and the request carries `9007199254740992`. -/
theorem large_integer_altered : ∃ c, ("A", c) ∈ (bodyRun 9007199254740993).issued
    ∧ declaredValue c.step = some (idBody 9007199254740993)
    ∧ (idBody 9007199254740993).document = some (idDocument 9007199254740993)
    ∧ sentDocument c.step (idDocument 9007199254740993)
      = some (idDocument 9007199254740992) := by
  obtain ⟨c, hc, htype, hkind, hdeclared⟩ :=
    exists_bodyClaim (n := 9007199254740993) (by decide +kernel)
  refine ⟨c, hc, hdeclared, rfl, ?_⟩
  have hwritten : Binary64.write (Binary64.read 9007199254740993) = 9007199254740992 := by
    decide +kernel
  have hvalue : marshalAny (snapshotValue false (idDocument 9007199254740993))
      = idDocument (Binary64.write (Binary64.read 9007199254740993)) :=
    marshalAny_snapshotValue false _
  rw [sentDocument, htype, hkind]
  show some (marshalAny (snapshotValue false (idDocument 9007199254740993))) = _
  rw [hvalue, hwritten]

end Payload

end StormRelay
