/-
Which fields a condition may name (`validateCondition`).

`Validate` splits the field of a condition at its dots and looks at the second
part; evaluation looks the whole field up among names that are put together from
step identifiers, which may contain dots themselves.

* `fields_exact_iff` — **validation accepts exactly the fields that evaluation can
  bind if and only if the conditions of the document name only incident fields
  and earlier steps that exist, and the part of every identifier before its first
  dot is an identifier too**.
-/
import StormRelay.ConditionInputs

namespace StormRelay

open GoStd

/-! ### The fields that can be bound -/

def incidentFields : List String :=
  ["id", "state", "severity", "service", "environment", "title"]

/-- The status or an output of the step `key`. -/
def RefersTo (key field : String) : Prop :=
  field = "steps." ++ key ++ ".status" ∨ ∃ name, field = "steps." ++ key ++ ".output." ++ name

/-- A field that evaluation can bind at a step before which the steps `earlier`
are declared. -/
def Bindable (earlier : List String) (field : String) : Prop :=
  field = "execution.dry_run"
    ∨ (∃ name ∈ incidentFields, field = "incident." ++ name)
    ∨ ∃ key ∈ earlier, RefersTo key field

/-! ### The parts of a field -/

def firstSegment (key : String) : String :=
  (splitDots key).headD ""

/-- A field that refers to a step has at least three parts, the second of which is
the first segment of the step's key. -/
theorem RefersTo.parts {key field : String} (h : RefersTo key field) :
    hasHead field "steps." = true ∧ 3 ≤ (splitDots field).length
      ∧ (splitDots field).getD 1 "" = firstSegment key := by
  have hrest : ∃ rest, field = "steps" ++ "." ++ (key ++ "." ++ rest) := by
    rcases h with rfl | ⟨name, rfl⟩
    · refine ⟨"status", String.toList_inj.mp ?_⟩
      simp only [String.toList_append, List.append_assoc]
      rfl
    · refine ⟨"output" ++ "." ++ name, String.toList_inj.mp ?_⟩
      simp only [String.toList_append, List.append_assoc]
      rfl
  obtain ⟨rest, rfl⟩ := hrest
  have hsteps : splitDots "steps" = ["steps"] := by decide
  have hkey := List.length_pos_of_ne_nil (splitDots_ne_nil key)
  have htail := List.length_pos_of_ne_nil (splitDots_ne_nil rest)
  rw [splitDots_append, splitDots_append, hsteps]
  refine ⟨?_, ?_, ?_⟩
  · rw [hasHead, List.isPrefixOf_iff_prefix, String.toList_append]
    exact ⟨(key ++ "." ++ rest).toList, rfl⟩
  · simp only [List.length_append, List.length_cons, List.length_nil]
    omega
  rw [firstSegment]
  rcases hsplit : splitDots key with _ | ⟨first, segments⟩
  · exact absurd hsplit (splitDots_ne_nil key)
  · rfl

/-! ### `validateCondition` -/

section Condition

variable {pf : Platform} {c : Condition} {ids : List String}

theorem validateCondition_ok_iff : validateCondition pf c ids = .ok () ↔
    c.field ≠ "" ∧ c.equals.isNone ≠ c.oneOf.isEmpty ∧ containsSensitiveName pf c.field = false
      ∧ if hasHead c.field "steps." = true then
          3 ≤ (splitDots c.field).length ∧ (splitDots c.field).getD 1 "" ∈ ids
        else c.field = "execution.dry_run" ∨ hasHead c.field "incident." = true := by
  rw [validateCondition]
  by_cases hempty : c.field = ""
  · simp [hempty]
  rw [if_neg hempty]
  by_cases hone : c.equals.isNone = c.oneOf.isEmpty
  · simp [hone]
  rw [if_neg hone]
  simp only
  by_cases hsteps : hasHead c.field "steps." = true
  · rw [if_pos hsteps, if_pos hsteps]
    cases containsSensitiveName pf c.field <;> simp [hempty, hone]
  · rw [if_neg hsteps, if_neg hsteps]
    cases containsSensitiveName pf c.field <;> simp [hempty, hone, or_iff_not_imp_left]

/-- **Which bindable fields validation accepts**: all that do not refer to a step,
and those that refer to a step whose first segment is an identifier. -/
theorem validateCondition_bindable_iff {earlier : List String}
    (hone : c.equals.isNone ≠ c.oneOf.isEmpty) (hbind : Bindable earlier c.field)
    (hplain : containsSensitiveName pf c.field = false) :
    validateCondition pf c ids = .ok ()
      ↔ ∀ key, RefersTo key c.field → firstSegment key ∈ ids := by
  have hnot : ∀ field : String, hasHead field "steps." = false → ∀ key, ¬ RefersTo key field := by
    intro field hfield key h
    rw [h.parts.1] at hfield
    cases hfield
  rw [validateCondition_ok_iff]
  rcases hbind with hfield | ⟨name, hname, hfield⟩ | ⟨key, -, hrefers⟩
  · have hhead : hasHead c.field "steps." = false := by rw [hfield]; decide
    rw [if_neg (by rw [hhead]; decide)]
    refine ⟨fun _ key h => absurd h (hnot _ hhead key), fun _ => ⟨?_, hone, hplain, .inl hfield⟩⟩
    rw [hfield]
    decide
  · have hhead : hasHead c.field "steps." = false := by
      rw [hfield, hasHead, String.toList_append]
      rfl
    have hincident : hasHead c.field "incident." = true := by
      rw [hfield, hasHead, List.isPrefixOf_iff_prefix, String.toList_append]
      exact List.prefix_append _ _
    rw [if_neg (by rw [hhead]; decide)]
    refine ⟨fun _ key h => absurd h (hnot _ hhead key), fun _ => ⟨?_, hone, hplain, .inr hincident⟩⟩
    rintro hempty
    rw [hempty] at hincident
    cases hincident
  obtain ⟨hhead, hlen, hsecond⟩ := hrefers.parts
  rw [if_pos hhead]
  constructor
  · rintro ⟨-, -, -, -, hmem⟩ key' hrefers'
    rw [← hrefers'.parts.2.2]
    exact hmem
  intro h
  refine ⟨?_, hone, hplain, hlen, hsecond ▸ h key hrefers⟩
  rintro hempty
  rw [hempty] at hhead
  cases hhead

end Condition

/-! ### `Validate` and the conditions of a document -/

section Document

variable {pf : Platform} {doc : Document}

def Document.stepIDs (doc : Document) : List String :=
  doc.spec.steps.map fun step => step.id

theorem validateSteps_seen {steps : List Step} {index : ℕ} {seen ids : List String}
    (h : validateSteps pf index seen steps = .ok ids) (id : String) :
    id ∈ ids ↔ id ∈ steps.map (fun step => step.id) ∨ id ∈ seen := by
  induction steps generalizing index seen with
  | nil =>
    obtain rfl : seen = ids := Except.ok.inj h
    simp
  | cons step steps ih =>
    rw [validateSteps] at h
    obtain ⟨_, -, h⟩ := bind_eq_ok h
    split at h
    · cases h
    rw [ih h]
    simp only [List.mem_cons, List.map_cons]
    tauto

theorem validateConditions_ok_iff {seen : List String} {steps : List Step} {index : ℕ} :
    validateConditions pf seen index steps = .ok () ↔
      ∀ step ∈ steps, ∀ c, step.condition = some c → validateCondition pf c seen = .ok () := by
  induction steps generalizing index with
  | nil => exact ⟨fun _ _ h => (by cases h), fun _ => rfl⟩
  | cons step steps ih =>
    have hrest := @ih (index + 1)
    rw [List.forall_mem_cons, ← hrest, validateConditions]
    cases hc : step.condition with
    | none =>
      refine ⟨fun h => ⟨fun c h => (by cases h), h⟩, fun h => h.2⟩
    | some c =>
      constructor
      · intro h
        obtain ⟨_, hfirst, hrest⟩ := bind_eq_ok h
        refine ⟨fun c' hc' => ?_, hrest⟩
        obtain rfl := Option.some.inj hc'
        exact label_eq_ok.mp hfirst
      · rintro ⟨hfirst, hrest⟩
        simp only [hfirst c rfl, label, Except.mapError]
        exact hrest

theorem validateCondition_congr {c : Condition} {ids ids' : List String}
    (h : ∀ id, id ∈ ids ↔ id ∈ ids') :
    validateCondition pf c ids = .ok () ↔ validateCondition pf c ids' = .ok () := by
  rw [validateCondition_ok_iff, validateCondition_ok_iff, h]

theorem conditions_of_validate (h : validate pf doc = .ok ()) :
    ∀ step ∈ doc.spec.steps, ∀ c, step.condition = some c →
      validateCondition pf c doc.stepIDs = .ok () := by
  obtain ⟨-, seen, hseen, hconditions⟩ := validate_ok_iff.mp h
  intro step hstep c hc
  refine (validateCondition_congr fun id => ?_).mp
    (validateConditions_ok_iff.mp hconditions step hstep c hc)
  rw [validateSteps_seen hseen id]
  simp [Document.stepIDs]

/-- The document whose step between `before` and `after` has the condition `c`. -/
def Document.withCondition (doc : Document) (before : List Step) (step : Step) (after : List Step)
    (c : Condition) : Document :=
  { doc with spec := { doc.spec with
      steps := before ++ { step with condition := some c } :: after } }

theorem validateSteps_condition (before after : List Step) (step : Step) (c : Condition) (index : ℕ)
    (seen : List String) :
    validateSteps pf index seen (before ++ { step with condition := some c } :: after)
      = validateSteps pf index seen (before ++ step :: after) := by
  induction before generalizing index seen with
  | nil => rfl
  | cons first before ih =>
    rw [List.cons_append, List.cons_append, validateSteps, validateSteps]
    simp only [ih]

/-- **A condition added to an accepted document** is all that is left to
validate. -/
theorem validate_withCondition_iff (h : validate pf doc = .ok ()) {before after : List Step}
    {step : Step} (hsteps : doc.spec.steps = before ++ step :: after) (c : Condition) :
    validate pf (doc.withCondition before step after c) = .ok ()
      ↔ validateCondition pf c doc.stepIDs = .ok () := by
  have hids : (doc.withCondition before step after c).stepIDs = doc.stepIDs := by
    simp [Document.stepIDs, Document.withCondition, hsteps]
  constructor
  · intro h'
    rw [← hids]
    refine conditions_of_validate h' { step with condition := some c } ?_ c rfl
    exact List.mem_append_right _ List.mem_cons_self
  intro hc
  obtain ⟨hheader, seen, hseen, -⟩ := validate_ok_iff.mp h
  have hseen' : validateSteps pf 0 [] (doc.withCondition before step after c).spec.steps
      = .ok seen := by
    rw [← hseen, hsteps]
    exact validateSteps_condition before after step c 0 []
  have hconditions : validateConditions pf seen 0
      (doc.withCondition before step after c).spec.steps = .ok () := by
    rw [validateConditions_ok_iff]
    intro q hq c' hc'
    have hids : ∀ id, id ∈ seen ↔ id ∈ doc.stepIDs := by
      intro id
      rw [validateSteps_seen hseen id]
      simp [Document.stepIDs]
    refine (validateCondition_congr hids).mpr ?_
    have hold : ∀ q ∈ before ++ step :: after, ∀ c', q.condition = some c' →
        validateCondition pf c' doc.stepIDs = .ok () :=
      fun q hq => conditions_of_validate h q (hsteps ▸ hq)
    rcases List.mem_append.mp hq with hq | hq
    · exact hold q (List.mem_append_left _ hq) c' hc'
    rcases List.mem_cons.mp hq with rfl | hq
    · obtain rfl := Option.some.inj hc'
      exact hc
    · exact hold q (List.mem_append_right _ (List.mem_cons_of_mem _ hq)) c' hc'
  refine validate_ok_iff.mpr ⟨?_, seen, hseen', hconditions⟩
  -- The checks of the header read the same data in both documents.
  have hlength : (doc.withCondition before step after c).spec.steps.length
      = doc.spec.steps.length := by
    simp [Document.withCondition, hsteps]
  exact { apiVersion := hheader.apiVersion, kind := hheader.kind, id := hheader.id
          version := hheader.version, count := hlength ▸ hheader.count
          timeout := hheader.timeout }

/-! ### Exactness -/

/-- Validation and evaluation agree on the fields of the conditions of `doc`:
`sound` about the conditions it has, `complete` about those it could have. -/
structure FieldsExact (pf : Platform) (doc : Document) : Prop where
  sound : ∀ before step after c, doc.spec.steps = before ++ step :: after →
    step.condition = some c → Bindable (before.map fun q => q.id) c.field
  complete : ∀ before step after c, doc.spec.steps = before ++ step :: after →
    c.equals.isNone ≠ c.oneOf.isEmpty → Bindable (before.map fun q => q.id) c.field →
    containsSensitiveName pf c.field = false →
    validate pf (doc.withCondition before step after c) = .ok ()

/-- What the check of the first two parts of a field does not see. -/
structure FieldsPlain (pf : Platform) (doc : Document) : Prop where
  incident : ∀ step ∈ doc.spec.steps, ∀ c, step.condition = some c →
    hasHead c.field "incident." = true → ∃ name ∈ incidentFields, c.field = "incident." ++ name
  earlier : ∀ before step after c, doc.spec.steps = before ++ step :: after →
    step.condition = some c → hasHead c.field "steps." = true →
    ∃ key ∈ before.map fun q => q.id, RefersTo key c.field
  segments : ∀ before step after, doc.spec.steps = before ++ step :: after →
    ∀ key ∈ before.map fun q => q.id, ∀ field, RefersTo key field →
      containsSensitiveName pf field = false → firstSegment key ∈ doc.stepIDs

theorem Bindable.of_incident {earlier : List String} {field : String} (h : Bindable earlier field)
    (hhead : hasHead field "incident." = true) :
    ∃ name ∈ incidentFields, field = "incident." ++ name := by
  rcases h with rfl | hincident | ⟨key, -, hrefers⟩
  · cases hhead
  · exact hincident
  · obtain ⟨rest, hrest⟩ := List.isPrefixOf_iff_prefix.mp hrefers.parts.1
    rw [hasHead, ← hrest] at hhead
    cases hhead

theorem Bindable.of_steps {earlier : List String} {field : String} (h : Bindable earlier field)
    (hhead : hasHead field "steps." = true) : ∃ key ∈ earlier, RefersTo key field := by
  rcases h with rfl | ⟨name, -, rfl⟩ | hrefers
  · cases hhead
  · rw [hasHead, String.toList_append] at hhead
    cases hhead
  · exact hrefers

theorem FieldsPlain.sound (hplain : FieldsPlain pf doc) (hvalid : validate pf doc = .ok ())
    {before after : List Step} {step : Step} {c : Condition}
    (hsteps : doc.spec.steps = before ++ step :: after) (hc : step.condition = some c) :
    Bindable (before.map fun q => q.id) c.field := by
  have hstep : step ∈ doc.spec.steps := by
    rw [hsteps]
    exact List.mem_append_right _ List.mem_cons_self
  obtain ⟨-, -, -, hallowed⟩ :=
    validateCondition_ok_iff.mp (conditions_of_validate hvalid step hstep c hc)
  by_cases hhead : hasHead c.field "steps." = true
  · exact .inr (.inr (hplain.earlier before step after c hsteps hc hhead))
  rw [if_neg hhead] at hallowed
  rcases hallowed with hdry | hincident
  · exact .inl hdry
  · exact .inr (.inl (hplain.incident step hstep c hc hincident))

/-- **Validation is exact on the plain documents, and on no others.** -/
theorem fields_exact_iff (hvalid : validate pf doc = .ok ()) :
    FieldsExact pf doc ↔ FieldsPlain pf doc := by
  constructor
  · intro h
    refine ⟨?_, ?_, ?_⟩
    · intro step hstep c hc hhead
      obtain ⟨before, after, hsteps⟩ := List.append_of_mem hstep
      exact (h.sound before step after c hsteps hc).of_incident hhead
    · intro before step after c hsteps hc hhead
      exact (h.sound before step after c hsteps hc).of_steps hhead
    intro before step after hsteps key hkey field hrefers hname
    -- A condition that compares the field with some text is complete otherwise.
    have hbind : Bindable (before.map fun q => q.id) field := .inr (.inr ⟨key, hkey, hrefers⟩)
    let c : Condition := { field := field, equals := some "" }
    have hone : c.equals.isNone ≠ c.oneOf.isEmpty := Bool.false_ne_true
    have haccepted : validateCondition pf c doc.stepIDs = .ok () :=
      (validate_withCondition_iff hvalid hsteps c).mp
        (h.complete before step after c hsteps hone hbind hname)
    exact (validateCondition_bindable_iff hone hbind hname).mp haccepted key hrefers
  intro h
  refine ⟨fun before step after c => h.sound hvalid, ?_⟩
  intro before step after c hsteps hone hbind hname
  rw [validate_withCondition_iff hvalid hsteps, validateCondition_bindable_iff hone hbind hname]
  intro key hrefers
  -- The field has one second part, whichever way it is read.
  obtain ⟨key', hkey', hrefers'⟩ := hbind.of_steps hrefers.parts.1
  rw [← hrefers.parts.2.2, hrefers'.parts.2.2]
  exact h.segments before step after hsteps key' hkey' c.field hrefers' hname

def waitWhen (id : String) (condition : Option Condition) : Step :=
  { id := id, type := .wait, condition := condition, inputs := { duration := "5s" } }

def followingRunbook : Document :=
  runbookWith [waitWhen "first" none,
    waitWhen "second" (some { field := "steps.first.status", equals := some "SUCCEEDED" })]

theorem followingRunbook_split {before after : List Step} {step : Step}
    (h : followingRunbook.spec.steps = before ++ step :: after) :
    before = [] ∧ step.condition = none
      ∨ before.map (fun q => q.id) = ["first"]
        ∧ step.condition = some { field := "steps.first.status", equals := some "SUCCEEDED" } := by
  rcases before with _ | ⟨first, _ | ⟨second, before⟩⟩
  · obtain ⟨rfl, -⟩ := List.cons.inj h
    exact .inl ⟨rfl, rfl⟩
  · obtain ⟨rfl, hrest⟩ := List.cons.inj h
    obtain ⟨rfl, -⟩ := List.cons.inj hrest
    exact .inr ⟨rfl, rfl⟩
  · have hlength := congrArg List.length h
    simp [followingRunbook, runbookWith] at hlength

/-- Validation is exact on a runbook whose second step asks for the status of the
first. -/
theorem fields_exact_plain :
    validate (plainPlatform followingRunbook) followingRunbook = .ok ()
      ∧ FieldsExact (plainPlatform followingRunbook) followingRunbook := by
  have hvalid : validate (plainPlatform followingRunbook) followingRunbook = .ok () := by
    decide +kernel
  refine ⟨hvalid, (fields_exact_iff hvalid).mpr ⟨?_, ?_, ?_⟩⟩
  · intro step hstep c hc hhead
    obtain ⟨before, after, hsteps⟩ := List.append_of_mem hstep
    rcases followingRunbook_split hsteps with ⟨-, hnone⟩ | ⟨-, hsome⟩
    · rw [hnone] at hc
      cases hc
    · obtain rfl := Option.some.inj (hsome.symm.trans hc)
      exact absurd hhead (by decide)
  · intro before step after c hsteps hc _
    rcases followingRunbook_split hsteps with ⟨-, hnone⟩ | ⟨hbefore, hsome⟩
    · rw [hnone] at hc
      cases hc
    · obtain rfl := Option.some.inj (hsome.symm.trans hc)
      exact ⟨"first", hbefore ▸ List.mem_singleton.mpr rfl, .inl rfl⟩
  · intro before step after hsteps key hkey _ _ _
    rcases followingRunbook_split hsteps with ⟨rfl, -⟩ | ⟨hbefore, -⟩
    · cases hkey
    · obtain rfl := List.mem_singleton.mp (hbefore ▸ hkey)
      decide +kernel

def priorityCondition : Condition :=
  { field := "incident.priority", equals := some "high" }

def dottedCondition : Condition :=
  { field := "steps.db.drain.status", equals := some "SUCCEEDED" }

def dottedRunbook : Document :=
  runbookWith [waitWhen "db.drain" none, waitWhen "check" none]

/-- **Accepted without being bindable, and rejected although bindable.**  The first
document is accepted with a condition on `incident.priority`, which no incident
has.  The second is accepted, and rejected as soon as its last step has a
condition on the status of the step `db.drain` declared before it. -/
theorem fields_inexact :
    (validate (plainPlatform (runbookWith [waitWhen "check" (some priorityCondition)]))
        (runbookWith [waitWhen "check" (some priorityCondition)]) = .ok ()
      ∧ ¬ Bindable [] priorityCondition.field)
    ∧ (validate (plainPlatform dottedRunbook) dottedRunbook = .ok ()
      ∧ Bindable ["db.drain"] dottedCondition.field
      ∧ containsSensitiveName (plainPlatform dottedRunbook) dottedCondition.field = false
      ∧ validate (plainPlatform dottedRunbook)
          (dottedRunbook.withCondition [waitWhen "db.drain" none] (waitWhen "check" none) []
            dottedCondition)
        = .error "spec.steps[1].when: field \"steps.db.drain.status\" is not allowed") := by
  refine ⟨⟨by decide +kernel, ?_⟩, by decide +kernel, ?_, by decide +kernel, by decide +kernel⟩
  · intro hbind
    obtain ⟨name, hname, hfield⟩ := hbind.of_incident (by decide)
    revert name
    decide
  · exact .inr (.inr ⟨"db.drain", List.mem_singleton.mpr rfl, .inl rfl⟩)

end Document

end StormRelay
