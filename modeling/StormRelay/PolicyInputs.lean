/-
What a policy decision depends on (`Evaluate`).

A decision is made from the fields its expression names.  Validation keeps
sensitive names out of every leaf, so no label whose name contains a sensitive
word has an influence on a decision, nor does it show in the explanation or among
the recorded inputs.

* `decision_independent` — **events that agree on the named fields get the same
  decision**, and so do events that differ in sensitive labels only.
-/
import Mathlib.Data.List.Dedup
import Mathlib.Data.List.Infix
import StormRelay.PolicyGrammar

namespace StormRelay.Policy

open GoStd

variable {pf : Platform} {inputs inputs' : List (String × String)}

/-! ### Evaluation reads the collected fields -/

def valueOf (inputs : List (String × String)) (field : String) : String :=
  (inputs.lookup field).getD ""

variable {children : List Expression} {field : String}

theorem mem_collectChildren :
    field ∈ collectChildren children ↔ ∃ child ∈ children, field ∈ collectFields child := by
  induction children with
  | nil =>
    rw [collectChildren]
    simp
  | cons head children ih =>
    rw [collectChildren, List.mem_append, ih]
    simp

theorem mem_collectFields {all any : List Expression} {not : Option Expression}
    {named equals : String} {oneOf : List String} :
    field ∈ collectFields (.mk all any not named equals oneOf) ↔
      (named ≠ "" ∧ field = named) ∨ (∃ child ∈ all, field ∈ collectFields child)
        ∨ (∃ child ∈ any, field ∈ collectFields child)
        ∨ ∃ child ∈ not, field ∈ collectFields child := by
  have hnamed : field ∈ (if named ≠ "" then [named] else []) ↔ named ≠ "" ∧ field = named := by
    by_cases hempty : named = ""
    · simp [hempty]
    · simp [hempty]
  rcases not with _ | child
  · rw [collectFields, List.mem_append, List.mem_append, List.mem_append, hnamed,
      mem_collectChildren, mem_collectChildren]
    simp [or_assoc]
  · rw [collectFields, List.mem_append, List.mem_append, List.mem_append, hnamed,
      mem_collectChildren, mem_collectChildren]
    simp [or_assoc]

theorem evalAll_congr (h : ∀ child ∈ children, eval pf inputs child = eval pf inputs' child) :
    evalAll pf inputs children = evalAll pf inputs' children := by
  induction children with
  | nil => rw [evalAll, evalAll]
  | cons child children ih =>
    obtain ⟨hhead, hrest⟩ := List.forall_mem_cons.mp h
    rw [evalAll, evalAll, hhead, ih hrest]

theorem evalAny_congr (h : ∀ child ∈ children, eval pf inputs child = eval pf inputs' child) :
    evalAny pf inputs children = evalAny pf inputs' children := by
  induction children with
  | nil => rw [evalAny, evalAny]
  | cons child children ih =>
    obtain ⟨hhead, hrest⟩ := List.forall_mem_cons.mp h
    rw [evalAny, evalAny, hhead, ih hrest]

/-- **Evaluation reads the collected fields only**, explanations included. -/
theorem eval_congr {x : Expression} (h : Accepted pf x)
    (hagree : ∀ field ∈ collectFields x, valueOf inputs field = valueOf inputs' field) :
    eval pf inputs x = eval pf inputs' x := by
  induction h with
  | all hne _ _ ih =>
    rw [eval, eval, if_pos hne, if_pos hne]
    refine evalAll_congr fun child hchild => ih child hchild fun field hfield => hagree field ?_
    exact mem_collectFields.mpr (.inr (.inl ⟨child, hchild, hfield⟩))
  | any hne _ _ ih =>
    have hany : ∀ inputs equals oneOf, eval pf inputs (.mk [] _ none "" equals oneOf)
        = evalAny pf inputs _ := fun inputs equals oneOf => by
      rw [eval, if_neg (fun h => h rfl), if_pos hne]
    rw [hany, hany]
    refine evalAny_congr fun child hchild => ih child hchild fun field hfield => hagree field ?_
    exact mem_collectFields.mpr (.inr (.inr (.inl ⟨child, hchild, hfield⟩)))
  | not _ ih =>
    have hchild := ih fun field hfield =>
      hagree field (mem_collectFields.mpr (.inr (.inr (.inr ⟨_, rfl, hfield⟩))))
    simp only [eval, ne_eq, not_true_eq_false, if_false, hchild]
  | @leaf field equals oneOf hfield _ _ _ =>
    have hvalue : (inputs.lookup field).getD "" = (inputs'.lookup field).getD "" :=
      hagree field (mem_collectFields.mpr (.inl ⟨hfield, rfl⟩))
    simp only [eval, ne_eq, not_true_eq_false, if_false, hvalue]

theorem collectFields_plain {x : Expression} (h : Accepted pf x) :
    ∀ field ∈ collectFields x, isSensitiveField pf field = false := by
  induction h with
  | all _ _ _ ih =>
    intro field hfield
    rcases mem_collectFields.mp hfield with ⟨h, _⟩ | ⟨child, hchild, hmem⟩ | ⟨_, h, _⟩ | ⟨_, h, _⟩
    · exact absurd rfl h
    · exact ih child hchild field hmem
    · cases h
    · cases h
  | any _ _ _ ih =>
    intro field hfield
    rcases mem_collectFields.mp hfield with ⟨h, _⟩ | ⟨_, h, _⟩ | ⟨child, hchild, hmem⟩ | ⟨_, h, _⟩
    · exact absurd rfl h
    · cases h
    · exact ih child hchild field hmem
    · cases h
  | not _ ih =>
    intro field hfield
    rcases mem_collectFields.mp hfield with ⟨h, _⟩ | ⟨_, h, _⟩ | ⟨_, h, _⟩ | ⟨_, ⟨⟩, hmem⟩
    · exact absurd rfl h
    · cases h
    · cases h
    · exact ih field hmem
  | leaf _ hplain _ _ =>
    intro field hfield
    rcases mem_collectFields.mp hfield with ⟨_, rfl⟩ | ⟨_, h, _⟩ | ⟨_, h, _⟩ | ⟨_, h, _⟩
    · exact hplain
    · cases h
    · cases h
    · cases h

theorem accepted_of_validate {d : Document} (h : d.validate pf = .ok ()) :
    Accepted pf d.match_ := by
  rw [Document.validate] at h
  obtain ⟨_, h⟩ := check_ok_iff.mp h
  obtain ⟨_, h⟩ := check_ok_iff.mp h
  obtain ⟨_, h⟩ := check_ok_iff.mp h
  exact accepted_of_ok _ (label_eq_ok.mp h)

/-- The value of a field of an event. -/
def fieldValue (e : Events.Event) (field : String) : String :=
  valueOf (eventInputs e) field

theorem evaluate_congr {d : Document} {e e' : Events.Event} (h : Accepted pf d.match_)
    (hagree : ∀ field ∈ collectFields d.match_, fieldValue e field = fieldValue e' field) :
    evaluate pf d e = evaluate pf d e' := by
  have heval : eval pf (eventInputs e) d.match_ = eval pf (eventInputs e') d.match_ :=
    eval_congr h hagree
  have hinputs : ((collectFields d.match_).dedup.map fun field =>
        (field, sanitizeDecisionInput pf field (((eventInputs e).lookup field).getD "")))
      = (collectFields d.match_).dedup.map fun field =>
        (field, sanitizeDecisionInput pf field (((eventInputs e').lookup field).getD "")) := by
    refine List.map_congr_left fun field hfield => ?_
    have hvalue : ((eventInputs e).lookup field).getD ""
        = ((eventInputs e').lookup field).getD "" := hagree field (List.mem_dedup.mp hfield)
    rw [hvalue]
  rw [evaluate, evaluate, heval, hinputs]

/-! ### Sensitive labels -/

/-- `strings.ToLower` maps a text character by character, and the ASCII letters as
usual. -/
def LowersRunes (toLower : String → String) : Prop :=
  ∃ f : Char → Char, (∀ c : Char, c.toNat < 128 → f c = c.toLower)
    ∧ ∀ s : String, toLower s = String.ofList (s.toList.map f)

/-- The name contains a sensitive word in any letter case: after the code's own case
mapping, or after that of the ASCII letters. -/
def SensitiveName (pf : Platform) (name : String) : Prop :=
  isSensitiveField pf name = true
    ∨ ∃ word ∈ sensitiveWords, contains (String.ofList (name.toList.map Char.toLower)) word

theorem toNat_lt_of_toLower {c : Char} (h : c.toLower.toNat < 128) : c.toNat < 128 := by
  by_cases hupper : 65 ≤ c.toNat ∧ c.toNat ≤ 90
  · exact hupper.2.trans_lt (by decide)
  · rwa [toLower_of_not_upper hupper] at h

theorem isSensitiveField_label (hlower : LowersRunes pf.toLower) {name : String}
    (h : SensitiveName pf name) : isSensitiveField pf ("labels." ++ name) = true := by
  obtain ⟨f, hascii, hmap⟩ := hlower
  obtain ⟨word, hword, hin⟩ : ∃ word ∈ sensitiveWords, word.toList <:+: name.toList.map f := by
    rcases h with h | ⟨word, hword, h⟩
    · obtain ⟨word, hword, h⟩ := List.any_eq_true.mp h
      rw [ contains_iff_infix, hmap, String.toList_ofList] at h
      exact ⟨word, hword, h⟩
    rw [ contains_iff_infix, String.toList_ofList] at h
    obtain ⟨part, hpart, heq⟩ := List.infix_map_iff.mp h
    refine ⟨word, hword, List.infix_map_iff.mpr ⟨part, hpart, heq.trans ?_⟩⟩
    -- the letters of the word are ASCII, so the two mappings agree on them
    refine List.map_congr_left fun c hc => (hascii c (toNat_lt_of_toLower ?_)).symm
    have hletters : ∀ word ∈ sensitiveWords, word.toList.all (fun c => c.toNat < 128) = true := by
      decide
    exact of_decide_eq_true
      (List.all_eq_true.mp (hletters word hword) _ (heq ▸ List.mem_map_of_mem hc))
  refine List.any_eq_true.mpr ⟨word, hword, ?_⟩
  rw [ contains_iff_infix, hmap, String.toList_ofList, String.toList_append, List.map_append]
  exact hin.trans (List.suffix_append _ _).isInfix

/-! ### The fields of an event -/

def labelInputs (labels : List (String × String)) : List (String × String) :=
  labels.map fun (name, value) => ("labels." ++ name, value)

theorem lookup_labelInputs (labels : List (String × String)) (name : String) :
    (labelInputs labels).lookup ("labels." ++ name) = labels.lookup name := by
  induction labels with
  | nil => rfl
  | cons l labels ih =>
    have hbeq : ("labels." ++ name == "labels." ++ l.1) = (name == l.1) := by
      rw [Bool.eq_iff_iff, beq_iff_eq, beq_iff_eq, String.append_right_inj]
    rw [labelInputs, List.map_cons, List.lookup_cons, List.lookup_cons, hbeq]
    cases name == l.1 with
    | true => rfl
    | false => exact ih

theorem lookup_labelInputs_of_ne {labels : List (String × String)}
    (h : ∀ name, field ≠ "labels." ++ name) : (labelInputs labels).lookup field = none := by
  induction labels with
  | nil => rfl
  | cons l labels ih =>
    have hbeq : (field == "labels." ++ l.1) = false := beq_eq_false_iff_ne.mpr (h l.1)
    rw [labelInputs, List.map_cons, List.lookup_cons, hbeq]
    exact ih

def plainInputs (e : Events.Event) : List (String × String) :=
  [("severity", e.severity.text), ("type", e.type), ("source", e.source), ("subject", e.subject)]

theorem lookup_eventInputs (e : Events.Event) (field : String) :
    (eventInputs e).lookup field
      = ((if e.label "environment" ≠ "" ∧ field = "environment" then some (e.label "environment")
          else none).or ((labelInputs (e.labels.getD [])).lookup field)).or
        ((plainInputs e).lookup field) := by
  have henv : (if e.label "environment" ≠ "" then [("environment", e.label "environment")]
      else []).lookup field
      = if e.label "environment" ≠ "" ∧ field = "environment" then some (e.label "environment")
        else none := by
    by_cases hempty : e.label "environment" = ""
    · simp [hempty]
    by_cases hfield : field = "environment"
    · simp [hempty, hfield]
    · have hbeq : (field == "environment") = false := beq_eq_false_iff_ne.mpr hfield
      simp [hempty, hfield, List.lookup_cons, hbeq]
  rw [eventInputs, List.lookup_append, List.lookup_append, henv]
  rfl

/-- `labels.` is the beginning of no other field. -/
theorem label_ne (name : String) :
    "labels." ++ name ∉ ["environment", "severity", "type", "source", "subject"] := by
  intro hmem
  have hhead : ∀ field ∈ ["environment", "severity", "type", "source", "subject"],
      ¬ "labels.".toList <+: field.toList := by decide
  refine hhead _ hmem ?_
  rw [String.toList_append]
  exact List.prefix_append _ _

/-- **Which part of an event a field names**: the environment, a label, or one of the
four plain fields. -/
theorem fieldValue_environment (e : Events.Event) :
    fieldValue e "environment" = e.label "environment" := by
  have hlabels : (labelInputs (e.labels.getD [])).lookup "environment" = none :=
    lookup_labelInputs_of_ne fun name heq =>
      label_ne name (heq ▸ List.mem_cons_self)
  rw [fieldValue, valueOf, lookup_eventInputs, hlabels]
  by_cases hempty : e.label "environment" = ""
  · simp only [hempty]
    rfl
  · simp only [hempty, ne_eq, not_false_eq_true, true_and, if_true]
    rfl

theorem fieldValue_label (e : Events.Event) (name : String) :
    fieldValue e ("labels." ++ name) = e.label name := by
  have hother := label_ne name
  have henv : ¬ (e.label "environment" ≠ "" ∧ "labels." ++ name = "environment") := by
    rintro ⟨_, heq⟩
    exact hother (heq ▸ List.mem_cons_self)
  have hplain : (plainInputs e).lookup ("labels." ++ name) = none := by
    simp only [List.mem_cons, List.not_mem_nil, or_false, not_or] at hother
    obtain ⟨_, h₁, h₂, h₃, h₄⟩ := hother
    simp [plainInputs, List.lookup_cons, beq_eq_false_iff_ne.mpr h₁, beq_eq_false_iff_ne.mpr h₂,
      beq_eq_false_iff_ne.mpr h₃, beq_eq_false_iff_ne.mpr h₄]
  rw [fieldValue, valueOf, lookup_eventInputs, if_neg henv, lookup_labelInputs, hplain,
    Option.none_or, Option.or_none]
  rfl

theorem fieldValue_plain (e : Events.Event) (henv : field ≠ "environment")
    (hlabel : ∀ name, field ≠ "labels." ++ name) :
    fieldValue e field = ((plainInputs e).lookup field).getD "" := by
  rw [fieldValue, valueOf, lookup_eventInputs, if_neg (fun h => henv h.2),
    lookup_labelInputs_of_ne hlabel, Option.none_or, Option.none_or]

theorem fieldValue_of_sensitive (hlower : LowersRunes pf.toLower) {e e' : Events.Event}
    (hrest : e' = { e with labels := e'.labels })
    (hlabels : ∀ name, e.label name ≠ e'.label name → SensitiveName pf name)
    (hfield : isSensitiveField pf field = false) : fieldValue e field = fieldValue e' field := by
  by_cases henv : field = "environment"
  · subst henv
    rw [fieldValue_environment, fieldValue_environment]
    by_contra hne
    rcases hlabels _ hne with h | ⟨word, hword, h⟩
    · rw [hfield] at h
      cases h
    · revert word
      decide
  by_cases hlabel : ∃ name, field = "labels." ++ name
  · obtain ⟨name, rfl⟩ := hlabel
    rw [fieldValue_label, fieldValue_label]
    by_contra hne
    rw [isSensitiveField_label hlower (hlabels name hne)] at hfield
    cases hfield
  · have hnone : ∀ name, field ≠ "labels." ++ name := fun name heq => hlabel ⟨name, heq⟩
    rw [fieldValue_plain e henv hnone, fieldValue_plain e' henv hnone, hrest]
    rfl

/-- **A decision depends on the named fields only.**  Two events that agree on every
field the expression of a validated document names get the same decision: match,
actions, explanation and inputs.  So do two events that differ in nothing but labels
whose names contain a sensitive word, whatever its letter case. -/
theorem decision_independent (pf : Platform) (d : Document) (hvalid : d.validate pf = .ok ())
    (e e' : Events.Event) :
    ((∀ field ∈ collectFields d.match_, fieldValue e field = fieldValue e' field) →
        evaluate pf d e = evaluate pf d e')
      ∧ (LowersRunes pf.toLower → e' = { e with labels := e'.labels } →
        (∀ name, e.label name ≠ e'.label name → SensitiveName pf name) →
        evaluate pf d e = evaluate pf d e') := by
  have haccepted := accepted_of_validate hvalid
  refine ⟨evaluate_congr haccepted, fun hlower hrest hlabels => ?_⟩
  refine evaluate_congr haccepted fun field hfield => ?_
  exact fieldValue_of_sensitive hlower hrest hlabels (collectFields_plain haccepted field hfield)

def asciiPlatform : Platform where
  decodeYAML := fun _ => .error "no policy"
  toLower := fun s => String.ofList (s.toList.map Char.toLower)
  quote := id

def teamPolicy : Document where
  apiVersion := "stormrelay.io/v1"
  kind := "Policy"
  id := "team"
  version := 1
  match_ := .mk [.mk [] [] none "labels.team" "db" []] [] none "" "" []
  actions := { notificationChannels := ["db-oncall"] }

def tokenAlert (token : String) : Events.Event where
  id := "e"
  source := "s"
  type := "alert"
  time := 0
  dataContentType := "application/json"
  schemaVersion := "v1"
  tenantID := "t"
  sourceID := "s"
  labels := some [("team", "db"), ("API_Token", token)]
  severity := .critical
  rawPayload := []
  fingerprint := ""
  receivedAt := 0
  requestID := ""

/-- The token decides nothing, although its name is spelled with capitals. -/
theorem decision_independent_token :
    evaluate asciiPlatform teamPolicy (tokenAlert "a")
      = evaluate asciiPlatform teamPolicy (tokenAlert "b") := by
  have hvalid : teamPolicy.validate asciiPlatform = .ok () := by decide +kernel
  refine (decision_independent asciiPlatform teamPolicy hvalid (tokenAlert "a")
    (tokenAlert "b")).2 ⟨Char.toLower, fun _ _ => rfl, fun _ => rfl⟩ rfl ?_
  intro name hne
  by_cases hname : name = "API_Token"
  · exact .inl (by rw [hname]; decide)
  · have hbeq : (name == "API_Token") = false := beq_eq_false_iff_ne.mpr hname
    simp [tokenAlert, Events.Event.label, List.lookup_cons, hbeq] at hne

end StormRelay.Policy
