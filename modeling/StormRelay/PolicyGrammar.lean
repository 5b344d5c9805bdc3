/-
The expressions that policy validation accepts (`validateExpression`).

An `Expression` has room for every operand at once: `all`, `any`, `not`, `field`,
`equals` and `in`.  Validation counts the first four only and checks the values of
`equals` and `in` behind the recursion, so a node that combines others can carry
values of its own.  Evaluation never looks at them.

* `validation_exact_iff` — **validation decides the grammar exactly on the
  expressions whose combining nodes carry no values**.
-/
import StormRelay.Policy
import StormRelay.Provenance

namespace StormRelay.Policy

variable {pf : Platform}

/-! ### The grammar -/

/-- The intended grammar: a non-empty `all`, a non-empty `any`, a `not` with its
child, or a leaf with a field that is not sensitive and exactly one kind of value. -/
inductive Grammar (pf : Platform) : Expression → Prop
  | all {children : List Expression} (hne : children ≠ [])
      (hchildren : ∀ child ∈ children, Grammar pf child) :
      Grammar pf (.mk children [] none "" "" [])
  | any {children : List Expression} (hne : children ≠ [])
      (hchildren : ∀ child ∈ children, Grammar pf child) :
      Grammar pf (.mk [] children none "" "" [])
  | not {child : Expression} (hchild : Grammar pf child) :
      Grammar pf (.mk [] [] (some child) "" "" [])
  | equals {field value : String} (hfield : field ≠ "")
      (hplain : isSensitiveField pf field = false) (hvalue : value ≠ "") :
      Grammar pf (.mk [] [] none field value [])
  | oneOf {field : String} {values : List String} (hfield : field ≠ "")
      (hplain : isSensitiveField pf field = false) (hvalues : values ≠ []) :
      Grammar pf (.mk [] [] none field "" values)

/-- What validation accepts: beside `all` and `any` one kind of value may stand, and
beside `not` anything. -/
inductive Accepted (pf : Platform) : Expression → Prop
  | all {children : List Expression} {equals : String} {oneOf : List String}
      (hne : children ≠ []) (hchildren : ∀ child ∈ children, Accepted pf child)
      (hvalues : equals = "" ∨ oneOf = []) :
      Accepted pf (.mk children [] none "" equals oneOf)
  | any {children : List Expression} {equals : String} {oneOf : List String}
      (hne : children ≠ []) (hchildren : ∀ child ∈ children, Accepted pf child)
      (hvalues : equals = "" ∨ oneOf = []) :
      Accepted pf (.mk [] children none "" equals oneOf)
  | not {child : Expression} {equals : String} {oneOf : List String}
      (hchild : Accepted pf child) :
      Accepted pf (.mk [] [] (some child) "" equals oneOf)
  | leaf {field equals : String} {oneOf : List String} (hfield : field ≠ "")
      (hplain : isSensitiveField pf field = false) (hvalue : ¬ (equals = "" ∧ oneOf = []))
      (hvalues : equals = "" ∨ oneOf = []) :
      Accepted pf (.mk [] [] none field equals oneOf)

/-! ### What validation accepts -/

variable {all any children : List Expression} {not : Option Expression} {equals field : String}

theorem operandCount_eq_one (h : operandCount all any not field = 1) :
    (all ≠ [] ∧ any = [] ∧ not = none ∧ field = "")
      ∨ (all = [] ∧ any ≠ [] ∧ not = none ∧ field = "")
      ∨ (all = [] ∧ any = [] ∧ not.isSome ∧ field = "")
      ∨ (all = [] ∧ any = [] ∧ not = none ∧ field ≠ "") := by
  rw [operandCount] at h
  by_cases hall : all = [] <;> by_cases hany : any = [] <;> rcases not with _ | child <;>
    by_cases hfield : field = "" <;> simp_all

theorem check_ok_iff {p : Prop} [Decidable p] {err : String} {rest : Unit → Except String Unit} :
    (if p then throw err >>= rest else rest ()) = .ok () ↔ ¬ p ∧ rest () = .ok () := by
  by_cases hp : p
  · rw [if_pos hp]
    exact ⟨fun h => (by cases h), fun h => absurd hp h.1⟩
  · rw [if_neg hp]
    exact ⟨fun h => ⟨hp, h⟩, fun h => h.2⟩

theorem last_check_ok_iff {p : Prop} [Decidable p] {err : String} :
    (if p then throw err else pure () : Except String Unit) = .ok () ↔ ¬ p := by
  by_cases hp : p
  · rw [if_pos hp]
    exact ⟨fun h => (by cases h), fun h => absurd hp h⟩
  · rw [if_neg hp]
    exact ⟨fun _ => hp, fun _ => rfl⟩

theorem seq_ok_iff {x : Except String Unit} {rest : Unit → Except String Unit} :
    (x >>= rest) = .ok () ↔ x = .ok () ∧ rest () = .ok () := by
  rcases x with err | ⟨⟩
  · exact ⟨fun h => (by cases h), fun h => (by cases h.1)⟩
  · exact ⟨fun h => ⟨rfl, h⟩, fun h => h.2⟩

variable {oneOf : List String}

theorem validateExpression_not_ok_iff {child : Expression} :
    validateExpression pf (.mk all any (some child) field equals oneOf) = .ok () ↔
      operandCount all any (some child) field = 1 ∧ validateChildren pf "all" 0 all = .ok ()
        ∧ validateChildren pf "any" 0 any = .ok () ∧ validateExpression pf child = .ok () := by
  rw [validateExpression, check_ok_iff, seq_ok_iff, seq_ok_iff, ne_eq, not_not]

theorem validateExpression_ok_iff_checks :
    validateExpression pf (.mk all any none field equals oneOf) = .ok () ↔
      operandCount all any none field = 1 ∧ validateChildren pf "all" 0 all = .ok ()
        ∧ validateChildren pf "any" 0 any = .ok ()
        ∧ ¬ (field ≠ "" ∧ isSensitiveField pf field = true)
        ∧ ¬ (field ≠ "" ∧ equals = "" ∧ oneOf = []) ∧ ¬ (equals ≠ "" ∧ oneOf ≠ []) := by
  rw [validateExpression, check_ok_iff, seq_ok_iff, seq_ok_iff, ne_eq, not_not]
  show _ ∧ _ ∧ _ ∧ (if _ then throw _ >>= _ else _) = _ ↔ _
  rw [check_ok_iff]
  show _ ∧ _ ∧ _ ∧ _ ∧ (if _ then throw _ >>= _ else _) = _ ↔ _
  rw [check_ok_iff, last_check_ok_iff]

theorem validateChildren_cons_ok_iff {name : String} {i : ℕ} {child : Expression} :
    validateChildren pf name i (child :: children) = .ok () ↔
      validateExpression pf child = .ok ()
        ∧ validateChildren pf name (i + 1) children = .ok () := by
  rw [validateChildren, seq_ok_iff, label_eq_ok]

mutual

/-- **What validation accepts**, by recursion over the expression. -/
theorem accepted_of_ok : ∀ e : Expression, validateExpression pf e = .ok () → Accepted pf e
  | .mk all any (some child) field equals oneOf, h => by
    obtain ⟨hcount, _, _, hchild⟩ := validateExpression_not_ok_iff.mp h
    rcases operandCount_eq_one hcount with
      ⟨_, _, hnone, _⟩ | ⟨_, _, hnone, _⟩ | ⟨rfl, rfl, _, rfl⟩ | ⟨_, _, hnone, _⟩
    · cases hnone
    · cases hnone
    · exact .not (accepted_of_ok child hchild)
    · cases hnone
  | .mk all any none field equals oneOf, h => by
    obtain ⟨hcount, hall, hany, hplain, hvalue, hvalues⟩ := validateExpression_ok_iff_checks.mp h
    have hone : equals = "" ∨ oneOf = [] := by
      by_contra hboth
      rw [not_or] at hboth
      exact hvalues hboth
    rcases operandCount_eq_one hcount with
      ⟨hne, rfl, _, rfl⟩ | ⟨rfl, hne, _, rfl⟩ | ⟨_, _, hsome, _⟩ | ⟨rfl, rfl, _, hfield⟩
    · exact .all hne (accepted_of_children_ok "all" 0 all hall) hone
    · exact .any hne (accepted_of_children_ok "any" 0 any hany) hone
    · cases hsome
    · refine .leaf hfield ?_ (fun h => hvalue ⟨hfield, h⟩) hone
      exact Bool.eq_false_iff.mpr fun hsensitive => hplain ⟨hfield, hsensitive⟩

theorem accepted_of_children_ok (name : String) :
    ∀ (i : ℕ) (children : List Expression), validateChildren pf name i children = .ok () →
      ∀ child ∈ children, Accepted pf child
  | _, [], _ => by
    intro child hchild
    cases hchild
  | i, child :: children, h => by
    obtain ⟨hhead, hrest⟩ := validateChildren_cons_ok_iff.mp h
    exact List.forall_mem_cons.mpr
      ⟨accepted_of_ok child hhead, accepted_of_children_ok name (i + 1) children hrest⟩

end

theorem children_ok {name : String} (h : ∀ child ∈ children, validateExpression pf child = .ok ())
    (i : ℕ) :
    validateChildren pf name i children = .ok () := by
  induction children generalizing i with
  | nil =>
    rw [validateChildren]
  | cons child children ih =>
    obtain ⟨hhead, hrest⟩ := List.forall_mem_cons.mp h
    exact validateChildren_cons_ok_iff.mpr ⟨hhead, ih hrest (i + 1)⟩

variable {e : Expression}

theorem ok_of_accepted (h : Accepted pf e) : validateExpression pf e = .ok () := by
  have hnil : ∀ name, validateChildren pf name 0 [] = .ok () := fun name => by
    rw [validateChildren]
  induction h with
  | all hne _ hvalues ih =>
    refine validateExpression_ok_iff_checks.mpr ⟨by simp [operandCount, hne],
      children_ok ih 0, hnil "any", by simp, by simp, ?_⟩
    rintro ⟨hequals, hone⟩
    exact hvalues.elim hequals hone
  | any hne _ hvalues ih =>
    refine validateExpression_ok_iff_checks.mpr ⟨by simp [operandCount, hne],
      hnil "all", children_ok ih 0, by simp, by simp, ?_⟩
    rintro ⟨hequals, hone⟩
    exact hvalues.elim hequals hone
  | not _ ih =>
    exact validateExpression_not_ok_iff.mpr ⟨by simp [operandCount], hnil "all", hnil "any", ih⟩
  | leaf hfield hplain hvalue hvalues =>
    refine validateExpression_ok_iff_checks.mpr ⟨by simp [operandCount, hfield],
      hnil "all", hnil "any", ?_, fun h => hvalue h.2, ?_⟩
    · rintro ⟨_, hsensitive⟩
      rw [hplain] at hsensitive
      cases hsensitive
    · rintro ⟨hequals, hone⟩
      exact hvalues.elim hequals hone

theorem validateExpression_ok_iff :
    validateExpression pf e = .ok () ↔ Accepted pf e :=
  ⟨accepted_of_ok e, ok_of_accepted⟩

/-! ### Stray values -/

mutual

def nodes : Expression → List Expression
  | .mk all any not field equals oneOf =>
    .mk all any not field equals oneOf :: (childNodes all ++ childNodes any
      ++ match not with
        | some child => nodes child
        | none => [])

def childNodes : List Expression → List Expression
  | [] => []
  | child :: children => nodes child ++ childNodes children

end

def Expression.Bare : Expression → Prop
  | .mk all any not _ equals oneOf =>
    (all = [] ∧ any = [] ∧ not = none) ∨ (equals = "" ∧ oneOf = [])

theorem mem_childNodes {node : Expression} :
    node ∈ childNodes children ↔ ∃ child ∈ children, node ∈ nodes child := by
  induction children with
  | nil =>
    rw [childNodes]
    simp
  | cons head children ih =>
    rw [childNodes, List.mem_append, ih]
    simp

theorem forall_nodes {P : Expression → Prop} :
    (∀ node ∈ nodes (.mk all any not field equals oneOf), P node) ↔
      P (.mk all any not field equals oneOf) ∧ (∀ child ∈ all, ∀ node ∈ nodes child, P node)
        ∧ (∀ child ∈ any, ∀ node ∈ nodes child, P node)
        ∧ ∀ child ∈ not, ∀ node ∈ nodes child, P node := by
  have hchildren : ∀ children : List Expression, (∀ node ∈ childNodes children, P node) ↔
      ∀ child ∈ children, ∀ node ∈ nodes child, P node := by
    intro children
    constructor
    · intro h child hchild node hnode
      exact h node (mem_childNodes.mpr ⟨child, hchild, hnode⟩)
    · intro h node hnode
      obtain ⟨child, hchild, hmem⟩ := mem_childNodes.mp hnode
      exact h child hchild node hmem
  rcases not with _ | child
  · rw [nodes, List.forall_mem_cons, List.forall_mem_append, List.forall_mem_append, hchildren,
      hchildren, and_assoc]
    simp
  · rw [nodes, List.forall_mem_cons, List.forall_mem_append, List.forall_mem_append, hchildren,
      hchildren, and_assoc]
    simp

/-- No node of the expression that combines others carries a value. -/
def Expression.Clean (e : Expression) : Prop :=
  ∀ node ∈ nodes e, node.Bare

/-- **The intended expressions** are the accepted ones without stray values. -/
theorem grammar_iff : Grammar pf e ↔ Accepted pf e ∧ e.Clean := by
  constructor
  · intro h
    induction h with
    | all hne _ ih =>
      refine ⟨.all hne (fun child hchild => (ih child hchild).1) (.inl rfl), ?_⟩
      exact forall_nodes.mpr
        ⟨.inr ⟨rfl, rfl⟩, fun child hchild => (ih child hchild).2, by simp, by simp⟩
    | any hne _ ih =>
      refine ⟨.any hne (fun child hchild => (ih child hchild).1) (.inl rfl), ?_⟩
      exact forall_nodes.mpr
        ⟨.inr ⟨rfl, rfl⟩, by simp, fun child hchild => (ih child hchild).2, by simp⟩
    | not _ ih =>
      refine ⟨.not ih.1, forall_nodes.mpr ⟨.inr ⟨rfl, rfl⟩, by simp, by simp, ?_⟩⟩
      rintro child ⟨⟩
      exact ih.2
    | equals hfield hplain hvalue =>
      exact ⟨.leaf hfield hplain (fun h => hvalue h.1) (.inr rfl),
        forall_nodes.mpr ⟨.inl ⟨rfl, rfl, rfl⟩, by simp, by simp, by simp⟩⟩
    | oneOf hfield hplain hvalues =>
      exact ⟨.leaf hfield hplain (fun h => hvalues h.2) (.inl rfl),
        forall_nodes.mpr ⟨.inl ⟨rfl, rfl, rfl⟩, by simp, by simp, by simp⟩⟩
  rintro ⟨h, hclean⟩
  induction h with
  | all hne _ _ ih =>
    obtain ⟨hroot, hall, _, _⟩ := forall_nodes.mp hclean
    rcases hroot with ⟨hempty, _, _⟩ | ⟨rfl, rfl⟩
    · exact absurd hempty hne
    · exact .all hne fun child hchild => ih child hchild (hall child hchild)
  | any hne _ _ ih =>
    obtain ⟨hroot, _, hany, _⟩ := forall_nodes.mp hclean
    rcases hroot with ⟨_, hempty, _⟩ | ⟨rfl, rfl⟩
    · exact absurd hempty hne
    · exact .any hne fun child hchild => ih child hchild (hany child hchild)
  | not _ ih =>
    obtain ⟨hroot, _, _, hnot⟩ := forall_nodes.mp hclean
    rcases hroot with ⟨_, _, hnone⟩ | ⟨rfl, rfl⟩
    · cases hnone
    · exact .not (ih (hnot _ rfl))
  | @leaf field equals oneOf hfield hplain hvalue hvalues =>
    rcases hvalues with rfl | rfl
    · exact .oneOf hfield hplain fun hempty => hvalue ⟨rfl, hempty⟩
    · exact .equals hfield hplain fun hempty => hvalue ⟨hempty, rfl⟩

theorem eval_stray {inputs : List (String × String)} (h : ¬ (all = [] ∧ any = [] ∧ not = none))
    (field equals : String) (oneOf : List String) :
    eval pf inputs (.mk all any not field equals oneOf)
      = eval pf inputs (.mk all any not field "" []) := by
  rcases not with _ | child
  · rw [eval, eval]
    by_cases hall : all = []
    · by_cases hany : any = []
      · exact absurd ⟨hall, hany, rfl⟩ h
      · simp only [hall, hany, ne_eq, not_true_eq_false, not_false_eq_true, if_false, if_true]
    · simp only [hall, ne_eq, not_false_eq_true, if_true]
  · rw [eval, eval]

/-- **Validation decides the grammar exactly on the expressions whose combining nodes
carry no values.**  The condition is on the tree alone: an expression built by the rules
of `Accepted` has no stray `equals` or `in` in a node with `all`, `any` or `not`.  Every
expression of the grammar is accepted, and a stray value, where there is one, is without
effect by `eval_stray`. -/
theorem validation_exact_iff (pf : Platform) (e : Expression) :
    ((validateExpression pf e = .ok () ↔ Grammar pf e)
        ↔ (Accepted pf e → e.Clean))
      ∧ (Grammar pf e → validateExpression pf e = .ok ()) := by
  rw [validateExpression_ok_iff, grammar_iff]
  refine ⟨⟨fun h haccepted => (h.mp haccepted).2, fun h => ⟨fun haccepted => ?_, fun h => h.1⟩⟩,
    fun h => h.1⟩
  exact ⟨haccepted, h haccepted⟩

def plainPlatform : Platform where
  decodeYAML := fun _ => .error "no policy"
  toLower := id
  quote := id

/-- `all` over one leaf, with an `equals` of its own: accepted, outside the grammar,
and evaluated on every event as if the `equals` were not there. -/
theorem stray_equals_accepted :
    let leaf : Expression := .mk [] [] none "type" "alert" []
    let e : Expression := .mk [leaf] [] none "" "critical" []
    validateExpression plainPlatform e = .ok () ∧ ¬ Grammar plainPlatform e
      ∧ ∀ inputs, eval plainPlatform inputs e
        = eval plainPlatform inputs (.mk [leaf] [] none "" "" []) := by
  refine ⟨?_, ?_, fun inputs => eval_stray (by simp) _ _ _⟩
  · refine validateExpression_ok_iff.mpr (.all (by simp) ?_ (.inr rfl))
    intro child hchild
    cases List.mem_singleton.mp hchild
    exact .leaf (by decide) (by decide) (by decide) (.inr rfl)
  intro h
  rcases (forall_nodes.mp (grammar_iff.mp h).2).1 with ⟨hall, _⟩ | ⟨hequals, _⟩
  · cases hall
  · exact absurd hequals (by decide)

end StormRelay.Policy
