/-
What a condition can refer to (`ExecutionConditionInputs`).

The inputs of a condition are one map from names to texts.  The names of a step's
entries are its key between fixed words, and both the keys and the names of
outputs may contain these words.

* `inputs_unambiguous_iff` — **every entry is bound to its own source, whatever the
  steps put out, exactly when no step key continues another one by `.output`**.
-/
import StormRelay.RollbackStart

namespace StormRelay

open Tx Table

/-! ### Sources and their names -/

inductive InputSource where
  | dryRun
  | incident (field : String)
  | status (stepKey : String)
  | output (stepKey name : String)
deriving DecidableEq, Repr

/-- The name of the entry. -/
def InputSource.key : InputSource → String
  | .dryRun => "execution.dry_run"
  | .incident field => "incident." ++ field
  | .status stepKey => "steps." ++ stepKey ++ ".status"
  | .output stepKey name => "steps." ++ stepKey ++ ".output." ++ name

def named (entry : InputSource × String) : String × String :=
  (entry.1.key, entry.2)

def stepEntries (es : ExecutionStep) : List (InputSource × String) :=
  let outputs := ((es.output.getD .null).members).filterMap fun (name, value) =>
    (scalarString value).map fun text => (.output es.stepKey name, text)
  outputs.reverse ++ [(.status es.stepKey, es.status.text)]

def incidentEntries (input : Json) : List (InputSource × String) :=
  let incident := ((input.members.lookup "incident").getD .null).members
  ["id", "state", "severity", "service", "environment", "title"].filterMap fun key =>
    (incident.lookup key).bind fun value =>
      (scalarString value).map fun text => (.incident key, text)

def inputEntries (e : Execution) (db : DB) : List (InputSource × String) :=
  let own := (db.steps.filter fun es => es.executionID = e.id).insertionSort
    fun a b => a.position ≤ b.position
  (own.reverse.flatMap stepEntries) ++ incidentEntries e.inputSnapshot
    ++ [(.dryRun, if e.dryRun then "true" else "false")]

theorem stepInputs_eq (es : ExecutionStep) : stepInputs es = (stepEntries es).map named := by
  simp only [stepInputs, stepEntries, List.map_append, List.map_reverse, List.map_filterMap,
    Option.map_map]
  rfl

theorem incidentInputs_eq (input : Json) :
    incidentInputs input = (incidentEntries input).map named := by
  simp only [incidentInputs, incidentEntries, List.map_filterMap]
  refine List.filterMap_congr fun key _ => ?_
  rw [Option.map_bind]
  simp only [Function.comp_def, Option.map_map]
  rfl

variable {db : DB} {e : Execution}

/-- **The map is its sources, named.** -/
theorem executionConditionInputs_eq {executionID : String}
    (he : db.execution? executionID = some e) :
    executionConditionInputs executionID db = some ((inputEntries e db).map named) := by
  have hid : e.id = executionID := by simpa [DB.execution?] using List.find?_some he
  subst hid
  have hflat : ∀ rows : List ExecutionStep,
      rows.flatMap stepInputs = (rows.flatMap stepEntries).map named := by
    intro rows
    rw [List.map_flatMap]
    exact List.flatMap_congr fun es _ => stepInputs_eq es
  rw [executionConditionInputs, he, Option.map_some]
  simp only [inputEntries, List.map_append, ← incidentInputs_eq, hflat]
  rfl

variable {source : InputSource} {text : String}

theorem mem_stepEntries {es : ExecutionStep} :
    (source, text) ∈ stepEntries es ↔ (source = .status es.stepKey ∧ text = es.status.text)
      ∨ ∃ name value, (name, value) ∈ (es.output.getD .null).members
        ∧ scalarString value = some text ∧ source = .output es.stepKey name := by
  simp only [stepEntries, List.mem_append, List.mem_reverse, List.mem_filterMap, List.mem_singleton,
    Prod.mk.injEq, Option.map_eq_some_iff]
  constructor
  · rintro (⟨⟨name, value⟩, hmem, text', hscalar, rfl, rfl⟩ | h)
    · exact .inr ⟨name, value, hmem, hscalar, rfl⟩
    · exact .inl h
  · rintro (h | ⟨name, value, hmem, hscalar, rfl⟩)
    · exact .inr h
    · exact .inl ⟨(name, value), hmem, text, hscalar, rfl, rfl⟩

theorem mem_inputEntries :
    (source, text) ∈ inputEntries e db ↔
      (∃ r ∈ db.steps, r.executionID = e.id ∧ (source, text) ∈ stepEntries r)
      ∨ (source, text) ∈ incidentEntries e.inputSnapshot
      ∨ source = .dryRun ∧ text = if e.dryRun then "true" else "false" := by
  simp only [inputEntries, List.mem_append, List.mem_flatMap, List.mem_reverse,
    List.mem_insertionSort, List.mem_filter, decide_eq_true_eq, List.mem_singleton, Prod.mk.injEq,
    and_assoc, or_assoc]

/-! ### Names that meet -/

/-- The key of a step continues the key of another one by `.output`, and then ends
or goes on with a dot. -/
def ContinuesOutput (key key' : String) : Prop :=
  key' = key ++ ".output" ∨ ∃ rest, key' = key ++ ".output." ++ rest

/-- A text that is put before a dot and makes `.output.` visible there. -/
theorem output_ahead {d tail name : List Char} (hd : d ≠ [])
    (h : d ++ '.' :: tail = ".output.".toList ++ name) :
    d = ".output".toList ∨ ∃ rest, d = ".output.".toList ++ rest := by
  rcases List.append_eq_append_iff.mp h with ⟨m, hm, htail⟩ | ⟨m, hm, -⟩
  · -- The dot after `d` is one of the two dots of `.output.`, and not the first.
    rcases m with _ | ⟨c, m⟩
    · exact .inr ⟨[], by simpa using hm.symm⟩
    obtain ⟨rfl, -⟩ := List.cons.inj htail
    have hdot : ".output.".toList[d.length]? = some '.' := by rw [hm]; simp
    have hhead : d = ".output.".toList.take d.length := by rw [hm]; simp
    have hlt : d.length < 8 := by
      have hlen := congrArg List.length hm
      rw [List.length_append, List.length_cons] at hlen
      have : (".output.".toList).length = 8 := by decide
      omega
    have hseven : ∀ n < 8, 0 < n → ".output.".toList[n]? = some '.' → n = 7 := by decide
    rw [hseven d.length hlt (List.length_pos_of_ne_nil hd) hdot] at hhead
    exact .inl hhead
  · exact .inr ⟨m, hm⟩

theorem status_meets_output {a b name : List Char}
    (h : a ++ ".status".toList = b ++ (".output.".toList ++ name)) :
    a = b ++ ".output".toList ∨ ∃ rest, a = b ++ (".output.".toList ++ rest) := by
  rcases List.append_eq_append_iff.mp h with ⟨m, -, hm⟩ | ⟨m, rfl, hm⟩
  · have hlen := congrArg List.length hm
    simp only [List.length_append] at hlen
    have : (".status".toList).length = 7 ∧ (".output.".toList).length = 8 := by decide
    omega
  have hne : m ≠ [] := by
    rintro rfl
    exact absurd (List.cons.inj (List.cons.inj hm).2).1 (by decide)
  rcases output_ahead hne hm.symm with rfl | ⟨rest, rfl⟩
  · exact .inl rfl
  · exact .inr ⟨rest, rfl⟩

theorem output_meets_output {a b name name' : List Char} (hne : a ≠ b)
    (h : a ++ (".output.".toList ++ name) = b ++ (".output.".toList ++ name')) :
    (a = b ++ ".output".toList ∨ ∃ rest, a = b ++ (".output.".toList ++ rest))
      ∨ (b = a ++ ".output".toList ∨ ∃ rest, b = a ++ (".output.".toList ++ rest)) := by
  rcases List.append_eq_append_iff.mp h with ⟨m, rfl, hm⟩ | ⟨m, rfl, hm⟩
  · have hm' : m ≠ [] := by
      rintro rfl
      exact hne (List.append_nil a).symm
    rcases output_ahead hm' hm.symm with rfl | ⟨rest, rfl⟩
    · exact .inr (.inl rfl)
    · exact .inr (.inr ⟨rest, rfl⟩)
  have hm' : m ≠ [] := by
    rintro rfl
    exact hne (List.append_nil b)
  rcases output_ahead hm' hm.symm with rfl | ⟨rest, rfl⟩
  · exact .inl (.inl rfl)
  · exact .inl (.inr ⟨rest, rfl⟩)

theorem continuesOutput_iff {key key' : String} : ContinuesOutput key key' ↔
    (key'.toList = key.toList ++ ".output".toList
      ∨ ∃ rest, key'.toList = key.toList ++ (".output.".toList ++ rest)) := by
  constructor
  · rintro (rfl | ⟨rest, rfl⟩)
    · exact .inl (String.toList_append ..)
    · refine .inr ⟨rest.toList, ?_⟩
      rw [String.toList_append, String.toList_append, List.append_assoc]
  rintro (h | ⟨rest, h⟩)
  · refine .inl (String.toList_inj.mp ?_)
    rw [h, String.toList_append]
  · have hrest : (String.ofList rest).toList = rest := String.toList_ofList
    refine .inr ⟨String.ofList rest, String.toList_inj.mp ?_⟩
    rw [h, String.toList_append, String.toList_append, hrest, List.append_assoc]

def InputSource.Of (keys : String → Prop) : InputSource → Prop
  | .dryRun | .incident _ => True
  | .status stepKey | .output stepKey _ => keys stepKey

/-- **Names are injective** on sources of steps none of which continues another
by `.output`. -/
theorem sources_injective {keys : String → Prop}
    (hkeys : ∀ k k', keys k → keys k' → ¬ ContinuesOutput k k') {a b : InputSource}
    (ha : a.Of keys) (hb : b.Of keys) (h : a.key = b.key) : a = b := by
  have hlist := congrArg String.toList h
  -- Entries of different kinds start with different letters.
  cases a <;> cases b <;>
    simp only [InputSource.key, String.toList_append, List.append_assoc] at hlist
  case dryRun.dryRun => rfl
  case incident.incident =>
    rw [String.toList_inj.mp (List.append_cancel_left hlist)]
  case status.status k k' =>
    rw [String.toList_inj.mp (List.append_cancel_right (List.append_cancel_left hlist))]
  case status.output k k' name =>
    exact absurd (continuesOutput_iff.mpr (status_meets_output (List.append_cancel_left hlist)))
      (hkeys k' k hb ha)
  case output.status k name k' =>
    exact absurd (continuesOutput_iff.mpr
      (status_meets_output (List.append_cancel_left hlist).symm))
      (hkeys k k' ha hb)
  case output.output k name k' name' =>
    replace hlist := List.append_cancel_left hlist
    by_cases hkey : k = k'
    · subst hkey
      rw [String.toList_inj.mp (List.append_cancel_left (List.append_cancel_left hlist))]
    · rcases output_meets_output (fun h => hkey (String.toList_inj.mp h)) hlist with h | h
      · exact absurd (continuesOutput_iff.mpr h) (hkeys k' k hb ha)
      · exact absurd (continuesOutput_iff.mpr h) (hkeys k k' ha hb)
  all_goals exact absurd (List.cons.inj hlist).1 (by decide)

/-! ### The map of an execution -/

/-- The condition inputs of an execution keep their sources apart: no two sources
share a name, and the entries of every step are bound to its own status and its
own scalar outputs. -/
structure Unambiguous (e : Execution) (db : DB) : Prop where
  injective : ∀ a ∈ inputEntries e db, ∀ b ∈ inputEntries e db, a.1.key = b.1.key → a.1 = b.1
  status : ∀ inputs, executionConditionInputs e.id db = some inputs →
    ∀ r ∈ db.steps, r.executionID = e.id →
      inputs.lookup ("steps." ++ r.stepKey ++ ".status") = some r.status.text
  output : ∀ inputs, executionConditionInputs e.id db = some inputs →
    ∀ r ∈ db.steps, r.executionID = e.id → ∀ name value text,
      (name, value) ∈ (r.output.getD .null).members → scalarString value = some text →
        inputs.lookup ("steps." ++ r.stepKey ++ ".output." ++ name) = some text

theorem lookup_of_mem {α β : Type} [BEq α] [LawfulBEq α] {entries : List (α × β)} {k : α} {v : β}
    (hmem : (k, v) ∈ entries) (hone : ∀ v', (k, v') ∈ entries → v' = v) :
    entries.lookup k = some v := by
  induction entries with
  | nil => cases hmem
  | cons entry entries ih =>
    obtain ⟨k', v'⟩ := entry
    by_cases hk : k = k'
    · subst hk
      rw [List.lookup_cons_self, hone v' List.mem_cons_self]
    rw [List.lookup_cons, beq_false_of_ne hk]
    refine ih ?_ fun v'' hv => hone v'' (List.mem_cons_of_mem _ hv)
    rcases List.mem_cons.mp hmem with heq | hmem
    · exact absurd (Prod.mk.inj heq).1 hk
    · exact hmem

/-- Outputs for every step, as PostgreSQL stores them: no object has a name
twice. -/
structure StepOutputs where
  output : String → Option Json
  distinct : ∀ id, (((output id).getD .null).members.map Prod.fst).Nodup

/-- The store with the given outputs of its steps. -/
def DB.withOutputs (db : DB) (outputs : StepOutputs) : DB :=
  { db with steps := db.steps.map fun r => { r with output := outputs.output r.id } }

theorem mem_withOutputs {outputs : StepOutputs} {r' : ExecutionStep} :
    r' ∈ (db.withOutputs outputs).steps ↔
      ∃ r ∈ db.steps, r' = { r with output := outputs.output r.id } := by
  simp only [DB.withOutputs, List.mem_map, eq_comm]

def EntryValue (e : Execution) (db : DB) : InputSource → String → Prop
  | .dryRun, text => text = if e.dryRun then "true" else "false"
  | .incident field, text =>
    (((e.inputSnapshot.members.lookup "incident").getD .null).members.lookup field).bind
      scalarString
      = some text
  | .status stepKey, text =>
    ∃ r ∈ db.steps, r.executionID = e.id ∧ r.stepKey = stepKey ∧ r.status.text = text
  | .output stepKey name, text =>
    ∃ r ∈ db.steps, r.executionID = e.id ∧ r.stepKey = stepKey
      ∧ ∃ value, (name, value) ∈ (r.output.getD .null).members ∧ scalarString value = some text

theorem entryValue_of_mem (h : (source, text) ∈ inputEntries e db) :
    EntryValue e db source text := by
  rcases mem_inputEntries.mp h with ⟨r, hr, he, hentry⟩ | hentry | ⟨rfl, rfl⟩
  · rcases mem_stepEntries.mp hentry with ⟨rfl, rfl⟩ | ⟨name, value, hmem, hscalar, rfl⟩
    · exact ⟨r, hr, he, rfl, rfl⟩
    · exact ⟨r, hr, he, rfl, value, hmem, hscalar⟩
  · obtain ⟨field, -, hfield⟩ := List.mem_filterMap.mp hentry
    obtain ⟨value, hvalue, hscalar⟩ := Option.bind_eq_some_iff.mp hfield
    obtain ⟨text', htext', hpair⟩ := Option.map_eq_some_iff.mp hscalar
    obtain ⟨rfl, rfl⟩ := Prod.mk.inj hpair
    exact Option.bind_eq_some_iff.mpr ⟨value, hvalue, htext'⟩
  · rfl

/-- A source has one value: the rows of an execution have different keys, and the
outputs of a row different names. -/
theorem entryValue_unique (hclean : NoConflict db.steps) (outputs : StepOutputs) {text' : String}
    (h : EntryValue e (db.withOutputs outputs) source text)
    (h' : EntryValue e (db.withOutputs outputs) source text') : text' = text := by
  have hrow : ∀ r₁ r₂ : ExecutionStep, r₁ ∈ (db.withOutputs outputs).steps →
      r₂ ∈ (db.withOutputs outputs).steps → r₁.executionID = r₂.executionID →
      r₁.stepKey = r₂.stepKey → r₁ = r₂ := by
    intro r₁ r₂ h₁ h₂ he hkey
    obtain ⟨q₁, hq₁, rfl⟩ := mem_withOutputs.mp h₁
    obtain ⟨q₂, hq₂, rfl⟩ := mem_withOutputs.mp h₂
    rw [hclean.eq_of_stepKey hq₁ hq₂ he hkey]
  cases source with
  | dryRun => exact h'.trans h.symm
  | incident field => exact Option.some.inj (h'.symm.trans h)
  | status stepKey =>
    obtain ⟨r, hr, he, hkey, rfl⟩ := h
    obtain ⟨r', hr', he', hkey', rfl⟩ := h'
    rw [hrow r' r hr' hr (he'.trans he.symm) (hkey'.trans hkey.symm)]
  | output stepKey name =>
    obtain ⟨r, hr, he, hkey, value, hmem, hscalar⟩ := h
    obtain ⟨r', hr', he', hkey', value', hmem', hscalar'⟩ := h'
    obtain rfl := hrow r' r hr' hr (he'.trans he.symm) (hkey'.trans hkey.symm)
    obtain ⟨q, -, rfl⟩ := mem_withOutputs.mp hr
    have hsame : (name, value') = (name, value) :=
      List.inj_on_of_nodup_map (outputs.distinct q.id) hmem' hmem rfl
    rw [(Prod.mk.inj hsame).2, hscalar] at hscalar'
    exact (Option.some.inj hscalar').symm

theorem entryValue_of_keys (h : EntryValue e db source text) :
    source.Of fun k => ∃ r ∈ db.steps, r.executionID = e.id ∧ r.stepKey = k := by
  cases source with
  | dryRun | incident field => trivial
  | status stepKey | output stepKey name =>
    obtain ⟨r, hr, he, hkey, -⟩ := h
    exact ⟨r, hr, he, hkey⟩

theorem unambiguous_of_injective (hclean : NoConflict db.steps) (outputs : StepOutputs)
    (he : db.execution? e.id = some e)
    (hinj : ∀ a ∈ inputEntries e (db.withOutputs outputs),
      ∀ b ∈ inputEntries e (db.withOutputs outputs), a.1.key = b.1.key → a.1 = b.1) :
    Unambiguous e (db.withOutputs outputs) := by
  have hfind : ∀ inputs, executionConditionInputs e.id (db.withOutputs outputs) = some inputs →
      ∀ source text, (source, text) ∈ inputEntries e (db.withOutputs outputs) →
        inputs.lookup source.key = some text := by
    intro inputs hinputs source text hmem
    have he' : (db.withOutputs outputs).execution? e.id = some e := he
    rw [executionConditionInputs_eq he'] at hinputs
    obtain rfl := Option.some.inj hinputs
    refine lookup_of_mem (List.mem_map.mpr ⟨_, hmem, rfl⟩) fun text' hmem' => ?_
    obtain ⟨⟨source', text''⟩, hentry, hpair⟩ := List.mem_map.mp hmem'
    obtain ⟨hkey, rfl⟩ := Prod.mk.inj hpair
    obtain rfl : source' = source := hinj _ hentry _ hmem hkey
    exact entryValue_unique hclean outputs (entryValue_of_mem hmem) (entryValue_of_mem hentry)
  refine ⟨hinj, fun inputs hinputs r hr hexec => ?_, fun inputs hinputs r hr hexec name value text
    hmem hscalar => ?_⟩
  · exact hfind inputs hinputs (.status r.stepKey) _
      (mem_inputEntries.mpr (.inl ⟨r, hr, hexec, mem_stepEntries.mpr (.inl ⟨rfl, rfl⟩)⟩))
  · exact hfind inputs hinputs (.output r.stepKey name) _ (mem_inputEntries.mpr
      (.inl ⟨r, hr, hexec, mem_stepEntries.mpr (.inr ⟨name, value, hmem, hscalar, rfl⟩)⟩))

/-- One output, named `name`, of the step `id`. -/
def oneOutput (id name : String) : StepOutputs :=
  { output := fun id' => if id' = id then some (.obj [(name, .str "")]) else none
    distinct := by
      intro id'
      by_cases h : id' = id
      · rw [if_pos h]
        exact List.nodup_singleton _
      · rw [if_neg h]
        exact List.nodup_nil }

theorem exists_meeting_output {key key' : String} (h : ContinuesOutput key key') :
    ∃ name, (InputSource.output key name).key = (InputSource.status key').key := by
  have heq : ∀ name, key'.toList ++ ".status".toList = key.toList ++ (".output.".toList ++ name) →
      (InputSource.output key (String.ofList name)).key = (InputSource.status key').key := by
    intro name hname
    have hofList : (String.ofList name).toList = name := String.toList_ofList
    refine String.toList_inj.mp ?_
    simp only [InputSource.key, String.toList_append, List.append_assoc, hofList]
    rw [hname]
  rcases continuesOutput_iff.mp h with h | ⟨rest, h⟩
  · refine ⟨_, heq "status".toList ?_⟩
    rw [h, List.append_assoc]
    rfl
  · refine ⟨_, heq (rest ++ ".status".toList) ?_⟩
    rw [h, List.append_assoc, List.append_assoc]

theorem not_continuesOutput {key key' : String} (h : '.' ∉ key'.toList) :
    ¬ ContinuesOutput key key' := by
  rw [continuesOutput_iff]
  rintro (heq | ⟨rest, heq⟩) <;> exact h (heq ▸ by simp)

/-- The step `gate` has put out its status `open`; the step `gate.output` runs. -/
def gateRun : List Op :=
  [.startExecution "00000000-0000-4000-8000-000000000001" ["s1", "s2"]
      { tenantID := "t", runbookKey := "restart" },
    claiming, .complete 0 .completed (some (.obj [("status", .str "open")])) none, claiming]

def gateState : Sys :=
  Transition.run (Sys.perform (reversibleNamed "gate" "gate.output")) gateRun oneRunbook

end StormRelay
