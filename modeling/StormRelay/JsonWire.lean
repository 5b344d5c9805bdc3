/-
JSON documents on the wire.

A document is encoded without insignificant whitespace and scanned byte by byte,
with a bound on how deep arrays and objects may be nested.  Besides the values of
JSON there are the three words some encoders write for floating-point values that
have no number, which no scanner accepts.

* `scanValue_encode`, `topMembers_encode` — **a scanner accepts an encoded document
  exactly when it is legal and not too deep, and then finds its end and its
  members**.
-/
import StormRelay.JsonString

namespace JsonWire

open JsonString

/-! ### Numbers -/

inductive NumState where
  | start
  | minus
  | zero
  | int
  | point
  | frac
  | exp
  | expSign
  | expDigits
deriving DecidableEq, Repr

def isDigit (b : UInt8) : Bool :=
  0x30 ≤ b && b ≤ 0x39

def isExp (b : UInt8) : Bool :=
  b = 0x65 || b = 0x45

def NumState.next : NumState → UInt8 → Option NumState
  | .start, b =>
    if b = 0x2D then some .minus
    else if b = 0x30 then some .zero
    else if isDigit b then some .int
    else none
  | .minus, b =>
    if b = 0x30 then some .zero
    else if isDigit b then some .int
    else none
  | .zero, b =>
    if b = 0x2E then some .point
    else if isExp b then some .exp
    else none
  | .int, b =>
    if isDigit b then some .int
    else if b = 0x2E then some .point
    else if isExp b then some .exp
    else none
  | .point, b => if isDigit b then some .frac else none
  | .frac, b =>
    if isDigit b then some .frac
    else if isExp b then some .exp
    else none
  | .exp, b =>
    if b = 0x2B ∨ b = 0x2D then some .expSign
    else if isDigit b then some .expDigits
    else none
  | .expSign, b => if isDigit b then some .expDigits else none
  | .expDigits, b => if isDigit b then some .expDigits else none

def NumState.ends : NumState → Bool
  | .zero | .int | .frac | .expDigits => true
  | _ => false

def scanNumber : NumState → List UInt8 → Option (List UInt8)
  | state, [] => if state.ends then some [] else none
  | state, b :: bytes =>
    match state.next b with
    | some next => scanNumber next bytes
    | none => if state.ends then some (b :: bytes) else none

/-! ### Documents -/

abbrev NumberText :=
  { text : List UInt8 // scanNumber .start text = some [] }

inductive NonFinite where
  | nan
  | infinity
  | negInfinity
deriving DecidableEq, Repr

/-- `NaN`, `Infinity` and `-Infinity`. -/
def NonFinite.word : NonFinite → List UInt8
  | .nan => [0x4E, 0x61, 0x4E]
  | .infinity => [0x49, 0x6E, 0x66, 0x69, 0x6E, 0x69, 0x74, 0x79]
  | .negInfinity => [0x2D, 0x49, 0x6E, 0x66, 0x69, 0x6E, 0x69, 0x74, 0x79]

inductive Doc where
  | null
  | bool (b : Bool)
  | num (text : NumberText)
  | str (body : StringBody)
  | nonFinite (value : NonFinite)
  | arr (items : List Doc)
  | obj (members : List (StringBody × Doc))

mutual

def Doc.encode : Doc → List UInt8
  | .null => [0x6E, 0x75, 0x6C, 0x6C]
  | .bool true => [0x74, 0x72, 0x75, 0x65]
  | .bool false => [0x66, 0x61, 0x6C, 0x73, 0x65]
  | .num text => text.1
  | .str body => 0x22 :: (body.1 ++ [0x22])
  | .nonFinite value => value.word
  | .arr items => 0x5B :: encodeItems true items
  | .obj members => 0x7B :: encodeMembers true members

def encodeItems : Bool → List Doc → List UInt8
  | _, [] => [0x5D]
  | isFirst, item :: items =>
    (if isFirst then [] else [0x2C]) ++ (item.encode ++ encodeItems false items)

def encodeMembers : Bool → List (StringBody × Doc) → List UInt8
  | _, [] => [0x7D]
  | isFirst, (name, value) :: members =>
    (if isFirst then [] else [0x2C])
      ++ (0x22 :: (name.1 ++ 0x22 :: 0x3A :: (value.encode ++ encodeMembers false members)))

end

mutual

/-- Every value in the document is one of JSON. -/
def Doc.legal : Doc → Bool
  | .null | .bool _ | .num _ | .str _ => true
  | .nonFinite _ => false
  | .arr items => legalItems items
  | .obj members => legalMembers members

def legalItems : List Doc → Bool
  | [] => true
  | item :: items => item.legal && legalItems items

def legalMembers : List (StringBody × Doc) → Bool
  | [] => true
  | (_, value) :: members => value.legal && legalMembers members

end

mutual

/-- How deep arrays and objects are nested. -/
def Doc.depth : Doc → ℕ
  | .null | .bool _ | .num _ | .str _ | .nonFinite _ => 0
  | .arr items => depthItems items + 1
  | .obj members => depthMembers members + 1

def depthItems : List Doc → ℕ
  | [] => 0
  | item :: items => max item.depth (depthItems items)

def depthMembers : List (StringBody × Doc) → ℕ
  | [] => 0
  | (_, value) :: members => max value.depth (depthMembers members)

end

/-! ### The scanner -/

def skipSpace (bytes : List UInt8) : List UInt8 :=
  bytes.dropWhile JsonText.isSpace

def scanWord (word bytes : List UInt8) : Option (List UInt8) :=
  if word.isPrefixOf bytes then some (bytes.drop word.length) else none

/-- A member of an object, its name and its value as they are written, with a
scanner for the value. -/
def scanMember (scan : List UInt8 → Option (List UInt8)) (bytes : List UInt8) :
    Option ((List UInt8 × List UInt8) × List UInt8) :=
  match skipSpace bytes with
  | [] => none
  | b :: bytes =>
    if b = 0x22 then
      match scanBody .plain bytes with
      | none => none
      | some (name, bytes) =>
        match skipSpace bytes with
        | [] => none
        | b :: bytes =>
          if b = 0x3A then
            let value := skipSpace bytes
            (scan value).map fun rest => ((name, value.take (value.length - rest.length)), rest)
          else none
    else none

mutual

/-- What is left after the value ahead.  `room` levels of nesting are left; the
first argument bounds the recursion. -/
def scanValue : ℕ → ℕ → List UInt8 → Option (List UInt8)
  | 0, _, _ => none
  | fuel + 1, room, bytes =>
    match skipSpace bytes with
    | [] => none
    | b :: rest =>
      if b = 0x22 then (scanBody .plain rest).map Prod.snd
      else if b = 0x5B then
        if room = 0 then none else scanItems fuel (room - 1) true rest
      else if b = 0x7B then
        if room = 0 then none else (scanMembers fuel (room - 1) true rest).map Prod.snd
      else if b = 0x6E then scanWord [0x75, 0x6C, 0x6C] rest
      else if b = 0x74 then scanWord [0x72, 0x75, 0x65] rest
      else if b = 0x66 then scanWord [0x61, 0x6C, 0x73, 0x65] rest
      else scanNumber .start (b :: rest)

def scanItems : ℕ → ℕ → Bool → List UInt8 → Option (List UInt8)
  | 0, _, _, _ => none
  | fuel + 1, room, isFirst, bytes =>
    match skipSpace bytes with
    | [] => none
    | b :: rest =>
      if b = 0x5D then some rest
      else if isFirst then
        (scanValue fuel room (b :: rest)).bind (scanItems fuel room false)
      else if b = 0x2C then (scanValue fuel room rest).bind (scanItems fuel room false)
      else none

def scanMembers : ℕ → ℕ → Bool → List UInt8 →
    Option (List (List UInt8 × List UInt8) × List UInt8)
  | 0, _, _, _ => none
  | fuel + 1, room, isFirst, bytes =>
    match skipSpace bytes with
    | [] => none
    | b :: rest =>
      if b = 0x7D then some ([], rest)
      else if isFirst ∨ b = 0x2C then
        (scanMember (scanValue fuel room) (if isFirst then b :: rest else rest)).bind fun m =>
          (scanMembers fuel room false m.2).map fun ms => (m.1 :: ms.1, ms.2)
      else none

end

/-- The members of the object ahead, and what is after it; `null` has none. -/
def topMembers (room : ℕ) (bytes : List UInt8) :
    Option (List (List UInt8 × List UInt8) × List UInt8) :=
  match skipSpace bytes with
  | [] => none
  | b :: rest =>
    if b = 0x7B then
      if room = 0 then none else scanMembers bytes.length (room - 1) true rest
    else if b = 0x6E then (scanWord [0x75, 0x6C, 0x6C] rest).map fun rest => ([], rest)
    else none

/-! ### What may follow a value -/

def isDelimiter (b : UInt8) : Bool :=
  b = 0x2C || b = 0x5D || b = 0x7D || JsonText.isSpace b

def Stops (bytes : List UInt8) : Prop :=
  ∀ b ∈ bytes.head?, isDelimiter b = true

theorem stops_nil : Stops [] := by
  intro b hb
  cases hb

variable {b : UInt8}

theorem stops_cons (h : isDelimiter b = true) (bytes : List UInt8) :
    Stops (b :: bytes) := by
  intro b' hb'
  obtain rfl := Option.some.inj hb'
  exact h

theorem next_delimiter (h : isDelimiter b = true) (state : NumState) :
    state.next b = none := by
  simp only [isDelimiter, JsonText.isSpace, Bool.or_eq_true, decide_eq_true_eq] at h
  rcases h with ((rfl | rfl) | rfl) | ((rfl | rfl) | rfl) | rfl <;> cases state <;> rfl

variable {rest : List UInt8}

theorem scanNumber_append {text : List UInt8} {state : NumState}
    (h : scanNumber state text = some []) (hrest : Stops rest) :
    scanNumber state (text ++ rest) = some rest := by
  induction text generalizing state with
  | nil =>
    have hends : state.ends = true := by
      by_contra hno
      rw [scanNumber, if_neg hno] at h
      cases h
    rcases rest with _ | ⟨b, rest⟩
    · exact h
    · rw [List.nil_append, scanNumber, next_delimiter (hrest b rfl) state]
      exact if_pos hends
  | cons b text ih =>
    rcases hnext : state.next b with _ | next
    · -- A number that stops here has something left.
      rw [scanNumber, hnext] at h
      simp only at h
      split at h <;> cases h
    · rw [scanNumber, hnext] at h
      rw [List.cons_append, scanNumber, hnext]
      exact ih h

theorem NumberText.cons (text : NumberText) :
    ∃ b rest, text.1 = b :: rest ∧ (b = 0x2D ∨ isDigit b = true) := by
  obtain ⟨text, h⟩ := text
  rcases text with _ | ⟨b, rest⟩
  · cases h
  refine ⟨b, rest, rfl, ?_⟩
  by_contra hno
  rw [not_or] at hno
  have hzero : b ≠ 0x30 := by
    rintro rfl
    exact hno.2 rfl
  have hnext : NumState.start.next b = none := by
    rw [NumState.next, if_neg hno.1, if_neg hzero, if_neg hno.2]
  rw [scanNumber, hnext] at h
  cases h

/-- A byte with which a value may begin: no blank, and no end of an array. -/
def Begins (b : UInt8) : Prop :=
  JsonText.isSpace b = false ∧ b ≠ 0x5D

instance (b : UInt8) : Decidable (Begins b) :=
  inferInstanceAs (Decidable (JsonText.isSpace b = false ∧ b ≠ 0x5D))

theorem begins_digit (h : b = 0x2D ∨ isDigit b = true) : Begins b := by
  rcases h with rfl | h
  · decide
  refine ⟨Bool.eq_false_iff.mpr fun hspace => ?_, ?_⟩
  · simp only [JsonText.isSpace, Bool.or_eq_true, decide_eq_true_eq] at hspace
    rcases hspace with ((rfl | rfl) | rfl) | rfl <;> cases h
  · rintro rfl
    cases h

theorem Doc.encode_cons (d : Doc) : ∃ b rest, d.encode = b :: rest ∧ Begins b := by
  cases d with
  | null | str body | arr items | obj members => exact ⟨_, _, by rw [Doc.encode], by decide⟩
  | bool b => cases b <;> exact ⟨_, _, by rw [Doc.encode], by decide⟩
  | num text =>
    obtain ⟨b, rest, htext, hb⟩ := text.cons
    exact ⟨b, rest, by rw [Doc.encode, htext], begins_digit hb⟩
  | nonFinite value => cases value <;> exact ⟨_, _, by rw [Doc.encode]; rfl, by decide⟩

theorem skipSpace_cons (h : JsonText.isSpace b = false) (bytes : List UInt8) :
    skipSpace (b :: bytes) = b :: bytes :=
  List.dropWhile_cons_of_neg (by simp [h])

theorem skipSpace_encode (d : Doc) (rest : List UInt8) :
    skipSpace (d.encode ++ rest) = d.encode ++ rest := by
  obtain ⟨b, tail, heq, hb⟩ := d.encode_cons
  rw [heq, List.cons_append, skipSpace_cons hb.1]

/-! ### The recursion is bounded by the input -/

mutual

def Doc.fuel : Doc → ℕ
  | .null | .bool _ | .num _ | .str _ | .nonFinite _ => 1
  | .arr items => fuelItems items + 1
  | .obj members => fuelMembers members + 1

def fuelItems : List Doc → ℕ
  | [] => 1
  | item :: items => max item.fuel (fuelItems items) + 1

def fuelMembers : List (StringBody × Doc) → ℕ
  | [] => 1
  | (_, value) :: members => max value.fuel (fuelMembers members) + 1

end

theorem Doc.fuel_pos (d : Doc) : 0 < d.fuel := by
  cases d <;> exact Nat.succ_pos _

theorem fuelItems_pos (items : List Doc) : 0 < fuelItems items := by
  cases items <;> exact Nat.succ_pos _

theorem fuelMembers_pos (members : List (StringBody × Doc)) : 0 < fuelMembers members := by
  cases members <;> exact Nat.succ_pos _

mutual

theorem Doc.fuel_le : ∀ d : Doc, d.fuel ≤ d.encode.length
  | .null => by decide
  | .bool true => by decide
  | .bool false => by decide
  | .num text => by
    obtain ⟨b, rest, htext, -⟩ := text.cons
    rw [Doc.fuel, Doc.encode, htext, List.length_cons]
    omega
  | .str body => by
    rw [Doc.fuel, Doc.encode, List.length_cons]
    omega
  | .nonFinite value => by cases value <;> decide
  | .arr items => by
    rw [Doc.fuel, Doc.encode, List.length_cons]
    exact Nat.succ_le_succ (fuelItems_le true items)
  | .obj members => by
    rw [Doc.fuel, Doc.encode, List.length_cons]
    exact Nat.succ_le_succ (fuelMembers_le true members)

theorem fuelItems_le : ∀ (isFirst : Bool) (items : List Doc),
    fuelItems items ≤ (encodeItems isFirst items).length
  | _, [] => by rw [fuelItems, encodeItems, List.length_singleton]
  | isFirst, item :: items => by
    have hitem := item.fuel_le
    have hitems := fuelItems_le false items
    have hone : 1 ≤ item.encode.length := by
      obtain ⟨b, rest, heq, -⟩ := item.encode_cons
      rw [heq, List.length_cons]
      omega
    have hone' := fuelItems_pos items
    rw [fuelItems, encodeItems, List.length_append, List.length_append]
    omega

theorem fuelMembers_le : ∀ (isFirst : Bool) (members : List (StringBody × Doc)),
    fuelMembers members ≤ (encodeMembers isFirst members).length
  | _, [] => by rw [fuelMembers, encodeMembers, List.length_singleton]
  | isFirst, (name, value) :: members => by
    have hvalue := value.fuel_le
    have hmembers := fuelMembers_le false members
    simp only [fuelMembers, encodeMembers, List.length_append, List.length_cons]
    omega

end

/-! ### Scanning an encoded document -/

theorem scanWord_append (word rest : List UInt8) : scanWord word (word ++ rest) = some rest := by
  rw [scanWord, if_pos (List.isPrefixOf_iff_prefix.mpr (List.prefix_append word rest)),
    List.drop_left]

theorem scanMember_encode (scan : List UInt8 → Option (List UInt8)) (name : StringBody) (d : Doc)
    (h : scan (d.encode ++ rest) = none ∨ scan (d.encode ++ rest) = some rest) :
    scanMember scan (0x22 :: (name.1 ++ 0x22 :: 0x3A :: (d.encode ++ rest)))
      = (scan (d.encode ++ rest)).map fun rest => ((name.1, d.encode), rest) := by
  rw [scanMember, skipSpace_cons (by decide)]
  simp only [if_true, scanBody_quoted]
  rw [skipSpace_cons (by decide)]
  simp only [if_true, skipSpace_encode]
  rcases h with h | h
  · rw [h]
    rfl
  · rw [h, Option.map_some, Option.map_some, List.length_append, Nat.add_sub_cancel,
      List.take_left]

theorem scanValue_num (fuel room : ℕ) (text : NumberText) (hrest : Stops rest) :
    scanValue (fuel + 1) room (text.1 ++ rest) = some rest := by
  have hscan := scanNumber_append text.2 hrest
  obtain ⟨b, tail, htext, hb⟩ := text.cons
  have hne : b ≠ 0x22 ∧ b ≠ 0x5B ∧ b ≠ 0x7B ∧ b ≠ 0x6E ∧ b ≠ 0x74 ∧ b ≠ 0x66 := by
    refine ⟨?_, ?_, ?_, ?_, ?_, ?_⟩ <;>
    · rintro rfl
      rcases hb with hb | hb <;> cases hb
  obtain ⟨hquote, harr, hobj, hn, ht, hf⟩ := hne
  rw [htext, List.cons_append] at hscan ⊢
  rw [scanValue, skipSpace_cons (begins_digit hb).1]
  simp only [if_neg hquote, if_neg harr, if_neg hobj, if_neg hn, if_neg ht, if_neg hf]
  exact hscan

theorem scanValue_str (fuel room : ℕ) (body : StringBody) (rest : List UInt8) :
    scanValue (fuel + 1) room ((Doc.str body).encode ++ rest) = some rest := by
  rw [Doc.encode, List.cons_append, List.append_assoc, List.singleton_append, scanValue,
    skipSpace_cons (by decide)]
  simp only [if_true, scanBody_quoted]
  rfl

theorem scanValue_nonFinite (fuel room : ℕ) (value : NonFinite) (rest : List UInt8) :
    scanValue (fuel + 1) room ((Doc.nonFinite value).encode ++ rest) = none := by
  cases value <;> rfl

/-- What follows an item: a comma or the end of the array. -/
theorem stops_items (items : List Doc) (rest : List UInt8) :
    Stops (encodeItems false items ++ rest) := by
  cases items with
  | nil =>
    rw [encodeItems]
    exact stops_cons (by decide) rest
  | cons item items =>
    rw [encodeItems, if_neg Bool.false_ne_true]
    exact stops_cons (by decide) _

theorem stops_members (members : List (StringBody × Doc)) (rest : List UInt8) :
    Stops (encodeMembers false members ++ rest) := by
  cases members with
  | nil =>
    rw [encodeMembers]
    exact stops_cons (by decide) rest
  | cons member members =>
    rw [encodeMembers, if_neg Bool.false_ne_true]
    exact stops_cons (by decide) _

theorem scanItems_cons (fuel room : ℕ) (isFirst : Bool) (item : Doc) (items : List Doc)
    (rest : List UInt8) :
    scanItems (fuel + 1) room isFirst (encodeItems isFirst (item :: items) ++ rest)
      = (scanValue fuel room (item.encode ++ (encodeItems false items ++ rest))).bind
          (scanItems fuel room false) := by
  obtain ⟨b, tail, heq, hb⟩ := item.encode_cons
  rw [encodeItems, List.append_assoc, List.append_assoc, heq]
  cases isFirst with
  | true =>
    rw [if_pos rfl, List.nil_append, List.cons_append, scanItems, skipSpace_cons hb.1]
    simp only [if_neg hb.2, if_true]
  | false =>
    rw [if_neg Bool.false_ne_true, List.singleton_append, scanItems, skipSpace_cons (by decide)]
    rfl

theorem scanMembers_cons (fuel room : ℕ) (isFirst : Bool) (name : StringBody) (value : Doc)
    (members : List (StringBody × Doc)) (rest : List UInt8) :
    scanMembers (fuel + 1) room isFirst (encodeMembers isFirst ((name, value) :: members) ++ rest)
      = (scanMember (scanValue fuel room) (0x22 :: (name.1 ++ 0x22 :: 0x3A ::
          (value.encode ++ (encodeMembers false members ++ rest))))).bind fun m =>
            (scanMembers fuel room false m.2).map fun ms => (m.1 :: ms.1, ms.2) := by
  rw [encodeMembers]
  simp only [List.append_assoc, List.cons_append]
  cases isFirst with
  | true =>
    rw [if_pos rfl, List.nil_append, scanMembers, skipSpace_cons (by decide)]
    rfl
  | false =>
    rw [if_neg Bool.false_ne_true, List.singleton_append, scanMembers, skipSpace_cons (by decide)]
    rfl

theorem fits_cons {legal legal' : Bool} {depth depth' room : ℕ} :
    ((legal && legal') = true ∧ max depth depth' ≤ room)
      ↔ (legal = true ∧ depth ≤ room) ∧ legal' = true ∧ depth' ≤ room := by
  rw [Bool.and_eq_true, Nat.max_le]
  exact and_and_and_comm

mutual

/-- **A document is scanned exactly when it is legal and there is room for it.** -/
theorem scanValue_encode : ∀ (d : Doc) (fuel room : ℕ) {rest : List UInt8}, d.fuel ≤ fuel →
    Stops rest → scanValue fuel room (d.encode ++ rest)
      = if d.legal = true ∧ d.depth ≤ room then some rest else none
  | d, 0, room, rest, hfuel, _ => by
    have hpos := d.fuel_pos
    omega
  | .null, fuel + 1, room, rest, _, _ => by
    rw [if_pos ⟨rfl, Nat.zero_le room⟩, Doc.encode]
    exact scanWord_append [0x75, 0x6C, 0x6C] rest
  | .bool true, fuel + 1, room, rest, _, _ => by
    rw [if_pos ⟨rfl, Nat.zero_le room⟩, Doc.encode]
    exact scanWord_append [0x72, 0x75, 0x65] rest
  | .bool false, fuel + 1, room, rest, _, _ => by
    rw [if_pos ⟨rfl, Nat.zero_le room⟩, Doc.encode]
    exact scanWord_append [0x61, 0x6C, 0x73, 0x65] rest
  | .num text, fuel + 1, room, rest, _, hrest => by
    rw [if_pos ⟨rfl, Nat.zero_le room⟩, Doc.encode]
    exact scanValue_num fuel room text hrest
  | .str body, fuel + 1, room, rest, _, _ => by
    rw [if_pos ⟨rfl, Nat.zero_le room⟩]
    exact scanValue_str fuel room body rest
  | .nonFinite value, fuel + 1, room, rest, _, _ => by
    rw [if_neg fun h => Bool.false_ne_true h.1]
    exact scanValue_nonFinite fuel room value rest
  | .arr items, fuel + 1, room, rest, hfuel, _ => by
    have hitems := scanItems_encode true items fuel (room - 1) rest
      (by rw [Doc.fuel] at hfuel; omega)
    rw [Doc.encode, List.cons_append, scanValue, skipSpace_cons (by decide), Doc.legal, Doc.depth]
    simp only [if_neg (by decide : ¬ (0x5B : UInt8) = 0x22), if_true, hitems]
    -- The bracket takes one level of the room.
    by_cases hroom : room = 0
    · rw [if_pos hroom, if_neg (by omega)]
    · rw [if_neg hroom]
      exact if_congr (and_congr_right fun _ => by omega) rfl rfl
  | .obj members, fuel + 1, room, rest, hfuel, _ => by
    have hmembers := scanMembers_encode true members fuel (room - 1) rest
      (by rw [Doc.fuel] at hfuel; omega)
    rw [Doc.encode, List.cons_append, scanValue, skipSpace_cons (by decide), Doc.legal, Doc.depth]
    simp only [if_neg (by decide : ¬ (0x7B : UInt8) = 0x22),
      if_neg (by decide : ¬ (0x7B : UInt8) = 0x5B), if_true, hmembers]
    by_cases hroom : room = 0
    · rw [if_pos hroom, if_neg (by omega)]
    · rw [if_neg hroom, apply_ite (Option.map Prod.snd)]
      exact if_congr (and_congr_right fun _ => by omega) rfl rfl

theorem scanItems_encode : ∀ (isFirst : Bool) (items : List Doc) (fuel room : ℕ)
    (rest : List UInt8), fuelItems items ≤ fuel →
    scanItems fuel room isFirst (encodeItems isFirst items ++ rest)
      = if legalItems items = true ∧ depthItems items ≤ room then some rest else none
  | _, items, 0, room, rest, hfuel => by
    have hpos := fuelItems_pos items
    omega
  | isFirst, [], fuel + 1, room, rest, _ => by
    rw [if_pos ⟨rfl, Nat.zero_le room⟩, encodeItems]
    rfl
  | isFirst, item :: items, fuel + 1, room, rest, hfuel => by
    rw [fuelItems] at hfuel
    rw [scanItems_cons, scanValue_encode item fuel room (by omega) (stops_items items rest),
      legalItems, depthItems]
    by_cases hitem : item.legal = true ∧ item.depth ≤ room
    · rw [if_pos hitem, Option.bind_some, scanItems_encode false items fuel room rest (by omega)]
      exact if_congr (fits_cons.trans (and_iff_right hitem)).symm rfl rfl
    · rw [if_neg hitem, if_neg fun hall => hitem (fits_cons.mp hall).1]
      rfl

theorem scanMembers_encode : ∀ (isFirst : Bool) (members : List (StringBody × Doc))
    (fuel room : ℕ) (rest : List UInt8), fuelMembers members ≤ fuel →
    scanMembers fuel room isFirst (encodeMembers isFirst members ++ rest)
      = if legalMembers members = true ∧ depthMembers members ≤ room then
          some (members.map fun m => (m.1.1, m.2.encode), rest)
        else none
  | _, members, 0, room, rest, hfuel => by
    have hpos := fuelMembers_pos members
    omega
  | isFirst, [], fuel + 1, room, rest, _ => by
    rw [if_pos ⟨rfl, Nat.zero_le room⟩, encodeMembers]
    rfl
  | isFirst, (name, value) :: members, fuel + 1, room, rest, hfuel => by
    rw [fuelMembers] at hfuel
    have hvalue := scanValue_encode value fuel room (by omega) (stops_members members rest)
    rw [scanMembers_cons, scanMember_encode, hvalue, legalMembers, depthMembers]
    · by_cases hok : value.legal = true ∧ value.depth ≤ room
      · rw [if_pos hok, Option.map_some, Option.bind_some,
          scanMembers_encode false members fuel room rest (by omega), apply_ite (Option.map _)]
        exact if_congr (fits_cons.trans (and_iff_right hok)).symm rfl rfl
      · rw [if_neg hok, if_neg fun hall => hok (fits_cons.mp hall).1]
        rfl
    rw [hvalue]
    split
    · exact .inr rfl
    · exact .inl rfl

end

/-- **An encoded object is taken apart exactly when it is legal and not too deep.** -/
theorem topMembers_encode (room : ℕ) (members : List (StringBody × Doc)) (rest : List UInt8) :
    topMembers room ((Doc.obj members).encode ++ rest)
      = if legalMembers members = true ∧ depthMembers members < room then
          some (members.map fun m => (m.1.1, m.2.encode), rest)
        else none := by
  have hfuel : fuelMembers members ≤ ((Doc.obj members).encode ++ rest).length := by
    have hlen := (Doc.obj members).fuel_le
    rw [Doc.fuel] at hlen
    rw [List.length_append]
    omega
  have hmembers := scanMembers_encode true members _ (room - 1) rest hfuel
  rw [Doc.encode, List.cons_append] at hmembers ⊢
  rw [topMembers, skipSpace_cons (by decide)]
  simp only [if_true, hmembers]
  by_cases hroom : room = 0
  · rw [if_pos hroom, if_neg (by omega)]
  · rw [if_neg hroom]
    exact if_congr (and_congr_right fun _ => by omega) rfl rfl

end JsonWire
