/-
What `encoding/json` writes and reads.

Strings are bytes: what is no UTF-8 is written as U+FFFD, so that a string read
back is the coerced one.  A raw value is checked, compacted and put in its place.
A struct is filled from the members of an object, names it does not know being
refused.

* `decodeStruct_encode` — **what the decoder makes of an encoded object**: its fields
  set one after the other, unless the object is too deep or not legal.
-/
import StormRelay.JsonWire

namespace GoJson

open Utf8 JsonString JsonWire

/-- `maxNestingDepth`. -/
def maxNesting : ℕ := 10000

/-! ### Strings -/

/-- A rune in a string literal: besides what JSON demands, the characters that
are special in HTML and two line separators are escaped. -/
def quoteRune : Rune → List UInt8
  | .bad _ => hexEscape 0xFFFD
  | .char c =>
    if c = '<' ∨ c = '>' ∨ c = '&' ∨ c.toNat = 0x2028 ∨ c.toNat = 0x2029 then hexEscape c.toNat
    else quoteChar c

def quoteBody (s : List UInt8) : List UInt8 :=
  (runes s).flatMap quoteRune

def quote (s : List UInt8) : List UInt8 :=
  0x22 :: (quoteBody s ++ [0x22])

theorem written_quoteRune (r : Rune) : Written r.coerce (quoteRune r) := by
  cases r with
  | bad b =>
    have hsmall : (Char.ofNat 0xFFFD).toNat < 65536 := by decide
    exact written_hexEscape hsmall
  | char c =>
    rw [quoteRune]
    split
    · rename_i hspecial
      refine written_hexEscape (c := c) ?_
      rcases hspecial with rfl | rfl | rfl | h | h
      · decide
      · decide
      · decide
      · omega
      · omega
    · exact written_quoteChar c

theorem length_quoteRune_le (r : Rune) : (quoteRune r).length ≤ 6 := by
  cases r with
  | bad b => exact Nat.le_refl 6
  | char c =>
    rw [quoteRune]
    split
    · exact Nat.le_refl 6
    · exact length_quoteChar_le c

theorem length_quoteBody_le (s : List UInt8) : (quoteBody s).length ≤ 6 * s.length :=
  (length_flatMap_le length_quoteRune_le (runes s)).trans
    (Nat.mul_le_mul_left 6 (length_runes_le s))

theorem spelled_quoteBody (s : List UInt8) :
    Spelled ((runes s).map Rune.coerce) (quoteBody s) :=
  spelled_flatMap written_quoteRune (runes s)

def literal (s : List UInt8) : Literal :=
  ⟨(runes s).map Rune.coerce, quoteBody s, spelled_quoteBody s⟩

theorem encode_literal (s : List UInt8) : encode (literal s).text = coerce s := rfl

theorem literal_encode_text (t : List Char) : (literal (encode t)).text = t := by
  show (runes (encode t)).map Rune.coerce = t
  rw [runes_encode, List.map_map]
  exact List.map_id t

theorem encode_str (s : List UInt8) : (Doc.str (literal s).quoted).encode = quote s := by
  rw [Doc.encode]
  rfl

/-! ### Values -/

/-- What `json.Marshal` returns: the encoding of a legal document in which there
is nothing to compact or escape. -/
structure Value where
  doc : Doc
  legal : doc.legal = true
  verbatim : JsonText.verbatim .outside doc.encode = true

def Value.text (v : Value) : List UInt8 :=
  v.doc.encode

/-- `json.Valid`. -/
def valid (raw : List UInt8) : Bool :=
  match scanValue raw.length maxNesting raw with
  | none => false
  | some rest => skipSpace rest = []

/-- Marshalling a `json.RawMessage`. -/
def marshalRaw (raw : List UInt8) : Option (List UInt8) :=
  if valid raw then some (JsonText.compact .outside raw) else none

theorem valid_encode (d : Doc) :
    valid d.encode = decide (d.legal = true ∧ d.depth ≤ maxNesting) := by
  have hscan : scanValue d.encode.length maxNesting d.encode = _ :=
    List.append_nil d.encode ▸ scanValue_encode d d.encode.length maxNesting d.fuel_le stops_nil
  rw [valid, hscan]
  by_cases hfits : d.legal = true ∧ d.depth ≤ maxNesting
  · rw [if_pos hfits, decide_eq_true hfits]
    rfl
  · rw [if_neg hfits, decide_eq_false hfits]

theorem valid_text (v : Value) : valid v.text = decide (v.doc.depth ≤ maxNesting) := by
  rw [Value.text, valid_encode]
  exact decide_eq_decide.mpr (and_iff_right v.legal)

theorem marshalRaw_value (v : Value) :
    marshalRaw v.text = if v.doc.depth ≤ maxNesting then some v.text else none := by
  have hcompact : JsonText.compact .outside v.text = v.text :=
    (JsonText.compact_eq_self_iff _ _).mpr v.verbatim
  rw [marshalRaw, valid_text, hcompact]
  exact if_congr decide_eq_true_iff rfl rfl

theorem Value.text_ne_nil (v : Value) : v.text ≠ [] := by
  obtain ⟨b, rest, heq, -⟩ := v.doc.encode_cons
  rw [Value.text, heq]
  exact List.cons_ne_nil b rest

/-! ### Objects -/

/-- The members of an object, the first of them or not, and its end; names are
plain, values are written already. -/
def writeMembers : Bool → List (List UInt8 × List UInt8) → List UInt8
  | _, [] => [0x7D]
  | isFirst, (name, value) :: members =>
    (if isFirst then [] else [0x2C]) ++
      (quote name ++ 0x3A :: (value ++ writeMembers false members))

def writeObject (members : List (List UInt8 × List UInt8)) : List UInt8 :=
  0x7B :: writeMembers true members

theorem writeMembers_encode (isFirst : Bool) (members : List (List UInt8 × Doc)) :
    writeMembers isFirst (members.map fun m => (m.1, m.2.encode))
      = encodeMembers isFirst (members.map fun m => ((literal m.1).quoted, m.2)) := by
  induction members generalizing isFirst with
  | nil => rw [List.map_nil, List.map_nil, writeMembers, encodeMembers]
  | cons m members ih =>
    rw [List.map_cons, List.map_cons, writeMembers, encodeMembers, ih, quote]
    simp only [List.cons_append, List.append_assoc, List.nil_append]
    rfl

theorem writeObject_encode (members : List (List UInt8 × Doc)) :
    writeObject (members.map fun m => (m.1, m.2.encode))
      = (Doc.obj (members.map fun m => ((literal m.1).quoted, m.2))).encode := by
  rw [writeObject, writeMembers_encode, Doc.encode]

/-! ### Structs -/

/-- The representative of a character in comparisons that ignore case, for the
characters that meet an ASCII letter there. -/
def foldRune : Rune → Rune
  | .bad b => .bad b
  | .char c =>
    if c.isLower then .char c.toUpper
    else if c.toNat = 0x17F then .char 'S'
    else if c.toNat = 0x212A then .char 'K'
    else .char c

def foldName (name : List UInt8) : List Rune :=
  (runes name).map foldRune

/-- The field a name belongs to: the one of that name, or the first whose name
differs in case only. -/
def findField {F : Type} (fields : List (List UInt8 × F)) (name : List UInt8) : Option F :=
  match fields.find? fun f => f.1 = name with
  | some f => some f.2
  | none => (fields.find? fun f => foldName f.1 = foldName name).map Prod.snd

section Struct

variable {F S : Type} (fields : List (List UInt8 × F)) (set : S → F → List UInt8 → Option S)

def assign (s : S) (member : List UInt8 × List UInt8) : Option S :=
  match (goText member.1).bind (findField fields) with
  | none => none
  | some f => set s f member.2

/-- `Decode` with `DisallowUnknownFields`: the struct, and the input after it. -/
def decodeStruct (zero : S) (bytes : List UInt8) : Option (S × List UInt8) :=
  match topMembers maxNesting bytes with
  | none => none
  | some (members, rest) => (members.foldlM (assign fields set) zero).map fun s => (s, rest)

theorem assign_literal {key : Literal} {f : F} (h : findField fields (encode key.text) = some f)
    (s : S) (raw : List UInt8) : assign fields set s (key.body, raw) = set s f raw := by
  rw [assign]
  simp only [goText_spelled key.spelled, Option.bind_some, h]

/-- **What the decoder makes of an encoded object**: its members assigned one after
the other, unless it is too deep or not legal. -/
theorem decodeStruct_encode (zero : S) (members : List (StringBody × Doc)) (rest : List UInt8) :
    decodeStruct fields set zero ((Doc.obj members).encode ++ rest)
      = if legalMembers members = true ∧ depthMembers members < maxNesting then
          ((members.map fun m => (m.1.1, m.2.encode)).foldlM (assign fields set) zero).map
            fun s => (s, rest)
        else none := by
  rw [decodeStruct, topMembers_encode]
  by_cases h : legalMembers members = true ∧ depthMembers members < maxNesting
  · rw [if_pos h, if_pos h]
  · rw [if_neg h, if_neg h]

end Struct

/-- A string field: `null` leaves it, anything but a string is refused. -/
def readString (old raw : List UInt8) : Option (List UInt8) :=
  if raw = [0x6E, 0x75, 0x6C, 0x6C] then some old
  else
    match raw with
    | [] => none
    | b :: rest =>
      if b = 0x22 then (scanBody .plain rest).bind fun r => goText r.1
      else none

theorem readString_literal (l : Literal) (old : List UInt8) :
    readString old (Doc.str l.quoted).encode = some (encode l.text) := by
  have hnull : (0x22 : UInt8) :: (l.quoted.1 ++ [0x22]) ≠ [0x6E, 0x75, 0x6C, 0x6C] := by
    intro heq
    have hhead := (List.cons.inj heq).1
    revert hhead
    decide
  rw [Doc.encode]
  unfold readString
  rw [if_neg hnull]
  simp only [if_true, scanBody_quoted l.quoted []]
  exact goText_spelled l.spelled

end GoJson
