/-
UTF-8 as a reader of bytes meets it.

A byte string need not be the encoding of a text.  A reader takes it rune by
rune: a character where one is encoded, a single byte where none starts.  What
such a reader makes of the bad bytes is the replacement character U+FFFD.

* `coerce_eq_self_iff` — **exactly the encodings of texts survive it**.
-/
import Mathlib.Algebra.GroupWithZero.Nat
import Mathlib.Data.List.Basic
import Mathlib.Tactic.Common

namespace Utf8

inductive Rune where
  | char (c : Char)
  | bad (b : UInt8)
deriving DecidableEq, Repr

/-- The encoding of a text. -/
def encode (text : List Char) : List UInt8 :=
  text.flatMap String.utf8EncodeChar

def first (bytes : List UInt8) : Option Char :=
  bytes.toByteArray.utf8DecodeChar? 0

/-- The runes after the first `skip` bytes. -/
def runesFrom : ℕ → List UInt8 → List Rune
  | _, [] => []
  | skip + 1, _ :: bytes => runesFrom skip bytes
  | 0, b :: bytes =>
    match first (b :: bytes) with
    | some c => .char c :: runesFrom (c.utf8Size - 1) bytes
    | none => .bad b :: runesFrom 0 bytes

def runes (bytes : List UInt8) : List Rune :=
  runesFrom 0 bytes

def Rune.bytes : Rune → List UInt8
  | .char c => String.utf8EncodeChar c
  | .bad b => [b]

def Rune.coerce : Rune → Char
  | .char c => c
  | .bad _ => Char.ofNat 0xFFFD

def coerce (bytes : List UInt8) : List UInt8 :=
  encode ((runes bytes).map Rune.coerce)

/-- The bytes are the encoding of a text. -/
def Valid (bytes : List UInt8) : Prop :=
  ∃ text, bytes = encode text

/-! ### The first character -/

theorem first_char (c : Char) (bytes : List UInt8) :
    first (String.utf8EncodeChar c ++ bytes) = some c := by
  rw [first, List.toByteArray_append]
  exact ByteArray.utf8DecodeChar?_utf8EncodeChar_append

variable {bytes : List UInt8}

theorem first_inv {c : Char} (h : first bytes = some c) :
    ∃ rest, bytes = String.utf8EncodeChar c ++ rest := by
  have heq := ByteArray.eq_of_utf8DecodeChar?_eq_some h
  refine ⟨(bytes.toByteArray.extract c.utf8Size bytes.toByteArray.size).data.toList, ?_⟩
  have hlist := congrArg (fun b => b.data.toList) heq
  simpa using hlist

theorem utf8EncodeChar_cons (c : Char) : ∃ b rest, String.utf8EncodeChar c = b :: rest
    ∧ rest.length = c.utf8Size - 1 := by
  have hlen := String.length_utf8EncodeChar c
  rcases h : String.utf8EncodeChar c with _ | ⟨b, rest⟩
  · have hpos := c.utf8Size_pos
    rw [h] at hlen
    simp only [List.length_nil] at hlen
    omega
  · refine ⟨b, rest, rfl, ?_⟩
    rw [h, List.length_cons] at hlen
    omega

/-! ### Runes -/

theorem runesFrom_eq (skip : ℕ) (bytes : List UInt8) :
    runesFrom skip bytes = runes (bytes.drop skip) := by
  induction bytes generalizing skip with
  | nil => cases skip <;> simp [runes, runesFrom]
  | cons b bytes ih =>
    cases skip with
    | zero => rfl
    | succ skip => rw [runesFrom, ih, List.drop_succ_cons]

@[simp] theorem runes_nil : runes [] = [] := rfl

theorem runes_char (c : Char) (bytes : List UInt8) :
    runes (String.utf8EncodeChar c ++ bytes) = .char c :: runes bytes := by
  have hfirst := first_char c bytes
  obtain ⟨b, rest, heq, hlen⟩ := utf8EncodeChar_cons c
  rw [heq, List.cons_append] at hfirst ⊢
  rw [runes, runesFrom, hfirst]
  simp only
  rw [runesFrom_eq, ← hlen, List.drop_left]

theorem runes_bad {b : UInt8} (h : first (b :: bytes) = none) :
    runes (b :: bytes) = .bad b :: runes bytes := by
  rw [runes, runesFrom, h]
  rfl

/-- **Induction over the runes of a byte string.** -/
theorem rune_induction {P : List UInt8 → Prop} (nil : P [])
    (char : ∀ c bytes, P bytes → P (String.utf8EncodeChar c ++ bytes))
    (bad : ∀ b bytes, first (b :: bytes) = none → P bytes → P (b :: bytes)) :
    ∀ bytes, P bytes := by
  intro bytes
  -- Every rune takes at least one byte, so the induction is on the length.
  induction hn : bytes.length using Nat.strongRecOn generalizing bytes with
  | _ n ih =>
    rcases bytes with _ | ⟨b, rest⟩
    · exact nil
    rcases hfirst : first (b :: rest) with _ | c
    · exact bad b rest hfirst (ih rest.length (by rw [← hn]; exact Nat.lt_succ_self _) rest rfl)
    obtain ⟨tail, htail⟩ := first_inv hfirst
    rw [htail]
    refine char c tail (ih tail.length ?_ tail rfl)
    have hpos := c.utf8Size_pos
    rw [← hn, htail, List.length_append, String.length_utf8EncodeChar]
    omega

theorem bytes_runes (bytes : List UInt8) : (runes bytes).flatMap Rune.bytes = bytes := by
  induction bytes using rune_induction with
  | nil => rfl
  | char c bytes ih =>
    rw [runes_char, List.flatMap_cons, ih]
    rfl
  | bad b bytes h ih =>
    rw [runes_bad h, List.flatMap_cons, ih]
    rfl

theorem length_runes_le (bytes : List UInt8) : (runes bytes).length ≤ bytes.length := by
  induction bytes using rune_induction with
  | nil => exact Nat.le_refl 0
  | char c bytes ih =>
    have hpos := c.utf8Size_pos
    rw [runes_char, List.length_cons, List.length_append, String.length_utf8EncodeChar]
    omega
  | bad b bytes h ih =>
    rw [runes_bad h, List.length_cons, List.length_cons]
    omega

theorem runes_encode_append (text : List Char) (bytes : List UInt8) :
    runes (encode text ++ bytes) = text.map .char ++ runes bytes := by
  induction text with
  | nil => rfl
  | cons c text ih =>
    rw [encode, List.flatMap_cons, List.append_assoc, runes_char, ← encode, ih]
    rfl

theorem runes_encode (text : List Char) : runes (encode text) = text.map .char := by
  have h := runes_encode_append text []
  rwa [List.append_nil, runes_nil, List.append_nil] at h

/-! ### Replacing the bad bytes -/

@[simp] theorem coerce_encode (text : List Char) : coerce (encode text) = encode text := by
  rw [coerce, runes_encode, List.map_map]
  exact congrArg encode (List.map_id text)

theorem valid_coerce (bytes : List UInt8) : Valid (coerce bytes) :=
  ⟨_, rfl⟩

/-- **Exactly the encodings of texts survive.** -/
theorem coerce_eq_self_iff : coerce bytes = bytes ↔ Valid bytes := by
  constructor
  · intro h
    exact h ▸ valid_coerce bytes
  · rintro ⟨text, rfl⟩
    exact coerce_encode text

theorem coerce_coerce (bytes : List UInt8) : coerce (coerce bytes) = coerce bytes :=
  coerce_eq_self_iff.mpr (valid_coerce bytes)

theorem encode_append (s t : List Char) : encode (s ++ t) = encode s ++ encode t :=
  List.flatMap_append

theorem length_encode (text : List Char) :
    (encode text).length = (text.map Char.utf8Size).sum := by
  rw [encode, List.length_flatMap]
  simp only [String.length_utf8EncodeChar]

end Utf8
