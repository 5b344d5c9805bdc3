/-
String literals of JSON, as bytes.

A character may stand in a literal by itself or be written with an escape, and
readers agree on which character that is; they differ only in what they make of
bytes that encode nothing and of halves of surrogate pairs.

* `scanBody_spelled`, `goText_spelled` — **every way of writing a text is scanned as
  one literal and read back as that text**.
-/
import StormRelay.JsonText
import StormRelay.Utf8

namespace JsonString

open Utf8

/-! ### Escapes -/

def hexValue (b : UInt8) : Option ℕ :=
  if 0x30 ≤ b ∧ b ≤ 0x39 then some (b.toNat - 0x30)
  else if 0x61 ≤ b ∧ b ≤ 0x66 then some (b.toNat - 0x57)
  else if 0x41 ≤ b ∧ b ≤ 0x46 then some (b.toNat - 0x37)
  else none

def hexFour : List UInt8 → Option ℕ
  | a :: b :: c :: d :: _ => do
    let a ← hexValue a
    let b ← hexValue b
    let c ← hexValue c
    let d ← hexValue d
    pure (a * 4096 + b * 256 + c * 16 + d)
  | _ => none

def shortValue (b : UInt8) : Option Char :=
  if b = 0x22 then some '"'
  else if b = 0x5C then some '\\'
  else if b = 0x2F then some '/'
  else if b = 0x62 then some (Char.ofNat 0x08)
  else if b = 0x66 then some (Char.ofNat 0x0C)
  else if b = 0x6E then some '\n'
  else if b = 0x72 then some '\r'
  else if b = 0x74 then some '\t'
  else none

/-! ### The end of a literal -/

/-- Where a byte stands in a literal: by itself, after a backslash, or with so
many more digits of an escape to come after it. -/
inductive Mode where
  | plain
  | escape
  | hex (more : ℕ)
deriving DecidableEq, Repr

def Mode.next : Mode → UInt8 → Option Mode
  | .plain, b =>
    if b = 0x5C then some .escape
    else if b < 0x20 then none
    else some .plain
  | .escape, b =>
    if b = 0x75 then some (.hex 3)
    else if (shortValue b).isSome then some .plain
    else none
  | .hex more, b =>
    if (hexValue b).isSome then some (if more = 0 then .plain else .hex (more - 1)) else none

def scanBody : Mode → List UInt8 → Option (List UInt8 × List UInt8)
  | _, [] => none
  | mode, b :: bytes =>
    if mode = .plain ∧ b = 0x22 then some ([], bytes)
    else
      match mode.next b with
      | none => none
      | some next => (scanBody next bytes).map fun r => (b :: r.1, r.2)

/-! ### The text of a literal -/

inductive CodePoint where
  | char (c : Char)
  | high (n : Fin 1024)
  | low (n : Fin 1024)
deriving DecidableEq, Repr

def codePoint (n : ℕ) : CodePoint :=
  if 0xD800 ≤ n ∧ n < 0xDC00 then .high (Fin.ofNat 1024 (n - 0xD800))
  else if 0xDC00 ≤ n ∧ n < 0xE000 then .low (Fin.ofNat 1024 (n - 0xDC00))
  else .char (Char.ofNat n)

/-- The code points of a body after its first `skip` bytes, each escape read by
itself. -/
def units : ℕ → List UInt8 → Option (List CodePoint)
  | _, [] => some []
  | skip + 1, _ :: bytes => units skip bytes
  | 0, b :: bytes =>
    if b = 0x5C then
      match bytes.head? with
      | none => none
      | some e =>
        if e = 0x75 then
          match hexFour bytes.tail with
          | none => none
          | some n => (units 5 bytes).map (codePoint n :: ·)
        else
          match shortValue e with
          | none => none
          | some c => (units 1 bytes).map (.char c :: ·)
    else
      match first (b :: bytes) with
      | some c => (units (c.utf8Size - 1) bytes).map (.char c :: ·)
      | none => (units 0 bytes).map (.char (Rune.bad b).coerce :: ·)

def pairs : List CodePoint → List CodePoint
  | [] => []
  | .high a :: .low b :: rest => .char (Char.ofNat (0x10000 + a * 1024 + b)) :: pairs rest
  | p :: rest => p :: pairs rest

def CodePoint.coerce : CodePoint → Char
  | .char c => c
  | _ => Char.ofNat 0xFFFD

/-- The text of a literal in UTF-8, as `encoding/json` reads it. -/
def goText (body : List UInt8) : Option (List UInt8) :=
  (units 0 body).map fun us => encode ((pairs us).map CodePoint.coerce)

/-! ### Ways of writing a character -/

def Plain (c : Char) : Prop :=
  0x20 ≤ c.toNat ∧ c ≠ '"' ∧ c ≠ '\\'

inductive Written : Char → List UInt8 → Prop
  | raw {c : Char} (h : Plain c) : Written c (String.utf8EncodeChar c)
  | short {c : Char} {e : UInt8} (h : shortValue e = some c) : Written c [0x5C, e]
  | hex {c : Char} {p q r s : UInt8} (h : hexFour [p, q, r, s] = some c.toNat) :
      Written c [0x5C, 0x75, p, q, r, s]

inductive Spelled : List Char → List UInt8 → Prop
  | nil : Spelled [] []
  | cons {c : Char} {bytes : List UInt8} {text : List Char} {body : List UInt8}
      (h : Written c bytes) (hrest : Spelled text body) : Spelled (c :: text) (bytes ++ body)

theorem spelled_flatMap {α : Type} {value : α → Char} {write : α → List UInt8}
    (h : ∀ a, Written (value a) (write a)) (l : List α) :
    Spelled (l.map value) (l.flatMap write) := by
  induction l with
  | nil => exact .nil
  | cons a l ih => exact .cons (h a) ih

structure Literal where
  text : List Char
  body : List UInt8
  spelled : Spelled text body

/-! ### A character by itself -/

variable {c : Char} {b : UInt8}

theorem mem_utf8EncodeChar (h : b ∈ String.utf8EncodeChar c) :
    (b.toNat = c.toNat ∧ c.toNat < 128) ∨ 128 ≤ b.toNat := by
  have hbig : ∀ n, 128 ≤ n → n < 256 → 128 ≤ (UInt8.ofNat n).toNat := by
    intro n hlow hhigh
    rw [UInt8.toNat_ofNat_of_lt' hhigh]
    exact hlow
  rw [String.utf8EncodeChar] at h
  split at h
  · rename_i hsmall
    have hnat : c.toNat ≤ 127 := hsmall
    rw [List.mem_singleton] at h
    refine .inl ⟨?_, by omega⟩
    rw [h]
    exact UInt8.toNat_ofNat_of_lt' (Nat.lt_of_le_of_lt hnat (by decide))
  right
  split at h
  · simp only [List.mem_cons, List.not_mem_nil, or_false] at h
    rcases h with rfl | rfl <;> exact hbig _ (by omega) (by omega)
  split at h
  · simp only [List.mem_cons, List.not_mem_nil, or_false] at h
    rcases h with rfl | rfl | rfl <;> exact hbig _ (by omega) (by omega)
  · simp only [List.mem_cons, List.not_mem_nil, or_false] at h
    rcases h with rfl | rfl | rfl | rfl <;> exact hbig _ (by omega) (by omega)

def Ordinary (b : UInt8) : Prop :=
  b ≠ 0x22 ∧ b ≠ 0x5C ∧ ¬ b < 0x20

theorem Plain.ordinary (h : Plain c) (hb : b ∈ String.utf8EncodeChar c) :
    Ordinary b := by
  have hnum : ∀ n : UInt8, n.toNat < 128 → b = n → c.toNat = n.toNat := by
    intro n hn hbn
    rcases mem_utf8EncodeChar hb with ⟨hbc, -⟩ | hbig
    · rw [← hbc, hbn]
    · rw [hbn] at hbig
      omega
  refine ⟨fun hq => h.2.1 ?_, fun hs => h.2.2 ?_, fun hlt => ?_⟩
  · exact Char.toNat_inj.mp (hnum _ (by decide) hq)
  · exact Char.toNat_inj.mp (hnum _ (by decide) hs)
  have hb20 : b.toNat < 0x20 := UInt8.lt_iff_toNat_lt.mp hlt
  rcases mem_utf8EncodeChar hb with ⟨hbc, -⟩ | hbig
  · have := h.1
    omega
  · omega

/-! ### Scanning what is written -/

theorem scanBody_next {mode next : Mode} (hopen : ¬ (mode = .plain ∧ b = 0x22))
    (hnext : mode.next b = some next) (bytes : List UInt8) :
    scanBody mode (b :: bytes) = (scanBody next bytes).map fun r => (b :: r.1, r.2) := by
  rw [scanBody, if_neg hopen, hnext]

variable {body bytes : List UInt8}

theorem scanBody_ordinary (h : ∀ b ∈ bytes, Ordinary b) (rest : List UInt8) :
    scanBody .plain (bytes ++ rest)
      = (scanBody .plain rest).map fun r => (bytes ++ r.1, r.2) := by
  induction bytes with
  | nil => simp
  | cons b bytes ih =>
    obtain ⟨hquote, hslash, hcontrol⟩ := h b List.mem_cons_self
    have hnext : Mode.plain.next b = some .plain := by
      rw [Mode.next, if_neg hslash, if_neg hcontrol]
    rw [List.cons_append, scanBody_next (fun hclose => hquote hclose.2) hnext,
      ih fun b' hb' => h b' (List.mem_cons_of_mem b hb'), Option.map_map]
    rfl

theorem shortValue_ne {e : UInt8} (h : shortValue e = some c) : e ≠ 0x75 := by
  rintro rfl
  cases h

theorem hexFour_inv {p q r s : UInt8} {rest : List UInt8} {n : ℕ}
    (h : hexFour (p :: q :: r :: s :: rest) = some n) :
    (hexValue p).isSome ∧ (hexValue q).isSome ∧ (hexValue r).isSome ∧ (hexValue s).isSome := by
  simp only [hexFour, bind, Option.bind_eq_some_iff] at h
  obtain ⟨a, ha, b, hb, c, hc, d, hd, -⟩ := h
  rw [ha, hb, hc, hd]
  exact ⟨rfl, rfl, rfl, rfl⟩

theorem scanBody_written (h : Written c bytes) (rest : List UInt8) :
    scanBody .plain (bytes ++ rest)
      = (scanBody .plain rest).map fun r => (bytes ++ r.1, r.2) := by
  cases h with
  | raw hplain => exact scanBody_ordinary (fun b hb => hplain.ordinary hb) rest
  | @short e hvalue =>
    have hnext : Mode.escape.next e = some .plain := by
      rw [Mode.next, if_neg (shortValue_ne hvalue), if_pos (by rw [hvalue]; rfl)]
    have hopen : ¬ (Mode.escape = .plain ∧ e = 0x22) := by
      rintro ⟨hmode, -⟩
      cases hmode
    show scanBody .plain (0x5C :: e :: rest) = _
    rw [scanBody_next (by decide) (rfl : Mode.plain.next 0x5C = some .escape),
      scanBody_next hopen hnext, Option.map_map]
    rfl
  | @hex p q r s hnum =>
    obtain ⟨hp, hq, hr, hs⟩ := hexFour_inv hnum
    have hopen : ∀ (more : ℕ) (b : UInt8), ¬ (Mode.hex more = .plain ∧ b = 0x22) := by
      rintro more b ⟨hmode, -⟩
      cases hmode
    have hmore : ∀ (more : ℕ) {b : UInt8}, (hexValue b).isSome →
        (Mode.hex (more + 1)).next b = some (.hex more) := fun more b hb => if_pos hb
    show scanBody .plain (0x5C :: 0x75 :: p :: q :: r :: s :: rest) = _
    rw [scanBody_next (by decide) (rfl : Mode.plain.next 0x5C = some .escape),
      scanBody_next (by decide) (rfl : Mode.escape.next 0x75 = some (.hex 3)),
      scanBody_next (hopen 3 p) (hmore 2 hp), scanBody_next (hopen 2 q) (hmore 1 hq),
      scanBody_next (hopen 1 r) (hmore 0 hr),
      scanBody_next (hopen 0 s) (if_pos hs : (Mode.hex 0).next s = some .plain)]
    simp only [Option.map_map]
    rfl

variable {text : List Char}

theorem scanBody_spelled (h : Spelled text body) (rest : List UInt8) :
    scanBody .plain (body ++ 0x22 :: rest) = some (body, rest) := by
  induction h with
  | nil => rfl
  | cons hc hrest ih =>
    rw [List.append_assoc, scanBody_written hc, ih]
    rfl

theorem scanBody_append {mode : Mode} {rest : List UInt8}
    (h : scanBody mode bytes = some (body, rest)) (more : List UInt8) :
    scanBody mode (bytes ++ more) = some (body, rest ++ more) := by
  induction bytes generalizing mode body rest with
  | nil => cases h
  | cons b bytes ih =>
    rw [List.cons_append]
    by_cases hclose : mode = .plain ∧ b = 0x22
    · rw [scanBody, if_pos hclose] at h ⊢
      obtain ⟨rfl, rfl⟩ := Prod.mk.inj (Option.some.inj h)
      rfl
    rcases hnext : mode.next b with _ | next
    · rw [scanBody, if_neg hclose, hnext] at h
      cases h
    rw [scanBody_next hclose hnext] at h ⊢
    obtain ⟨⟨body', rest'⟩, hscan, heq⟩ := Option.map_eq_some_iff.mp h
    obtain ⟨rfl, rfl⟩ := Prod.mk.inj heq
    rw [ih hscan]
    rfl

abbrev StringBody :=
  { body : List UInt8 // scanBody .plain (body ++ [0x22]) = some (body, []) }

def Literal.quoted (l : Literal) : StringBody :=
  ⟨l.body, scanBody_spelled l.spelled []⟩

theorem scanBody_quoted (body : StringBody) (rest : List UInt8) :
    scanBody .plain (body.1 ++ 0x22 :: rest) = some (body.1, rest) := by
  have h := scanBody_append body.2 rest
  rwa [List.append_assoc, List.singleton_append, List.nil_append] at h

/-! ### Reading what is written -/

theorem units_eq (skip : ℕ) (bytes : List UInt8) :
    units skip bytes = units 0 (bytes.drop skip) := by
  induction bytes generalizing skip with
  | nil => cases skip <;> simp [units]
  | cons b bytes ih =>
    cases skip with
    | zero => rfl
    | succ skip => rw [units, ih, List.drop_succ_cons]

theorem units_written (h : Written c bytes) (rest : List UInt8) :
    units 0 (bytes ++ rest) = (units 0 rest).map (.char c :: ·) := by
  cases h with
  | raw hplain =>
    have hfirst := first_char c rest
    obtain ⟨b, tail, heq, hlen⟩ := utf8EncodeChar_cons c
    have hslash := (hplain.ordinary (heq ▸ List.mem_cons_self)).2.1
    rw [heq, List.cons_append] at hfirst ⊢
    rw [units, if_neg hslash, hfirst]
    simp only
    rw [units_eq, ← hlen, List.drop_left]
  | @short e hvalue =>
    show units 0 (0x5C :: e :: rest) = _
    rw [units, if_pos rfl]
    simp only [List.head?_cons, if_neg (shortValue_ne hvalue), hvalue]
    rw [units]
  | @hex p q r s hnum =>
    show units 0 (0x5C :: 0x75 :: p :: q :: r :: s :: rest) = _
    have hfour : hexFour (p :: q :: r :: s :: rest) = some c.toNat := hnum
    -- A character is no surrogate, so its number is its own code point.
    have hcode : codePoint c.toNat = .char c := by
      have hvalid : c.toNat < 0xD800 ∨ (0xDFFF < c.toNat ∧ c.toNat < 0x110000) := c.valid
      rw [codePoint, if_neg (by omega), if_neg (by omega), Char.ofNat_toNat]
    rw [units, if_pos rfl]
    simp only [List.head?_cons, if_true, List.tail_cons, hfour, hcode]
    rw [units_eq]
    rfl

theorem units_spelled (h : Spelled text body) :
    units 0 body = some (text.map .char) := by
  induction h with
  | nil => rfl
  | cons hc hrest ih =>
    rw [units_written hc, ih]
    rfl

theorem pairs_chars (text : List Char) : pairs (text.map .char) = text.map .char := by
  induction text with
  | nil => rfl
  | cons c text ih =>
    rw [List.map_cons, pairs, ih]
    rintro a b rest h
    cases h

/-- **A written text is read back.** -/
theorem goText_spelled (h : Spelled text body) :
    goText body = some (encode text) := by
  rw [goText, units_spelled h, Option.map_some, pairs_chars, List.map_map]
  exact congrArg (fun t => some (encode t)) (List.map_id text)

/-! ### Mandatory escapes -/

def digit (n : ℕ) : UInt8 :=
  JsonText.hexDigit (UInt8.ofNat n)

def hexEscape (n : ℕ) : List UInt8 :=
  [0x5C, 0x75, digit (n / 4096 % 16), digit (n / 256 % 16), digit (n / 16 % 16), digit (n % 16)]

theorem hexValue_digit {n : ℕ} (h : n < 16) : hexValue (digit n) = some n := by
  revert n
  decide

theorem written_hexEscape (h : c.toNat < 65536) : Written c (hexEscape c.toNat) := by
  refine .hex ?_
  rw [hexFour, hexValue_digit (Nat.mod_lt _ (by omega)), hexValue_digit (Nat.mod_lt _ (by omega)),
    hexValue_digit (Nat.mod_lt _ (by omega)), hexValue_digit (Nat.mod_lt _ (by omega))]
  show some _ = some _
  congr 1
  omega

/-- A character as JSON allows it in a literal: an escape for the quotation mark,
the backslash and the control characters, itself otherwise. -/
def quoteChar (c : Char) : List UInt8 :=
  if c = '"' then [0x5C, 0x22]
  else if c = '\\' then [0x5C, 0x5C]
  else if c.toNat = 0x08 then [0x5C, 0x62]
  else if c.toNat = 0x0C then [0x5C, 0x66]
  else if c.toNat = 0x0A then [0x5C, 0x6E]
  else if c.toNat = 0x0D then [0x5C, 0x72]
  else if c.toNat = 0x09 then [0x5C, 0x74]
  else if c.toNat < 0x20 then hexEscape c.toNat
  else String.utf8EncodeChar c

theorem written_quoteChar (c : Char) : Written c (quoteChar c) := by
  have hchar : ∀ {d : Char}, c.toNat = d.toNat → c = d := fun h => Char.toNat_inj.mp h
  rw [quoteChar]
  split
  · subst c
    exact .short rfl
  split
  · subst c
    exact .short rfl
  split
  · rename_i h
    rw [hchar (d := Char.ofNat 0x08) h]
    exact .short rfl
  split
  · rename_i h
    rw [hchar (d := Char.ofNat 0x0C) h]
    exact .short rfl
  split
  · rename_i h
    rw [hchar (d := '\n') h]
    exact .short rfl
  split
  · rename_i h
    rw [hchar (d := '\r') h]
    exact .short rfl
  split
  · rename_i h
    rw [hchar (d := '\t') h]
    exact .short rfl
  split
  · exact written_hexEscape (by omega)
  · rename_i hquote hslash _ _ _ _ _ hcontrol
    exact .raw ⟨not_lt.mp hcontrol, hquote, hslash⟩

theorem length_quoteChar_le (c : Char) : (quoteChar c).length ≤ 6 := by
  have hraw : (String.utf8EncodeChar c).length ≤ 4 := by
    rw [String.length_utf8EncodeChar]
    exact c.utf8Size_le_four
  rw [quoteChar]
  repeat' split
  all_goals first
    | decide
    | exact Nat.le_refl 6
    | omega

theorem length_flatMap_le {α : Type} {write : α → List UInt8} {n : ℕ}
    (h : ∀ a, (write a).length ≤ n) (l : List α) : (l.flatMap write).length ≤ n * l.length := by
  induction l with
  | nil => exact Nat.zero_le _
  | cons a l ih =>
    have ha := h a
    rw [List.flatMap_cons, List.length_append, List.length_cons, Nat.mul_succ]
    omega

end JsonString
