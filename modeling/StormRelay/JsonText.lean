/-
JSON texts as bytes.

An encoder that embeds a JSON text in another one may drop its insignificant
whitespace and escape the characters `<`, `>`, `&`, U+2028 and U+2029, which are
legal in JSON but not everywhere JSON is put.

* `compact_eq_self_iff` — **a text comes out as it went in exactly when it is
  verbatim**.
-/
import Mathlib.Algebra.BigOperators.Group.List.Basic
import Mathlib.Algebra.Ring.Nat
import Mathlib.Tactic.Common

namespace JsonText

/-- Where a byte stands: outside the string literals, inside one, or after a
backslash inside one. -/
inductive Mode where
  | outside
  | inside
  | escaped
deriving DecidableEq, Repr

def Mode.next : Mode → UInt8 → Mode
  | .outside, c => if c = 0x22 then .inside else .outside
  | .inside, c => if c = 0x22 then .outside else if c = 0x5C then .escaped else .inside
  | .escaped, _ => .inside

def isSpace (c : UInt8) : Bool :=
  c = 0x20 || c = 0x09 || c = 0x0A || c = 0x0D

/-- `<`, `>` and `&`. -/
def isHTML (c : UInt8) : Bool :=
  c = 0x3C || c = 0x3E || c = 0x26

def separatorAhead (text : List UInt8) : Bool :=
  [0xE2, 0x80, 0xA8].isPrefixOf text || [0xE2, 0x80, 0xA9].isPrefixOf text

def hexDigit (n : UInt8) : UInt8 :=
  if n < 10 then 0x30 + n else 0x57 + n

/-- The escape `\u00xx` of a byte. -/
def escapeByte (c : UInt8) : List UInt8 :=
  [0x5C, 0x75, 0x30, 0x30, hexDigit (c / 16), hexDigit (c % 16)]

/-- The escape `\u202x` of a separator, from its last byte. -/
def escapeSeparator (c : UInt8) : List UInt8 :=
  [0x5C, 0x75, 0x32, 0x30, 0x32, hexDigit (c % 16)]

def emit (mode : Mode) (c : UInt8) : List UInt8 :=
  if isHTML c then escapeByte c
  else if mode = .outside ∧ isSpace c then []
  else [c]

def compact : Mode → List UInt8 → List UInt8
  | _, [] => []
  | mode, [c] => emit mode c
  | mode, [c, d] => emit mode c ++ emit (mode.next c) d
  | mode, c :: d :: e :: rest =>
    if separatorAhead (c :: d :: e :: rest) then
      escapeSeparator e ++ compact (((mode.next c).next d).next e) rest
    else emit mode c ++ compact (mode.next c) (d :: e :: rest)

/-- At no position is there a byte to escape, a separator, or whitespace outside
a string literal. -/
def verbatim : Mode → List UInt8 → Bool
  | _, [] => true
  | mode, c :: rest =>
    !isHTML c && !separatorAhead (c :: rest) && !(decide (mode = .outside) && isSpace c)
      && verbatim (mode.next c) rest

theorem separatorAhead_short {text : List UInt8} (h : text.length < 3) :
    separatorAhead text = false := by
  match text, h with
  | [], _ => rfl
  | [c], _ => simp [separatorAhead, List.isPrefixOf]
  | [c, d], _ => simp [separatorAhead, List.isPrefixOf]

variable {c : UInt8}

theorem separatorAhead_cons (h : c ≠ 0xE2) (rest : List UInt8) :
    separatorAhead (c :: rest) = false := by
  simp [separatorAhead, List.isPrefixOf, Ne.symm h]

variable {mode : Mode}

theorem emit_verbatim (hhtml : isHTML c = false)
    (hspace : (decide (mode = .outside) && isSpace c) = false) : emit mode c = [c] := by
  rw [emit, if_neg (by simp [hhtml]), if_neg]
  rintro ⟨rfl, hc⟩
  simp [hc] at hspace

theorem compact_verbatim (mode : Mode) (text : List UInt8) (h : verbatim mode text = true) :
    compact mode text = text := by
  fun_induction compact mode text with
  | case1 => rfl
  | case2 mode c =>
    simp only [verbatim, Bool.and_eq_true, Bool.not_eq_true'] at h
    exact emit_verbatim h.1.1.1 h.1.2
  | case3 mode c d =>
    simp only [verbatim, Bool.and_eq_true, Bool.not_eq_true'] at h
    rw [emit_verbatim h.1.1.1 h.1.2, emit_verbatim h.2.1.1.1 h.2.1.2]
    rfl
  | case4 mode c d e rest hsep ih =>
    rw [verbatim, hsep] at h
    simp at h
  | case5 mode c d e rest hsep ih =>
    rw [verbatim] at h
    simp only [Bool.and_eq_true, Bool.not_eq_true'] at h
    rw [emit_verbatim h.1.1.1 h.1.2, ih h.2]
    rfl

/-! ### The other direction

Dropping shortens a text and escaping lengthens it.  With bytes weighted so that
an escape is lighter than what it stands for, both make it lighter. -/

def weight (c : UInt8) : ℕ :=
  if isHTML c || c = 0xE2 then 10 else 1

def weightOf (text : List UInt8) : ℕ :=
  (text.map weight).sum

theorem weightOf_append (s t : List UInt8) : weightOf (s ++ t) = weightOf s + weightOf t := by
  rw [weightOf, List.map_append, List.sum_append]
  rfl

theorem weightOf_cons (c : UInt8) (t : List UInt8) : weightOf (c :: t) = weight c + weightOf t :=
  rfl

theorem weightOf_emit_le (mode : Mode) (c : UInt8) : weightOf (emit mode c) ≤ weight c := by
  rw [emit]
  split
  · rename_i hhtml
    simp only [isHTML, Bool.or_eq_true, decide_eq_true_eq] at hhtml
    rcases hhtml with (rfl | rfl) | rfl <;> decide
  · split
    · exact Nat.zero_le _
    · exact Nat.le_of_eq (Nat.add_zero _)

theorem weightOf_emit_lt (h : isHTML c = true ∨ mode = .outside ∧ isSpace c = true) :
    weightOf (emit mode c) < weight c := by
  rw [emit]
  split
  · rename_i hhtml
    simp only [isHTML, Bool.or_eq_true, decide_eq_true_eq] at hhtml
    rcases hhtml with (rfl | rfl) | rfl <;> decide
  · rename_i hhtml
    rw [if_pos (h.resolve_left hhtml), weight]
    split <;> exact Nat.succ_pos _

theorem weightOf_separator {d e : UInt8} {rest : List UInt8}
    (h : separatorAhead (c :: d :: e :: rest) = true) :
    weightOf (escapeSeparator e) < weight c + weight d + weight e := by
  simp only [separatorAhead, List.isPrefixOf, Bool.or_eq_true, Bool.and_eq_true, beq_iff_eq,
    and_true] at h
  rcases h with ⟨rfl, rfl, rfl⟩ | ⟨rfl, rfl, rfl⟩ <;> decide

theorem not_verbatim_cons {rest : List UInt8} (hsep : separatorAhead (c :: rest) = false)
    (h : verbatim mode (c :: rest) = false) :
    (isHTML c = true ∨ mode = .outside ∧ isSpace c = true)
      ∨ verbatim (mode.next c) rest = false := by
  by_contra hno
  simp only [not_or, not_and, Bool.not_eq_true, Bool.not_eq_false] at hno
  obtain ⟨⟨hhtml, hspace⟩, hrest⟩ := hno
  have hkept : (decide (mode = .outside) && isSpace c) = false := by
    by_cases hm : mode = .outside
    · rw [hspace hm, Bool.and_false]
    · simp [hm]
  rw [verbatim, hhtml, hsep, hkept, hrest] at h
  cases h

/-- Compaction makes no text heavier, and every text lighter that it changes. -/
theorem weightOf_compact (mode : Mode) (text : List UInt8) :
    weightOf (compact mode text) ≤ weightOf text
      ∧ (verbatim mode text = false → weightOf (compact mode text) < weightOf text) := by
  fun_induction compact mode text with
  | case1 => exact ⟨Nat.le_refl _, nofun⟩
  | case2 mode c =>
    refine ⟨weightOf_emit_le mode c, fun h => ?_⟩
    rcases not_verbatim_cons (separatorAhead_short (by simp)) h with hc | hrest
    · exact weightOf_emit_lt hc
    · cases hrest
  | case3 mode c d =>
    rw [weightOf_append, weightOf_cons, weightOf_cons]
    have hc := weightOf_emit_le mode c
    have hd := weightOf_emit_le (mode.next c) d
    refine ⟨by omega, fun h => ?_⟩
    rcases not_verbatim_cons (separatorAhead_short (by simp)) h with hlt | hrest
    · have := weightOf_emit_lt hlt
      omega
    rcases not_verbatim_cons (separatorAhead_short (by simp)) hrest with hlt | hnil
    · have := weightOf_emit_lt hlt
      omega
    · cases hnil
  | case4 mode c d e rest hsep ih =>
    rw [weightOf_append, weightOf_cons, weightOf_cons, weightOf_cons]
    have hlt := weightOf_separator hsep
    have hrest := ih.1
    exact ⟨by omega, fun _ => by omega⟩
  | case5 mode c d e rest hsep ih =>
    rw [weightOf_append, weightOf_cons c]
    have hc := weightOf_emit_le mode c
    have hrest := ih.1
    refine ⟨by omega, fun h => ?_⟩
    rcases not_verbatim_cons (by simpa using hsep) h with hlt | hnot
    · have := weightOf_emit_lt hlt
      omega
    · have := ih.2 hnot
      omega

/-- **A text comes out as it went in exactly when it is verbatim.** -/
theorem compact_eq_self_iff (mode : Mode) (text : List UInt8) :
    compact mode text = text ↔ verbatim mode text = true := by
  refine ⟨fun h => ?_, compact_verbatim mode text⟩
  by_contra hno
  have hlt := (weightOf_compact mode text).2 (by simpa using hno)
  rw [h] at hlt
  exact Nat.lt_irrefl _ hlt

end JsonText
