/-
Unpadded base64 over the URL alphabet (`encoding/base64`, `RawURLEncoding`).

Three bytes are written as four digits of six bits; a rest of one or two bytes takes two
or three digits.  The decoder skips line breaks, as Go's does, and ignores the unused
bits of a shortened last group.

* `decode_encode` — **decoding what was encoded gives the bytes back**;
* `mem_alphabet_of_mem_encode`, `mem_of_decode` — no other character occurs in an encoded
  text, and none but line breaks in a text that decodes.
-/
import Mathlib.Data.Nat.Notation
import Mathlib.Tactic.Common

namespace Base64

def alphabet : List Char :=
  "ABCDEFGHIJKLMNOPQRSTUVWXYZabcdefghijklmnopqrstuvwxyz0123456789-_".toList

def digit (n : ℕ) : Char :=
  alphabet.getD n 'A'

def sextet (c : Char) : Option ℕ :=
  alphabet.findIdx? (· == c)

def digits : List UInt8 → List ℕ
  | [] => []
  | [x] => [x.toNat / 4, x.toNat % 4 * 16]
  | [x, y] => [x.toNat / 4, x.toNat % 4 * 16 + y.toNat / 16, y.toNat % 16 * 4]
  | x :: y :: z :: rest =>
    x.toNat / 4 :: (x.toNat % 4 * 16 + y.toNat / 16) :: (y.toNat % 16 * 4 + z.toNat / 64)
      :: z.toNat % 64 :: digits rest

def bytes : List ℕ → Option (List UInt8)
  | [] => some []
  | [_] => none
  | [a, b] => some [UInt8.ofNat (a * 4 + b / 16)]
  | [a, b, c] => some [UInt8.ofNat (a * 4 + b / 16), UInt8.ofNat (b % 16 * 16 + c / 4)]
  | a :: b :: c :: d :: rest =>
    (bytes rest).map fun tail =>
      UInt8.ofNat (a * 4 + b / 16) :: UInt8.ofNat (b % 16 * 16 + c / 4)
        :: UInt8.ofNat (c % 4 * 64 + d) :: tail

/-- `EncodeToString`. -/
def encode (data : List UInt8) : String :=
  String.ofList ((digits data).map digit)

def isBreak (c : Char) : Bool :=
  c == '\r' || c == '\n'

/-- `DecodeString`. -/
def decode (text : String) : Option (List UInt8) :=
  ((text.toList.filter fun c => !isBreak c).mapM sextet).bind bytes

example : encode [0xFB, 0xEF, 0xBE, 0x01] = "----AQ" := by decide
example : decode "--\n--AQ" = some [0xFB, 0xEF, 0xBE, 0x01] := by decide
example : decode "AAAAA" = none := by decide

/-! ### The round trip -/

theorem sextet_digit {n : ℕ} (hn : n < 64) :
    sextet (digit n) = some n ∧ isBreak (digit n) = false := by
  have h : ∀ i : Fin 64,
      sextet (digit i.val) = some i.val ∧ isBreak (digit i.val) = false := by
    decide +kernel
  exact h ⟨n, hn⟩

theorem lt_of_mem_digits (data : List UInt8) : ∀ n ∈ digits data, n < 64 := by
  induction data using digits.induct with
  | case1 => exact List.forall_mem_nil _
  | case2 x =>
    have hx := x.toNat_lt
    simp only [digits, List.forall_mem_cons]
    exact ⟨by omega, by omega, List.forall_mem_nil _⟩
  | case3 x y =>
    have hx := x.toNat_lt
    have hy := y.toNat_lt
    simp only [digits, List.forall_mem_cons]
    exact ⟨by omega, by omega, by omega, List.forall_mem_nil _⟩
  | case4 x y z rest ih =>
    have hx := x.toNat_lt
    have hy := y.toNat_lt
    have hz := z.toNat_lt
    simp only [digits, List.forall_mem_cons]
    exact ⟨by omega, by omega, by omega, by omega, ih⟩

theorem ofNat_eq_of_toNat {n : ℕ} {x : UInt8} (h : n = x.toNat) : UInt8.ofNat n = x := by
  rw [h, UInt8.ofNat_toNat]

theorem bytes_digits (data : List UInt8) : bytes (digits data) = some data := by
  induction data using digits.induct with
  | case1 => rfl
  | case2 x =>
    have hx := x.toNat_lt
    have h1 : UInt8.ofNat (x.toNat / 4 * 4 + x.toNat % 4 * 16 / 16) = x :=
      ofNat_eq_of_toNat (by omega)
    simp only [digits, bytes, h1]
  | case3 x y =>
    have hx := x.toNat_lt
    have hy := y.toNat_lt
    have h1 : UInt8.ofNat (x.toNat / 4 * 4 + (x.toNat % 4 * 16 + y.toNat / 16) / 16) = x :=
      ofNat_eq_of_toNat (by omega)
    have h2 : UInt8.ofNat ((x.toNat % 4 * 16 + y.toNat / 16) % 16 * 16
        + y.toNat % 16 * 4 / 4) = y :=
      ofNat_eq_of_toNat (by omega)
    simp only [digits, bytes, h1, h2]
  | case4 x y z rest ih =>
    have hx := x.toNat_lt
    have hy := y.toNat_lt
    have hz := z.toNat_lt
    have h1 : UInt8.ofNat (x.toNat / 4 * 4 + (x.toNat % 4 * 16 + y.toNat / 16) / 16) = x :=
      ofNat_eq_of_toNat (by omega)
    have h2 : UInt8.ofNat ((x.toNat % 4 * 16 + y.toNat / 16) % 16 * 16
        + (y.toNat % 16 * 4 + z.toNat / 64) / 4) = y :=
      ofNat_eq_of_toNat (by omega)
    have h3 : UInt8.ofNat ((y.toNat % 16 * 4 + z.toNat / 64) % 4 * 64 + z.toNat % 64) = z :=
      ofNat_eq_of_toNat (by omega)
    simp only [digits, bytes, ih, Option.map_some, h1, h2, h3]

theorem mapM_sextet_digit {ns : List ℕ} (h : ∀ n ∈ ns, n < 64) :
    (ns.map digit).mapM sextet = some ns := by
  induction ns with
  | nil => rfl
  | cons n ns ih =>
    obtain ⟨hn, hns⟩ := List.forall_mem_cons.mp h
    rw [List.map_cons, List.mapM_cons, (sextet_digit hn).1, ih hns]
    rfl

/-- **Decoding what was encoded gives the bytes back.** -/
theorem decode_encode (data : List UInt8) : decode (encode data) = some data := by
  have hlt := lt_of_mem_digits data
  have hbreaks : ((digits data).map digit).filter (fun c => !isBreak c)
      = (digits data).map digit := by
    refine List.filter_eq_self.mpr fun c hc => ?_
    obtain ⟨n, hn, rfl⟩ := List.mem_map.mp hc
    rw [(sextet_digit (hlt n hn)).2]
    rfl
  rw [decode, encode, String.toList_ofList, hbreaks, mapM_sextet_digit hlt, Option.bind_some,
    bytes_digits]

variable {data : List UInt8}

theorem mem_alphabet_of_mem_encode {c : Char} (h : c ∈ (encode data).toList) :
    c ∈ alphabet := by
  rw [encode, String.toList_ofList] at h
  obtain ⟨n, hn, rfl⟩ := List.mem_map.mp h
  have hlt : n < alphabet.length := lt_of_mem_digits data n hn
  rw [digit, List.getD_eq_getElem?_getD, List.getElem?_eq_getElem hlt, Option.getD_some]
  exact List.getElem_mem hlt

theorem mem_of_decode {text : String} (h : decode text = some data) :
    ∀ c ∈ text.toList, c ∈ alphabet ∨ isBreak c = true := by
  have hread : ∀ {l : List Char} {ns : List ℕ}, l.mapM sextet = some ns →
      ∀ c ∈ l, ∃ n, sextet c = some n := by
    intro l
    induction l with
    | nil => exact fun _ => List.forall_mem_nil _
    | cons c l ih =>
      intro ns hns
      rw [List.mapM_cons] at hns
      obtain ⟨n, hn, hns⟩ := Option.bind_eq_some_iff.mp hns
      obtain ⟨rest, hrest, -⟩ := Option.bind_eq_some_iff.mp hns
      exact List.forall_mem_cons.mpr ⟨⟨n, hn⟩, ih hrest⟩
  obtain ⟨ns, hns, -⟩ := Option.bind_eq_some_iff.mp h
  intro c hc
  by_cases hbreak : isBreak c = true
  · exact .inr hbreak
  obtain ⟨n, hn⟩ := hread hns c (List.mem_filter.mpr ⟨hc, by simpa using hbreak⟩)
  obtain ⟨hlt, heq, -⟩ := List.findIdx?_eq_some_iff_getElem.mp hn
  rw [← beq_iff_eq.mp heq]
  exact .inl (List.getElem_mem hlt)

theorem encode_eq_empty_iff : encode data = "" ↔ data = [] := by
  constructor
  · intro h
    have hback := decode_encode data
    rw [h] at hback
    exact (Option.some.inj hback).symm
  · rintro rfl
    rfl

end Base64
