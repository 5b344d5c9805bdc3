/-
The functions of the Go standard library the modelled code calls.

Go strings are read as sequences of characters.  Unsigned 64-bit arithmetic is
natural-number arithmetic with Go's own overflow guards written out.

* `parseDuration`, `formatDuration`, `timeSub` — `time.ParseDuration`,
  `Duration.String` and `Time.Sub`, in nanoseconds.
-/
import Mathlib.Algebra.Ring.Int.Defs
import Mathlib.Algebra.Ring.Nat
import Mathlib.Data.Nat.Notation
import Mathlib.Data.Int.Notation
import Mathlib.Data.List.DropRight
import Mathlib.Data.List.Infix
import Mathlib.Tactic.Common

namespace GoStd

/-- `unicode.IsSpace`. -/
def isSpace (c : Char) : Bool :=
  c.toNat ∈ [0x09, 0x0A, 0x0B, 0x0C, 0x0D, 0x20, 0x85, 0xA0, 0x1680, 0x2028, 0x2029, 0x202F,
    0x205F, 0x3000] || (0x2000 ≤ c.toNat && c.toNat ≤ 0x200A)

/-- `strings.TrimSpace`. -/
def trimSpace (s : String) : String :=
  String.ofList ((s.toList.dropWhile isSpace).reverse.dropWhile isSpace).reverse

theorem trimSpace_trimSpace (s : String) : trimSpace (trimSpace s) = trimSpace s := by
  have hhead := List.head?_dropWhile_not isSpace s.toList
  have hfront : ((s.toList.dropWhile isSpace).rdropWhile isSpace).dropWhile isSpace
      = (s.toList.dropWhile isSpace).rdropWhile isSpace := by
    obtain ⟨tail, htail⟩ := List.rdropWhile_prefix isSpace (s.toList.dropWhile isSpace)
    rcases htrim : (s.toList.dropWhile isSpace).rdropWhile isSpace with _ | ⟨c, rest⟩
    · rfl
    · -- what is left begins as it did before its end was trimmed
      rw [← htail, htrim] at hhead
      exact List.dropWhile_cons_of_neg (Bool.eq_false_iff.mp hhead)
  show String.ofList ((List.dropWhile isSpace (String.toList (String.ofList
    ((s.toList.dropWhile isSpace).rdropWhile isSpace)))).rdropWhile isSpace) = _
  rw [String.toList_ofList, hfront, List.rdropWhile_idempotent]
  rfl

variable {s : String}

theorem not_space_of_any (h : s.toList.any isSpace = false) :
    ∀ c ∈ s.toList, isSpace c = false := by
  intro c hc
  exact Bool.eq_false_iff.mpr (List.any_eq_false.mp h c hc)

theorem trimSpace_of_not_space (h : ∀ c ∈ s.toList, isSpace c = false) :
    trimSpace s = s := by
  have hdrop : ∀ l : List Char, (∀ c ∈ l, isSpace c = false) → l.dropWhile isSpace = l := by
    intro l hl
    rcases l with _ | ⟨c, l⟩
    · rfl
    · exact List.dropWhile_cons_of_neg (Bool.eq_false_iff.mp (hl c List.mem_cons_self))
  rw [trimSpace, hdrop _ h, hdrop, List.reverse_reverse, String.ofList_toList]
  intro c hc
  exact h c (List.mem_reverse.mp hc)

theorem trimSpace_padded {pad pad' : String} (hpad : ∀ c ∈ pad.toList, isSpace c = true)
    (hpad' : ∀ c ∈ pad'.toList, isSpace c = true) (s : String) :
    trimSpace (pad ++ s ++ pad') = trimSpace s := by
  have hall : ∀ l : List Char, (∀ c ∈ l, isSpace c = true) → l.dropWhile isSpace = [] :=
    fun l hl => List.dropWhile_eq_nil_iff.mpr hl
  rw [trimSpace, trimSpace, String.toList_append, String.toList_append, List.append_assoc,
    List.dropWhile_append_of_pos hpad, List.dropWhile_append]
  split
  · -- nothing but blanks on both sides
    rename_i hempty
    rw [hall _ hpad', List.isEmpty_iff.mp hempty]
  · rw [List.reverse_append, List.dropWhile_append_of_pos]
    intro c hc
    exact hpad' c (List.mem_reverse.mp hc)

/-- `strings.HasPrefix`. -/
def hasHead (s head : String) : Bool :=
  head.toList.isPrefixOf s.toList

/-- `strings.TrimPrefix`. -/
def trimHead (s head : String) : String :=
  if hasHead s head then String.ofList (s.toList.drop head.length) else s

/-- `strings.HasSuffix`. -/
def hasTail (s tail : String) : Bool :=
  tail.toList.isSuffixOf s.toList

/-- `strings.TrimSuffix`. -/
def trimTail (s tail : String) : String :=
  if hasTail s tail then String.ofList (s.toList.take (s.length - tail.length)) else s

/-- `strings.Contains`. -/
def contains (s part : String) : Bool :=
  s.toList.tails.any fun t => part.toList.isPrefixOf t

theorem contains_iff_infix {part : String} :
    contains s part = true ↔ part.toList <:+: s.toList := by
  rw [contains, List.any_eq_true, List.infix_iff_prefix_suffix]
  constructor
  · rintro ⟨t, ht, hpart⟩
    exact ⟨t, List.isPrefixOf_iff_prefix.mp hpart, (List.mem_tails _ _).mp ht⟩
  · rintro ⟨t, hpart, ht⟩
    exact ⟨t, (List.mem_tails _ _).mpr ht, List.isPrefixOf_iff_prefix.mpr hpart⟩

/-- `strings.Split(s, ".")`. -/
def splitDots (s : String) : List String :=
  (s.toList.splitOn '.').map String.ofList

theorem splitDots_append (a b : String) :
    splitDots (a ++ "." ++ b) = splitDots a ++ splitDots b := by
  have hlist : (a ++ "." ++ b).toList = a.toList ++ '.' :: b.toList := by
    rw [String.toList_append, String.toList_append, List.append_assoc]
    rfl
  rw [splitDots, hlist, List.splitOn_append_cons_self, List.map_append]
  rfl

theorem splitDots_ne_nil (a : String) : splitDots a ≠ [] := by
  rw [splitDots, Ne, List.map_eq_nil_iff]
  exact List.splitOn_ne_nil _ _

theorem splitDots_of_not_mem {a : String} (h : '.' ∉ a.toList) : splitDots a = [a] := by
  rw [splitDots, List.splitOn_eq_singleton h, List.map_singleton, String.ofList_toList]

/-- `strings.Split(s, "/")`. -/
def splitSlashes (s : String) : List String :=
  (s.toList.splitOn '/').map String.ofList

/-- `strings.Trim(s, "/")`. -/
def trimSlashes (s : String) : String :=
  String.ofList ((s.toList.dropWhile (· == '/')).reverse.dropWhile (· == '/')).reverse

/-- `strconv.Quote` on text that needs no escapes. -/
def quote (s : String) : String :=
  "\"" ++ s ++ "\""

def digitValue (c : Char) : ℕ :=
  c.toNat - '0'.toNat

/-! ### Numbers and digests -/

def parseDigits (digits : List Char) : Option ℕ :=
  if digits ≠ [] ∧ digits.all Char.isDigit then
    some (digits.foldl (fun x c => x * 10 + digitValue c) 0)
  else none

/-- `strconv.ParseInt(s, 10, 64)`. -/
def parseInt (s : String) : Option ℤ :=
  match s.toList with
  | '-' :: digits =>
    (parseDigits digits).bind fun n => if n ≤ 2 ^ 63 then some (-(n : ℤ)) else none
  | '+' :: digits =>
    (parseDigits digits).bind fun n => if n ≤ 2 ^ 63 - 1 then some (n : ℤ) else none
  | digits =>
    (parseDigits digits).bind fun n => if n ≤ 2 ^ 63 - 1 then some (n : ℤ) else none

example : parseInt "+0060" = some 60 := by decide
example : parseInt "9223372036854775808" = none := by decide

variable {c : Char}

theorem toNat_of_isDigit (h : c.isDigit = true) : 48 ≤ c.toNat ∧ c.toNat ≤ 57 := by
  rw [Char.isDigit, Bool.and_eq_true, decide_eq_true_iff, decide_eq_true_iff] at h
  exact ⟨UInt32.le_iff_toNat_le.mp h.1, UInt32.le_iff_toNat_le.mp h.2⟩

theorem isSpace_of_isDigit (h : c.isDigit = true) : isSpace c = false := by
  have hrange := toNat_of_isDigit h
  simp only [isSpace, Bool.or_eq_false_iff, decide_eq_false_iff_not, Bool.and_eq_false_iff]
  constructor
  · intro hmem
    simp at hmem
    omega
  · left
    omega

theorem all_isDigit_of_parseDigits {digits : List Char} {n : ℕ}
    (h : parseDigits digits = some n) : digits.all Char.isDigit = true := by
  rw [parseDigits] at h
  split at h
  · rename_i hdigits
    exact hdigits.2
  · cases h

theorem not_space_of_parseInt {n : ℤ} (h : parseInt s = some n) :
    ∀ c ∈ s.toList, isSpace c = false := by
  have hdigits : ∀ digits : List Char, ∀ m, parseDigits digits = some m →
      ∀ c ∈ digits, isSpace c = false := by
    intro digits m hm c hc
    exact isSpace_of_isDigit (List.all_eq_true.mp (all_isDigit_of_parseDigits hm) c hc)
  rw [parseInt] at h
  split at h
  · rename_i digits heq
    obtain ⟨m, hm, _⟩ := Option.bind_eq_some_iff.mp h
    rw [heq]
    exact List.forall_mem_cons.mpr ⟨by decide, hdigits digits m hm⟩
  · rename_i digits heq
    obtain ⟨m, hm, _⟩ := Option.bind_eq_some_iff.mp h
    rw [heq]
    exact List.forall_mem_cons.mpr ⟨by decide, hdigits digits m hm⟩
  · obtain ⟨m, hm, _⟩ := Option.bind_eq_some_iff.mp h
    exact hdigits _ m hm

/-- The value `strconv.Atoi` returns, whatever its error: zero for a text that is no
number, and the nearest end of the range for a number outside it. -/
def atoi (s : String) : ℤ :=
  match s.toList with
  | '-' :: digits => -(min ((parseDigits digits).getD 0) (2 ^ 63) : ℕ)
  | '+' :: digits => (min ((parseDigits digits).getD 0) (2 ^ 63 - 1) : ℕ)
  | digits => (min ((parseDigits digits).getD 0) (2 ^ 63 - 1) : ℕ)

example : atoi "" = 0 := by decide
example : atoi "-7" = -7 := by decide

def hexValue (c : Char) : Option ℕ :=
  if c.isDigit then some (digitValue c)
  else if 'a' ≤ c ∧ c ≤ 'f' then some (c.toNat - 'a'.toNat + 10)
  else if 'A' ≤ c ∧ c ≤ 'F' then some (c.toNat - 'A'.toNat + 10)
  else none

def hexBytes : List Char → Option (List UInt8)
  | [] => some []
  | [_] => none
  | c :: d :: rest => do
    let high ← hexValue c
    let low ← hexValue d
    let bytes ← hexBytes rest
    pure (UInt8.ofNat (16 * high + low) :: bytes)

/-- `hex.DecodeString`. -/
def hexDecode (s : String) : Option (List UInt8) :=
  hexBytes s.toList

/-- `hex.EncodeToString`. -/
def hexEncode (bytes : List UInt8) : String :=
  let digit := fun n : ℕ => "0123456789abcdef".toList.getD n '0'
  String.ofList (bytes.flatMap fun b => [digit (b.toNat / 16), digit (b.toNat % 16)])

example : hexDecode "0aFF" = some [10, 255] := by decide
example : hexEncode [10, 255] = "0aff" := by decide

theorem hexValue_digit {n : ℕ} (h : n < 16) :
    hexValue ("0123456789abcdef".toList.getD n '0') = some n := by
  have hall : ∀ n < 16, hexValue ("0123456789abcdef".toList.getD n '0') = some n := by decide
  exact hall n h

theorem hexDecode_hexEncode (bytes : List UInt8) : hexDecode (hexEncode bytes) = some bytes := by
  rw [hexDecode, hexEncode, String.toList_ofList]
  induction bytes with
  | nil => rfl
  | cons b bytes ih =>
    have hb : b.toNat < 256 := b.toNat_lt
    have hbyte : UInt8.ofNat (16 * (b.toNat / 16) + b.toNat % 16) = b := by
      rw [Nat.div_add_mod, UInt8.ofNat_toNat]
    rw [List.flatMap_cons, List.cons_append, List.cons_append, List.nil_append, hexBytes,
      hexValue_digit (by omega), hexValue_digit (by omega), ih]
    simp only [Option.bind_eq_bind, Option.bind_some, hbyte]
    rfl

theorem hexEncode_inj {a b : List UInt8} (h : hexEncode a = hexEncode b) : a = b := by
  have ha := hexDecode_hexEncode a
  rw [h, hexDecode_hexEncode] at ha
  exact (Option.some.inj ha).symm

theorem length_hexEncode (bytes : List UInt8) :
    (hexEncode bytes).toList.length = 2 * bytes.length := by
  rw [hexEncode, String.toList_ofList]
  induction bytes with
  | nil => rfl
  | cons b bytes ih =>
    rw [List.flatMap_cons, List.length_append, ih]
    simp only [List.length_cons, List.length_nil]
    omega

theorem toLower_of_not_upper (h : ¬ (65 ≤ c.toNat ∧ c.toNat ≤ 90)) : c.toLower = c := by
  have hnot : ¬ ('A'.val ≤ c.val ∧ c.val ≤ 'Z'.val) := by
    rintro ⟨hlow, hhigh⟩
    exact h ⟨UInt32.le_iff_toNat_le.mp hlow, UInt32.le_iff_toNat_le.mp hhigh⟩
  exact dif_neg hnot

theorem hexValue_toLower (c : Char) : hexValue c.toLower = hexValue c := by
  by_cases hupper : 65 ≤ c.toNat ∧ c.toNat ≤ 90
  · have hall : ∀ n < 91, 65 ≤ n → hexValue (Char.ofNat n).toLower = hexValue (Char.ofNat n) := by
      decide
    rw [← Char.ofNat_toNat c]
    exact hall c.toNat (by omega) hupper.1
  · rw [toLower_of_not_upper hupper]

theorem hexBytes_toLower (l : List Char) : hexBytes (l.map Char.toLower) = hexBytes l := by
  induction l using hexBytes.induct with
  | case1 | case2 c => rfl
  | case3 c d rest ih =>
    rw [List.map_cons, List.map_cons, hexBytes, hexBytes, hexValue_toLower, hexValue_toLower, ih]

theorem hexDecode_of_toLower_eq {t : String}
    (h : s.toList.map Char.toLower = t.toList.map Char.toLower) : hexDecode s = hexDecode t := by
  rw [hexDecode, hexDecode, ← hexBytes_toLower, h, hexBytes_toLower]

theorem hexValue_of_hexDecode {bytes : List UInt8} (h : hexDecode s = some bytes) :
    ∀ c ∈ s.toList, (hexValue c).isSome = true := by
  rw [hexDecode] at h
  generalize s.toList = l at h
  induction l using hexBytes.induct generalizing bytes with
  | case1 =>
    intro c hc
    cases hc
  | case2 c => cases h
  | case3 c d rest ih =>
    rw [hexBytes] at h
    obtain ⟨high, hhigh, h⟩ := Option.bind_eq_some_iff.mp h
    obtain ⟨low, hlow, h⟩ := Option.bind_eq_some_iff.mp h
    obtain ⟨rest', hrest, _⟩ := Option.bind_eq_some_iff.mp h
    refine List.forall_mem_cons.mpr ⟨?_, List.forall_mem_cons.mpr ⟨?_, ih hrest⟩⟩
    · rw [hhigh]
      rfl
    · rw [hlow]
      rfl

theorem isSpace_of_hexValue (h : (hexValue c).isSome = true) : isSpace c = false := by
  have hrange : c.toNat < 103 := by
    rw [hexValue] at h
    split at h
    · have := toNat_of_isDigit ‹_›
      omega
    split at h
    · rename_i _ hletter
      exact Nat.lt_succ_of_le (UInt32.le_iff_toNat_le.mp hletter.2)
    split at h
    · rename_i _ _ hletter
      exact (UInt32.le_iff_toNat_le.mp hletter.2).trans_lt (by decide)
    · cases h
  have hall : ∀ n < 103, (hexValue (Char.ofNat n)).isSome = true →
      isSpace (Char.ofNat n) = false := by decide
  rw [← Char.ofNat_toNat c] at h ⊢
  exact hall c.toNat hrange h

/-! ### `time.Duration` -/

/-- `Time.Sub`: the difference of two instants, cut to the range of a
`time.Duration`. -/
def timeSub (t u : ℤ) : ℤ :=
  max (-2 ^ 63) (min (2 ^ 63 - 1) (t - u))

/-- `leadingInt`: the digits at the front of `s`, accumulated into `x`; `none`
on overflow of 2⁶³. -/
def leadingInt : List Char → ℕ → Option (ℕ × List Char)
  | [], x => some (x, [])
  | c :: s, x =>
    if c.isDigit then
      if x > 2 ^ 63 / 10 then none
      else if x * 10 + digitValue c > 2 ^ 63 then none
      else leadingInt s (x * 10 + digitValue c)
    else some (x, c :: s)

/-- `leadingFraction`: the digits after a decimal point as `(f, scale, rest)`;
digits that no longer fit are dropped. -/
def leadingFraction : List Char → ℕ → ℕ → Bool → ℕ × ℕ × List Char
  | [], x, scale, _ => (x, scale, [])
  | c :: s, x, scale, overflow =>
    if c.isDigit then
      if overflow || x > (2 ^ 63 - 1) / 10 || x * 10 + digitValue c > 2 ^ 63 then
        leadingFraction s x scale true
      else leadingFraction s (x * 10 + digitValue c) (scale * 10) false
    else (x, scale, c :: s)

/-- `unitMap`, in nanoseconds. -/
def unitMap (u : String) : Option ℕ :=
  if u = "ns" then some 1
  else if u = "us" ∨ u = "µs" ∨ u = "μs" then some 1000
  else if u = "ms" then some 1000000
  else if u = "s" then some 1000000000
  else if u = "m" then some (60 * 1000000000)
  else if u = "h" then some (3600 * 1000000000)
  else none

def isUnitChar (c : Char) : Bool :=
  !(c == '.' || c.isDigit)

/-- The loop of `time.ParseDuration` over terms such as `1.5h`, with the total
`d` so far.  The first argument bounds the number of terms: each consumes at
least one character.  The fraction `f·unit/scale`, which Go computes in
floating point, is taken exactly and truncated. -/
def durationTerms : ℕ → List Char → ℕ → Option ℕ
  | _, [], d => some d
  | 0, _ :: _, _ => none
  | fuel + 1, c :: s, d =>
    if isUnitChar c then none
    else do
      let (v, afterInt) ← leadingInt (c :: s) 0
      let pre := afterInt.length ≠ (c :: s).length
      let (f, scale, rest, post) :=
        match afterInt with
        | '.' :: digits =>
          let (f, scale, rest) := leadingFraction digits 0 1 false
          (f, scale, rest, decide (rest.length ≠ digits.length))
        | _ => (0, 1, afterInt, false)
      if ¬pre ∧ post = false then none
      else do
        let unit ← unitMap (String.ofList (rest.takeWhile isUnitChar))
        if v > 2 ^ 63 / unit then none
        else
          let v := v * unit + f * unit / scale
          if v > 2 ^ 63 then none
          else if d + v > 2 ^ 63 then none
          else durationTerms fuel (rest.dropWhile isUnitChar) (d + v)

/-- `time.ParseDuration`, in nanoseconds. -/
def parseDuration (s : String) : Option ℤ :=
  let (neg, body) :=
    match s.toList with
    | '-' :: body => (true, body)
    | '+' :: body => (false, body)
    | body => (false, body)
  if body = ['0'] then some 0
  else if body = [] then none
  else do
    let d ← durationTerms body.length body 0
    if neg then some (-d)
    else if d > 2 ^ 63 - 1 then none
    else some d

example : parseDuration "1h15m30.918s" = some 4530918000000 := by decide
example : parseDuration "30" = none := by decide

/-- `fmtFrac`: the fraction `v / 10 ^ prec` without trailing zeros. -/
def fractionText (v prec : ℕ) : String :=
  let digits := (toString (10 ^ prec + v % 10 ^ prec)).toList.drop 1
  let kept := (digits.reverse.dropWhile (· == '0')).reverse
  if kept = [] then "" else "." ++ String.ofList kept

/-- `Duration.String`. -/
def formatDuration (d : ℤ) : String :=
  let u := d.natAbs
  let sign := if d < 0 then "-" else ""
  if u = 0 then "0s"
  else if u < 1000 then sign ++ toString u ++ "ns"
  else if u < 1000000 then sign ++ toString (u / 1000) ++ fractionText u 3 ++ "µs"
  else if u < 1000000000 then sign ++ toString (u / 1000000) ++ fractionText u 6 ++ "ms"
  else
    let seconds := u / 1000000000
    let minutes := seconds / 60
    let hours := minutes / 60
    let tail := toString (seconds % 60) ++ fractionText u 9 ++ "s"
    if minutes = 0 then sign ++ tail
    else if hours = 0 then sign ++ toString (minutes % 60) ++ "m" ++ tail
    else sign ++ toString hours ++ "h" ++ toString (minutes % 60) ++ "m" ++ tail

/-- `int(d.Seconds())`. -/
def wholeSeconds (d : ℤ) : ℤ :=
  d.tdiv 1000000000

end GoStd
