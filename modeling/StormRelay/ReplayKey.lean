/-
Replay keys (`internal/ingestion/replay_key.go`).

The key of a signed request is the trimmed source identifier, the timestamp as a
number and the digest in lower case, joined with colons.  The identifier may hold
colons of its own; the two other parts cannot, so the key is cut from its end.

* `replay_key_canonical` — every request `Verify` accepts has a key, and two keys
  agree exactly when the three values do.
-/
import StormRelay.Ingestion
import StormRelay.Separators

namespace StormRelay.Ingestion

open GoStd

theorem canonicalHMACReplayKey_eq_ok {sourceID timestamp signature key : String} :
    canonicalHMACReplayKey sourceID timestamp signature = .ok key ↔
      trimSpace sourceID ≠ "" ∧ ∃ unix digest, signedTimestamp timestamp = some unix
        ∧ signatureDigest signature = some digest ∧ digest.length = 32
        ∧ key = trimSpace sourceID ++ ":" ++ toString unix ++ ":"
          ++ hexEncode digest := by
  rw [canonicalHMACReplayKey]
  by_cases hid : trimSpace sourceID = ""
  · rw [if_pos hid]
    constructor
    · intro h
      cases h
    · rintro ⟨hne, _⟩
      exact absurd hid hne
  rw [if_neg hid]
  rcases ht : signedTimestamp timestamp with _ | unix
  · constructor
    · intro h
      cases h
    · rintro ⟨_, _, _, h, _⟩
      cases h
  rcases hg : signatureDigest signature with _ | digest
  · constructor
    · intro h
      cases h
    · rintro ⟨_, _, _, _, h, _⟩
      cases h
  by_cases hlen : digest.length = 32
  · simp only [hlen, ne_eq, not_true_eq_false, if_false]
    constructor
    · intro h
      exact ⟨hid, unix, digest, rfl, rfl, hlen, (Except.ok.inj h).symm⟩
    · rintro ⟨_, _, _, ⟨⟩, ⟨⟩, _, rfl⟩
      rfl
  simp only [hlen, ne_eq, not_false_eq_true, if_true]
  constructor
  · intro h
    cases h
  · rintro ⟨_, _, _, _, ⟨⟩, h, _⟩
    exact absurd h hlen

/-- **The three parts of a key.**  Digest texts of equal length end together, and
the number before them has no colon. -/
theorem replayText_inj {id id' : String} {n n' : ℤ} {d d' : List UInt8}
    (hlen : d.length = d'.length)
    (h : id ++ ":" ++ toString n ++ ":" ++ hexEncode d
      = id' ++ ":" ++ toString n' ++ ":" ++ hexEncode d') :
    id = id' ∧ n = n' ∧ d = d' := by
  have hcolon : ∀ m : ℤ, ':' ∉ (toString m).toList := by
    intro m hmem
    rcases Separators.mem_toString_int hmem with hminus | hdigit
    · exact absurd hminus (by decide)
    · exact absurd hdigit (by decide)
  have hlist := congrArg String.toList h
  simp only [String.toList_append] at hlist
  have hends : (hexEncode d).toList.length = (hexEncode d').toList.length := by
    rw [length_hexEncode, length_hexEncode, hlen]
  obtain ⟨hhead, hdigest⟩ := List.append_inj' hlist hends
  have hparts := (List.append_inj' hhead rfl).1
  rw [List.append_assoc, List.append_assoc] at hparts
  obtain ⟨hid, hnumber⟩ := Separators.cut_inj_right
    (Separators.count_eq_of_not_mem (hcolon n) (hcolon n')) hparts
  exact ⟨String.toList_inj.mp hid, Separators.toString_int_inj (String.toList_inj.mp hnumber),
    hexEncode_inj (String.toList_inj.mp hdigest)⟩

/-! ### The spellings of a header -/

/-- A text of blanks. -/
def Blank (s : String) : Prop :=
  ∀ c ∈ s.toList, isSpace c = true

instance (s : String) : Decidable (Blank s) :=
  List.decidableBAll (fun c => isSpace c = true) s.toList

/-- A non-empty text of decimal digits. -/
def Digits (s : String) : Prop :=
  s ≠ "" ∧ s.toList.all Char.isDigit = true

instance (s : String) : Decidable (Digits s) :=
  inferInstanceAs (Decidable (_ ∧ _))

theorem parseDigits_zeros {zeros digits : List Char} (hzeros : ∀ c ∈ zeros, c = '0')
    (hne : digits ≠ []) (hdigits : digits.all Char.isDigit = true) :
    parseDigits (zeros ++ digits) = parseDigits digits := by
  have hall : (zeros ++ digits).all Char.isDigit = true := by
    rw [List.all_append, hdigits, Bool.and_true, List.all_eq_true]
    intro c hc
    rw [hzeros c hc]
    rfl
  have hzero : zeros.foldl (fun x c => x * 10 + digitValue c) 0 = 0 := by
    induction zeros with
    | nil => rfl
    | cons c zeros ih =>
      obtain ⟨rfl, hrest⟩ := List.forall_mem_cons.mp hzeros
      exact ih hrest (by simpa using hall)
  rw [parseDigits, parseDigits, if_pos ⟨List.append_ne_nil_of_right_ne_nil _ hne, hall⟩,
    if_pos ⟨hne, hdigits⟩, List.foldl_append, hzero]

theorem parseInt_plus (text : String) :
    parseInt ("+" ++ text)
      = (parseDigits text.toList).bind fun n =>
          if n ≤ 2 ^ 63 - 1 then some (n : ℤ) else none := by
  rw [parseInt, String.toList_append]
  rfl

theorem parseInt_minus (text : String) :
    parseInt ("-" ++ text)
      = (parseDigits text.toList).bind fun n =>
          if n ≤ 2 ^ 63 then some (-(n : ℤ)) else none := by
  rw [parseInt, String.toList_append]
  rfl

theorem parseInt_unsigned {digits : String} (h : Digits digits) :
    parseInt digits = parseInt ("+" ++ digits) := by
  have hsign : ∀ c rest, digits.toList = c :: rest → c.isDigit = true := by
    intro c rest heq
    have hall := h.2
    rw [heq] at hall
    exact List.all_eq_true.mp hall c List.mem_cons_self
  rw [parseInt_plus, parseInt]
  split
  · rename_i rest heq
    exact absurd (hsign _ _ heq) (by decide)
  · rename_i rest heq
    exact absurd (hsign _ _ heq) (by decide)
  · rfl

theorem Digits.zeros {zeros digits : String} (hzeros : ∀ c ∈ zeros.toList, c = '0')
    (h : Digits digits) : Digits (zeros ++ digits) := by
  refine ⟨fun hempty => h.1 (String.append_eq_empty_iff.mp hempty).2, ?_⟩
  rw [String.toList_append, List.all_append, h.2, Bool.and_true, List.all_eq_true]
  intro c hc
  rw [hzeros c hc]
  rfl

/-- The signs a timestamp may begin with, and the one that counts. -/
def signs : List (String × String) :=
  [("", ""), ("+", ""), ("-", "-")]

theorem trimSpace_digits {sign sign' digits : String} (hsign : (sign, sign') ∈ signs)
    (h : Digits digits) : trimSpace (sign ++ digits) = sign ++ digits
      ∧ trimSpace (sign' ++ digits) = sign' ++ digits := by
  have htrim : ∀ sign : String, (∀ c ∈ sign.toList, isSpace c = false) →
      trimSpace (sign ++ digits) = sign ++ digits := by
    intro sign hsign
    refine trimSpace_of_not_space fun c hc => ?_
    rw [String.toList_append] at hc
    rcases List.mem_append.mp hc with hc | hc
    · exact hsign c hc
    · exact isSpace_of_isDigit (List.all_eq_true.mp h.2 c hc)
  have hsigns : ∀ pair ∈ signs, pair.1.toList.any isSpace = false
      ∧ pair.2.toList.any isSpace = false := by decide
  obtain ⟨hplain, hplain'⟩ := hsigns _ hsign
  exact ⟨htrim sign (not_space_of_any hplain), htrim sign' (not_space_of_any hplain')⟩

/-- **Spellings of a timestamp**: blanks around it, a plus sign and leading zeros do
not change its value. -/
theorem signedTimestamp_spelled {pad pad' sign sign' zeros digits : String} (hpad : Blank pad)
    (hpad' : Blank pad') (hsign : (sign, sign') ∈ signs) (hzeros : ∀ c ∈ zeros.toList, c = '0')
    (hdigits : Digits digits) :
    signedTimestamp (pad ++ (sign ++ (zeros ++ digits)) ++ pad')
      = signedTimestamp (sign' ++ digits) := by
  have hvalue : parseDigits (zeros ++ digits).toList = parseDigits digits.toList := by
    rw [String.toList_append]
    exact parseDigits_zeros hzeros (fun h => hdigits.1 (String.toList_eq_nil_iff.mp h)) hdigits.2
  rw [signedTimestamp, signedTimestamp, trimSpace_padded hpad hpad',
    (trimSpace_digits hsign (hdigits.zeros hzeros)).1, (trimSpace_digits hsign hdigits).2]
  have hplus : parseInt ("+" ++ (zeros ++ digits)) = parseInt ("+" ++ digits) := by
    rw [parseInt_plus, parseInt_plus, hvalue]
  have hminus : parseInt ("-" ++ (zeros ++ digits)) = parseInt ("-" ++ digits) := by
    rw [parseInt_minus, parseInt_minus, hvalue]
  simp only [signs, List.mem_cons, List.not_mem_nil, or_false, Prod.mk.injEq] at hsign
  rcases hsign with ⟨rfl, rfl⟩ | ⟨rfl, rfl⟩ | ⟨rfl, rfl⟩
  · rw [String.empty_append, String.empty_append, parseInt_unsigned (hdigits.zeros hzeros), hplus,
      ← parseInt_unsigned hdigits]
  · rw [String.empty_append, hplus, ← parseInt_unsigned hdigits]
  · exact hminus

/-- The tag of a signature is cut off once, and digits do not look like one. -/
theorem trimHead_tagged {tag hex : String} {digest : List UInt8} (htag : tag ∈ ["", "sha256="])
    (hhex : hexDecode hex = some digest) : trimHead (tag ++ hex) "sha256=" = hex := by
  simp only [List.mem_cons, List.not_mem_nil, or_false] at htag
  rcases htag with rfl | rfl
  · rw [String.empty_append, trimHead, if_neg]
    intro hhead
    obtain ⟨rest, hrest⟩ := List.isPrefixOf_iff_prefix.mp hhead
    have hfirst : 's' ∈ hex.toList := hrest ▸ List.mem_append_left _ (by decide)
    exact absurd (hexValue_of_hexDecode hhex 's' hfirst) (by decide)
  have hlist : ("sha256=" ++ hex).toList = "sha256=".toList ++ hex.toList := String.toList_append
  have hhead : hasHead ("sha256=" ++ hex) "sha256=" = true := by
    rw [hasHead, hlist]
    exact List.isPrefixOf_iff_prefix.mpr (List.prefix_append _ _)
  rw [trimHead, if_pos hhead, hlist]
  exact String.ofList_toList

/-- **Spellings of a signature**: blanks around it, the `sha256=` tag and the case of
the digits do not change its digest. -/
theorem signatureDigest_spelled {pad pad' tag hex hex' : String} (hpad : Blank pad)
    (hpad' : Blank pad') (htag : tag ∈ ["", "sha256="])
    (hcase : hex'.toList.map Char.toLower = hex.toList.map Char.toLower)
    (hhex : (hexDecode hex).isSome = true) :
    signatureDigest (pad ++ (tag ++ hex') ++ pad') = signatureDigest hex := by
  obtain ⟨digest, hdigest⟩ := Option.isSome_iff_exists.mp hhex
  have hdigest' : hexDecode hex' = some digest :=
    (hexDecode_of_toLower_eq hcase).trans hdigest
  have htags : ∀ tag ∈ ["", "sha256="], tag.toList.any isSpace = false := by decide
  have htrim : ∀ tag ∈ ["", "sha256="], ∀ text, hexDecode text = some digest →
      trimSpace (tag ++ text) = tag ++ text := by
    intro tag htag text htext
    refine trimSpace_of_not_space fun c hc => ?_
    rw [String.toList_append] at hc
    rcases List.mem_append.mp hc with hc | hc
    · exact not_space_of_any (htags tag htag) c hc
    · exact isSpace_of_hexValue (hexValue_of_hexDecode htext c hc)
  have hplain : signatureDigest hex = some digest := by
    have huntagged : trimHead ("" ++ hex) "sha256=" = hex :=
      trimHead_tagged (by decide) hdigest
    have hblank := htrim "" (by decide) hex hdigest
    rw [String.empty_append] at huntagged hblank
    rw [signatureDigest, hblank, huntagged, hdigest]
  rw [hplain, signatureDigest, trimSpace_padded hpad hpad', htrim tag htag hex' hdigest',
    trimHead_tagged htag hdigest', hdigest']

/-! ### Keys are canonical and complete -/

theorem verify_hmac {crypto : Crypto} {x : VerifyInput} (hmode : x.credentials.mode = .hmac)
    (h : verify crypto x = .ok ()) :
    ∃ unix, parseInt x.timestamp = some unix
      ∧ signatureDigest x.signature
        = some (crypto.hmacSHA256 x.credentials.hmacSecret (signedBytes x.timestamp x.body)) := by
  rw [verify, hmode] at h
  rcases hparse : parseInt x.timestamp with _ | unix
  · rw [hparse] at h
    cases h
  rw [hparse] at h
  simp only at h
  split at h
  · cases h
  rcases hdigest : signatureDigest x.signature with _ | digest
  · rw [hdigest] at h
    cases h
  rw [hdigest] at h
  simp only at h
  split at h
  · rename_i heq
    exact ⟨unix, rfl, congrArg some heq⟩
  · cases h

/-- **Replay keys are canonical and complete.**  Every request that `Verify` accepts
in HMAC mode for a source with a non-blank identifier has a key.  Two keys are equal
if and only if the trimmed identifiers, the timestamp values and the digests are.
So blanks, a plus sign, leading zeros, the `sha256=` tag and the case of the digits
never matter. -/
theorem replay_key_canonical (crypto : Crypto)
    (hsize : ∀ secret message, (crypto.hmacSHA256 secret message).length = 32) :
    (∀ (sourceID : String) (x : VerifyInput), x.credentials.mode = .hmac →
        verify crypto x = .ok () → trimSpace sourceID ≠ "" →
        ∃ key, canonicalHMACReplayKey sourceID x.timestamp x.signature = .ok key)
      ∧ (∀ id t g id' t' g' key key' : String, canonicalHMACReplayKey id t g = .ok key →
          canonicalHMACReplayKey id' t' g' = .ok key' →
          (key = key' ↔ trimSpace id = trimSpace id'
            ∧ signedTimestamp t = signedTimestamp t' ∧ signatureDigest g = signatureDigest g'))
      ∧ ∀ pad pad' id sign sign' zeros digits tag hex hex' : String, Blank pad → Blank pad' →
          (sign, sign') ∈ signs → (∀ c ∈ zeros.toList, c = '0') → Digits digits →
          tag ∈ ["", "sha256="] →
          hex'.toList.map Char.toLower = hex.toList.map Char.toLower →
          (hexDecode hex).isSome = true →
          canonicalHMACReplayKey (pad ++ id ++ pad') (pad ++ (sign ++ (zeros ++ digits)) ++ pad')
              (pad ++ (tag ++ hex') ++ pad')
            = canonicalHMACReplayKey id (sign' ++ digits) hex := by
  refine ⟨?_, ?_, ?_⟩
  · intro sourceID x hmode haccept hid
    obtain ⟨unix, hparse, hdigest⟩ := verify_hmac hmode haccept
    -- what the first parser accepts has no blanks, so the second one reads the same
    have hsigned : signedTimestamp x.timestamp = some unix := by
      rw [signedTimestamp, trimSpace_of_not_space (not_space_of_parseInt hparse),
        hparse]
    exact ⟨_, canonicalHMACReplayKey_eq_ok.mpr
      ⟨hid, unix, _, hsigned, hdigest, hsize _ _, rfl⟩⟩
  · intro id t g id' t' g' key key' h h'
    obtain ⟨_, unix, digest, ht, hg, hlen, rfl⟩ := canonicalHMACReplayKey_eq_ok.mp h
    obtain ⟨_, unix', digest', ht', hg', hlen', rfl⟩ := canonicalHMACReplayKey_eq_ok.mp h'
    rw [ht, ht', hg, hg', Option.some_inj, Option.some_inj]
    constructor
    · intro hkeys
      exact replayText_inj (hlen.trans hlen'.symm) hkeys
    · rintro ⟨hid, rfl, rfl⟩
      rw [hid]
  intro pad pad' id sign sign' zeros digits tag hex hex' hpad hpad' hsign hzeros hdigits htag
    hcase hhex
  rw [canonicalHMACReplayKey, canonicalHMACReplayKey, trimSpace_padded hpad hpad',
    signedTimestamp_spelled hpad hpad' hsign hzeros hdigits,
    signatureDigest_spelled hpad hpad' htag hcase hhex]

def zeroSigned : VerifyInput where
  credentials := { mode := .hmac, hmacSecret := [], bearerHash := [] }
  body := []
  signature := String.ofList (List.replicate 64 '0')
  authorization := ""
  timestamp := "60"
  now := unixTime 60
  replayWindow := 0

/-- It has a key, and a padded spelling of it has the same one. -/
theorem replay_key_canonical_zero :
    (∃ key, canonicalHMACReplayKey "s" zeroSigned.timestamp zeroSigned.signature = .ok key)
      ∧ canonicalHMACReplayKey (" " ++ "s" ++ "") (" " ++ ("+" ++ ("0" ++ "60")) ++ "")
          (" " ++ ("sha256=" ++ "aB") ++ "")
        = canonicalHMACReplayKey "s" ("" ++ "60") "Ab" := by
  have hcanonical := replay_key_canonical
    { hmacSHA256 := fun _ _ => List.replicate 32 0, hashSecret := fun _ => [] } (fun _ _ => rfl)
  refine ⟨hcanonical.1 "s" zeroSigned rfl (by decide +kernel) (by decide), ?_⟩
  exact hcanonical.2.2 " " "" "s" "+" "" "0" "60" "sha256=" "Ab" "aB" (by decide +kernel)
    (by decide +kernel) (by decide) (by simp) (by decide +kernel) (by decide) (by decide)
    (by decide)

end StormRelay.Ingestion
