/-
Service-account credentials (`newServiceAccountCredential` and
`serviceAccountKeyPrefix` in `internal/storage/service_accounts.go`).

A credential is `srk_`, the stored prefix in hexadecimal, an underscore and the secret
in unpadded base64url.  The underscore is a digit of base64url too; the credential is
split at its first two only.

* `serviceAccountKey_parses` — **the texts that are accepted**: the secret part may hold
  line breaks besides the digits of base64url.
-/
import StormRelay.Base64
import StormRelay.GoStd
import StormRelay.Separators

namespace StormRelay.ServiceKey

open GoStd Separators

/-- `newServiceAccountCredential` on the random bytes it has read: the credential, the
stored prefix and the stored hash. -/
def newServiceAccountCredential (sha256 : String → List UInt8) (prefixBytes : Vector UInt8 8)
    (secretBytes : Vector UInt8 32) : String × String × List UInt8 :=
  let key := hexEncode prefixBytes.toList
  let credential := "srk_" ++ key ++ "_" ++ Base64.encode secretBytes.toList
  (credential, key, sha256 credential)

/-- `serviceAccountKeyPrefix`. -/
def serviceAccountKeyPrefix (credential : String) : Option String :=
  match (splitN '_' 3 credential.toList).map String.ofList with
  | [tag, key, text] =>
    if tag ≠ "srk" ∨ key.utf8ByteSize ≠ 16 then none
    else
      match hexDecode key, Base64.decode text with
      | some _, some secret => if secret.length ≠ 32 then none else some key
      | _, _ => none
  | _ => none

/-! ### Hexadecimal texts -/

def Hex (s : String) : Prop :=
  ∀ c ∈ s.toList, (hexValue c).isSome = true

theorem toNat_lt_of_hexValue {c : Char} (h : (hexValue c).isSome = true) : c.toNat < 128 := by
  have hle : ∀ {a b : Char}, a ≤ b → a.toNat ≤ b.toNat := fun h => UInt32.le_iff_toNat_le.mp h
  rw [hexValue] at h
  split at h
  · rename_i hdigit
    have hrange := toNat_of_isDigit hdigit
    omega
  split at h
  · rename_i hlower
    exact (hle hlower.2).trans_lt (by decide)
  split at h
  · rename_i hupper
    exact (hle hupper.2).trans_lt (by decide)
  · cases h

variable {key s : String}

theorem Hex.utf8ByteSize_eq (h : Hex s) : s.utf8ByteSize = s.toList.length := by
  obtain ⟨l, rfl⟩ : ∃ l, s = String.ofList l := ⟨s.toList, String.ofList_toList.symm⟩
  rw [Hex, String.toList_ofList] at h
  rw [String.toList_ofList]
  induction l with
  | nil => rfl
  | cons c l ih =>
    obtain ⟨hc, hl⟩ := List.forall_mem_cons.mp h
    have hsize : c.utf8Size = 1 :=
      Char.utf8Size_eq_one_iff.mpr (UInt32.le_iff_toNat_le.mpr
        (Nat.le_of_lt_succ (toNat_lt_of_hexValue hc)))
    rw [String.ofList_cons, String.utf8ByteSize_append, String.utf8ByteSize_singleton, hsize,
      ih hl, List.length_cons, Nat.add_comm]

theorem Hex.not_mem_underscore (h : Hex s) : '_' ∉ s.toList :=
  fun hmem => absurd (h '_' hmem) (by decide)

theorem hex_hexEncode (bytes : List UInt8) : Hex (hexEncode bytes) :=
  hexValue_of_hexDecode (hexDecode_hexEncode bytes)

theorem hexDecode_of_hex (h : Hex s) (heven : s.toList.length % 2 = 0) :
    (hexDecode s).isSome = true := by
  rw [Hex] at h
  rw [hexDecode]
  generalize s.toList = l at h heven
  induction l using hexBytes.induct with
  | case1 => rfl
  | case2 c => cases heven
  | case3 c d rest ih =>
    obtain ⟨hc, hd, hrest⟩ := by simpa only [List.forall_mem_cons] using h
    have htail : rest.length % 2 = 0 := by
      rw [List.length_cons, List.length_cons] at heven
      omega
    obtain ⟨high, hhigh⟩ := Option.isSome_iff_exists.mp hc
    obtain ⟨low, hlow⟩ := Option.isSome_iff_exists.mp hd
    obtain ⟨bytes, hbytes⟩ := Option.isSome_iff_exists.mp (ih hrest htail)
    rw [hexBytes, hhigh, hlow, hbytes]
    rfl

/-! ### What is accepted -/

/-- The three parts of an accepted text. -/
structure Parts (credential key text : String) (secret : List UInt8) : Prop where
  whole : credential = "srk_" ++ key ++ "_" ++ text
  digits : key.toList.length = 16
  hex : Hex key
  decoded : Base64.decode text = some secret
  size : secret.length = 32

theorem splitN_credential {text : String} (hkey : '_' ∉ key.toList) :
    (splitN '_' 3 ("srk_" ++ key ++ "_" ++ text).toList).map String.ofList
      = ["srk", key, text] := by
  have hlist : ("srk_" ++ key ++ "_" ++ text).toList
      = "srk".toList ++ '_' :: (key.toList ++ '_' :: text.toList) := by
    simp [String.toList_append]
  rw [hlist, splitN_cut (by decide), splitN_cut hkey, splitN]
  simp

theorem keyPrefix_of_parts {credential text : String} {secret : List UInt8}
    (h : Parts credential key text secret) : serviceAccountKeyPrefix credential = some key := by
  obtain ⟨bytes, hbytes⟩ := Option.isSome_iff_exists.mp
    (hexDecode_of_hex h.hex (by rw [h.digits]))
  have hsize : key.utf8ByteSize = 16 := by rw [h.hex.utf8ByteSize_eq, h.digits]
  rw [serviceAccountKeyPrefix, h.whole, splitN_credential h.hex.not_mem_underscore]
  simp only [hsize, hbytes, h.decoded, h.size, ne_eq, not_true, or_self, if_false]

theorem parts_of_keyPrefix {credential : String}
    (h : serviceAccountKeyPrefix credential = some key) :
    ∃ text secret, Parts credential key text secret := by
  rw [serviceAccountKeyPrefix] at h
  split at h
  · rename_i tag key' text hparts
    split at h
    · cases h
    rename_i htag
    push Not at htag
    split at h
    · rename_i bytes secret hhex hsecret
      split at h
      · cases h
      rename_i hsize
      obtain rfl := Option.some.inj h
      obtain ⟨rfl, hbytes⟩ := htag
      have hkey : Hex key' := hexValue_of_hexDecode hhex
      refine ⟨text, secret, ?_, ?_, hkey, hsecret, not_not.mp hsize⟩
      · -- undo the two cuts
        obtain ⟨t, k, x, hlist, ht, hk, hx⟩ : ∃ t k x, splitN '_' 3 credential.toList = [t, k, x]
            ∧ String.ofList t = "srk" ∧ String.ofList k = key' ∧ String.ofList x = text := by
          obtain ⟨t, l, heq, ht, hl⟩ := List.map_eq_cons_iff.mp hparts
          obtain ⟨k, l', rfl, hk, hl'⟩ := List.map_eq_cons_iff.mp hl
          obtain ⟨x, l'', rfl, hx, hl''⟩ := List.map_eq_cons_iff.mp hl'
          obtain rfl := List.map_eq_nil_iff.mp hl''
          exact ⟨t, k, x, heq, ht, hk, hx⟩
        obtain ⟨l, hwhole, -, hrest⟩ := eq_of_splitN hlist
        obtain ⟨l', rfl, -, hlast⟩ := eq_of_splitN hrest
        obtain rfl : l' = x := by simpa [splitN] using hlast
        have hcredential := congrArg String.ofList hwhole
        rw [String.ofList_toList] at hcredential
        rw [hcredential, ← hk, ← hx]
        obtain rfl : t = "srk".toList := by rw [← ht, String.toList_ofList]
        rw [← String.toList_inj]
        simp [String.toList_append]
      · rw [← hkey.utf8ByteSize_eq, hbytes]
    · cases h
  · cases h

/-! ### Credentials parse back -/

theorem keyPrefix_of_new (sha256 : String → List UInt8) (prefixBytes : Vector UInt8 8)
    (secretBytes : Vector UInt8 32) :
    serviceAccountKeyPrefix (newServiceAccountCredential sha256 prefixBytes secretBytes).1
      = some (newServiceAccountCredential sha256 prefixBytes secretBytes).2.1 := by
  have hdigits : (hexEncode prefixBytes.toList).toList.length = 16 := by
    rw [length_hexEncode, Vector.length_toList]
  have hparts : Parts (newServiceAccountCredential sha256 prefixBytes secretBytes).1
      (hexEncode prefixBytes.toList) (Base64.encode secretBytes.toList) secretBytes.toList :=
    ⟨rfl, hdigits, hex_hexEncode _, Base64.decode_encode _, Vector.length_toList⟩
  exact keyPrefix_of_parts hparts

/-- **Service-account credentials parse back.**  Every new credential is accepted and
gives the stored prefix.  A text is accepted exactly when it is `srk_`, sixteen
hexadecimal digits, an underscore and a text that decodes to thirty-two bytes; such a
text consists of digits of base64url and of line breaks, which the decoder skips. -/
theorem serviceAccountKey_parses :
    (∀ (sha256 : String → List UInt8) (prefixBytes : Vector UInt8 8)
        (secretBytes : Vector UInt8 32),
        serviceAccountKeyPrefix (newServiceAccountCredential sha256 prefixBytes secretBytes).1
          = some (newServiceAccountCredential sha256 prefixBytes secretBytes).2.1)
      ∧ ∀ credential key, serviceAccountKeyPrefix credential = some key ↔
        ∃ text secret, Parts credential key text secret
          ∧ ∀ c ∈ text.toList, c ∈ Base64.alphabet ∨ Base64.isBreak c = true := by
  refine ⟨keyPrefix_of_new, fun credential key => ⟨fun h => ?_, ?_⟩⟩
  · obtain ⟨text, secret, hparts⟩ := parts_of_keyPrefix h
    exact ⟨text, secret, hparts, Base64.mem_of_decode hparts.decoded⟩
  · rintro ⟨text, secret, hparts, -⟩
    exact keyPrefix_of_parts hparts

/-- **A credential broken over two lines is accepted**, although a line break is no
digit of base64url. -/
theorem broken_credential_accepted :
    serviceAccountKeyPrefix
        "srk_0123456789abcdef_AAAAAAAAAAAAAAAAAAAA\nAAAAAAAAAAAAAAAAAAAAAAA"
        = some "0123456789abcdef"
      ∧ '\n' ∈ "AAAAAAAAAAAAAAAAAAAA\nAAAAAAAAAAAAAAAAAAAAAAA".toList
      ∧ '\n' ∉ Base64.alphabet := by
  decide +kernel

end StormRelay.ServiceKey
