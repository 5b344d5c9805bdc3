/-
Webhook authentication (`internal/ingestion/auth.go`, `replay.go`,
`replay_key.go`).

A signed request carries a Unix timestamp and an HMAC of the timestamp text and
the body.  `verify` accepts a timestamp within the replay window on either side
of the clock; the replay cache remembers the canonical key of a request until
the reservation expires.

* `ReplayCache.reserve`, `ReplayCache.release`, with one lemma for each outcome
  below capacity.
-/
import StormRelay.GoStd
import StormRelay.Schema

namespace StormRelay

open GoStd

namespace Ingestion

/-- `ingestion.AuthMode`; `other` is any text outside the three constants. -/
inductive AuthMode where
  | none
  | hmac
  | bearer
  | other (text : String)
deriving DecidableEq, Repr

inductive AuthError where
  | unauthorized
  | replay
deriving DecidableEq, Repr

def AuthError.text : AuthError → String
  | .unauthorized => "unauthorized"
  | .replay => "request timestamp outside replay window"

/-- The cryptographic functions of the Go library. -/
structure Crypto where
  hmacSHA256 : List UInt8 → List UInt8 → List UInt8
  hashSecret : String → List UInt8

structure Credentials where
  mode : AuthMode
  hmacSecret : List UInt8
  bearerHash : List UInt8

structure VerifyInput where
  credentials : Credentials
  body : List UInt8
  signature : String
  authorization : String
  timestamp : String
  now : Time
  replayWindow : ℤ

/-- `time.Unix(unix, 0)`. -/
def unixTime (unix : ℤ) : Time :=
  unix * 1000000000

/-- The digest a signature header names. -/
def signatureDigest (signature : String) : Option (List UInt8) :=
  hexDecode (trimHead (trimSpace signature) "sha256=")

def signedBytes (timestamp : String) (body : List UInt8) : List UInt8 :=
  (timestamp ++ ".").toUTF8.data.toList ++ body

def verify (crypto : Crypto) (x : VerifyInput) : Except AuthError Unit :=
  match x.credentials.mode with
  | .none => .ok ()
  | .bearer =>
    if hasHead x.authorization "Bearer " = false then .error .unauthorized
    else
      let provided := trimSpace (trimHead x.authorization "Bearer ")
      if x.credentials.bearerHash = crypto.hashSecret provided then .ok ()
      else .error .unauthorized
  | .hmac =>
    match parseInt x.timestamp with
    | .none => .error .replay
    | some unix =>
      let when_ := unixTime unix
      if timeSub x.now when_ > x.replayWindow ∨ timeSub when_ x.now > x.replayWindow
      then .error .replay
      else
        match signatureDigest x.signature with
        | .none => .error .unauthorized
        | some sig =>
          if sig = crypto.hmacSHA256 x.credentials.hmacSecret (signedBytes x.timestamp x.body)
          then .ok ()
          else .error .unauthorized
  | .other _ => .error .unauthorized

/-! ### The replay key -/

/-- The timestamp value a request signs. -/
def signedTimestamp (timestamp : String) : Option ℤ :=
  parseInt (trimSpace timestamp)

def canonicalHMACReplayKey (sourceID timestamp signature : String) : Except String String :=
  let sourceID := trimSpace sourceID
  if sourceID = "" then .error "source ID is required"
  else
    match signedTimestamp timestamp with
    | .none => .error "invalid replay timestamp"
    | some unix =>
      match signatureDigest signature with
      | .none => .error "invalid HMAC signature encoding"
      | some digest =>
        if digest.length ≠ 32 then .error "invalid HMAC signature encoding"
        else .ok (sourceID ++ ":" ++ toString unix ++ ":" ++ hexEncode digest)

/-- The key depends on the timestamp's value and on the digest, not on how the
headers spell them. -/
theorem canonicalHMACReplayKey_congr {sourceID t t' g g' : String}
    (ht : signedTimestamp t = signedTimestamp t') (hg : signatureDigest g = signatureDigest g') :
    canonicalHMACReplayKey sourceID t g = canonicalHMACReplayKey sourceID t' g' := by
  simp only [canonicalHMACReplayKey, ht, hg]

end Ingestion

/-! ### The replay cache -/

inductive ReplayReservation where
  | reserved
  | duplicate
  | capacityExceeded
deriving DecidableEq, Repr

/-- `ReplayCache`: the map `seen` as a list without repeated keys. -/
structure ReplayCache where
  seen : List (String × Time)
  max : ℕ

namespace ReplayCache

/-- `NewReplayCache`. -/
def new (max : ℤ) : ReplayCache :=
  { seen := [], max := if max < 1000 then 1000 else max.toNat }

/-- `delete(c.seen, key)`. -/
def delete (c : ReplayCache) (key : String) : ReplayCache :=
  { c with seen := c.seen.filter (fun entry => entry.1 ≠ key) }

/-- `c.seen[key] = expires`. -/
def put (c : ReplayCache) (key : String) (expires : Time) : ReplayCache :=
  { c with seen := (key, expires) :: (c.delete key).seen }

/-- The loop of `Reserve` over the expired entries. -/
def prune (c : ReplayCache) (now : Time) : ReplayCache :=
  { c with seen := c.seen.filter (fun entry => now < entry.2) }

def reserve (c : ReplayCache) (key : String) (expires now : Time) :
    ReplayReservation × ReplayCache :=
  if (c.seen.lookup key).any (fun old => now < old) then (.duplicate, c)
  else if c.seen.length ≥ c.max then
    let c := c.prune now
    if c.seen.length ≥ c.max then (.capacityExceeded, c) else (.reserved, c.put key expires)
  else (.reserved, c.put key expires)

def release (c : ReplayCache) (key : String) : ReplayCache :=
  if key = "" then c else c.delete key

/-- The cache has an entry for `key`, expired or not. -/
def Holds (c : ReplayCache) (key : String) : Prop :=
  (c.seen.lookup key).isSome

variable {c : ReplayCache} {key other : String} {expires now : Time}

theorem lookup_delete (hne : other ≠ key) :
    (c.delete key).seen.lookup other = c.seen.lookup other := by
  rw [delete]
  induction c.seen with
  | nil => rfl
  | cons entry seen ih =>
    by_cases hkey : entry.1 = key
    · have hother : (other == entry.1) = false := by simpa [hkey] using hne
      rw [List.filter_cons_of_neg (by simpa using hkey), ih, List.lookup_cons, hother]
    · rw [List.filter_cons_of_pos (by simpa using hkey), List.lookup_cons, List.lookup_cons, ih]

theorem holds_put (h : c.Holds other) : (c.put key expires).Holds other := by
  by_cases hne : other = key
  · simp [Holds, put, hne]
  · have hbeq : (other == key) = false := by simpa using hne
    simpa [Holds, put, List.lookup_cons, hbeq, lookup_delete hne] using h

theorem holds_put_self : (c.put key expires).Holds key := by
  simp [Holds, put]

theorem holds_release (hne : other ≠ key) (h : c.Holds other) : (c.release key).Holds other := by
  rw [release]
  split
  · exact h
  · rw [Holds, lookup_delete hne]
    exact h

theorem reserve_fresh (hroom : c.seen.length < c.max) (h : ¬ c.Holds key) :
    c.reserve key expires now = (.reserved, c.put key expires) := by
  have hnone : c.seen.lookup key = none := Option.not_isSome_iff_eq_none.mp h
  rw [reserve, hnone, if_neg (by simp), if_neg (by omega)]

theorem reserve_live {old : Time} (hold : c.seen.lookup key = some old) (hlive : now < old) :
    c.reserve key expires now = (.duplicate, c) := by
  rw [reserve, hold, if_pos (by simpa using hlive)]

end ReplayCache

end StormRelay
