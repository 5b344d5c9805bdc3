/-
The rate limiter of the webhook endpoint (`internal/ingestion/ratelimit.go`,
`sourceLimiter` and `ingestWebhook` of `internal/api/sources.go`) and the
identity of a source.

PostgreSQL reads several texts as one `uuid`.  The endpoint finds the source by
the text of its path, keeps one limiter for each row, but charges the bucket of
the path text, and publishes the path text as the event's source.  Tokens are
rational numbers here, and `round` is what `float64` makes of a result.

* `passed_spelled_le` — **the requests of a source under one spelling keep its
  rate** where rounding leaves its tokens exact, whatever the order of their clock
  readings;
* `spelling_identity_iff` — **two requests of one row are treated as one source
  exactly when they spell it the same**, and a source that is always spelled the
  same keeps its rate.
-/
import StormRelay.Webhook
import StormRelay.Dedupe
import StormRelay.TokenBucket
import Mathlib.Algebra.Order.Ring.Rat

namespace StormRelay.Ingestion

/-! ### `Limiter` -/

/-- `bucket`; `last` is `none` for the zero time. -/
structure Bucket where
  tokens : ℚ := 0
  last : Option Time := none

/-- `Limiter`: a bucket for each key, the zero bucket for a key not in the map. -/
structure Limiter where
  buckets : String → Bucket
  rate : ℚ
  burst : ℚ

def newLimiter (ratePerSecond burst : ℤ) : Limiter :=
  { buckets := fun _ => {}, rate := ratePerSecond, burst := burst }

/-- A duration in seconds. -/
def seconds (d : ℤ) : ℚ :=
  d / 1000000000

/-- `Duration.Seconds`: the whole seconds and the rest, added again. -/
def durationSeconds (round : ℚ → ℚ) (d : ℤ) : ℚ :=
  round (round (d.tdiv 1000000000) + round (round (d.tmod 1000000000) / 1000000000))

def Limiter.setBucket (l : Limiter) (key : String) (b : Bucket) : Limiter :=
  { l with buckets := Function.update l.buckets key b }

/-- `Limiter.Allow`. -/
def Limiter.allow (l : Limiter) (key : String) (now : Time) (round : ℚ → ℚ := id) :
    Bool × Limiter :=
  let b := l.buckets key
  let b := if b.last = none then { tokens := l.burst, last := some now } else b
  let gained := round (durationSeconds round (now - b.last.getD now) * l.rate)
  let b := { b with tokens := round (b.tokens + gained) }
  let b := if b.tokens > l.burst then { b with tokens := l.burst } else b
  let b := { b with last := some now }
  if b.tokens < 1 then (false, l.setBucket key b)
  else (true, l.setBucket key { b with tokens := round (b.tokens - 1) })

/-- The tokens of a bucket at the time of a call, before it takes one. -/
def Limiter.refilled (round : ℚ → ℚ) (l : Limiter) (key : String) (now : Time) : ℚ :=
  let b := l.buckets key
  let tokens := if b.last = none then l.burst else b.tokens
  min (round (tokens + round (durationSeconds round (now - b.last.getD now) * l.rate))) l.burst

/-- **Rounding leaves the call exact**: the tokens it finds, and what is left of them. -/
structure Limiter.Exact (round : ℚ → ℚ) (l : Limiter) (key : String) (now : Time) : Prop where
  found : l.refilled round key now = l.refilled id key now
  left : 1 ≤ l.refilled id key now → round (l.refilled id key now - 1) = l.refilled id key now - 1

def Bucket.tokenBucket (b : Bucket) : TokenBucket.Bucket ℚ :=
  { tokens := b.tokens, last := b.last.map seconds }

section Limiter

variable {l : Limiter} {key : String}

theorem seconds_sub (t u : Time) : seconds (t - u) = seconds t - seconds u := by
  simp only [seconds, Int.cast_sub, sub_div]

theorem seconds_add (t u : Time) : seconds (t + u) = seconds t + seconds u := by
  simp only [seconds, Int.cast_add, add_div]

theorem seconds_le {t u : Time} : seconds t ≤ seconds u ↔ t ≤ u := by
  rw [seconds, seconds, div_le_div_iff_of_pos_right (by norm_num), Int.cast_le]

theorem durationSeconds_id (d : ℤ) : durationSeconds id d = seconds d := by
  have hparts : ((d.tdiv 1000000000 * 1000000000 + d.tmod 1000000000 : ℤ) : ℚ) = d := by
    rw [Int.tdiv_mul_add_tmod]
  push_cast at hparts
  rw [durationSeconds, seconds, ← hparts, add_div, mul_div_cancel_right₀ _ (by norm_num)]
  rfl

theorem refilled_id (l : Limiter) (key : String) (now : Time) :
    l.refilled id key now
      = TokenBucket.refill l.rate l.burst (seconds now) (l.buckets key).tokenBucket := by
  rw [Limiter.refilled]
  rcases hb : l.buckets key with ⟨tokens, _ | last⟩
  · simp [TokenBucket.refill, Bucket.tokenBucket, durationSeconds_id, seconds]
  · simp [TokenBucket.refill, Bucket.tokenBucket, durationSeconds_id, seconds_sub]

theorem allow_rounded (round : ℚ → ℚ) (l : Limiter) (key : String) (now : Time) :
    l.allow key now round
      = if l.refilled round key now < 1 then
          (false, l.setBucket key ⟨l.refilled round key now, some now⟩)
        else (true, l.setBucket key ⟨round (l.refilled round key now - 1), some now⟩) := by
  have hcap : ∀ v : ℚ, (if v > l.burst then l.burst else v) = min v l.burst := by
    intro v
    split_ifs with h
    · exact (min_eq_right (le_of_lt h)).symm
    · exact (min_eq_left (not_lt.mp h)).symm
  rw [Limiter.allow, Limiter.refilled]
  rcases hb : l.buckets key with ⟨tokens, _ | last⟩
  · simp only [if_true, Option.getD_some, Option.getD_none, ← hcap]
    split_ifs <;> rfl
  · simp only [if_false, reduceCtorEq, Option.getD_some, ← hcap]
    split_ifs <;> rfl

theorem Limiter.Exact.allow {round : ℚ → ℚ} {now : Time} (h : l.Exact round key now) :
    l.allow key now round = l.allow key now := by
  rw [allow_rounded, allow_rounded, h.found]
  split
  · rfl
  · rename_i htoken
    rw [h.left (not_lt.mp htoken), id]

/-- A call leaves the other keys alone, and the rate and the burst. -/
theorem allow_frame (round : ℚ → ℚ) (l : Limiter) (key : String) (now : Time) :
    (∀ other, other ≠ key → (l.allow key now round).2.buckets other = l.buckets other)
      ∧ (l.allow key now round).2.rate = l.rate ∧ (l.allow key now round).2.burst = l.burst := by
  rw [allow_rounded]
  split
  · exact ⟨fun other hother => Function.update_of_ne hother _ _, rfl, rfl⟩
  · exact ⟨fun other hother => Function.update_of_ne hother _ _, rfl, rfl⟩

/-- **`Allow` is a call on the token bucket of its key**, and leaves the other
keys alone. -/
theorem allow_refines (l : Limiter) (key : String) (now : Time) :
    (l.allow key now).1
        = (TokenBucket.take l.rate l.burst (seconds now) (l.buckets key).tokenBucket).1
      ∧ ((l.allow key now).2.buckets key).tokenBucket
        = (TokenBucket.take l.rate l.burst (seconds now) (l.buckets key).tokenBucket).2
      ∧ (∀ other, other ≠ key → (l.allow key now).2.buckets other = l.buckets other)
      ∧ (l.allow key now).2.rate = l.rate ∧ (l.allow key now).2.burst = l.burst := by
  refine ⟨?_, ?_, allow_frame id l key now⟩
  · rw [allow_rounded, refilled_id, TokenBucket.take]
    split <;> rfl
  · rw [allow_rounded, refilled_id, TokenBucket.take]
    split <;> simp [Limiter.setBucket, Bucket.tokenBucket]

end Limiter

end StormRelay.Ingestion

namespace StormRelay.Webhook

open Ingestion Transition

/-! ### The limiters of the endpoint -/

/-- The columns `rate_limit_per_second` and `rate_limit_burst` of a source, which
their `CHECK`s keep positive. -/
structure RateLimits where
  perSecond : String → ℤ
  burst : String → ℤ
  perSecond_pos : ∀ id, 0 < perSecond id
  burst_pos : ∀ id, 0 < burst id

/-- `Server.limiters`, by the identifier of the row. -/
abbrev Limiters := String → Option Limiter

/-- `sourceLimiter`. -/
def sourceLimiter (limits : RateLimits) (id : String) (limiters : Limiters) : Limiter :=
  (limiters id).getD (newLimiter (limits.perSecond id) (limits.burst id))

/-- The source of a request that gets as far as the limiter. -/
def reachesLimiter (srv : Server) (a : Arrival) : Option Source :=
  match a.databaseError with
  | some _ => none
  | none =>
    match getSourceCredentials srv a.request.sourceID with
    | .error _ => none
    | .ok creds =>
      if creds.source.name = "manual-api" then none
      else if creds.source.authMode = .none ∧ srv.allowUnauthenticatedSources = false then none
      else if creds.source.enabled = false then none
      else some creds.source

/-- A request, and the time its handler reads before it asks the limiter. -/
structure Attempt where
  arrival : Arrival
  now : Time

/-- What a request does to the limiters, and whether its limiter lets it
through: the limiter is that of the row, the bucket that of the path. -/
def charge (srv : Server) (limits : RateLimits) (round : ℚ → ℚ) (k : Attempt)
    (limiters : Limiters) : Bool × Limiters :=
  match reachesLimiter srv k.arrival with
  | none => (false, limiters)
  | some source =>
    let (allowed, l) :=
      (sourceLimiter limits source.id limiters).allow k.arrival.request.sourceID k.now round
    (allowed, Function.update limiters source.id (some l))

/-! ### The rate of a source under one spelling -/

/-- The request is one of the source with identifier `id`. -/
def Attempt.isOf (srv : Server) (id : String) (k : Attempt) : Bool :=
  (reachesLimiter srv k.arrival).any fun source => source.id = id

/-- A request of the source that is let through, at a time in the interval of
length `d` from `start`. -/
def letThrough (srv : Server) (limits : RateLimits) (round : ℚ → ℚ) (id : String) (start : Time)
    (d : ℕ) (k : Attempt) (limiters : Limiters) : Bool :=
  k.isOf srv id && (charge srv limits round k limiters).1
    && (decide (start ≤ k.now) && decide (k.now ≤ start + d))

/-- The number of requests of the source that a run lets through in the
interval. -/
def passed (srv : Server) (limits : RateLimits) (round : ℚ → ℚ) (id : String) (start : Time)
    (d : ℕ) (attempts : List Attempt) : ℕ :=
  tally (fun k limiters => (charge srv limits round k limiters).2)
    (letThrough srv limits round id start d) attempts fun _ => none

/-- Those whose path is `path`. -/
def passedSpelled (srv : Server) (limits : RateLimits) (round : ℚ → ℚ) (id path : String)
    (start : Time) (d : ℕ) (attempts : List Attempt) : ℕ :=
  tally (fun k limiters => (charge srv limits round k limiters).2)
    (fun k limiters => letThrough srv limits round id start d k limiters
      && decide (k.arrival.request.sourceID = path)) attempts fun _ => none

/-- A request of the source under the spelling, if it is one, finds the bucket in a state
in which rounding leaves its call exact. -/
def ChargesExactly (srv : Server) (limits : RateLimits) (round : ℚ → ℚ) (id path : String)
    (k : Attempt) (limiters : Limiters) : Prop :=
  k.isOf srv id = true → k.arrival.request.sourceID = path →
    (sourceLimiter limits id limiters).Exact round path k.now

/-- The run of the attempts from no limiters, with only exact calls on the bucket. -/
def RunsExactly (srv : Server) (limits : RateLimits) (round : ℚ → ℚ) (id path : String)
    (attempts : List Attempt) : Prop :=
  Along (fun k limiters => (charge srv limits round k limiters).2)
    (ChargesExactly srv limits round id path) attempts fun _ => none

/-- The limiter of the source has the rate and burst of its row, and the bucket
of the path has the account of the interval. -/
structure Accounted (limits : RateLimits) (id path : String) (start : Time) (d : ℕ) (n : ℕ)
    (limiters : Limiters) : Prop where
  rate : (sourceLimiter limits id limiters).rate = limits.perSecond id
  burst : (sourceLimiter limits id limiters).burst = limits.burst id
  spent : TokenBucket.Spent (limits.perSecond id : ℚ) (limits.burst id) (seconds start) (seconds d)
    n ((sourceLimiter limits id limiters).buckets path).tokenBucket

section Rate

variable {srv : Server} {limits : RateLimits} {round : ℚ → ℚ} {id path : String} {start : Time}
  {d n : ℕ} {limiters : Limiters}

theorem accounted_start : Accounted limits id path start d 0 fun _ => none where
  rate := rfl
  burst := rfl
  spent := by
    refine TokenBucket.Spent.zero ?_ ?_ ?_
    · exact_mod_cast (limits.perSecond_pos id).le
    · exact_mod_cast (limits.burst_pos id).le
    · rw [seconds]
      positivity

theorem sourceLimiter_update_ne (limits : RateLimits) (limiters : Limiters) {other : String}
    (h : id ≠ other) (l : Limiter) :
    sourceLimiter limits id (Function.update limiters other (some l))
      = sourceLimiter limits id limiters := by
  rw [sourceLimiter, sourceLimiter, Function.update_of_ne h]

theorem sourceLimiter_update_self (l : Limiter) :
    sourceLimiter limits id (Function.update limiters id (some l)) = l := by
  rw [sourceLimiter, Function.update_self]
  rfl

theorem isOf_of_reaches {k : Attempt} {source : Source}
    (hreach : reachesLimiter srv k.arrival = some source) : k.isOf srv source.id = true := by
  simp [Attempt.isOf, hreach]

theorem letThrough_eq_passes {k : Attempt} {source : Source}
    (h : Accounted limits source.id k.arrival.request.sourceID start d n limiters)
    (hreach : reachesLimiter srv k.arrival = some source)
    (hexact : (sourceLimiter limits source.id limiters).Exact round k.arrival.request.sourceID
      k.now) :
    letThrough srv limits round source.id start d k limiters
      = TokenBucket.passes (limits.perSecond source.id : ℚ) (limits.burst source.id)
        (seconds start) (seconds d) (seconds k.now)
        ((sourceLimiter limits source.id limiters).buckets
          k.arrival.request.sourceID).tokenBucket := by
  have hcharge : (Webhook.charge srv limits round k limiters).1
      = ((sourceLimiter limits source.id limiters).allow k.arrival.request.sourceID k.now).1 := by
    simp only [Webhook.charge, hreach, hexact.allow]
  have hfrom : decide (start ≤ k.now) = decide (seconds start ≤ seconds k.now) :=
    decide_eq_decide.mpr seconds_le.symm
  have hto : decide (k.now ≤ start + d) = decide (seconds k.now ≤ seconds start + seconds d) := by
    rw [← seconds_add]
    exact decide_eq_decide.mpr seconds_le.symm
  rw [letThrough, TokenBucket.passes, isOf_of_reaches hreach, hcharge, hfrom, hto,
    (allow_refines _ _ _).1, h.rate, h.burst, Bool.true_and]

/-- **Every request keeps the account of the bucket**: it charges the bucket, or
another one, or none. -/
theorem Accounted.charge (srv : Server) (h : Accounted limits id path start d n limiters)
    (k : Attempt) (hexact : ChargesExactly srv limits round id path k limiters) :
    Accounted limits id path start d
      (n + (letThrough srv limits round id start d k limiters
        && decide (k.arrival.request.sourceID = path)).toNat)
      (Webhook.charge srv limits round k limiters).2 := by
  rcases hreach : reachesLimiter srv k.arrival with _ | source
  · have hno : letThrough srv limits round id start d k limiters = false := by
      simp [letThrough, Attempt.isOf, hreach]
    simp only [hno, Bool.false_and, Bool.toNat_false, Nat.add_zero, Webhook.charge, hreach]
    exact h
  have hafter : (Webhook.charge srv limits round k limiters).2
      = Function.update limiters source.id (some
        ((sourceLimiter limits source.id limiters).allow k.arrival.request.sourceID k.now
          round).2) := by
    simp only [Webhook.charge, hreach]
  rw [hafter]
  by_cases hid : source.id = id
  swap
  · have hno : letThrough srv limits round id start d k limiters = false := by
      simp [letThrough, Attempt.isOf, hreach, hid]
    have hsame := sourceLimiter_update_ne limits limiters (Ne.symm hid)
      ((sourceLimiter limits source.id limiters).allow k.arrival.request.sourceID k.now round).2
    rw [hno, Bool.false_and]
    exact ⟨hsame ▸ h.rate, hsame ▸ h.burst, hsame ▸ h.spent⟩
  subst hid
  obtain ⟨hothers, hrate, hburst⟩ := allow_frame round (sourceLimiter limits source.id limiters)
    k.arrival.request.sourceID k.now
  refine ⟨?_, ?_, ?_⟩
  · rw [sourceLimiter_update_self, hrate, h.rate]
  · rw [sourceLimiter_update_self, hburst, h.burst]
  rw [sourceLimiter_update_self]
  by_cases hpath : k.arrival.request.sourceID = path
  · -- The call on this bucket, with the row's rate and burst.
    subst hpath
    have hcall := hexact (isOf_of_reaches hreach) rfl
    have hbucket := (allow_refines (sourceLimiter limits source.id limiters)
      k.arrival.request.sourceID k.now).2.1
    have htake := h.spent.take (by exact_mod_cast (limits.perSecond_pos source.id).le)
      (seconds k.now)
    rw [hcall.allow, hbucket, h.rate, h.burst, decide_eq_true rfl, Bool.and_true,
      letThrough_eq_passes h hreach hcall]
    exact htake
  · have hno : decide (k.arrival.request.sourceID = path) = false := decide_eq_false hpath
    rw [hothers path (Ne.symm hpath), hno, Bool.and_false]
    exact h.spent

/-- **The requests of a source under one spelling keep its rate.**  In every run
of requests whose calls on the bucket of a source and a text of its identifier are
exact, and for every interval of length `d`: at most `burst + rate · d` requests with
that path are let through. -/
theorem passed_spelled_le (srv : Server) (limits : RateLimits) (round : ℚ → ℚ) (id path : String)
    (attempts : List Attempt) (hexact : RunsExactly srv limits round id path attempts)
    (start : Time) (d : ℕ) :
    (passedSpelled srv limits round id path start d attempts : ℚ)
      ≤ limits.burst id + limits.perSecond id * seconds d := by
  have hrun := Along.tally_invariant (J := Accounted limits id path start d)
    (fun k _ _ h hcall => Accounted.charge srv h k hcall) attempts accounted_start hexact
  rw [Nat.zero_add] at hrun
  exact hrun.spent.bound

end Rate

/-! ### What a request is published as -/

/-- The headers that only `Normalize` reads. -/
structure Headers where
  eventID : String := ""
  traceParent : String := ""
  requestID : String := ""

/-- The input `ingestWebhook` makes for `Normalize`. -/
def normalizeInput (source : Source) (r : Request) (headers : Headers) (receivedAt : Time) :
    Events.NormalizeInput :=
  { tenantID := source.tenantID, sourceID := r.sourceID, sourceName := source.name
    contentType := r.contentType, body := r.body, sourceEventID := headers.eventID
    idempotencyKey := r.idempotencyKey, traceParent := headers.traceParent
    requestID := headers.requestID, receivedAt := some receivedAt }

/-- The event and the message identifier `ingestWebhook` passes to
`PublishEvent`. -/
def publication (pf : Events.Platform) (newID : Except String String) (source : Source)
    (r : Request) (headers : Headers) (receivedAt : Time) : Except String (Events.Event × String) :=
  (Events.normalize pf receivedAt newID (normalizeInput source r headers receivedAt)).map
    fun e => (e, r.sourceID ++ ":" ++ dedupeKey e)

def chargedBucket (srv : Server) (a : Arrival) : Option (String × String) :=
  (reachesLimiter srv a).map fun source => (source.id, a.request.sourceID)

/-- The same request under another text of its source. -/
def Arrival.spelled (a : Arrival) (path : String) : Arrival :=
  { a with request := { a.request with sourceID := path } }

/-- Two requests are taken to be of one source: they charge one bucket, and what
is published for them has the same source and the same message identifier. -/
structure SameIdentity (srv : Server) (pf : Events.Platform) (newID : Except String String)
    (source : Source) (a b : Arrival) (headers : Headers) (receivedAt : Time) : Prop where
  bucket : chargedBucket srv a = chargedBucket srv b
  published : ∀ e id e' id',
    publication pf newID source a.request headers receivedAt = .ok (e, id) →
    publication pf newID source b.request headers receivedAt = .ok (e', id') →
      e.sourceID = e'.sourceID ∧ e.source = e'.source ∧ id = id'

/-- **Identity is spelling.**  Two requests that reach the limiter of one row and
differ in the text of its identifier only are taken to be of one source if and
only if the texts are equal. -/
theorem sameIdentity_iff {srv : Server} {pf : Events.Platform} {newID : Except String String}
    {source : Source} {a : Arrival} {path : String} {headers : Headers} {receivedAt : Time}
    (hreach : reachesLimiter srv a = some source)
    (hreach' : reachesLimiter srv (a.spelled path) = some source) :
    SameIdentity srv pf newID source a (a.spelled path) headers receivedAt
      ↔ a.request.sourceID = path := by
  constructor
  · intro h
    have hbucket := h.bucket
    rw [chargedBucket, chargedBucket, hreach, hreach'] at hbucket
    exact (Prod.mk.inj (Option.some.inj hbucket)).2
  intro hsame
  have hself : a.spelled path = a := by
    rw [← hsame]
    rfl
  rw [hself]
  refine ⟨rfl, fun e id e' id' h h' => ?_⟩
  obtain ⟨rfl, rfl⟩ := Prod.mk.inj (Except.ok.inj (h.symm.trans h'))
  exact ⟨rfl, rfl, rfl⟩

/-- **Source identity and spelling.**  For every server and every rate limits:

* two requests whose paths denote one row, otherwise identical, charge one bucket
  and are published with one source and one message identifier if and only if
  their paths are the same text;
* in every run of requests in which the requests of a source all have one text as
  their path and rounding leaves their calls exact, and every interval of length `d`,
  at most `burst + rate · d` requests of the source are let through. -/
theorem spelling_identity_iff (srv : Server) (limits : RateLimits) (pf : Events.Platform) :
    (∀ (a : Arrival) (path : String) (source : Source) (newID : Except String String)
        (headers : Headers) (receivedAt : Time), reachesLimiter srv a = some source →
        reachesLimiter srv (a.spelled path) = some source →
        (SameIdentity srv pf newID source a (a.spelled path) headers receivedAt
          ↔ a.request.sourceID = path))
      ∧ ∀ (round : ℚ → ℚ) (id path : String) (attempts : List Attempt),
        (∀ k ∈ attempts, k.isOf srv id = true → k.arrival.request.sourceID = path) →
        RunsExactly srv limits round id path attempts →
        ∀ (start : Time) (d : ℕ), (passed srv limits round id start d attempts : ℚ)
          ≤ limits.burst id + limits.perSecond id * seconds d := by
  refine ⟨fun a path source newID headers receivedAt hreach hreach' =>
    sameIdentity_iff hreach hreach', fun round id path attempts hone hexact start d => ?_⟩
  -- All requests of the source that pass are requests with that path.
  have hcount : passed srv limits round id start d attempts
      ≤ passedSpelled srv limits round id path start d attempts := by
    refine tally_mono attempts fun k hk limiters hpass => ?_
    have hof : k.isOf srv id = true := by
      simp only [letThrough, Bool.and_eq_true] at hpass
      exact hpass.1.1
    rw [hpass, hone k hk hof, decide_eq_true rfl]
    rfl
  calc (passed srv limits round id start d attempts : ℚ)
      ≤ passedSpelled srv limits round id path start d attempts := by exact_mod_cast hcount
    _ ≤ limits.burst id + limits.perSecond id * seconds d :=
        passed_spelled_le srv limits round id path attempts hexact start d

/-! ### One source under one text and under two -/

def openSource : Source :=
  { id := "s", tenantID := "t", name := "alerts", kind := "generic", authMode := .none
    enabled := true, encryptedSecret := [], bearerHash := [], secret_stored := nofun }

/-- A server that reads `s` and `S` as one identifier. -/
def openServer : Server :=
  { sources := [openSource], replayWindow := 300000000000, maxPayloadBytes := 1000
    allowUnauthenticatedSources := true
    crypto := { hmacSHA256 := fun _ _ => [], hashSecret := fun _ => [] }
    uuid := fun text => if text = "s" ∨ text = "S" then some "s" else none
    decrypt := fun _ _ => none, toLower := id
    sealed := nofun }

def oneLimit : RateLimits :=
  { perSecond := fun _ => 1, burst := fun _ => 1, perSecond_pos := fun _ => Int.one_pos
    burst_pos := fun _ => Int.one_pos }

def openAttempt (path : String) : Attempt :=
  { arrival := { request := { sourceID := path, body := plainBody } }, now := 0 }

/-- A rounding that keeps the halves only. -/
def roundHalves (v : ℚ) : ℚ :=
  (2 * v).floor / 2

/-- The second of two requests under one text is refused, also with numbers that know
no fractions but halves. -/
theorem spelling_identity_same :
    RunsExactly openServer oneLimit roundHalves "s" "s" [openAttempt "s", openAttempt "s"]
      ∧ passed openServer oneLimit roundHalves "s" 0 0 [openAttempt "s", openAttempt "s"] = 1
      ∧ (passed openServer oneLimit roundHalves "s" 0 0 [openAttempt "s", openAttempt "s"] : ℚ)
        ≤ oneLimit.burst "s" + oneLimit.perSecond "s" * seconds 0 := by
  have hexact :
      RunsExactly openServer oneLimit roundHalves "s" "s" [openAttempt "s", openAttempt "s"] :=
    ⟨fun _ _ => ⟨by decide +kernel, by decide +kernel⟩,
      fun _ _ => ⟨by decide +kernel, by decide +kernel⟩, trivial⟩
  refine ⟨hexact, by decide +kernel, ?_⟩
  refine (spelling_identity_iff openServer oneLimit webPlatform).2 roundHalves "s" "s" _ ?_
    hexact 0 0
  intro k hk _
  rcases List.mem_cons.mp hk with rfl | hk
  · rfl
  · rw [List.mem_singleton.mp hk]
    rfl

def publishedAs (path : String) : Option (String × String × String) :=
  (publication webPlatform (.ok "1") openSource (openAttempt path).arrival.request
    { eventID := "1" } 0).toOption.map fun p => (p.1.sourceID, p.1.source, p.2)

/-- **Two texts are two sources.**  At one instant a source with a burst of one
gets two requests through, one for `s` and one for `S`, and they are published
under different sources and message identifiers. -/
theorem two_spellings_pass :
    (reachesLimiter openServer (openAttempt "s").arrival = some openSource
        ∧ reachesLimiter openServer ((openAttempt "s").arrival.spelled "S") = some openSource)
      ∧ ¬ SameIdentity openServer webPlatform (.ok "1") openSource (openAttempt "s").arrival
        ((openAttempt "s").arrival.spelled "S") { eventID := "1" } 0
      ∧ publishedAs "s" = some ("s", "urn:stormrelay:source:s", "s:source:1")
      ∧ publishedAs "S" = some ("S", "urn:stormrelay:source:S", "S:source:1")
      ∧ passed openServer oneLimit id "s" 0 0 [openAttempt "s", openAttempt "S"] = 2
      ∧ (oneLimit.burst "s" + oneLimit.perSecond "s" * seconds 0 : ℚ) < 2 := by
  have hreach : reachesLimiter openServer (openAttempt "s").arrival = some openSource := rfl
  have hreach' : reachesLimiter openServer ((openAttempt "s").arrival.spelled "S")
      = some openSource := rfl
  refine ⟨⟨hreach, hreach'⟩, ?_, by decide +kernel, by decide +kernel, by decide +kernel,
    by decide +kernel⟩
  rw [sameIdentity_iff hreach hreach']
  decide

end StormRelay.Webhook
