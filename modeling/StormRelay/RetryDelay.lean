/-
The delay before an event is delivered again (`retryDelay` of
`internal/worker/worker.go`).

The delay doubles with every delivery up to a maximum, is then spread by a hash of
the payload between 80 and 120 percent, cut to the maximum and raised to one
millisecond.  Durations are signed 64-bit numbers of nanoseconds; the configuration
accepts every maximum from one nanosecond to fifteen minutes.

* `retryDelay_guarantee_iff` — **the delay keeps to its maximum exactly when the floor
  of one millisecond does not lie above it**, and to 20 percent exactly when no part of
  a nanosecond is cut off at 80 percent.
-/
import StormRelay.Document
import Mathlib.Tactic.Linarith
import Mathlib.Tactic.Positivity

namespace StormRelay.Redelivery

/-! ### `retryDelay` -/

def wrap64 (x : ℤ) : ℤ :=
  x.bmod (2 ^ 64)

/-- The exact value of a product fits into 64 bits. -/
def Fits (x : ℤ) : Prop :=
  -2 ^ 63 ≤ x ∧ x < 2 ^ 63

def millisecond : ℤ := 1000000

def defaultEventRetryBaseDelay : ℤ := second

def defaultEventRetryMaxDelay : ℤ := 30 * second

/-- The loop with `n` rounds left: the delay it ends with, and the exact values of the
products it computed. -/
def grow (maximum : ℤ) : ℕ → ℤ → ℤ × List ℤ
  | 0, delay => (delay, [])
  | n + 1, delay =>
    if delay < maximum then
      if delay > maximum.tdiv 2 then (maximum, [])
      else
        let (final, products) := grow maximum n (wrap64 (delay * 2))
        (final, delay * 2 :: products)
    else (delay, [])

/-- `binary.BigEndian.PutUint64`. -/
def bigEndian (x : UInt64) : List UInt8 :=
  ([56, 48, 40, 32, 24, 16, 8, 0] : List UInt64).map fun shift => (x >>> shift).toUInt8

/-- The jitter in thousandths, from the first two bytes of the hash. -/
def permille (sha256 : List UInt8 → List UInt8) (payload : List UInt8) (deliveries : UInt64) : ℤ :=
  let sum := sha256 (payload ++ bigEndian deliveries)
  800 + ((256 * (sum.getD 0 0).toNat + (sum.getD 1 0).toNat : ℕ) : ℤ) % 401

/-- A call of `retryDelay`. -/
structure RetryCall where
  payload : List UInt8
  deliveries : UInt64
  base : ℤ
  maximum : ℤ

namespace RetryCall

def effectiveBase (c : RetryCall) : ℤ :=
  if c.base ≤ 0 then defaultEventRetryBaseDelay else c.base

def effectiveMaximum (c : RetryCall) : ℤ :=
  if c.maximum < c.effectiveBase then defaultEventRetryMaxDelay else c.maximum

def rounds (c : RetryCall) : ℕ :=
  (if c.deliveries > 20 then 20 else c.deliveries.toNat) - 1

def delay (c : RetryCall) : ℤ :=
  let delay := (grow c.effectiveMaximum c.rounds c.effectiveBase).1
  if delay > c.effectiveMaximum then c.effectiveMaximum else delay

variable (sha256 : List UInt8 → List UInt8)

def jittered (c : RetryCall) : ℤ :=
  (wrap64 (c.delay * permille sha256 c.payload c.deliveries)).tdiv 1000

def retryDelay (c : RetryCall) : ℤ :=
  if c.jittered sha256 > c.effectiveMaximum then c.effectiveMaximum
  else if c.jittered sha256 < millisecond then millisecond
  else c.jittered sha256

/-- The exact values of all products of the call. -/
def products (c : RetryCall) : List ℤ :=
  (grow c.effectiveMaximum c.rounds c.effectiveBase).2
    ++ [c.delay * permille sha256 c.payload c.deliveries]

/-- What `config.Load` accepts. -/
structure Accepted (c : RetryCall) : Prop where
  base_pos : 0 < c.base
  base_le : c.base ≤ minute
  maximum_ge : c.base ≤ c.maximum
  maximum_le : c.maximum ≤ 15 * minute

/-- `min(maximum, base * 2^(min(deliveries, 20) - 1))`. -/
def ideal (c : RetryCall) : ℤ :=
  min c.maximum (c.base * 2 ^ (min c.deliveries.toNat 20 - 1))

/-- The ideal delay, spread by the jitter and rounded down to a nanosecond. -/
def spread (c : RetryCall) : ℤ :=
  c.ideal * permille sha256 c.payload c.deliveries / 1000

/-- What the delay is meant to be: computed without overflow, positive, at most the
maximum, and, where neither the cap nor the floor applies, within 20 percent of the
ideal delay. -/
structure Guarantee (c : RetryCall) : Prop where
  fits : ∀ x ∈ c.products sha256, Fits x
  positive : 0 < c.retryDelay sha256
  capped : c.retryDelay sha256 ≤ c.maximum
  near : c.jittered sha256 ≤ c.maximum → millisecond ≤ c.jittered sha256 →
    5 * |c.retryDelay sha256 - c.ideal| ≤ c.ideal

end RetryCall

/-! ### The loop -/

theorem wrap64_of_fits {x : ℤ} (h : Fits x) : wrap64 x = x := by
  obtain ⟨hlow, hhigh⟩ := h
  rw [wrap64]
  refine Int.bmod_eq_of_le ?_ ?_
  · norm_num at hlow ⊢
    exact hlow
  · norm_num at hhigh ⊢
    exact hhigh

/-- **The loop doubles up to the maximum**, and none of its products overflows. -/
theorem grow_eq {maximum : ℤ} (hmax : maximum < 2 ^ 62) (n : ℕ) {delay : ℤ} (hpos : 0 < delay)
    (hle : delay ≤ maximum) :
    (grow maximum n delay).1 = min maximum (delay * 2 ^ n)
      ∧ ∀ x ∈ (grow maximum n delay).2, Fits x := by
  induction n generalizing delay with
  | zero =>
    rw [grow, pow_zero, mul_one, min_eq_right hle]
    exact ⟨rfl, fun x hx => absurd hx List.not_mem_nil⟩
  | succ n ih =>
    have hpow : (1 : ℤ) ≤ 2 ^ n := one_le_pow₀ (by norm_num)
    rw [grow, Int.tdiv_eq_ediv_of_nonneg (by omega)]
    by_cases hlt : delay < maximum
    · rw [if_pos hlt]
      by_cases hhalf : delay > maximum / 2
      · -- one more doubling would pass the maximum
        rw [if_pos hhalf]
        have hdouble : maximum ≤ delay * 2 := by omega
        have hmore : delay * 2 ≤ delay * 2 ^ (n + 1) := by
          rw [pow_succ]
          nlinarith
        exact ⟨(min_eq_left (hdouble.trans hmore)).symm, fun x hx => absurd hx List.not_mem_nil⟩
      rw [if_neg hhalf]
      have hdouble : delay * 2 ≤ maximum := by omega
      have hfits : Fits (delay * 2) := ⟨by omega, by omega⟩
      obtain ⟨hfinal, hproducts⟩ := @ih (delay * 2) (by omega) hdouble
      rw [wrap64_of_fits hfits]
      refine ⟨?_, List.forall_mem_cons.mpr ⟨hfits, hproducts⟩⟩
      show (grow maximum n (delay * 2)).1 = _
      rw [hfinal, pow_succ, mul_assoc, mul_comm 2]
    rw [if_neg hlt]
    obtain rfl : delay = maximum := le_antisymm hle (not_lt.mp hlt)
    refine ⟨(min_eq_left ?_).symm, fun x hx => absurd hx List.not_mem_nil⟩
    rw [pow_succ]
    nlinarith

/-! ### The jitter -/

theorem permille_range (sha256 : List UInt8 → List UInt8) (payload : List UInt8)
    (deliveries : UInt64) :
    800 ≤ permille sha256 payload deliveries ∧ permille sha256 payload deliveries ≤ 1200 := by
  rw [permille]
  omega

namespace RetryCall

variable (sha256 : List UInt8 → List UInt8) {c : RetryCall}

theorem Accepted.effectiveMaximum_eq (h : c.Accepted) :
    c.effectiveBase = c.base ∧ c.effectiveMaximum = c.maximum := by
  have hbase : c.effectiveBase = c.base := if_neg (not_le.mpr h.base_pos)
  refine ⟨hbase, ?_⟩
  rw [effectiveMaximum, hbase]
  exact if_neg (not_lt.mpr h.maximum_ge)

theorem rounds_eq (c : RetryCall) : c.rounds = min c.deliveries.toNat 20 - 1 := by
  rw [rounds]
  congr 1
  split
  · rename_i hmany
    have hvalue : 20 < c.deliveries.toNat := UInt64.lt_iff_toNat_lt.mp hmany
    omega
  · rename_i hfew
    have hvalue : ¬ 20 < c.deliveries.toNat := fun h => hfew (UInt64.lt_iff_toNat_lt.mpr h)
    omega

/-- The delay before the jitter is the ideal one. -/
theorem Accepted.delay_eq (h : c.Accepted) :
    c.delay = c.ideal ∧ ∀ x ∈ (grow c.effectiveMaximum c.rounds c.effectiveBase).2, Fits x := by
  obtain ⟨hbase, hmaximum⟩ := h.effectiveMaximum_eq
  have hsmall : c.maximum < 2 ^ 62 := by
    have hle := h.maximum_le
    norm_num [minute, second] at hle ⊢
    omega
  obtain ⟨hvalue, hfits⟩ := grow_eq hsmall c.rounds h.base_pos h.maximum_ge
  rw [hbase, hmaximum]
  refine ⟨?_, hfits⟩
  have hcut : ¬ (grow c.maximum c.rounds c.base).1 > c.maximum := by
    rw [hvalue]
    exact not_lt.mpr (min_le_left _ _)
  rw [delay, hbase, hmaximum, if_neg hcut, hvalue, ideal, rounds_eq]

theorem Accepted.ideal_range (h : c.Accepted) : 0 < c.ideal ∧ c.ideal ≤ c.maximum := by
  have hmax : 0 < c.maximum := h.base_pos.trans_le h.maximum_ge
  have hgrown : 0 < c.base * 2 ^ (min c.deliveries.toNat 20 - 1) :=
    mul_pos h.base_pos (by positivity)
  exact ⟨lt_min hmax hgrown, min_le_left _ _⟩

/-- **The jitter spreads the ideal delay**, and its product does not overflow. -/
theorem Accepted.jittered_eq (h : c.Accepted) :
    c.jittered sha256 = c.spread sha256
      ∧ Fits (c.delay * permille sha256 c.payload c.deliveries) := by
  obtain ⟨hpos, hle⟩ := h.ideal_range
  obtain ⟨hlow, hhigh⟩ := permille_range sha256 c.payload c.deliveries
  have hmax : c.maximum ≤ 900000000000 := h.maximum_le
  have hfits : Fits (c.ideal * permille sha256 c.payload c.deliveries) := by
    constructor
    · nlinarith
    · nlinarith
  rw [jittered, h.delay_eq.1, wrap64_of_fits hfits, Int.tdiv_eq_ediv_of_nonneg]
  · exact ⟨rfl, hfits⟩
  · nlinarith

/-! ### The guarantee -/

theorem Accepted.fits (h : c.Accepted) :
    ∀ x ∈ c.products sha256, Fits x := by
  intro x hx
  rcases List.mem_append.mp hx with hx | hx
  · exact h.delay_eq.2 x hx
  · rw [List.mem_singleton.mp hx]
    exact (h.jittered_eq sha256).2

theorem Accepted.retryDelay_eq (h : c.Accepted) :
    c.retryDelay sha256 = if c.maximum < c.jittered sha256 then c.maximum
      else if c.jittered sha256 < millisecond then millisecond else c.jittered sha256 := by
  rw [retryDelay, h.effectiveMaximum_eq.2]

theorem Accepted.positive (h : c.Accepted) :
    0 < c.retryDelay sha256 := by
  have hmax : 0 < c.maximum := h.base_pos.trans_le h.maximum_ge
  have hfloor : 0 < millisecond := by decide
  rw [h.retryDelay_eq]
  split
  · exact hmax
  · split
    · exact hfloor
    · omega

theorem Accepted.capped_iff (h : c.Accepted) :
    c.retryDelay sha256 ≤ c.maximum
      ↔ millisecond ≤ c.maximum ∨ c.maximum < c.jittered sha256 := by
  rw [h.retryDelay_eq]
  split
  · rename_i hcap
    exact ⟨fun _ => .inr hcap, fun _ => le_rfl⟩
  rename_i hcap
  split
  · exact ⟨.inl, fun hor => hor.resolve_right hcap⟩
  · rename_i hfloor
    exact ⟨fun hle => .inl ((not_lt.mp hfloor).trans hle), fun _ => not_lt.mp hcap⟩

theorem Accepted.near_rounded (h : c.Accepted) :
    4 * c.ideal / 5 ≤ c.jittered sha256 ∧ 5 * c.jittered sha256 ≤ 6 * c.ideal := by
  obtain ⟨hpos, _⟩ := h.ideal_range
  obtain ⟨hlow, hhigh⟩ := permille_range sha256 c.payload c.deliveries
  rw [(h.jittered_eq sha256).1, spread]
  generalize permille sha256 c.payload c.deliveries = p at hlow hhigh
  have hleast : 800 * c.ideal ≤ c.ideal * p := by nlinarith
  have hmost : c.ideal * p ≤ 1200 * c.ideal := by nlinarith
  omega

theorem Accepted.near_iff (h : c.Accepted)
    (hfloor : millisecond ≤ c.jittered sha256) :
    5 * |c.jittered sha256 - c.ideal| ≤ c.ideal
      ↔ permille sha256 c.payload c.deliveries ≠ 800 ∨ 5 ∣ c.ideal := by
  obtain ⟨hpos, _⟩ := h.ideal_range
  obtain ⟨hlow, hhigh⟩ := permille_range sha256 c.payload c.deliveries
  obtain ⟨_, hupper⟩ := h.near_rounded sha256
  have hvalue := (h.jittered_eq sha256).1
  rw [spread] at hvalue
  generalize permille sha256 c.payload c.deliveries = p at hlow hhigh hvalue ⊢
  have hnear : 5 * |c.jittered sha256 - c.ideal| ≤ c.ideal
      ↔ 4 * c.ideal ≤ 5 * c.jittered sha256 := by
    constructor
    · intro hle
      have habs := neg_abs_le (c.jittered sha256 - c.ideal)
      omega
    · intro hle
      have habs : |c.jittered sha256 - c.ideal| ≤ c.ideal / 5 := abs_le.mpr ⟨by omega, by omega⟩
      omega
  rw [hnear]
  have hlarge : 1000000 ≤ c.jittered sha256 := hfloor
  have hmost : c.ideal * p ≤ 1200 * c.ideal := by nlinarith
  by_cases heighty : p = 800
  · -- at 80 percent exactly, the division by 1000 is one by 5
    rw [heighty] at hvalue
    constructor
    · intro hle
      right
      omega
    · rintro (hne | hdvd)
      · exact absurd heighty hne
      · omega
  have hmore : 801 * c.ideal ≤ c.ideal * p := by
    have : 801 ≤ p := by omega
    nlinarith
  exact ⟨fun _ => .inl heighty, fun _ => by omega⟩

/-- **When the delay is what it is meant to be.**  For every payload, number of
deliveries and accepted configuration, nothing overflows, the delay is positive and,
where neither the cap nor the floor applies, within 20 percent of the ideal one to the
nanosecond.  It keeps to its maximum exactly when the maximum is at least one
millisecond or the spread delay exceeds it, and to the exact 20 percent when in addition
nothing is cut off at 80 percent. -/
theorem retryDelay_guarantee_iff (c : RetryCall) (h : c.Accepted) :
    (c.Guarantee sha256 ↔
        (millisecond ≤ c.maximum ∨ c.maximum < c.spread sha256)
          ∧ (c.spread sha256 ≤ c.maximum → millisecond ≤ c.spread sha256 →
            permille sha256 c.payload c.deliveries ≠ 800 ∨ 5 ∣ c.ideal))
      ∧ (∀ x ∈ c.products sha256, Fits x) ∧ 0 < c.retryDelay sha256
      ∧ (c.spread sha256 ≤ c.maximum → millisecond ≤ c.spread sha256 →
        4 * c.ideal / 5 ≤ c.retryDelay sha256 ∧ 5 * c.retryDelay sha256 ≤ 6 * c.ideal) := by
  rw [← (h.jittered_eq sha256).1]
  have hspread : c.jittered sha256 ≤ c.maximum → millisecond ≤ c.jittered sha256 →
      c.retryDelay sha256 = c.jittered sha256 := by
    intro hcap hfloor
    rw [h.retryDelay_eq, if_neg (not_lt.mpr hcap), if_neg (not_lt.mpr hfloor)]
  refine ⟨⟨fun hg => ⟨(h.capped_iff sha256).mp hg.capped, fun hcap hfloor => ?_⟩, ?_⟩,
    h.fits sha256, h.positive sha256, fun hcap hfloor => ?_⟩
  · have hnear := hg.near hcap hfloor
    rw [hspread hcap hfloor] at hnear
    exact (h.near_iff sha256 hfloor).mp hnear
  · rintro ⟨hcapped, hcut⟩
    refine ⟨h.fits sha256, h.positive sha256, (h.capped_iff sha256).mpr hcapped, ?_⟩
    intro hcap hfloor
    rw [hspread hcap hfloor]
    exact (h.near_iff sha256 hfloor).mpr (hcut hcap hfloor)
  · rw [hspread hcap hfloor]
    exact h.near_rounded sha256

def third : RetryCall where
  payload := []
  deliveries := 3
  base := 100 * millisecond
  maximum := 2 * second

theorem retryDelay_guarantee_third : third.Guarantee fun _ => [] :=
  (retryDelay_guarantee_iff (fun _ => []) third ⟨by decide, by decide, by decide, by decide⟩).1.mpr
    ⟨.inl (by decide), fun _ _ => .inr (by decide +kernel)⟩

def smallest : RetryCall where
  payload := []
  deliveries := 1
  base := 1
  maximum := 1

/-- **A delay above its maximum**, whatever the hash: with a maximum of one nanosecond
the delay is one millisecond. -/
theorem smallest_above_maximum :
    smallest.Accepted
      ∧ ∀ sha256, smallest.retryDelay sha256 = millisecond ∧ ¬ smallest.Guarantee sha256 := by
  have haccepted : smallest.Accepted := ⟨by decide, by decide, by decide, by decide⟩
  refine ⟨haccepted, fun sha256 => ?_⟩
  have hjittered : smallest.jittered sha256 ≤ 1 := by
    have hupper := (haccepted.near_rounded sha256).2
    have hideal : smallest.ideal = 1 := by decide +kernel
    omega
  have hdelay : smallest.retryDelay sha256 = millisecond := by
    have hcap : ¬ smallest.maximum < smallest.jittered sha256 := not_lt.mpr hjittered
    have hfloor : smallest.jittered sha256 < millisecond := hjittered.trans_lt (by decide)
    rw [haccepted.retryDelay_eq, if_neg hcap, if_pos hfloor]
  refine ⟨hdelay, fun hg => ?_⟩
  have hcapped := hg.capped
  rw [hdelay] at hcapped
  exact absurd hcapped (by decide)

end RetryCall

end StormRelay.Redelivery
