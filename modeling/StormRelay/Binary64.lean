/-
Integers in binary64.

A natural number is representable when it has at most 53 significant bits.  The
range of exponents is left out: it ends far above the numbers of interest.

* `read_write_read` — **what was read once is kept**;
* `write_read_of_le` — **up to `2 ^ 53` reading and writing change nothing**.
-/
import Mathlib.Algebra.Order.Ring.Nat
import Mathlib.Algebra.Order.Ring.Int

namespace Binary64

/-! ### Reading -/

def Representable (m : ℕ) : Prop :=
  ∃ q e, m = q * 2 ^ e ∧ q ≤ 2 ^ 53

/-- The weight of the last significant bit. -/
def unit (n : ℕ) : ℕ :=
  2 ^ (n.log2 - 52)

def nearest (n : ℕ) : ℕ :=
  if unit n < 2 * (n % unit n) ∨ unit n = 2 * (n % unit n) ∧ n / unit n % 2 = 1 then
    (n / unit n + 1) * unit n
  else n / unit n * unit n

def gap (m n : ℕ) : ℕ :=
  (m - n) + (n - m)

theorem unit_pos (n : ℕ) : 0 < unit n :=
  Nat.pow_pos (by decide)

/-- The significant bits of a number fit into 53. -/
theorem div_unit_lt (n : ℕ) : n / unit n < 2 ^ 53 := by
  rw [Nat.div_lt_iff_lt_mul (unit_pos n), unit, ← Nat.pow_add]
  refine (Nat.lt_log2_self).trans_le (Nat.pow_le_pow_right (by decide) ?_)
  omega

variable {m n : ℕ}

/-- A number with a unit above one has all 53 bits. -/
theorem le_div_unit (h : 52 < n.log2) : 2 ^ 52 ≤ n / unit n := by
  rw [Nat.le_div_iff_mul_le (unit_pos n), unit, ← Nat.pow_add]
  have hne : n ≠ 0 := by
    rintro rfl
    exact absurd h (by decide)
  have hlog : 52 + (n.log2 - 52) = n.log2 := by omega
  rw [hlog]
  exact Nat.log2_self_le hne

/-- **No representable number lies strictly inside the unit** of a number. -/
theorem outside_unit (hm : Representable m) (n : ℕ) :
    m ≤ n / unit n * unit n ∨ (n / unit n + 1) * unit n ≤ m := by
  obtain ⟨q, e, rfl, hq⟩ := hm
  by_cases he : n.log2 - 52 ≤ e
  · -- a multiple of the unit
    obtain ⟨k, hk⟩ : unit n ∣ q * 2 ^ e := Dvd.dvd.mul_left (pow_dvd_pow 2 he) q
    rw [hk, Nat.mul_comm (unit n) k]
    rcases Nat.lt_or_ge (n / unit n) k with hlt | hge
    · exact .inr (Nat.mul_le_mul_right _ hlt)
    · exact .inl (Nat.mul_le_mul_right _ hge)
  -- a number with smaller bits lies below all numbers with this unit
  left
  have hlog : 52 < n.log2 := by omega
  have hsmall : q * 2 ^ e ≤ 2 ^ 52 * unit n := by
    calc q * 2 ^ e ≤ 2 ^ 53 * 2 ^ (n.log2 - 53) :=
          Nat.mul_le_mul hq (Nat.pow_le_pow_right (by decide) (by omega))
      _ = 2 ^ 52 * unit n := by
          rw [unit, ← Nat.pow_add, ← Nat.pow_add]
          congr 1
          omega
  exact hsmall.trans (Nat.mul_le_mul_right _ (le_div_unit hlog))

theorem nearest_cases (n : ℕ) :
    (nearest n = n / unit n * unit n ∧ 2 * (n % unit n) ≤ unit n)
      ∨ (nearest n = (n / unit n + 1) * unit n ∧ unit n ≤ 2 * (n % unit n)) := by
  rw [nearest]
  split
  · exact .inr ⟨rfl, by omega⟩
  · exact .inl ⟨rfl, by omega⟩

theorem nearest_representable (n : ℕ) : Representable (nearest n) := by
  have hlt := div_unit_lt n
  rcases nearest_cases n with ⟨h, _⟩ | ⟨h, _⟩
  · exact ⟨n / unit n, n.log2 - 52, h, by omega⟩
  · exact ⟨n / unit n + 1, n.log2 - 52, h, by omega⟩

/-- **`nearest` is closest** among the representable numbers. -/
theorem nearest_closest (n : ℕ) (hm : Representable m) :
    gap n (nearest n) ≤ gap n m := by
  have hsplit : n / unit n * unit n + n % unit n = n := Nat.div_add_mod' n (unit n)
  have hrest : n % unit n < unit n := Nat.mod_lt n (unit_pos n)
  have hnext : (n / unit n + 1) * unit n = n / unit n * unit n + unit n := by
    rw [Nat.add_mul, Nat.one_mul]
  have hout := outside_unit hm n
  have hcases := nearest_cases n
  rw [hnext] at hout hcases
  generalize n / unit n * unit n = low at hsplit hout hcases
  generalize n % unit n = rest at hsplit hrest hcases
  generalize unit n = u at hrest hout hcases
  simp only [gap]
  omega

theorem nearest_of_representable (hm : Representable m) : nearest m = m := by
  have hle := nearest_closest m hm
  simp only [gap] at hle
  omega

theorem nearest_mono {a b : ℕ} (h : a ≤ b) : nearest a ≤ nearest b := by
  by_contra hlt
  have ha := nearest_closest a (nearest_representable b)
  have hb := nearest_closest b (nearest_representable a)
  simp only [gap] at ha hb
  -- both would be halfway between the same two numbers
  obtain rfl : a = b := by omega
  exact hlt (Nat.le_refl _)

/-! ### Writing -/

/-- The multiple of `10 ^ e` next to `x` that reads back as `x`; the closer one when both
do, and the one with the even digit when they are equally close. -/
def candidate (x e : ℕ) : Option ℕ :=
  let low := x / 10 ^ e * 10 ^ e
  let high := low + 10 ^ e
  if nearest low = x then
    if nearest high = x
        ∧ (10 ^ e < 2 * (x - low) ∨ 10 ^ e = 2 * (x - low) ∧ x / 10 ^ e % 2 = 1) then some high
    else some low
  else if nearest high = x then some high
  else none

/-- The first candidate, from `10 ^ e` downwards. -/
def shortestFrom (x : ℕ) : ℕ → ℕ
  | 0 => x
  | e + 1 => (candidate x (e + 1)).getD (shortestFrom x e)

/-- The shortest decimal of a representable number, with zeros in place of the digits
that are left out. -/
def shortest (x : ℕ) : ℕ :=
  shortestFrom x (x.log2 + 1)

example : shortest (2 ^ 56) = 72057594037927940 := by decide +kernel

theorem nearest_candidate {x e c : ℕ} (h : candidate x e = some c) : nearest c = x := by
  simp only [candidate] at h
  split at h
  · rename_i hlow
    split at h
    · rename_i hhigh
      cases h
      exact hhigh.1
    · cases h
      exact hlow
  split at h
  · rename_i hhigh
    cases h
    exact hhigh
  · cases h

/-- **What is written reads back.** -/
theorem nearest_shortest {x : ℕ} (hx : Representable x) : nearest (shortest x) = x := by
  have hfrom : ∀ e, nearest (shortestFrom x e) = x := by
    intro e
    induction e with
    | zero => exact nearest_of_representable hx
    | succ e ih =>
      rw [shortestFrom]
      rcases hc : candidate x (e + 1) with _ | c
      · exact ih
      · exact nearest_candidate hc
  exact hfrom _

theorem representable_of_le (h : n ≤ 2 ^ 53) : Representable n :=
  ⟨n, 0, by rw [Nat.pow_zero, Nat.mul_one], h⟩

theorem shortest_nearest_of_le (h : n ≤ 2 ^ 53) : shortest (nearest n) = n := by
  have hn := representable_of_le h
  rw [nearest_of_representable hn]
  have hback := nearest_shortest hn
  rcases Nat.lt_or_ge (2 ^ 53) (shortest n) with hlarge | hsmall
  · -- only `2 ^ 53` is read from a larger number, and it is written as itself
    have htop : nearest (2 ^ 53) = 2 ^ 53 :=
      nearest_of_representable (representable_of_le (Nat.le_refl _))
    have hmono := nearest_mono hlarge.le
    rw [htop, hback] at hmono
    obtain rfl : n = 2 ^ 53 := Nat.le_antisymm h hmono
    decide +kernel
  · rwa [nearest_of_representable (representable_of_le hsmall)] at hback

/-! ### Either sign -/

/-- An integer read as the nearest representable one. -/
def read (n : ℤ) : ℤ :=
  n.sign * nearest n.natAbs

/-- The shortest decimal of a representable integer. -/
def write (x : ℤ) : ℤ :=
  x.sign * shortest x.natAbs

theorem read_natCast (n : ℕ) : read n = nearest n := by
  rcases n.eq_zero_or_pos with rfl | hpos
  · decide
  · rw [read, Int.sign_natCast_of_ne_zero hpos.ne', Int.one_mul, Int.natAbs_natCast]

theorem write_natCast (n : ℕ) : write n = shortest n := by
  rcases n.eq_zero_or_pos with rfl | hpos
  · decide
  · rw [write, Int.sign_natCast_of_ne_zero hpos.ne', Int.one_mul, Int.natAbs_natCast]

theorem read_neg (n : ℤ) : read (-n) = -read n := by
  rw [read, read, Int.sign_neg, Int.natAbs_neg, Int.neg_mul]

theorem write_neg (x : ℤ) : write (-x) = -write x := by
  rw [write, write, Int.sign_neg, Int.natAbs_neg, Int.neg_mul]

/-- **What was read once is kept** by every further writing and reading. -/
theorem read_write_read (n : ℤ) : read (write (read n)) = read n := by
  have hnat : ∀ k : ℕ, read (write (read k)) = read k := by
    intro k
    rw [read_natCast, write_natCast, read_natCast, nearest_shortest (nearest_representable k)]
  obtain ⟨k, rfl | rfl⟩ := n.eq_nat_or_neg
  · exact hnat k
  · rw [read_neg, write_neg, read_neg, hnat]

/-- **Up to `2 ^ 53` nothing changes.** -/
theorem write_read_of_le {n : ℤ} (h : n.natAbs ≤ 2 ^ 53) : write (read n) = n := by
  have hnat : ∀ k : ℕ, k ≤ 2 ^ 53 → write (read k) = k := by
    intro k hk
    rw [read_natCast, write_natCast, shortest_nearest_of_le hk]
  obtain ⟨k, rfl | rfl⟩ := n.eq_nat_or_neg
  · exact hnat k h
  · rw [Int.natAbs_neg] at h
    rw [read_neg, write_neg, hnat k h]

end Binary64
