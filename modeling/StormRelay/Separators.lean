/-
Reading texts that were joined with separators.

A text `a ++ sep :: b` can be cut in as many places as it has separators.  Two
such texts are cut in the same place when equally many separators stand before
the cut, or equally many after it; no part has to be free of them.

* `toString_nat_inj`, `toString_int_inj` — decimal texts determine their number,
  and `mem_toString_nat`, `mem_toString_int` say which characters they have.
-/
import Mathlib.Data.List.Basic
import Mathlib.Data.Int.Notation

namespace Separators

section Cuts

variable {α : Type} [DecidableEq α] {sep : α} {a b b' : List α}

theorem count_eq_of_not_mem (hb : sep ∉ b) (hb' : sep ∉ b') :
    b.count sep = b'.count sep := by
  rw [List.count_eq_zero.mpr hb, List.count_eq_zero.mpr hb']

/-- **One cut**, with equally many separators before it. -/
theorem cut_inj {a' : List α} (hcount : a.count sep = a'.count sep)
    (h : a ++ sep :: b = a' ++ sep :: b') : a = a' ∧ b = b' := by
  induction a generalizing a' with
  | nil =>
    rcases a' with _ | ⟨x, a'⟩
    · exact ⟨rfl, (List.cons.inj h).2⟩
    · -- the longer left part would begin with a separator of its own
      obtain ⟨rfl, _⟩ := List.cons.inj h
      simp at hcount
  | cons x a ih =>
    rcases a' with _ | ⟨y, a'⟩
    · obtain ⟨rfl, _⟩ := List.cons.inj h
      simp at hcount
    obtain ⟨rfl, hrest⟩ := List.cons.inj h
    have htail : a.count sep = a'.count sep := by
      rw [List.count_cons, List.count_cons] at hcount
      exact Nat.add_right_cancel hcount
    obtain ⟨rfl, rfl⟩ := ih htail hrest
    exact ⟨rfl, rfl⟩

theorem cut_inj_right {a' : List α} (hcount : b.count sep = b'.count sep)
    (h : a ++ sep :: b = a' ++ sep :: b') : a = a' ∧ b = b' := by
  refine cut_inj ?_ h
  have htotal := congrArg (List.count sep) h
  rw [List.count_append, List.count_append, List.count_cons, List.count_cons] at htotal
  omega

/-- **Joined fields** are determined by the text, if corresponding fields have
equally many separators. -/
theorem intercalate_inj {xs ys : List (List α)}
    (hcounts : xs.map (List.count sep) = ys.map (List.count sep))
    (h : [sep].intercalate xs = [sep].intercalate ys) : xs = ys := by
  induction xs generalizing ys with
  | nil =>
    rw [List.map_nil, eq_comm, List.map_eq_nil_iff] at hcounts
    exact hcounts.symm
  | cons x xs ih =>
    rcases ys with _ | ⟨y, ys⟩
    · cases hcounts
    obtain ⟨hcount, hrest⟩ := List.cons.inj hcounts
    rcases xs with _ | ⟨x', xs⟩
    · rcases ys with _ | ⟨y', ys⟩
      · rw [List.intercalate_singleton, List.intercalate_singleton] at h
        rw [h]
      · cases hrest
    rcases ys with _ | ⟨y', ys⟩
    · cases hrest
    rw [List.intercalate_cons_cons, List.intercalate_cons_cons, List.append_assoc,
      List.append_assoc, List.singleton_append, List.singleton_append] at h
    obtain ⟨rfl, htail⟩ := cut_inj hcount h
    rw [ih hrest htail]

/-- **Splitting a joined text** gives the pieces of its fields, one field after the other. -/
theorem splitOn_intercalate_eq {xs : List (List α)} (hne : xs ≠ []) :
    ([sep].intercalate xs).splitOn sep = xs.flatMap fun x => x.splitOn sep := by
  induction xs with
  | nil => exact absurd rfl hne
  | cons x xs ih =>
    rcases xs with _ | ⟨y, ys⟩
    · rw [List.intercalate_singleton, List.flatMap_singleton]
    rw [List.intercalate_cons_cons, List.append_assoc, List.singleton_append,
      List.splitOn_append_cons_self, ih (List.cons_ne_nil y ys)]
    exact List.flatMap_cons.symm

def terminated (sep : α) (fields : List (List α)) : List α :=
  fields.flatMap fun field => field ++ [sep]

omit [DecidableEq α] in
theorem terminated_cons (x : List α) (xs : List (List α)) :
    terminated sep (x :: xs) = x ++ sep :: terminated sep xs := by
  rw [terminated, List.flatMap_cons, List.append_assoc]
  rfl

omit [DecidableEq α] in
theorem mem_terminated_cons (x : List α) (xs : List (List α)) (t : List α) :
    sep ∈ terminated sep (x :: xs) ++ t := by
  rw [terminated_cons]
  exact List.mem_append_left _ (List.mem_append_right _ List.mem_cons_self)

/-- **Terminated fields** and what follows them are determined by the text, if none of
them has a separator. -/
theorem terminated_append_inj {xs ys : List (List α)} {t t' : List α} (hxs : ∀ x ∈ xs, sep ∉ x)
    (hys : ∀ y ∈ ys, sep ∉ y) (ht : sep ∉ t) (ht' : sep ∉ t')
    (h : terminated sep xs ++ t = terminated sep ys ++ t') : xs = ys ∧ t = t' := by
  induction xs generalizing ys with
  | nil =>
    rcases ys with _ | ⟨y, ys⟩
    · exact ⟨rfl, h⟩
    -- a first field would put a separator into the rest
    have hmem : sep ∈ terminated sep (y :: ys) ++ t' := mem_terminated_cons y ys t'
    rw [← h] at hmem
    exact absurd hmem ht
  | cons x xs ih =>
    rcases ys with _ | ⟨y, ys⟩
    · have hmem : sep ∈ terminated sep (x :: xs) ++ t := mem_terminated_cons x xs t
      rw [h] at hmem
      exact absurd hmem ht'
    rw [terminated_cons, terminated_cons, List.append_assoc, List.append_assoc,
      List.cons_append, List.cons_append] at h
    obtain ⟨rfl, hrest⟩ := cut_inj
      (count_eq_of_not_mem (hxs x List.mem_cons_self) (hys y List.mem_cons_self)) h
    obtain ⟨rfl, rfl⟩ := ih (fun z hz => hxs z (List.mem_cons_of_mem x hz))
      (fun z hz => hys z (List.mem_cons_of_mem x hz)) hrest
    exact ⟨rfl, rfl⟩

/-! ### Splitting -/

/-- At most `n` parts, cut at the first separators. -/
def splitN (sep : α) : ℕ → List α → List (List α)
  | 0, _ => []
  | 1, l => [l]
  | n + 2, l =>
    match l.dropWhile (· ≠ sep) with
    | [] => [l]
    | _ :: rest => l.takeWhile (· ≠ sep) :: splitN sep (n + 1) rest

/-- **A part ends at the first separator.** -/
theorem splitN_cut {n : ℕ} (ha : sep ∉ a) :
    splitN sep (n + 2) (a ++ sep :: b) = a :: splitN sep (n + 1) b := by
  have hne : ∀ x ∈ a, decide (x ≠ sep) = true :=
    fun x hx => decide_eq_true fun h => ha (h ▸ hx)
  have hdrop : (sep :: b).dropWhile (fun x => decide (x ≠ sep)) = sep :: b :=
    List.dropWhile_cons_of_neg (by simp)
  have htake : (sep :: b).takeWhile (fun x => decide (x ≠ sep)) = [] :=
    List.takeWhile_cons_of_neg (by simp)
  rw [splitN, List.dropWhile_append_of_pos hne, List.takeWhile_append_of_pos hne, hdrop, htake,
    List.append_nil]

theorem eq_of_splitN {n : ℕ} {l : List α} {rest : List (List α)}
    (h : splitN sep (n + 2) l = a :: b :: rest) :
    ∃ l', l = a ++ sep :: l' ∧ sep ∉ a ∧ splitN sep (n + 1) l' = b :: rest := by
  rw [splitN] at h
  split at h
  · cases h
  rename_i x l' hdrop
  obtain ⟨rfl, hrest⟩ := List.cons.inj h
  have hx : x = sep := by
    have hhead := List.head?_dropWhile_not (fun y => decide (y ≠ sep)) l
    rw [hdrop] at hhead
    simpa using hhead
  subst hx
  refine ⟨l', ?_, ?_, hrest⟩
  · rw [← hdrop, List.takeWhile_append_dropWhile]
  · intro hmem
    have hall := List.all_takeWhile (l := l) (p := fun y => decide (y ≠ x))
    simpa using List.all_eq_true.mp hall x hmem

end Cuts

/-! ### Decimal texts -/

theorem mem_toString_nat {n : ℕ} {c : Char} (h : c ∈ (toString n).toList) : c.isDigit = true := by
  rw [Nat.toString_eq_ofList_toDigits, String.toList_ofList] at h
  exact Nat.isDigit_of_mem_toDigits (by decide) (by decide) h

theorem toString_nat_inj {m n : ℕ} (h : toString m = toString n) : m = n := by
  rw [Nat.toString_eq_ofList_toDigits, Nat.toString_eq_ofList_toDigits] at h
  have hdigits := congrArg String.toList h
  rw [String.toList_ofList, String.toList_ofList] at hdigits
  rw [← Nat.ofDigitChars_ten_toDigits (n := m), hdigits, Nat.ofDigitChars_ten_toDigits]

theorem toString_negSucc (n : ℕ) :
    (toString (Int.negSucc n)).toList = '-' :: (toString (n + 1)).toList :=
  String.toList_append

theorem mem_toString_int {z : ℤ} {c : Char} (h : c ∈ (toString z).toList) :
    c = '-' ∨ c.isDigit = true := by
  cases z with
  | ofNat n => exact .inr (mem_toString_nat h)
  | negSucc n =>
    rw [toString_negSucc] at h
    exact (List.mem_cons.mp h).imp id mem_toString_nat

theorem toString_int_inj {y z : ℤ} (h : toString y = toString z) : y = z := by
  have hlist := congrArg String.toList h
  -- a number text without a sign has no minus in it
  have hsign : ∀ m n : ℕ, (toString m).toList ≠ '-' :: (toString n).toList := by
    intro m n hmn
    have hminus : '-' ∈ (toString m).toList := hmn ▸ List.mem_cons_self
    exact absurd (mem_toString_nat hminus) (by decide)
  cases y with
  | ofNat m =>
    cases z with
    | ofNat n => exact congrArg Int.ofNat (toString_nat_inj h)
    | negSucc n =>
      rw [toString_negSucc] at hlist
      exact absurd hlist (hsign m (n + 1))
  | negSucc m =>
    cases z with
    | ofNat n =>
      rw [toString_negSucc] at hlist
      exact absurd hlist.symm (hsign n (m + 1))
    | negSucc n =>
      rw [toString_negSucc, toString_negSucc] at hlist
      have htail : toString (m + 1) = toString (n + 1) :=
        String.toList_inj.mp (List.cons.inj hlist).2
      have hsucc := toString_nat_inj htail
      rw [Nat.add_right_cancel hsucc]

end Separators
