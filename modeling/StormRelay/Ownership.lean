/-
Tables whose rows belong to somebody.

A row belongs to an owner by a column of its own, or by a reference to a row that
does.  What holds of every table with a primary key:

* `others`, `Rewrites.others`, `others_append` — the rows of everybody else, and the
  frame rules: **writing rows of one owner leaves the rows of the others alone**.
-/
import StormRelay.Table

namespace Ownership

open Table

variable {α β κ ι τ : Type}

/-! ### Owned keys -/

/-- The row of `t` under the key `k` belongs to `o`. -/
def Owns (key : α → κ) (owner : α → τ) (t : List α) (o : τ) (k : κ) : Prop :=
  ∃ r ∈ t, key r = k ∧ owner r = o

section Owns

variable {key : α → κ} {owner : α → τ} {t new : List α} {o o' : τ} {k : κ}

theorem Owns.owner_eq (hk : Keyed key t) (h : Owns key owner t o k) {r : α} (hr : r ∈ t)
    (hkey : key r = k) : owner r = o := by
  obtain ⟨r', hr', hkey', rfl⟩ := h
  rw [hk.eq_of_key hr hr' (hkey.trans hkey'.symm)]

/-- **A key has one owner.** -/
theorem Owns.unique (hk : Keyed key t) (h : Owns key owner t o k) (h' : Owns key owner t o' k) :
    o = o' := by
  obtain ⟨r, hr, hkey, rfl⟩ := h
  exact h'.owner_eq hk hr hkey

theorem Owns.append (h : Owns key owner t o k) : Owns key owner (t ++ new) o k := by
  obtain ⟨r, hr, hkey⟩ := h
  exact ⟨r, List.mem_append_left new hr, hkey⟩

theorem Owns.map {g : α → α} (hg : ∀ r ∈ t, key (g r) = key r ∧ owner (g r) = owner r)
    (h : Owns key owner t o k) : Owns key owner (t.map g) o k := by
  obtain ⟨r, hr, rfl, rfl⟩ := h
  exact ⟨g r, List.mem_map_of_mem hr, hg r hr⟩

end Owns

/-! ### Ownership through a reference -/

/-- The row of `t` under the key `k` refers to something with the property `P`. -/
def Through (key : β → ι) (ref : β → κ) (t : List β) (P : κ → Prop) (k : ι) : Prop :=
  ∃ r ∈ t, key r = k ∧ P (ref r)

section Through

variable {key : β → ι} {ref : β → κ} {t new : List β} {P Q : κ → Prop} {k : ι}

theorem Through.of_mem (hk : Keyed key t) (h : Through key ref t P k) {r : β} (hr : r ∈ t)
    (hkey : key r = k) : P (ref r) := by
  obtain ⟨r', hr', hkey', hP⟩ := h
  rw [hk.eq_of_key hr hr' (hkey.trans hkey'.symm)]
  exact hP

theorem Through.imp (hPQ : ∀ k, P k → Q k) (h : Through key ref t P k) : Through key ref t Q k := by
  obtain ⟨r, hr, hkey, hP⟩ := h
  exact ⟨r, hr, hkey, hPQ _ hP⟩

theorem Through.append (h : Through key ref t P k) : Through key ref (t ++ new) P k := by
  obtain ⟨r, hr, hkey⟩ := h
  exact ⟨r, List.mem_append_left new hr, hkey⟩

end Through

/-! ### Writing selected rows -/

/-- Rows with `sel` are written, the others are as they were, and the column `col` keeps
its values. -/
def Rewrites (sel : α → Prop) (col : α → β) (t t' : List α) : Prop :=
  ∃ g, t' = t.map g ∧ ∀ r ∈ t, col (g r) = col r ∧ (¬ sel r → g r = r)

section Rewrites

variable {sel : α → Prop} {col : α → β} {t t' t'' : List α}

theorem Rewrites.refl (t : List α) : Rewrites sel col t t :=
  ⟨id, (List.map_id t).symm, fun _ _ => ⟨rfl, fun _ => rfl⟩⟩

theorem Rewrites.trans (h : Rewrites sel col t t') (h' : Rewrites sel col t' t'') :
    Rewrites sel col t t'' := by
  obtain ⟨g, rfl, hg⟩ := h
  obtain ⟨k, rfl, hk⟩ := h'
  refine ⟨k ∘ g, List.map_map, fun r hr => ?_⟩
  have hkr := hk (g r) (List.mem_map_of_mem hr)
  refine ⟨hkr.1.trans (hg r hr).1, fun hsel => ?_⟩
  have hsame := (hg r hr).2 hsel
  rw [Function.comp_apply, hsame]
  rw [hsame] at hkr
  exact hkr.2 hsel

theorem Rewrites.update {p : α → Bool} {f : α → α} (hp : ∀ r ∈ t, p r = true → sel r)
    (hf : ∀ r, col (f r) = col r) : Rewrites sel col t (Table.update p f t) := by
  refine ⟨patch p f, rfl, fun r hr => ⟨patch_column col (hf r), fun hsel => ?_⟩⟩
  refine patch_neg (Bool.eq_false_iff.mpr fun hpr => hsel (hp r hr hpr))

end Rewrites

/-! ### The rows of the others -/

section Others

variable [DecidableEq τ] {owner owner' : α → Option τ} {me : τ} {t t' new : List α}

/-- The rows that do not belong to `me`. -/
def others (owner : α → Option τ) (me : τ) (t : List α) : List α :=
  t.filter fun r => owner r ≠ some me

/-- **Writing rows that belong to `me` leaves the others as they are**, even when
ownership is read from a table that is written as well. -/
theorem Rewrites.others {sel : α → Prop} {col : α → β} (h : Rewrites sel col t t')
    (hsel : ∀ r ∈ t, sel r → owner r = some me)
    (howner : ∀ r ∈ t, ∀ r', col r' = col r → owner' r' = owner r) :
    others owner' me t' = others owner me t := by
  obtain ⟨g, rfl, hg⟩ := h
  induction t with
  | nil => rfl
  | cons r t ih =>
    have ih' := ih (fun r' hr' => hsel r' (List.mem_cons_of_mem _ hr'))
      (fun r' hr' => howner r' (List.mem_cons_of_mem _ hr'))
      (fun r' hr' => hg r' (List.mem_cons_of_mem _ hr'))
    obtain ⟨hcol, hkeep⟩ := hg r List.mem_cons_self
    have hsame : owner' (g r) = owner r := howner r List.mem_cons_self _ hcol
    simp only [Ownership.others] at ih' ⊢
    rw [List.map_cons]
    by_cases hown : owner r = some me
    · rw [List.filter_cons_of_neg (by simp [hsame, hown]), List.filter_cons_of_neg (by simp [hown]),
        ih']
    · have hrow : g r = r := hkeep fun hs => hown (hsel r List.mem_cons_self hs)
      rw [List.filter_cons_of_pos (by simp [hsame, hown]), List.filter_cons_of_pos (by simp [hown]),
        ih', hrow]

/-- New rows of `me` are none of the others'. -/
theorem others_append (h : ∀ r ∈ new, owner r = some me) :
    others owner me (t ++ new) = others owner me t := by
  have hnone : others owner me new = [] := by
    refine List.filter_eq_nil_iff.mpr fun r hr => ?_
    simp [h r hr]
  rw [others, List.filter_append, ← others, ← others, hnone, List.append_nil]

end Others

end Ownership
