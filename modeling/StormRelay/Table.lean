/-
Relational tables as lists of rows.

A table is a list of rows; `UPDATE t SET f WHERE p` is `update p f t`, which
rewrites the matching rows in place and reports how many there were
(`affected`).  Nothing here depends on what a row is:

* `arrange_keys` — **the answer to a query without `ORDER BY` may come in any
  order**;
* `foldl_patch_selected` — **selecting rows and then updating them one by one, in
  any order, is one update**;
* `three_way_split` — rows in order that fall into a prefix, at most one row,
  and a suffix.
-/
import Mathlib.Data.List.Nodup
import Mathlib.Data.List.Count
import Mathlib.Data.List.Sort

namespace Table

variable {α β κ : Type}

/-- One row under `UPDATE … SET f WHERE p`. -/
def patch (p : α → Bool) (f : α → α) (r : α) : α :=
  if p r then f r else r

/-- `UPDATE t SET f WHERE p`. -/
def update (p : α → Bool) (f : α → α) (t : List α) : List α :=
  t.map (patch p f)

/-- The number of rows an update with condition `p` touches. -/
def affected (p : α → Bool) (t : List α) : ℕ :=
  t.countP p

/-- `key` is a primary key of the table: no two rows share it. -/
def Keyed (key : α → κ) (t : List α) : Prop :=
  (t.map key).Nodup

variable {p : α → Bool} {f : α → α} {r r' : α}

theorem patch_pos (h : p r = true) :
    patch p f r = f r := by
  rw [patch, if_pos h]

theorem patch_neg (h : p r = false) :
    patch p f r = r := by
  rw [patch, if_neg (by simp [h])]

/-- A column the update does not write keeps its value. -/
theorem patch_column (c : α → β) (h : c (f r) = c r) : c (patch p f r) = c r := by
  rw [patch]
  split
  · exact h
  · rfl

variable {t : List α}

theorem mem_update :
    r' ∈ update p f t ↔ ∃ r ∈ t, patch p f r = r' := by
  rw [update, List.mem_map]

theorem mem_update_of_mem (h : r ∈ t) : patch p f r ∈ update p f t :=
  mem_update.mpr ⟨r, h, rfl⟩

theorem exists_row {c : α → β} {rows : List α} {entries : List β}
    (h : rows.map c = entries) {entry : β} (hentry : entry ∈ entries) :
    ∃ r ∈ rows, c r = entry :=
  List.mem_map.mp (h ▸ hentry)

theorem mem_update_pos (h : r ∈ t) (hp : p r = true) : f r ∈ update p f t := by
  have hmem := mem_update_of_mem (p := p) (f := f) h
  rwa [patch_pos hp] at hmem

theorem mem_update_neg (h : r ∈ t) (hp : p r = false) : r ∈ update p f t := by
  have hmem := mem_update_of_mem (p := p) (f := f) h
  rwa [patch_neg hp] at hmem

/-- A row of an updated table was written by the update, or is an old row it
does not match. -/
theorem mem_update_cases (h : r' ∈ update p f t) :
    (∃ r ∈ t, p r = true ∧ r' = f r) ∨ r' ∈ t ∧ p r' = false := by
  obtain ⟨r, hr, rfl⟩ := mem_update.mp h
  by_cases hp : p r = true
  · exact .inl ⟨r, hr, hp, patch_pos hp⟩
  · rw [Bool.not_eq_true] at hp
    rw [patch_neg hp]
    exact .inr ⟨hr, hp⟩

theorem map_update {c : α → β} {q : β → Bool} {g : β → β} (hp : ∀ r, p r = q (c r))
    (hf : ∀ r, c (f r) = g (c r)) (t : List α) :
    (update p f t).map c = update q g (t.map c) := by
  rw [update, update, List.map_map, List.map_map]
  refine List.map_congr_left fun r _ => ?_
  simp only [Function.comp_apply, patch, hp r]
  split
  · exact hf r
  · rfl

/-- An update that matches no row leaves the table as it is. -/
theorem update_eq_self (h : ∀ r ∈ t, p r = false) : update p f t = t := by
  rw [update]
  conv_rhs => rw [← List.map_id t]
  exact List.map_congr_left fun r hr => patch_neg (h r hr)

theorem update_eq_self_iff (hf : ∀ r, f r ≠ r) :
    update p f t = t ↔ ∀ r ∈ t, p r = false := by
  refine ⟨fun h => ?_, update_eq_self⟩
  induction t with
  | nil => exact fun r hr => by cases hr
  | cons r t ih =>
    rw [update, List.map_cons, List.cons.injEq] at h
    intro r' hr'
    rcases List.mem_cons.mp hr' with rfl | hr'
    · rw [← Bool.not_eq_true]
      intro hp
      rw [patch_pos hp] at h
      exact hf r' h.1
    · exact ih h.2 r' hr'

/-- A selection that does not read what the update writes commutes with it. -/
theorem filter_update {q : α → Bool} (hq : ∀ r, q (f r) = q r) (t : List α) :
    (update p f t).filter q = update p f (t.filter q) := by
  have hcol : ∀ r, q (patch p f r) = q r := fun r => patch_column q (hq r)
  rw [update, update, List.filter_map]
  congr 1
  exact List.filter_congr fun r _ => hcol r

theorem find?_update {q : α → Bool} (hq : ∀ r, q (f r) = q r) (t : List α) :
    (update p f t).find? q = (t.find? q).map (patch p f) := by
  have hcol : q ∘ patch p f = q := funext fun r => patch_column q (hq r)
  rw [update, List.find?_map, hcol]

theorem exists_of_affected (h : affected p t = 1) :
    ∃ r ∈ t, p r = true := by
  rw [← List.countP_pos_iff, ← affected, h]
  exact Nat.one_pos

variable {key : α → κ}

theorem Keyed.map {g : α → α} (h : Keyed key t) (hg : ∀ r ∈ t, key (g r) = key r) :
    Keyed key (t.map g) := by
  have hkeys : (t.map g).map key = t.map key := by
    rw [List.map_map]
    exact List.map_congr_left hg
  rw [Keyed, hkeys]
  exact h

theorem Keyed.append_singleton (h : Keyed key t) (hr : ∀ r' ∈ t, key r' ≠ key r) :
    Keyed key (t ++ [r]) := by
  rw [Keyed, List.map_append, List.map_singleton, List.nodup_append]
  refine ⟨h, List.nodup_singleton _, fun k hk k' hk' => ?_⟩
  obtain ⟨r', hr', rfl⟩ := List.mem_map.mp hk
  rw [List.mem_singleton.mp hk']
  exact hr r' hr'

/-- A primary key names at most one row. -/
theorem Keyed.eq_of_key (h : Keyed key t) (hr : r ∈ t) (hr' : r' ∈ t) (hk : key r = key r') :
    r = r' :=
  List.inj_on_of_nodup_map h hr hr' hk

theorem Keyed.mem_update_cases (h : Keyed key t) (hr : r ∈ t) (hpr : p r = true)
    (honly : ∀ y, p y = true → key y = key r) (hr' : r' ∈ update p f t) :
    r' = f r ∨ r' ∈ t ∧ key r' ≠ key r := by
  rcases Table.mem_update_cases hr' with ⟨y, hy, hpy, rfl⟩ | ⟨hr', hp⟩
  · left
    rw [h.eq_of_key hy hr (honly y hpy)]
  · refine .inr ⟨hr', fun hkey => ?_⟩
    rw [h.eq_of_key hr' hr hkey, hpr] at hp
    cases hp

theorem Keyed.affected_eq_one (h : Keyed key t) {k : κ} (hp : ∀ r, p r = true → key r = k)
    (hr : r ∈ t) (hpr : p r = true) :
    affected p t = 1 := by
  induction t with
  | nil => cases hr
  | cons y t ih =>
    obtain ⟨hy, ht⟩ := List.nodup_cons.mp (show (key y :: t.map key).Nodup from h)
    rw [affected, List.countP_cons]
    by_cases hpy : p y = true
    · -- No other row has the key, so none matches.
      have hrest : t.countP p = 0 := by
        refine List.countP_eq_zero.mpr fun z hz hpz => hy ?_
        rw [hp y hpy, ← hp z hpz]
        exact List.mem_map_of_mem hz
      rw [hrest, if_pos hpy]
    · have hrt : r ∈ t := (List.mem_cons.mp hr).resolve_left fun he => hpy (he ▸ hpr)
      rw [if_neg hpy]
      exact ih ht hrt

theorem Keyed.find?_eq [DecidableEq κ] (h : Keyed key t) (hr : r ∈ t) :
    t.find? (fun x => key x = key r) = some r := by
  obtain ⟨x, hx⟩ : ∃ x, t.find? (fun x => decide (key x = key r)) = some x := by
    rw [← Option.isSome_iff_exists, List.find?_isSome]
    exact ⟨r, hr, by simp⟩
  have hkey : key x = key r := by simpa using List.find?_some hx
  rw [hx, h.eq_of_key (List.mem_of_find?_eq_some hx) hr hkey]

/-- The rows with the primary key of a stored row. -/
theorem Keyed.filter_eq [DecidableEq κ] (h : Keyed key t) (hr : r ∈ t) :
    t.filter (fun x => key x = key r) = [r] := by
  have hone : affected (fun x => decide (key x = key r)) t = 1 :=
    h.affected_eq_one (fun _ hx => of_decide_eq_true hx) hr (decide_eq_true rfl)
  rw [affected, List.countP_eq_length_filter, List.length_eq_one_iff] at hone
  obtain ⟨x, hx⟩ := hone
  have hmem : r ∈ t.filter fun x => decide (key x = key r) :=
    List.mem_filter.mpr ⟨hr, decide_eq_true rfl⟩
  rw [hx, List.mem_singleton] at hmem
  rw [hx, hmem]

/-! ### Loops of updates -/

/-- A loop of updates is one pass over the table. -/
theorem foldl_update (p : β → α → Bool) (f : β → α → α) (items : List β) (t : List α) :
    items.foldl (fun t x => update (p x) (f x) t) t
      = t.map fun r => items.foldl (fun r x => patch (p x) (f x) r) r := by
  induction items generalizing t with
  | nil => simp
  | cons x xs ih =>
    rw [List.foldl_cons, ih, update, List.map_map]
    rfl

section Loop

variable {key : α → κ} [DecidableEq κ] {name : β → κ} {f : β → α → α}

theorem foldl_patch_of_not_mem (f : β → α → α) {items : List β} {r : α}
    (h : key r ∉ items.map name) :
    items.foldl (fun r x => patch (fun y => key y = name x) (f x) r) r = r := by
  induction items with
  | nil => rfl
  | cons x xs ih =>
    rw [List.map_cons, List.mem_cons, not_or] at h
    rw [List.foldl_cons, patch_neg (by simpa using h.1)]
    exact ih h.2

/-- A row the loop names is rewritten once, by its own pass: the other passes
name other keys. -/
theorem foldl_patch_of_mem {items : List β} {x : β} {r : α} (hf : ∀ x r, key (f x r) = key r)
    (hk : Keyed name items) (hx : x ∈ items) (hr : key r = name x) :
    items.foldl (fun r x => patch (fun y => key y = name x) (f x) r) r = f x r := by
  induction items with
  | nil => cases hx
  | cons y ys ih =>
    rw [Keyed, List.map_cons, List.nodup_cons] at hk
    rw [List.foldl_cons]
    rcases List.mem_cons.mp hx with rfl | hys
    · rw [patch_pos (by simpa using hr)]
      exact foldl_patch_of_not_mem f (by rw [hf, hr]; exact hk.1)
    have hne : key r ≠ name y := fun he =>
      hk.1 (he ▸ hr ▸ List.mem_map_of_mem hys)
    rw [patch_neg (by simpa using hne)]
    exact ih hk.2 hys

end Loop

/-- **Select, then update one by one.**  If the loop runs over the rows that
`sel` selects, in any order, every selected row is rewritten once and no other
row is. -/
theorem foldl_patch_selected [DecidableEq κ] {f : α → α → α} {sel : α → Bool} {items : List α}
    (hf : ∀ x r, key (f x r) = key r) (hk : Keyed key t) (hitems : items.Perm (t.filter sel))
    (hr : r ∈ t) :
    items.foldl (fun r x => patch (fun y => key y = key x) (f x) r) r
      = patch sel (fun r => f r r) r := by
  have hsub : Keyed key items :=
    (hitems.map key).nodup_iff.mpr (hk.sublist (List.filter_sublist.map key))
  by_cases hsel : sel r = true
  · have hmem : r ∈ items := hitems.mem_iff.mpr (List.mem_filter.mpr ⟨hr, hsel⟩)
    rw [patch_pos hsel, foldl_patch_of_mem hf hsub hmem rfl]
  rw [patch_neg (by simpa using hsel)]
  refine foldl_patch_of_not_mem f fun hmem => hsel ?_
  obtain ⟨x, hx, hxr⟩ := List.mem_map.mp hmem
  obtain ⟨hxt, hxsel⟩ := List.mem_filter.mp (hitems.mem_iff.mp hx)
  rw [← hk.eq_of_key hxt hr hxr]
  exact hxsel

/-! ### Answers in any order -/

section Arrange

variable [DecidableEq κ] {key : α → κ} {order : List κ}

/-- The answer to a query without `ORDER BY`: its rows in the order in which
`order` lists their keys. -/
def arrange (key : α → κ) (order : List κ) (t : List α) : List α :=
  t.insertionSort fun a b => order.idxOf (key a) ≤ order.idxOf (key b)

theorem arrange_perm (t : List α) : (arrange key order t).Perm t :=
  List.perm_insertionSort _ t

theorem mem_arrange : r ∈ arrange key order t ↔ r ∈ t :=
  (arrange_perm t).mem_iff

/-- **Every order of the rows is one of these.** -/
theorem arrange_keys (hk : Keyed key t) {l : List α} (hl : l.Perm t) :
    arrange key (l.map key) t = l := by
  have hkl : (l.map key).Nodup := (hl.map key).nodup_iff.mpr hk
  have : Std.Total fun a b : α => (l.map key).idxOf (key a) ≤ (l.map key).idxOf (key b) :=
    ⟨fun a b => Nat.le_total _ _⟩
  have : IsTrans α fun a b => (l.map key).idxOf (key a) ≤ (l.map key).idxOf (key b) :=
    ⟨fun _ _ _ => Nat.le_trans⟩
  refine ((arrange_perm t).trans hl.symm).eq_of_pairwise (fun a b ha hb hle hge => ?_)
    (List.pairwise_insertionSort _ t) ?_
  · -- Rows at the same place of the list have the same key.
    have hmem : key a ∈ l.map key := List.mem_map_of_mem (hl.mem_iff.mpr (mem_arrange.mp ha))
    exact List.inj_on_of_nodup_map hkl (hl.mem_iff.mpr (mem_arrange.mp ha)) hb
      ((List.idxOf_inj hmem).mp (le_antisymm hle hge))
  · rw [List.pairwise_iff_getElem]
    intro i j hi hj hij
    have hplace : ∀ k (hk : k < l.length), (l.map key).idxOf (key l[k]) = k := fun k hk => by
      have hlen : k < (l.map key).length := by rwa [List.length_map]
      rw [← List.getElem_map key (h := hlen)]
      exact hkl.idxOf_getElem k hlen
    rw [hplace i hi, hplace j hj]
    exact hij.le

end Arrange

/-! ### Tables that only grow -/

/-- Rows with the property `new` were appended, under keys of their own. -/
def Grows (key : α → κ) (new : α → Prop) (t t' : List α) : Prop :=
  ∃ added, t' = t ++ added ∧ (Keyed key t → Keyed key t') ∧ ∀ r ∈ added, new r

section Grows

variable {key : α → κ} {new : α → Prop} {t t' t'' : List α} {r : α}

theorem Grows.refl (t : List α) : Grows key new t t :=
  ⟨[], (List.append_nil t).symm, id, nofun⟩

theorem Grows.trans (h : Grows key new t t') (h' : Grows key new t' t'') : Grows key new t t'' := by
  obtain ⟨added, rfl, hkeyed, hnew⟩ := h
  obtain ⟨added', rfl, hkeyed', hnew'⟩ := h'
  refine ⟨added ++ added', List.append_assoc _ _ _, fun hk => hkeyed' (hkeyed hk), fun r hr => ?_⟩
  rcases List.mem_append.mp hr with hr | hr
  · exact hnew r hr
  · exact hnew' r hr

theorem Grows.snoc (hr : ∀ r' ∈ t, key r' ≠ key r) (hnew : new r) : Grows key new t (t ++ [r]) :=
  ⟨[r], rfl, fun hk => hk.append_singleton hr, fun _ hr => List.mem_singleton.mp hr ▸ hnew⟩

theorem Grows.keyed (h : Grows key new t t') (hk : Keyed key t) : Keyed key t' := by
  obtain ⟨-, -, hkeyed, -⟩ := h
  exact hkeyed hk

theorem Grows.mem (h : Grows key new t t') (hr : r ∈ t) : r ∈ t' := by
  obtain ⟨added, rfl, -, -⟩ := h
  exact List.mem_append_left added hr

theorem Grows.mem_cases (h : Grows key new t t') (hk : Keyed key t) (hr : r ∈ t') :
    r ∈ t ∨ new r ∧ ∀ r' ∈ t, key r' ≠ key r := by
  obtain ⟨added, rfl, hkeyed, hnew⟩ := h
  rcases List.mem_append.mp hr with hold | hadded
  · exact .inl hold
  refine .inr ⟨hnew r hadded, fun r' hr' => ?_⟩
  have hdisjoint := hkeyed hk
  rw [Keyed, List.map_append, List.nodup_append] at hdisjoint
  exact hdisjoint.2.2 _ (List.mem_map_of_mem hr') _ (List.mem_map_of_mem hadded)

end Grows

/-! ### Rows in order -/

theorem pairwise_sorted (le : α → α → Prop) [DecidableRel le] [Std.Total le] [IsTrans α le]
    {D : α → α → Prop} (hD : ∀ {x y}, D x y → D y x) (h : t.Pairwise D) :
    (t.insertionSort le).Pairwise fun x y => le x y ∧ D x y := by
  have hsorted : (t.insertionSort le).Pairwise le := List.pairwise_insertionSort le t
  have hdistinct : (t.insertionSort le).Pairwise D :=
    (List.Perm.pairwise_iff hD (List.perm_insertionSort le t)).mpr h
  exact hsorted.and hdistinct

/-- **Prefix, at most one, suffix.**  If of every two rows the first is `P` or
the second is `R`, the rows split into rows that are `P`, at most one that is
neither, and rows that are `R`. -/
theorem three_way_split {P Q R : α → Prop} (hall : ∀ x ∈ t, P x ∨ Q x ∨ R x)
    (h : t.Pairwise fun x y => P x ∨ R y) :
    ∃ before at_ after, t = before ++ at_ ++ after ∧ (∀ x ∈ before, P x) ∧ at_.length ≤ 1
      ∧ (∀ x ∈ at_, Q x) ∧ ∀ x ∈ after, R x := by
  induction t with
  | nil => exact ⟨[], [], [], rfl, by simp, by simp, by simp, by simp⟩
  | cons x t ih =>
    obtain ⟨hx, ht⟩ := List.pairwise_cons.mp h
    obtain ⟨before, at_, after, rfl, hb, hlen, ha, hr⟩ :=
      ih (fun y hy => hall y (List.mem_cons_of_mem x hy)) ht
    by_cases hP : P x
    · refine ⟨x :: before, at_, after, rfl, ?_, hlen, ha, hr⟩
      intro y hy
      rcases List.mem_cons.mp hy with rfl | hy
      · exact hP
      · exact hb y hy
    -- Everything after the first row that is not `P` is `R`.
    have hrest : ∀ y ∈ before ++ at_ ++ after, R y := fun y hy => (hx y hy).resolve_left hP
    rcases (hall x List.mem_cons_self).resolve_left hP with hQ | hR
    · exact ⟨[], [x], before ++ at_ ++ after, rfl, by simp, by simp, by simpa using hQ, hrest⟩
    refine ⟨[], [], x :: (before ++ at_ ++ after), rfl, by simp, by simp, by simp, ?_⟩
    intro y hy
    rcases List.mem_cons.mp hy with rfl | hy
    · exact hR
    · exact hrest y hy

end Table
