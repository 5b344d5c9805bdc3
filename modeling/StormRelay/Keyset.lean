/-
Reading a list page by page, from a key downwards.

A table whose rows have distinct keys is listed in descending order of the keys.  A page
holds the first rows below a bound, and the last key of a full page is the bound of the
next one.

* `yields_listing` — following the pages gives the whole listing.
-/
import Mathlib.Data.List.Sort
import Mathlib.Order.Basic
import StormRelay.Table

namespace Keyset

open Table

variable {α κ γ : Type} [LinearOrder κ] {key : α → κ} {t : List α} {b : κ} {n : ℕ}

/-! ### Listings and pages -/

def listing (key : α → κ) (t : List α) : List α :=
  t.insertionSort fun x y => key y ≤ key x

/-- The rows with a key below `b`. -/
def below (key : α → κ) (b : κ) (t : List α) : List α :=
  t.filter fun x => key x < b

/-- The first `n` rows below `b`. -/
def page (key : α → κ) (n : ℕ) (b : κ) (t : List α) : List α :=
  (listing key (below key b t)).take n

theorem listing_perm (key : α → κ) (t : List α) : (listing key t).Perm t :=
  List.perm_insertionSort _ t

theorem mem_below {x : α} : x ∈ below key b t ↔ x ∈ t ∧ key x < b := by
  rw [below, List.mem_filter, decide_eq_true_eq]

theorem mem_of_mem_page {x : α} (h : x ∈ page key n b t) : x ∈ t ∧ key x < b :=
  mem_below.mp ((listing_perm key _).mem_iff.mp (List.mem_of_mem_take h))

theorem keyed_below (h : Keyed key t) : Keyed key (below key b t) :=
  h.sublist ((List.filter_sublist).map key)

theorem pairwise_listing (h : Keyed key t) :
    (listing key t).Pairwise fun x y => key y < key x := by
  have : Std.Total fun x y : α => key y ≤ key x := ⟨fun x y => le_total (key y) (key x)⟩
  have : IsTrans α fun x y : α => key y ≤ key x :=
    ⟨fun _ _ _ hxy hyz => le_trans hyz hxy⟩
  have hsorted := pairwise_sorted (fun x y : α => key y ≤ key x) (D := fun x y => key x ≠ key y)
    (fun hne => hne.symm) (List.pairwise_map.mp h)
  exact hsorted.imp fun hxy => lt_of_le_of_ne hxy.1 hxy.2.symm

theorem eq_listing {l : List α} (hperm : l.Perm t)
    (hdesc : l.Pairwise fun x y => key y < key x) : l = listing key t := by
  have hkeyed : Keyed key t := by
    refine (hperm.map key).nodup_iff.mp (List.pairwise_map.mpr (hdesc.imp ?_))
    exact fun {x y} hxy => (ne_of_lt hxy).symm
  refine List.Perm.eq_of_pairwise (fun x y _ _ hxy hyx => ?_) hdesc (pairwise_listing hkeyed)
    (hperm.trans (listing_perm key t).symm)
  exact absurd hyx (lt_asymm hxy)

/-- **Below the key of a listed row stand the rows listed after it.** -/
theorem listing_below_key (hkeyed : Keyed key t) {l r : List α} {a : α}
    (h : listing key (below key b t) = l ++ a :: r) :
    listing key (below key (key a) t) = r := by
  have hdesc : (l ++ a :: r).Pairwise fun x y => key y < key x := by
    rw [← h]
    exact pairwise_listing (keyed_below hkeyed)
  obtain ⟨-, hright, hacross⟩ := List.pairwise_append.mp hdesc
  obtain ⟨hafter, hr⟩ := List.pairwise_cons.mp hright
  have hab : key a < b := by
    have hmem : a ∈ below key b t := by
      refine (listing_perm key _).mem_iff.mp ?_
      rw [h]
      exact List.mem_append_right _ List.mem_cons_self
    exact (mem_below.mp hmem).2
  refine (eq_listing ?_ hr).symm
  -- cutting at the key of `a` keeps, of the rows listed below `b`, those after `a`
  have hcut : below key (key a) (l ++ a :: r) = r := by
    have hl : below key (key a) l = [] := by
      refine List.filter_eq_nil_iff.mpr fun x hx => ?_
      rw [decide_eq_true_eq]
      exact lt_asymm (hacross x hx a List.mem_cons_self)
    have hrest : below key (key a) (a :: r) = r := by
      rw [below, List.filter_cons_of_neg (by simp)]
      exact List.filter_eq_self.mpr fun x hx => decide_eq_true (hafter x hx)
    rw [below, List.filter_append, ← below, ← below, hl, hrest, List.nil_append]
  have hnested : below key (key a) (below key b t) = below key (key a) t := by
    rw [below, below, List.filter_filter]
    refine List.filter_congr fun x _ => ?_
    rw [Bool.and_eq_left_iff_imp, decide_eq_true_eq, decide_eq_true_eq]
    exact fun hx => lt_trans hx hab
  have hperm := (listing_perm key (below key b t)).filter fun x => decide (key x < key a)
  rw [h] at hperm
  rw [← hnested, ← hcut]
  exact hperm

/-! ### Following cursors -/

/-- Following the cursors from `c` comes to an end, having given `items`. -/
inductive Yields (fetch : γ → Option (List α × Option γ)) : γ → List α → Prop
  | last {c : γ} {items : List α} : fetch c = some (items, none) → Yields fetch c items
  | next {c d : γ} {items rest : List α} :
    fetch c = some (items, some d) → Yields fetch d rest → Yields fetch c (items ++ rest)

variable {fetch : γ → Option (List α × Option γ)} {c : γ} {items : List α}

theorem Yields.forall_mem {I : γ → Prop} {P : α → Prop} (h : Yields fetch c items) (hc : I c)
    (hfetch : ∀ c items next, I c → fetch c = some (items, next) →
      (∀ x ∈ items, P x) ∧ ∀ d, next = some d → I d) :
    ∀ x ∈ items, P x := by
  induction h with
  | last hpage => exact (hfetch _ _ _ hc hpage).1
  | next hpage _ ih =>
    obtain ⟨hitems, hnext⟩ := hfetch _ _ _ hc hpage
    intro x hx
    rcases List.mem_append.mp hx with hx | hx
    · exact hitems x hx
    · exact ih (hnext _ rfl) x hx

theorem Yields.eq_of_last {first : List α} (h : Yields fetch c items)
    (hlast : fetch c = some (first, none)) : items = first := by
  cases h with
  | last hpage =>
    rw [hlast] at hpage
    exact (Prod.ext_iff.mp (Option.some.inj hpage)).1.symm
  | next hpage _ =>
    rw [hlast] at hpage
    exact absurd (Prod.ext_iff.mp (Option.some.inj hpage)).2 (by simp)

def nextCursor (n : ℕ) (cursor : α → γ) (items : List α) : Option γ :=
  if items.length = n then items.getLast?.map cursor else none

/-- **Following the pages gives the whole listing.**  `At c b` says that the cursor `c`
stands for the bound `b`. -/
theorem yields_listing {At : γ → κ → Prop} {cursor : α → γ} (hkeyed : Keyed key t)
    (hn : 0 < n)
    (hpage : ∀ c b, At c b →
      fetch c = some (page key n b t, nextCursor n cursor (page key n b t)))
    (hcursor : ∀ x ∈ t, At (cursor x) (key x)) :
    ∀ (m : ℕ) (c : γ) (b : κ), (below key b t).length ≤ m → At c b →
      Yields fetch c (listing key (below key b t)) := by
  -- by induction on a bound for the number of rows still to come
  intro m
  induction m with
  | zero =>
    intro c b hm hAt
    have hnil : below key b t = [] := List.length_eq_zero_iff.mp (by omega)
    have hempty : page key n b t = [] := by rw [page, hnil]; exact List.take_nil
    refine .last ?_
    rw [hpage c b hAt, hempty, hnil, nextCursor, if_neg (by simp; omega)]
    rfl
  | succ m ih =>
    intro c b hm hAt
    by_cases hfull : (page key n b t).length = n
    · -- a full page ends in some row `a`, and the next one starts below it
      obtain ⟨l, a, hla⟩ : ∃ l a, page key n b t = l ++ [a] := by
        refine ⟨_, _, (List.dropLast_append_getLast ?_).symm⟩
        exact List.ne_nil_of_length_pos (by omega)
      have hsplit : listing key (below key b t)
          = l ++ a :: (listing key (below key b t)).drop n := by
        have hcat := List.take_append_drop n (listing key (below key b t))
        rw [← page, hla, List.append_assoc] at hcat
        exact hcat.symm
      have hrest := listing_below_key hkeyed hsplit
      have ha : a ∈ t ∧ key a < b :=
        mem_of_mem_page (n := n) (by rw [hla]; exact List.mem_append_right _ (by simp))
      have hlen : (below key (key a) t).length ≤ m := by
        have h1 := (listing_perm key (below key (key a) t)).length_eq
        have h2 := (listing_perm key (below key b t)).length_eq
        rw [hrest, List.length_drop] at h1
        omega
      have hnext : fetch c = some (l ++ [a], some (cursor a)) := by
        rw [hpage c b hAt, nextCursor, if_pos hfull, hla, List.getLast?_concat]
        rfl
      have hyields := Yields.next hnext (ih (cursor a) (key a) hlen (hcursor a ha.1))
      rw [hrest] at hyields
      rw [hsplit]
      simpa using hyields
    -- a short page is the rest of the listing
    have hall : page key n b t = listing key (below key b t) := by
      rw [page, List.length_take] at hfull
      rw [page, List.take_of_length_le (by omega)]
    refine .last ?_
    rw [hpage c b hAt, nextCursor, if_neg hfull, hall]

end Keyset
