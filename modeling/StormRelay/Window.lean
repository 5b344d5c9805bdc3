/-
Times that lie close together.

Times are elements of a linearly ordered commutative group.  A list of times is
*spaced* by `W` when, in increasing order, consecutive times differ by at most
`W`: there is no gap longer than `W` between its first and its last element.

* `Spaced.append_iff` — **a further time keeps the list spaced exactly when it
  lies within `W` of one of its elements**.
-/
import Mathlib.Algebra.Order.Group.Defs
import Mathlib.Data.Finset.Max
import Mathlib.Data.List.Chain
import Mathlib.Data.List.Sort

namespace Window

theorem exists_last {K : Type} [LinearOrder K] {l : List K} {p : K → Prop} (h : ∃ s ∈ l, p s) :
    ∃ m ∈ l, p m ∧ ∀ s ∈ l, p s → s ≤ m := by
  classical
  obtain ⟨s, hs, hp⟩ := h
  obtain ⟨m, hm, hmax⟩ := (l.toFinset.filter p).exists_max_image id
    ⟨s, by simpa using ⟨hs, hp⟩⟩
  simp only [Finset.mem_filter, List.mem_toFinset, id_eq] at hm hmax
  exact ⟨m, hm.1, hm.2, fun s hs hp => hmax s ⟨hs, hp⟩⟩

variable {K : Type} [AddCommGroup K] [LinearOrder K] [IsOrderedAddMonoid K] {W t : K} {l : List K}

/-- In increasing order, consecutive times differ by at most `W`. -/
def Spaced (W : K) (times : List K) : Prop :=
  (times.insertionSort (· ≤ ·)).IsChain fun a b => b - a ≤ W

instance (W : K) (times : List K) : Decidable (Spaced W times) :=
  inferInstanceAs (Decidable (List.IsChain _ _))

/-- Every time that is not the last has a later one within `W`. -/
def Linked (W : K) (l : List K) : Prop :=
  ∀ a ∈ l, (∃ b ∈ l, a < b) → ∃ b ∈ l, a < b ∧ b ≤ a + W

theorem isChain_iff_linked (hW : 0 ≤ W) (hsorted : l.Pairwise (· ≤ ·)) :
    (l.IsChain fun a b => b - a ≤ W) ↔ Linked W l := by
  induction l with
  | nil => exact ⟨fun _ => nofun, fun _ => List.isChain_nil⟩
  | cons a l ih =>
    obtain ⟨hle, htail⟩ := List.pairwise_cons.mp hsorted
    have ih := ih htail
    rw [List.isChain_cons, ih]
    constructor
    · rintro ⟨hhead, hlinked⟩ x hx ⟨y, hy, hxy⟩
      -- A time after `x` is not the first element, and `x` is one of the tail or `a`.
      have hyl : y ∈ l := by
        rcases List.mem_cons.mp hy with rfl | hy
        · rcases List.mem_cons.mp hx with rfl | hx
          · exact absurd hxy (lt_irrefl _)
          · exact absurd hxy (not_lt.mpr (hle x hx))
        · exact hy
      have hin : ∀ x ∈ l, x < y → ∃ b ∈ a :: l, x < b ∧ b ≤ x + W := by
        intro x hx hxy
        obtain ⟨b, hb, hlt⟩ := hlinked x hx ⟨y, hyl, hxy⟩
        exact ⟨b, List.mem_cons_of_mem a hb, hlt⟩
      rcases List.mem_cons.mp hx with rfl | hx
      · rcases l with _ | ⟨b, l⟩
        · cases hyl
        have hb : b - x ≤ W := hhead b rfl
        rcases eq_or_lt_of_le (hle b List.mem_cons_self) with rfl | hlt
        · exact hin x List.mem_cons_self hxy
        · exact ⟨b, List.mem_cons_of_mem x List.mem_cons_self, hlt,
            by rw [add_comm]; exact sub_le_iff_le_add.mp hb⟩
      · exact hin x hx hxy
    intro hlinked
    constructor
    · intro b hb
      rcases l with _ | ⟨b', l⟩
      · cases hb
      obtain rfl : b' = b := by simpa using hb
      rcases eq_or_lt_of_le (hle b' List.mem_cons_self) with rfl | hlt
      · rw [sub_self]
        exact hW
      obtain ⟨y, hy, hay, hyW⟩ := hlinked a List.mem_cons_self
        ⟨b', List.mem_cons_of_mem a List.mem_cons_self, hlt⟩
      have hby : b' ≤ y := by
        rcases List.mem_cons.mp hy with rfl | hy
        · exact absurd hay (lt_irrefl _)
        · rcases List.mem_cons.mp hy with rfl | hy
          · exact le_rfl
          · exact (List.pairwise_cons.mp htail).1 y hy
      exact sub_le_iff_le_add'.mpr (hby.trans hyW)
    rintro x hx ⟨y, hy, hxy⟩
    obtain ⟨b, hb, hlt, hbW⟩ := hlinked x (List.mem_cons_of_mem a hx)
      ⟨y, List.mem_cons_of_mem a hy, hxy⟩
    rcases List.mem_cons.mp hb with rfl | hb
    · exact absurd hlt (not_lt.mpr (hle x hx))
    · exact ⟨b, hb, hlt, hbW⟩

theorem spaced_iff (hW : 0 ≤ W) : Spaced W l ↔ Linked W l := by
  rw [Spaced, isChain_iff_linked hW (List.pairwise_insertionSort (· ≤ ·) l)]
  simp only [Linked, List.mem_insertionSort]

omit [IsOrderedAddMonoid K] in
theorem spaced_singleton (t : K) : Spaced W [t] :=
  List.isChain_singleton t

/-- A time that the list reaches from both sides lies within `W` of one of its
elements. -/
theorem Linked.exists_near (h : Linked W l) (hlate : ∃ s ∈ l, t - W ≤ s)
    (hearly : ∃ s ∈ l, s ≤ t + W) : ∃ s ∈ l, t - W ≤ s ∧ s ≤ t + W := by
  obtain ⟨m, hm, hle, hmax⟩ := exists_last hearly
  by_cases hnear : t - W ≤ m
  · exact ⟨m, hm, hnear, hle⟩
  -- Otherwise the next time after `m` still lies before `t`.
  rw [not_le] at hnear
  obtain ⟨s, hs, hsW⟩ := hlate
  obtain ⟨b, hb, hlt, hbW⟩ := h m hm ⟨s, hs, hnear.trans_le hsW⟩
  have hbt : b ≤ t := hbW.trans (by simpa using (add_lt_add_left hnear W).le)
  have hW : 0 ≤ W := by
    by_contra hneg
    rw [not_le] at hneg
    exact absurd (hlt.trans_le hbW) (not_lt.mpr (by simpa using hneg.le))
  exact absurd (hmax b hb (hbt.trans (by simpa using hW))) (not_le.mpr hlt)

/-- **One more time.** -/
theorem Linked.append_iff (hW : 0 ≤ W) (hne : l ≠ []) (h : Linked W l) :
    Linked W (l ++ [t]) ↔ ∃ s ∈ l, t - W ≤ s ∧ s ≤ t + W := by
  obtain ⟨m, hm, -, hmax⟩ := exists_last (p := fun _ => True)
    ((List.exists_mem_of_ne_nil l hne).imp fun _ hs => ⟨hs, trivial⟩)
  constructor
  · intro hall
    rcases lt_or_ge m t with hmt | htm
    · -- `t` is the last of all: it is the time after `m`.
      obtain ⟨b, hb, hlt, hbW⟩ := hall m (List.mem_append_left _ hm)
        ⟨t, List.mem_append_right _ List.mem_cons_self, hmt⟩
      rcases List.mem_append.mp hb with hb | hb
      · exact absurd hlt (not_lt.mpr (hmax b hb trivial))
      · obtain rfl := List.mem_singleton.mp hb
        exact ⟨m, hm, sub_le_iff_le_add.mpr hbW, hlt.le.trans (le_add_of_nonneg_right hW)⟩
    rcases eq_or_lt_of_le htm with rfl | htm
    · exact ⟨t, hm, sub_le_self t hW, le_add_of_nonneg_right hW⟩
    obtain ⟨b, hb, hlt, hbW⟩ := hall t (List.mem_append_right _ List.mem_cons_self)
      ⟨m, List.mem_append_left _ hm, htm⟩
    rcases List.mem_append.mp hb with hb | hb
    · exact ⟨b, hb, (sub_le_self t hW).trans hlt.le, hbW⟩
    · exact absurd hlt (by simp [List.mem_singleton.mp hb])
  rintro ⟨s, hs, hlow, hhigh⟩ a ha ⟨b, hb, hab⟩
  have hlift : (∃ b ∈ l, a < b ∧ b ≤ a + W) → ∃ b ∈ l ++ [t], a < b ∧ b ≤ a + W := by
    rintro ⟨b, hb, hlt⟩
    exact ⟨b, List.mem_append_left _ hb, hlt⟩
  rcases List.mem_append.mp ha with ha | ha
  · by_cases hlater : ∃ b ∈ l, a < b
    · exact hlift (h a ha hlater)
    -- `a` is the last of the list, so the later time is `t`.
    push Not at hlater
    rcases List.mem_append.mp hb with hb | hb
    · exact absurd hab (not_lt.mpr (hlater b hb))
    · obtain rfl := List.mem_singleton.mp hb
      exact ⟨b, List.mem_append_right _ List.mem_cons_self, hab,
        (sub_le_iff_le_add.mp hlow).trans (add_le_add_left (hlater s hs) W)⟩
  obtain rfl := List.mem_singleton.mp ha
  have hbl : b ∈ l := by
    rcases List.mem_append.mp hb with hb | hb
    · exact hb
    · exact absurd hab (by simp [List.mem_singleton.mp hb])
  rcases lt_or_ge a s with hlt | hle
  · exact hlift ⟨s, hs, hlt, hhigh⟩
  -- The last time up to `a`, and the one after it.
  obtain ⟨m, hm, hma, hmax⟩ := exists_last (p := fun s => s ≤ a) ⟨s, hs, hle⟩
  obtain ⟨y, hy, hmy, hyW⟩ := h m hm ⟨b, hbl, hma.trans_lt hab⟩
  refine hlift ⟨y, hy, ?_, hyW.trans (add_le_add_left hma W)⟩
  by_contra hno
  exact absurd hmy (not_lt.mpr (hmax y hy (not_lt.mp hno)))

/-- **A further time keeps the list spaced exactly when it is near one of its
elements.** -/
theorem Spaced.append_iff (hW : 0 ≤ W) (hne : l ≠ []) (h : Spaced W l) :
    Spaced W (l ++ [t]) ↔ ∃ s ∈ l, t - W ≤ s ∧ s ≤ t + W := by
  rw [spaced_iff hW]
  exact ((spaced_iff hW).mp h).append_iff hW hne

end Window
