/-
Ledgers of repeated items.

A ledger receives items one at a time.  An item with a new key opens an entry,
which is put into a group; a further item with the key of an entry is noted as
a numbered repetition of it.  Nothing here depends on what items, keys,
entries and groups are:

* `Conserved.step` — **each kind of step conserves**.
-/
import StormRelay.Table

/-- An entry: the key it was opened for, the item it was opened with, and the
number of items noted since. -/
structure Ledger.Entry (I K R : Type) where
  id : I
  key : K
  item : R
  repeats : ℕ

structure Ledger.Repeat (I R : Type) where
  entry : I
  item : R
  number : ℕ

structure Ledger (I K R G : Type) where
  items : List R
  entries : List (Ledger.Entry I K R)
  repeats : List (Ledger.Repeat I R)
  links : List (G × I)
  groups : List G

namespace Ledger

open Table

variable {I K R G : Type}

def Entry.bump (e : Entry I K R) : Entry I K R :=
  { e with repeats := e.repeats + 1 }

/-- A new entry, put into the group `g`; `groups` are the groups afterwards. -/
def enter (l : Ledger I K R G) (e : Entry I K R) (g : G) (groups : List G) : Ledger I K R G :=
  { items := l.items ++ [e.item], entries := l.entries ++ [e], repeats := l.repeats
    links := l.links ++ [(g, e.id)], groups := groups }

/-- One more item with the key of the entry `e`. -/
def note [DecidableEq K] (l : Ledger I K R G) (e : Entry I K R) (item : R) : Ledger I K R G :=
  { l with
    items := l.items ++ [item]
    entries := update (fun x => x.key = e.key) Entry.bump l.entries
    repeats := l.repeats ++ [{ entry := e.id, item := item, number := e.repeats + 1 }] }

def Grows (groups groups' : List G) : Prop :=
  groups' = groups ∨ ∃ g ∉ groups, groups' = groups ++ [g]

/-- The steps a ledger can take. -/
inductive Step [DecidableEq K] (l : Ledger I K R G) : Ledger I K R G → Prop
  | enter {e : Entry I K R} {g : G} {groups : List G} (hitem : e.item ∉ l.items)
      (hid : ∀ x ∈ l.entries, x.id ≠ e.id) (hkey : ∀ x ∈ l.entries, x.key ≠ e.key)
      (hrepeats : e.repeats = 0) (hgroups : Grows l.groups groups) (hg : g ∈ groups) :
      Step l (l.enter e g groups)
  | note {e : Entry I K R} {item : R} (hitem : item ∉ l.items) (he : e ∈ l.entries) :
      Step l (l.note e item)

theorem Grows.nodup {groups groups' : List G} (h : Grows groups groups') (hn : groups.Nodup) :
    groups'.Nodup := by
  rcases h with rfl | ⟨g, hg, rfl⟩
  · exact hn
  · rw [List.nodup_append]
    refine ⟨hn, List.nodup_singleton g, fun a ha b hb hab => hg ?_⟩
    rwa [← List.mem_singleton.mp hb, ← hab]

theorem Grows.subset {groups groups' : List G} (h : Grows groups groups') : groups ⊆ groups' := by
  rcases h with rfl | ⟨g, -, rfl⟩
  · exact List.Subset.refl _
  · exact List.subset_append_left _ _

def numbers [DecidableEq I] (l : Ledger I K R G) (id : I) : List ℕ :=
  (l.repeats.filter fun r => r.entry = id).map Repeat.number

/-- **Nothing is lost and nothing is counted twice.** -/
structure Conserved [DecidableEq I] (l : Ledger I K R G) : Prop where
  items : l.items.Nodup
  /-- Every item opened an entry or was noted, once. -/
  covered : (l.entries.map Entry.item ++ l.repeats.map Repeat.item).Perm l.items
  ids : Keyed Entry.id l.entries
  keys : Keyed Entry.key l.entries
  numbered : ∀ e ∈ l.entries, l.numbers e.id = List.range' 1 e.repeats
  known : ∀ r ∈ l.repeats, ∃ e ∈ l.entries, e.id = r.entry
  linked : l.links.map Prod.snd = l.entries.map Entry.id
  grouped : ∀ x ∈ l.links, x.1 ∈ l.groups
  groups : l.groups.Nodup

section Conservation

variable {l l' : Ledger I K R G} {e : Entry I K R} {item : R}

theorem map_update_bump {β : Type} (c : Entry I K R → β) (hc : ∀ x, c x.bump = c x)
    (p : Entry I K R → Bool) (entries : List (Entry I K R)) :
    (update p Entry.bump entries).map c = entries.map c := by
  rw [update, List.map_map]
  exact List.map_congr_left fun x _ => patch_column c (hc x)

variable [DecidableEq I]

theorem Conserved.numbers_fresh (h : Conserved l) {id : I} (hid : ∀ x ∈ l.entries, x.id ≠ id) :
    l.numbers id = [] := by
  rw [numbers, List.map_eq_nil_iff, List.filter_eq_nil_iff]
  intro r hr hre
  obtain ⟨x, hx, hxr⟩ := h.known r hr
  exact hid x hx (hxr.trans (of_decide_eq_true hre))

theorem Conserved.enter (h : Conserved l) {g : G} {groups : List G} (hitem : e.item ∉ l.items)
    (hid : ∀ x ∈ l.entries, x.id ≠ e.id) (hkey : ∀ x ∈ l.entries, x.key ≠ e.key)
    (hrepeats : e.repeats = 0) (hgroups : Grows l.groups groups) (hg : g ∈ groups) :
    Conserved (l.enter e g groups) where
  items := by
    rw [Ledger.enter, List.nodup_append]
    refine ⟨h.items, List.nodup_singleton _, fun a ha b hb hab => hitem ?_⟩
    rwa [← List.mem_singleton.mp hb, ← hab]
  covered := by
    rw [Ledger.enter]
    simp only [List.map_append, List.map_cons, List.map_nil]
    -- The new item moves from the end of the entries to the end of everything.
    refine List.Perm.trans ?_ (h.covered.append_right [e.item])
    rw [List.append_assoc, List.append_assoc]
    exact List.perm_append_comm.append_left _
  ids := h.ids.append_singleton hid
  keys := h.keys.append_singleton hkey
  numbered := by
    intro x hx
    rcases List.mem_append.mp hx with hx | hx
    · exact h.numbered x hx
    · obtain rfl := List.mem_singleton.mp hx
      rw [hrepeats]
      exact h.numbers_fresh hid
  known := fun r hr => by
    obtain ⟨x, hx, hxr⟩ := h.known r hr
    exact ⟨x, List.mem_append_left _ hx, hxr⟩
  linked := by
    rw [Ledger.enter]
    simp only [List.map_append, h.linked, List.map_cons, List.map_nil]
  grouped := by
    intro x hx
    rcases List.mem_append.mp hx with hx | hx
    · exact hgroups.subset (h.grouped x hx)
    · rw [List.mem_singleton.mp hx]
      exact hg
  groups := hgroups.nodup h.groups

variable [DecidableEq K]

theorem numbers_note (l : Ledger I K R G) (e : Entry I K R) (item : R) (id : I) :
    (l.note e item).numbers id
      = l.numbers id ++ if e.id = id then [e.repeats + 1] else [] := by
  rw [numbers, note, List.filter_append, List.map_append]
  refine congrArg (l.numbers id ++ ·) ?_
  split
  · rename_i hid
    rw [List.filter_cons_of_pos (p := fun r : Repeat I R => r.entry = id) (decide_eq_true hid)]
    rfl
  · rename_i hid
    rw [List.filter_cons_of_neg (by simpa using hid)]
    rfl

theorem Conserved.note (h : Conserved l) (hitem : item ∉ l.items) (he : e ∈ l.entries) :
    Conserved (l.note e item) where
  items := by
    rw [Ledger.note, List.nodup_append]
    refine ⟨h.items, List.nodup_singleton _, fun a ha b hb hab => hitem ?_⟩
    rwa [← List.mem_singleton.mp hb, ← hab]
  covered := by
    rw [Ledger.note]
    simp only [map_update_bump Entry.item fun _ => rfl, List.map_append, List.map_cons,
      List.map_nil, ← List.append_assoc]
    exact h.covered.append_right [item]
  ids := by
    rw [Keyed, Ledger.note, map_update_bump Entry.id fun _ => rfl]
    exact h.ids
  keys := by
    rw [Keyed, Ledger.note, map_update_bump Entry.key fun _ => rfl]
    exact h.keys
  numbered := by
    intro x' hx'
    rw [numbers_note]
    rcases mem_update_cases hx' with ⟨x, hx, hkey, rfl⟩ | ⟨hx, hkey⟩
    · -- The entry with the key is `e`: its next number is the new count.
      obtain rfl := h.keys.eq_of_key hx he (of_decide_eq_true hkey)
      have hnew : List.range' 1 (x.repeats + 1) = List.range' 1 x.repeats ++ [x.repeats + 1] := by
        rw [List.range'_concat, Nat.one_mul, Nat.add_comm]
      rw [show (Entry.bump x).id = x.id from rfl, if_pos rfl, h.numbered x hx]
      exact hnew.symm
    have hne : e.id ≠ x'.id := by
      intro hid
      rw [h.ids.eq_of_key he hx hid] at hkey
      simp at hkey
    rw [if_neg hne, List.append_nil, h.numbered x' hx]
  known := by
    have hkept : ∀ x ∈ l.entries, ∃ x' ∈ (l.note e item).entries, x'.id = x.id := fun x hx =>
      ⟨_, mem_update_of_mem hx, patch_column Entry.id rfl⟩
    intro r hr
    rcases List.mem_append.mp hr with hr | hr
    · obtain ⟨x, hx, hxr⟩ := h.known r hr
      obtain ⟨x', hx', hid⟩ := hkept x hx
      exact ⟨x', hx', hid.trans hxr⟩
    · rw [List.mem_singleton.mp hr]
      exact hkept e he
  linked := by
    rw [Ledger.note, map_update_bump Entry.id fun _ => rfl]
    exact h.linked
  grouped := h.grouped
  groups := h.groups

/-- **Conservation.**  Every step of a ledger conserves its items. -/
theorem Conserved.step (h : Conserved l) (hstep : Step l l') : Conserved l' := by
  cases hstep with
  | enter hitem hid hkey hrepeats hgroups hg =>
    exact h.enter hitem hid hkey hrepeats hgroups hg
  | note hitem he => exact h.note hitem he

end Conservation

section Consequences

variable [DecidableEq I] {l : Ledger I K R G} {e : Entry I K R}

theorem Conserved.once [DecidableEq R] (h : Conserved l) {item : R} (hitem : item ∈ l.items) :
    (l.entries.map Entry.item).count item + (l.repeats.map Repeat.item).count item = 1 := by
  rw [← List.count_append, h.covered.count_eq, List.count_eq_one_of_mem h.items hitem]

theorem Conserved.counted (h : Conserved l) (he : e ∈ l.entries) :
    l.repeats.countP (fun r => r.entry = e.id) = e.repeats := by
  have hlen := congrArg List.length (h.numbered e he)
  rwa [numbers, List.length_map, ← List.countP_eq_length_filter, List.length_range'] at hlen

theorem Conserved.grouped_once (h : Conserved l) (he : e ∈ l.entries) :
    ∃ g ∈ l.groups, l.links.filter (fun x => x.2 = e.id) = [(g, e.id)] := by
  have hin : e.id ∈ l.links.map Prod.snd := by
    rw [h.linked]
    exact List.mem_map_of_mem he
  obtain ⟨⟨g, id⟩, hx, hid⟩ := List.mem_map.mp hin
  obtain rfl : id = e.id := hid
  have hkeyed : Keyed Prod.snd l.links := by
    rw [Keyed, h.linked]
    exact h.ids
  exact ⟨g, h.grouped _ hx, hkeyed.filter_eq hx⟩

end Consequences

end Ledger
