/-
Versioned documents with one counter each.

A shelf holds heads (identifier, key, number of the active version) and entries
(the versions of all documents in the order of their acceptance).  A writer looks
a document up, and later has a version accepted that is the next one after what
it saw; meanwhile other writers may have been accepted.

* `Sound.accept` — **an acceptance keeps the shelf free of gaps, whatever has
  happened since the lookup**: a writer that saw an old counter offers a version
  that is already there.
-/
import StormRelay.Table

namespace Shelves

open Table

variable {ι κ τ : Type}

structure Head (ι κ : Type) where
  id : ι
  key : κ
  active : ℤ

structure Entry (ι τ : Type) where
  head : ι
  version : ℤ
  text : τ

structure Shelf (ι κ τ : Type) where
  heads : List (Head ι κ)
  entries : List (Entry ι τ)

/-! ### Counting up -/

/-- The versions `1, …, n`. -/
def upTo (n : ℤ) : List ℤ :=
  (List.range n.toNat).map fun i : ℕ => (i : ℤ) + 1

theorem mem_upTo {n v : ℤ} : v ∈ upTo n ↔ 1 ≤ v ∧ v ≤ n := by
  simp only [upTo, List.mem_map, List.mem_range]
  constructor
  · rintro ⟨i, hi, rfl⟩
    omega
  · rintro ⟨hpos, hle⟩
    exact ⟨(v - 1).toNat, by omega, by omega⟩

theorem upTo_succ {n : ℤ} (h : 0 ≤ n) : upTo (n + 1) = upTo n ++ [n + 1] := by
  have hnat : (n + 1).toNat = n.toNat + 1 := by omega
  rw [upTo, upTo, hnat, List.range_succ, List.map_append, List.map_singleton,
    Int.toNat_of_nonneg h]

/-! ### Shelves -/

namespace Shelf

section Definitions

variable [DecidableEq ι] (s : Shelf ι κ τ)

def versionsOf (id : ι) : List ℤ :=
  (s.entries.filter fun e => e.head = id).map fun e => e.version

/-- The versions of every document are `1, …, active`, and no two documents share
an identifier or a key. -/
structure GapFree : Prop where
  ids : Keyed Head.id s.heads
  keys : Keyed Head.key s.heads
  owned : ∀ e ∈ s.entries, ∃ h ∈ s.heads, h.id = e.head
  exact : ∀ h ∈ s.heads, 1 ≤ h.active ∧ s.versionsOf h.id = upTo h.active

/-- What a writer that looked the document `key` up found: nothing, or a counter
that has not been lowered since. -/
def Seen (key : κ) : Option ℤ → Prop
  | none => True
  | some a => 1 ≤ a ∧ ∃ h ∈ s.heads, h.key = key ∧ a ≤ h.active

/-- The acceptance of a version by a writer that found `seen`.  A first version
needs a new identifier and a new key, a later one a number that the document does
not have yet. -/
inductive Accepts : Option ℤ → κ → ℤ → τ → Shelf ι κ τ → Prop
  | create {key : κ} {text : τ} (id : ι) (hid : ∀ h ∈ s.heads, h.id ≠ id)
      (hkey : ∀ h ∈ s.heads, h.key ≠ key) :
      Accepts none key 1 text
        { heads := s.heads ++ [{ id := id, key := key, active := 1 }]
          entries := s.entries ++ [{ head := id, version := 1, text := text }] }
  | extend {key : κ} {text : τ} {a : ℤ} (h : Head ι κ) (hmem : h ∈ s.heads) (hkey : h.key = key)
      (hnew : ∀ e ∈ s.entries, ¬ (e.head = h.id ∧ e.version = a + 1)) :
      Accepts (some a) key (a + 1) text
        { heads := update (fun g => g.id = h.id) (fun g => { g with active := a + 1 }) s.heads
          entries := s.entries ++ [{ head := h.id, version := a + 1, text := text }] }

theorem mem_heads_update {heads : List (Head ι κ)} {id : ι} {n : ℤ} {g : Head ι κ}
    (hg : g ∈ heads) :
    ∃ g' ∈ update (fun g => g.id = id) (fun g => { g with active := n }) heads,
      g'.id = g.id ∧ g'.key = g.key :=
  ⟨_, mem_update_of_mem hg, patch_column Head.id rfl, patch_column Head.key rfl⟩

theorem heads_update_new {heads : List (Head ι κ)} {id : ι} (hid : ∀ h ∈ heads, h.id ≠ id)
    (key : κ) (n : ℤ) :
    update (fun g => g.id = id) (fun g => { g with active := n })
        (heads ++ [{ id := id, key := key, active := n }])
      = heads ++ [{ id := id, key := key, active := n }] := by
  have hold : update (fun g => g.id = id) (fun g => { g with active := n }) heads = heads :=
    update_eq_self fun h hh => by simpa using hid h hh
  rw [update, List.map_append]
  exact congrArg₂ _ hold (by simp [patch])

/-- The accepted versions are the stored ones, and none was accepted twice. -/
structure Recorded (log : List (κ × ℤ × τ)) : Prop where
  stored : ∀ key n text, (key, n, text) ∈ log ↔
    ∃ h ∈ s.heads, h.key = key ∧ { head := h.id, version := n, text := text } ∈ s.entries
  once : (log.map fun a => (a.1, a.2.1)).Nodup

end Definitions

variable [DecidableEq ι] {s s' : Shelf ι κ τ} {key : κ} {n : ℤ} {text : τ} {seen : Option ℤ}

/-! ### Lookups -/

theorem mem_versionsOf {id : ι} {v : ℤ} :
    v ∈ s.versionsOf id ↔ ∃ e ∈ s.entries, e.head = id ∧ e.version = v := by
  simp [versionsOf, and_assoc]

/-- A document has no version beyond its counter, and all below. -/
theorem GapFree.entry_iff (h : s.GapFree) {g : Head ι κ} (hg : g ∈ s.heads) {v : ℤ} :
    (∃ e ∈ s.entries, e.head = g.id ∧ e.version = v) ↔ 1 ≤ v ∧ v ≤ g.active := by
  rw [← mem_versionsOf, (h.exact g hg).2, mem_upTo]

theorem versionsOf_append (s : Shelf ι κ τ) (heads : List (Head ι κ)) (e : Entry ι τ) (id : ι) :
    versionsOf { heads := heads, entries := s.entries ++ [e] } id
      = s.versionsOf id ++ (if e.head = id then [e.version] else []) := by
  simp only [versionsOf, List.filter_append, List.map_append]
  split <;> simp_all

/-- A counter that has been seen is not lowered by an acceptance of the next
version after a counter that has been seen. -/
theorem extended_counter (hs : s.GapFree) {g : Head ι κ} (hg : g ∈ s.heads) {a : ℤ}
    (hseen : s.Seen g.key (some a))
    (hnew : ∀ e ∈ s.entries, ¬ (e.head = g.id ∧ e.version = a + 1)) : a = g.active := by
  obtain ⟨hpos, h, hh, hkey, hle⟩ := hseen
  obtain rfl : h = g := hs.keys.eq_of_key hh hg hkey
  -- Below its counter the document has the version already.
  by_contra hne
  have hstored : ∃ e ∈ s.entries, e.head = h.id ∧ e.version = a + 1 :=
    (hs.entry_iff hg).mpr ⟨by omega, by omega⟩
  obtain ⟨e, he, hentry⟩ := hstored
  exact hnew e he hentry

/-- The rows a writer leaves behind: it has created the head if it found none, added
the version to the head of its key, and then set the counter, which may be left
out for a new head. -/
theorem accepts_of_writes (id : ι) {heads₁ heads₂ : List (Head ι κ)} {h : Head ι κ}
    (hfound : match seen with
      | none => n = 1 ∧ (∀ g ∈ s.heads, g.id ≠ id) ∧ (∀ g ∈ s.heads, g.key ≠ key)
        ∧ heads₁ = s.heads ++ [{ id := id, key := key, active := 1 }]
      | some a => n = a + 1 ∧ heads₁ = s.heads)
    (hmem : h ∈ heads₁) (hkey : h.key = key)
    (hnew : ∀ e ∈ s.entries, ¬ (e.head = h.id ∧ e.version = n))
    (hheads : heads₂ = update (fun g => g.id = h.id) (fun g => { g with active := n }) heads₁
      ∨ seen = none ∧ heads₂ = heads₁) :
    s.Accepts seen key n text
      { heads := heads₂
        entries := s.entries ++ [{ head := h.id, version := n, text := text }] } := by
  cases seen with
  | none =>
    obtain ⟨rfl, hids, hkeys, rfl⟩ := hfound
    obtain rfl : h = { id := id, key := key, active := 1 } := by
      rcases List.mem_append.mp hmem with hold | hlast
      · exact absurd hkey (hkeys h hold)
      · exact List.mem_singleton.mp hlast
    have hsame : heads₂ = s.heads ++ [{ id := id, key := key, active := 1 }] := by
      rcases hheads with hupdate | ⟨-, hsame⟩
      · exact hupdate.trans (heads_update_new hids key 1)
      · exact hsame
    rw [hsame]
    exact .create id hids hkeys
  | some a =>
    obtain ⟨rfl, rfl⟩ := hfound
    rcases hheads with rfl | ⟨hnone, -⟩
    · exact .extend h hmem hkey hnew
    · cases hnone

/-! ### What an acceptance keeps -/

theorem GapFree.accept (hs : s.GapFree) (hseen : s.Seen key seen)
    (h : s.Accepts seen key n text s') : s'.GapFree := by
  cases h with
  | create id hid hkey =>
    refine ⟨hs.ids.append_singleton hid, hs.keys.append_singleton hkey, ?_, ?_⟩
    · intro e he
      rcases List.mem_append.mp he with he | he
      · obtain ⟨g, hg, hown⟩ := hs.owned e he
        exact ⟨g, List.mem_append_left _ hg, hown⟩
      · obtain rfl := List.mem_singleton.mp he
        exact ⟨_, List.mem_append_right _ (List.mem_singleton.mpr rfl), rfl⟩
    intro g hg
    rw [versionsOf_append]
    rcases List.mem_append.mp hg with hg | hg
    · have hne : id ≠ g.id := (hid g hg).symm
      rw [if_neg hne, List.append_nil]
      exact hs.exact g hg
    -- The new document has no other entries, since every entry has its head.
    obtain rfl := List.mem_singleton.mp hg
    have hnone : s.versionsOf id = [] := by
      rw [versionsOf, List.map_eq_nil_iff, List.filter_eq_nil_iff]
      intro e he hhead
      obtain ⟨g, hg, hown⟩ := hs.owned e he
      exact hid g hg (hown.trans (of_decide_eq_true hhead))
    refine ⟨le_refl 1, ?_⟩
    rw [if_pos rfl, hnone]
    rfl
  | @extend _ _ a h hmem hkey hnew =>
    subst hkey
    obtain rfl := extended_counter hs hmem hseen hnew
    have hpos := (hs.exact h hmem).1
    refine ⟨?_, ?_, ?_, ?_⟩
    · exact hs.ids.map fun g _ => patch_column Head.id rfl
    · exact hs.keys.map fun g _ => patch_column Head.key rfl
    · intro e he
      have hown : ∃ g ∈ s.heads, g.id = e.head := by
        rcases List.mem_append.mp he with he | he
        · exact hs.owned e he
        · obtain rfl := List.mem_singleton.mp he
          exact ⟨h, hmem, rfl⟩
      obtain ⟨g, hg, hown⟩ := hown
      obtain ⟨g', hg', hid, -⟩ := mem_heads_update hg
      exact ⟨g', hg', hid.trans hown⟩
    intro g' hg'
    rw [versionsOf_append]
    rcases mem_update_cases hg' with ⟨g, hg, hid, rfl⟩ | ⟨hg, hid⟩
    · obtain rfl : g = h := hs.ids.eq_of_key hg hmem (of_decide_eq_true hid)
      refine ⟨show 1 ≤ g.active + 1 by omega, ?_⟩
      rw [if_pos rfl, (hs.exact g hg).2, upTo_succ (by omega)]
    · have hne : ¬ h.id = g'.id := fun heq => of_decide_eq_false hid heq.symm
      rw [if_neg hne, List.append_nil]
      exact hs.exact g' hg

theorem Seen.accept {key' : κ} {seen' : Option ℤ} (hs : s.GapFree) (hseen : s.Seen key seen)
    (h : s.Accepts seen key n text s') (hseen' : s.Seen key' seen') : s'.Seen key' seen' := by
  cases seen' with
  | none => exact trivial
  | some a' =>
    obtain ⟨hpos, g, hg, hgkey, hle⟩ := hseen'
    refine ⟨hpos, ?_⟩
    cases h with
    | create id hid hkey => exact ⟨g, List.mem_append_left _ hg, hgkey, hle⟩
    | @extend _ _ a h hmem hkey hnew =>
      subst hkey
      obtain rfl := extended_counter hs hmem hseen hnew
      refine ⟨_, mem_update_of_mem hg, (patch_column Head.key rfl).trans hgkey, ?_⟩
      by_cases hid : g.id = h.id
      · obtain rfl : g = h := hs.ids.eq_of_key hg hmem hid
        rw [patch_pos (by simp)]
        show a' ≤ g.active + 1
        omega
      · rw [patch_neg (by simpa using hid)]
        exact hle

theorem Recorded.accept {log : List (κ × ℤ × τ)} (hs : s.GapFree) (hlog : s.Recorded log)
    (h : s.Accepts seen key n text s') : s'.Recorded (log ++ [(key, n, text)]) := by
  -- The version is one that the document did not have.
  have hfresh : ∀ a ∈ log, ¬ (a.1 = key ∧ a.2.1 = n) := by
    rintro ⟨key', n', text'⟩ ha ⟨rfl, rfl⟩
    obtain ⟨g, hg, hgkey, hentry⟩ := (hlog.stored _ _ _).mp ha
    cases h with
    | create id hid hkey => exact hkey g hg hgkey
    | extend h hmem hkey hnew =>
      obtain rfl : g = h := hs.keys.eq_of_key hg hmem (hgkey.trans hkey.symm)
      exact hnew _ hentry ⟨rfl, rfl⟩
  constructor
  · intro key' n' text'
    rw [List.mem_append, List.mem_singleton, hlog.stored]
    cases h with
    | create id hid hkey =>
      constructor
      · rintro (⟨g, hg, hgkey, hentry⟩ | heq)
        · exact ⟨g, List.mem_append_left _ hg, hgkey, List.mem_append_left _ hentry⟩
        · obtain ⟨rfl, rfl, rfl⟩ : key' = key ∧ n' = 1 ∧ text' = text := by simpa using heq
          exact ⟨_, List.mem_append_right _ (List.mem_singleton.mpr rfl), rfl,
            List.mem_append_right _ (List.mem_singleton.mpr rfl)⟩
      rintro ⟨g, hg, rfl, hentry⟩
      rcases List.mem_append.mp hg with hg | hg
      · rcases List.mem_append.mp hentry with hentry | hentry
        · exact .inl ⟨g, hg, rfl, hentry⟩
        · have hid' : g.id = id := congrArg Entry.head (List.mem_singleton.mp hentry)
          exact absurd hid' (hid g hg)
      obtain rfl := List.mem_singleton.mp hg
      rcases List.mem_append.mp hentry with hentry | hentry
      · obtain ⟨g, hg, hown⟩ := hs.owned _ hentry
        exact absurd hown (hid g hg)
      · obtain ⟨-, rfl, rfl⟩ := Entry.mk.inj (List.mem_singleton.mp hentry)
        exact .inr rfl
    | @extend _ _ a h hmem hkey hnew =>
      constructor
      · rintro (⟨g, hg, hgkey, hentry⟩ | heq)
        · obtain ⟨g', hg', hid, hkey'⟩ := mem_heads_update hg
          exact ⟨g', hg', hkey'.trans hgkey, List.mem_append_left _ (hid ▸ hentry)⟩
        obtain ⟨rfl, rfl, rfl⟩ : key' = key ∧ n' = a + 1 ∧ text' = text := by simpa using heq
        obtain ⟨g', hg', hid, hkey'⟩ := mem_heads_update hmem
        exact ⟨g', hg', hkey'.trans hkey,
          List.mem_append_right _ (List.mem_singleton.mpr (hid ▸ rfl))⟩
      rintro ⟨g', hg', rfl, hentry⟩
      obtain ⟨g, hg, rfl⟩ := mem_update.mp hg'
      have hid : (patch (fun g => g.id = h.id) (fun g => { g with active := a + 1 }) g).id = g.id :=
        patch_column Head.id rfl
      have hkey' : (patch (fun g => g.id = h.id) (fun g => { g with active := a + 1 }) g).key
          = g.key := patch_column Head.key rfl
      rw [hid] at hentry
      rw [hkey']
      rcases List.mem_append.mp hentry with hentry | hentry
      · exact .inl ⟨g, hg, rfl, hentry⟩
      · obtain ⟨hid, rfl, rfl⟩ := Entry.mk.inj (List.mem_singleton.mp hentry)
        obtain rfl : g = h := hs.ids.eq_of_key hg hmem hid
        exact .inr (by rw [hkey])
  rw [List.map_append, List.map_singleton]
  refine List.nodup_append.mpr ⟨hlog.once, List.nodup_singleton _, ?_⟩
  rintro pair hpair _ hlast rfl
  obtain ⟨a, ha, rfl⟩ := List.mem_map.mp hpair
  obtain ⟨hkey, hn⟩ := Prod.mk.inj (List.mem_singleton.mp hlast)
  exact hfresh a ha ⟨hkey, hn⟩

end Shelf

/-! ### Writers in progress -/

structure Pending (κ τ : Type) where
  key : κ
  version : ℤ
  text : τ
  seen : Option ℤ

/-- A shelf with the versions that have been accepted and the writers that are in
progress, all of whose texts meet `P`. -/
structure Sound [DecidableEq ι] (P : κ → ℤ → τ → Prop) (s : Shelf ι κ τ)
    (log : List (κ × ℤ × τ)) (pending : List (Pending κ τ)) : Prop where
  gapFree : s.GapFree
  recorded : s.Recorded log
  valid : ∀ a ∈ log, P a.1 a.2.1 a.2.2
  seen : ∀ p ∈ pending, s.Seen p.key p.seen ∧ P p.key p.version p.text

section Sound

variable [DecidableEq ι] {P : κ → ℤ → τ → Prop} {s s' : Shelf ι κ τ} {log : List (κ × ℤ × τ)}
  {pending pending' : List (Pending κ τ)} {p : Pending κ τ}

theorem sound_empty : Sound P ({ heads := [], entries := [] } : Shelf ι κ τ) [] [] where
  gapFree :=
    { ids := List.nodup_nil
      keys := List.nodup_nil
      owned := fun _ h => absurd h List.not_mem_nil
      exact := fun _ h => absurd h List.not_mem_nil }
  recorded :=
    { stored := fun _ _ _ => ⟨fun h => absurd h List.not_mem_nil,
        fun ⟨_, h, _⟩ => absurd h List.not_mem_nil⟩
      once := List.nodup_nil }
  valid := fun _ h => absurd h List.not_mem_nil
  seen := fun _ h => absurd h List.not_mem_nil

theorem Sound.begin (h : Sound P s log pending) (hseen : s.Seen p.key p.seen)
    (hp : P p.key p.version p.text) : Sound P s log (pending ++ [p]) := by
  refine ⟨h.gapFree, h.recorded, h.valid, fun q hq => ?_⟩
  rcases List.mem_append.mp hq with hq | hq
  · exact h.seen q hq
  · obtain rfl := List.mem_singleton.mp hq
    exact ⟨hseen, hp⟩

theorem Sound.drop (h : Sound P s log pending) (hsub : ∀ q ∈ pending', q ∈ pending) :
    Sound P s log pending' :=
  ⟨h.gapFree, h.recorded, h.valid, fun q hq => h.seen q (hsub q hq)⟩

/-- **A writer is accepted**, whatever has happened since its lookup. -/
theorem Sound.accept (h : Sound P s log pending) (hp : p ∈ pending)
    (haccepts : s.Accepts p.seen p.key p.version p.text s') :
    Sound P s' (log ++ [(p.key, p.version, p.text)]) pending := by
  obtain ⟨hseen, hvalid⟩ := h.seen p hp
  refine ⟨h.gapFree.accept hseen haccepts, h.recorded.accept h.gapFree haccepts, ?_, ?_⟩
  · intro a ha
    rcases List.mem_append.mp ha with ha | ha
    · exact h.valid a ha
    · obtain rfl := List.mem_singleton.mp ha
      exact hvalid
  · intro q hq
    exact ⟨Shelf.Seen.accept h.gapFree hseen haccepts (h.seen q hq).1, (h.seen q hq).2⟩

theorem Sound.stored (h : Sound P s log pending) {g : Head ι κ} (hg : g ∈ s.heads)
    {e : Entry ι τ} (he : e ∈ s.entries) (hown : e.head = g.id) : P g.key e.version e.text :=
  h.valid (g.key, e.version, e.text) ((h.recorded.stored _ _ _).mpr ⟨g, hg, rfl, hown ▸ he⟩)

end Sound

end Shelves
