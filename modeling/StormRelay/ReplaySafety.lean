/-
The replay cache over whole runs (`internal/ingestion/replay.go`).

The handlers of concurrent requests share one cache behind a mutex, so its
history is a sequence of `Reserve` and `Release` calls on arbitrary keys.  The
clock of the calls never runs back.  Entries that have expired stay in the map
until the cache is full, and an expired entry may be overwritten in place.

* `replay_cache_safe` — **a reserved key is a duplicate until it expires or is released,
  and a call fails for want of capacity only while the cache is full of live entries**.
-/
import StormRelay.Ingestion
import StormRelay.Transition

namespace StormRelay

open Transition

namespace ReplayCache

/-- One call on the cache. -/
inductive Call where
  | reserve (key : String) (expires now : Time)
  | release (key : String)
deriving DecidableEq, Repr

namespace Call

/-- The clock reading a call brings; `Release` has none. -/
def clock : Call → Option Time
  | .reserve _ _ now => some now
  | .release _ => none

/-- The cache after a call. -/
def perform : Call → ReplayCache → ReplayCache
  | .reserve key expires now, c => (c.reserve key expires now).2
  | .release key, c => c.release key

end Call

/-- The clock readings of a sequence of calls never decrease. -/
def Clocked (calls : List Call) : Prop :=
  (calls.filterMap Call.clock).Pairwise (· ≤ ·)

instance (calls : List Call) : Decidable (Clocked calls) :=
  inferInstanceAs (Decidable (List.Pairwise _ _))

/-- The cache of a given capacity after a sequence of calls. -/
def after (capacity : ℕ) (calls : List Call) : ReplayCache :=
  run Call.perform calls { seen := [], max := capacity }

/-- The entries that have not expired. -/
def live (c : ReplayCache) (now : Time) : List (String × Time) :=
  c.seen.filter fun entry => now < entry.2

variable {c : ReplayCache} {key other : String} {expires now : Time}

/-! ### What one call can do -/

/-- **The outcomes of `Reserve`.**  A live entry makes the call a duplicate and
changes nothing; otherwise the key is entered, after a pruning when the cache
was full, or the pruned cache is still full. -/
theorem reserve_cases (c : ReplayCache) (key : String) (expires now : Time) :
    (∃ old, c.seen.lookup key = some old ∧ now < old
        ∧ c.reserve key expires now = (.duplicate, c))
      ∨ (∀ old, c.seen.lookup key = some old → old ≤ now)
        ∧ (c.seen.length < c.max
              ∧ c.reserve key expires now = (.reserved, c.put key expires)
          ∨ c.max ≤ c.seen.length ∧ (c.live now).length < c.max
              ∧ c.reserve key expires now = (.reserved, (c.prune now).put key expires)
          ∨ c.max ≤ c.seen.length ∧ c.max ≤ (c.live now).length
              ∧ c.reserve key expires now = (.capacityExceeded, c.prune now)) := by
  by_cases hlive : ∃ old, c.seen.lookup key = some old ∧ now < old
  · obtain ⟨old, hold, hafter⟩ := hlive
    exact .inl ⟨old, hold, hafter, reserve_live hold hafter⟩
  have hstale : ∀ old, c.seen.lookup key = some old → old ≤ now := by
    intro old hold
    exact le_of_not_gt fun hafter => hlive ⟨old, hold, hafter⟩
  have hnot : ¬ (c.seen.lookup key).any (fun old => now < old) := by
    intro hany
    rcases hlook : c.seen.lookup key with _ | old
    · rw [hlook] at hany
      cases hany
    · rw [hlook] at hany
      exact hlive ⟨old, hlook, of_decide_eq_true hany⟩
  refine .inr ⟨hstale, ?_⟩
  rw [reserve, if_neg hnot]
  by_cases hfull : c.seen.length ≥ c.max
  · rw [if_pos hfull]
    show _ ∨ _ ∧ _ ∧ (if (c.prune now).seen.length ≥ c.max then _ else _) = _
      ∨ _ ∧ _ ∧ (if (c.prune now).seen.length ≥ c.max then _ else _) = _
    by_cases hstill : (c.prune now).seen.length ≥ c.max
    · rw [if_pos hstill]
      exact .inr (.inr ⟨hfull, hstill, rfl⟩)
    · rw [if_neg hstill]
      exact .inr (.inl ⟨hfull, Nat.lt_of_not_le hstill, rfl⟩)
  · rw [if_neg hfull]
    exact .inl ⟨Nat.lt_of_not_le hfull, rfl⟩

/-! ### The capacity -/

/-- The list stands for a map with at most `max` keys. -/
structure Sized (c : ReplayCache) : Prop where
  distinct : (c.seen.map Prod.fst).Nodup
  bounded : c.seen.length ≤ c.max

theorem sized_delete (h : c.Sized) : (c.delete key).Sized :=
  ⟨h.distinct.sublist (List.filter_sublist.map Prod.fst),
    (List.length_filter_le _ _).trans h.bounded⟩

theorem sized_prune (h : c.Sized) : (c.prune now).Sized :=
  ⟨h.distinct.sublist (List.filter_sublist.map Prod.fst),
    (List.length_filter_le _ _).trans h.bounded⟩

theorem sized_put (h : c.Sized) (hroom : c.seen.length < c.max) : (c.put key expires).Sized := by
  have hdelete : (c.delete key).Sized := sized_delete h
  constructor
  · refine List.nodup_cons.mpr ⟨?_, hdelete.distinct⟩
    -- the old entry of the key was deleted first
    intro hmem
    obtain ⟨entry, hentry, hkey⟩ := List.mem_map.mp hmem
    have hne : entry.1 ≠ key := by simpa using (List.mem_filter.mp hentry).2
    exact hne hkey
  · have hlen : (c.delete key).seen.length ≤ c.seen.length := List.length_filter_le _ _
    show (c.delete key).seen.length + 1 ≤ c.max
    omega

theorem sized_perform (call : Call) (c : ReplayCache) (h : c.Sized) : (call.perform c).Sized := by
  cases call with
  | reserve key expires now =>
    rw [Call.perform]
    rcases reserve_cases c key expires now with
      ⟨_, _, _, heq⟩ | ⟨_, ⟨hroom, heq⟩ | ⟨_, hroom, heq⟩ | ⟨_, _, heq⟩⟩
    · rw [heq]
      exact h
    · rw [heq]
      exact sized_put h hroom
    · rw [heq]
      exact sized_put (sized_prune h) hroom
    · rw [heq]
      exact sized_prune h
  | release key =>
    rw [Call.perform, release]
    split
    · exact h
    · exact sized_delete h

theorem max_perform (call : Call) (c : ReplayCache) : (call.perform c).max = c.max := by
  cases call with
  | reserve key expires now =>
    rw [Call.perform, reserve]
    split
    · rfl
    split
    · simp only
      split <;> rfl
    · rfl
  | release key =>
    rw [Call.perform, release]
    split <;> rfl

theorem sized_after (capacity : ℕ) (calls : List Call) :
    (after capacity calls).Sized ∧ (after capacity calls).max = capacity := by
  refine run_invariant
    (I := fun c : ReplayCache => c.Sized ∧ c.max = capacity) ?_ calls ?_
  · rintro call c ⟨hsized, hmax⟩
    exact ⟨sized_perform call c hsized, (max_perform call c).trans hmax⟩
  · exact ⟨⟨List.nodup_nil, Nat.zero_le _⟩, rfl⟩

/-! ### One key among all others -/

theorem lookup_put_self : (c.put key expires).seen.lookup key = some expires := by
  simp [put]

theorem lookup_put (hne : other ≠ key) :
    (c.put key expires).seen.lookup other = c.seen.lookup other := by
  have hbeq : (other == key) = false := by simpa using hne
  rw [put, List.lookup_cons, hbeq]
  exact lookup_delete hne

theorem lookup_prune {x : Time} (h : c.seen.lookup key = some x) (hlive : now < x) :
    (c.prune now).seen.lookup key = some x := by
  obtain ⟨seen, max⟩ := c
  show (seen.filter fun entry => now < entry.2).lookup key = some x
  replace h : seen.lookup key = some x := h
  induction seen with
  | nil => exact h
  | cons entry seen ih =>
    rw [List.lookup_cons] at h
    by_cases hkey : (key == entry.1) = true
    · -- the first entry of the key is the one the lookup found
      rw [hkey] at h
      cases h
      rw [List.filter_cons_of_pos (by simpa using hlive), List.lookup_cons, hkey]
    rw [Bool.eq_false_iff.mpr hkey] at h
    by_cases hkeep : now < entry.2
    · rw [List.filter_cons_of_pos (by simpa using hkeep), List.lookup_cons,
        Bool.eq_false_iff.mpr hkey]
      exact ih h
    · rw [List.filter_cons_of_neg (by simpa using hkeep)]
      exact ih h

/-- What a call may do while the entry of `key` is to stay: read the clock before
its expiry, and release other keys only.  Releasing the empty key does nothing. -/
def Call.Spares (key : String) (x : Time) : Call → Prop
  | .reserve _ _ now => now < x
  | .release released => released = key → key = ""

/-- **One call keeps the entry**: whatever it does to the other keys, prunings and
capacity failures included. -/
theorem reserved_until_perform {x : Time} (call : Call) (c : ReplayCache)
    (h : c.seen.lookup key = some x) (hspare : call.Spares key x) :
    (call.perform c).seen.lookup key = some x := by
  cases call with
  | reserve called expires now =>
    rw [Call.perform]
    have hlive : now < x := hspare
    by_cases hsame : called = key
    · -- the same key again is a duplicate
      rw [hsame, reserve_live h hlive]
      exact h
    have hne : key ≠ called := Ne.symm hsame
    rcases reserve_cases c called expires now with
      ⟨_, _, _, heq⟩ | ⟨_, ⟨_, heq⟩ | ⟨_, _, heq⟩ | ⟨_, _, heq⟩⟩
    · rw [heq]
      exact h
    · rw [heq, lookup_put hne]
      exact h
    · rw [heq, lookup_put hne]
      exact lookup_prune h hlive
    · rw [heq]
      exact lookup_prune h hlive
  | release released =>
    rw [Call.perform, release]
    split
    · exact h
    rename_i hnonempty
    have hne : key ≠ released := by
      intro hkey
      exact hnonempty (hkey ▸ hspare hkey.symm)
    rw [lookup_delete hne]
    exact h

theorem reserved_until_run {x : Time} {calls : List Call} (h : c.seen.lookup key = some x)
    (hspare : ∀ call ∈ calls, call.Spares key x) :
    (run Call.perform calls c).seen.lookup key = some x := by
  induction calls generalizing c with
  | nil => exact h
  | cons call calls ih =>
    rw [run_cons]
    exact ih (reserved_until_perform call c h (hspare call List.mem_cons_self))
      fun next hnext => hspare next (List.mem_cons_of_mem call hnext)

theorem lookup_of_reserved (h : (c.reserve key expires now).1 = .reserved) :
    (c.reserve key expires now).2.seen.lookup key = some expires := by
  rcases reserve_cases c key expires now with
    ⟨_, _, _, heq⟩ | ⟨_, ⟨_, heq⟩ | ⟨_, _, heq⟩ | ⟨_, _, heq⟩⟩
  · rw [heq] at h
    cases h
  · rw [heq]
    exact lookup_put_self
  · rw [heq]
    exact lookup_put_self
  · rw [heq] at h
    cases h

theorem Clocked.le_last {calls : List Call} (h : Clocked (calls ++ [.reserve key expires now])) :
    ∀ call ∈ calls, ∀ t, call.clock = some t → t ≤ now := by
  intro call hcall t ht
  rw [Clocked, List.filterMap_append] at h
  exact (List.pairwise_append.mp h).2.2 t (List.mem_filterMap.mpr ⟨call, hcall, ht⟩) now
    (by simp [Call.clock])

/-! ### The guarantees of the cache -/

/-- **Replay cache safety.**  After every sequence of calls the cache holds at most
its capacity of distinct keys.  While the clock never runs back, a key whose
reservation was granted and that was not released since is a duplicate until the
reservation expires.  A call fails for want of capacity only while that many
unexpired entries are held. -/
theorem replay_cache_safe (capacity : ℕ) (calls : List Call) :
    (after capacity calls).Sized ∧ (after capacity calls).seen.length ≤ capacity
      ∧ ∀ (key : String) (expires now : Time), Clocked (calls ++ [.reserve key expires now]) →
        (∀ before since x t, calls = before ++ .reserve key x t :: since →
            ((after capacity before).reserve key x t).1 = .reserved →
            (.release key ∈ since → key = "") → now < x →
            ((after capacity calls).reserve key expires now).1 = .duplicate)
        ∧ (((after capacity calls).reserve key expires now).1 = .capacityExceeded →
            ((after capacity calls).live now).length = capacity) := by
  obtain ⟨hsized, hmax⟩ := sized_after capacity calls
  refine ⟨hsized, hsized.bounded.trans hmax.le, fun key expires now hnext => ⟨?_, ?_⟩⟩
  · intro before since x t hcalls hgranted hkept hlive
    have hentry : (after capacity calls).seen.lookup key = some x := by
      rw [hcalls, after, run_append, run_cons]
      refine reserved_until_run (lookup_of_reserved hgranted) fun call hcall => ?_
      cases call with
      | reserve called y s =>
        -- the calls in between read the clock no later than this one
        have hmem : Call.reserve called y s ∈ calls := by
          rw [hcalls]
          exact List.mem_append_right _ (List.mem_cons_of_mem _ hcall)
        exact lt_of_le_of_lt (hnext.le_last _ hmem s rfl) hlive
      | release released =>
        intro hreleased
        exact hkept (hreleased ▸ hcall)
    rw [reserve_live hentry hlive]
  intro hfull
  rcases reserve_cases (after capacity calls) key expires now with
    ⟨_, _, _, heq⟩ | ⟨hstale, ⟨_, heq⟩ | ⟨_, _, heq⟩ | ⟨_, hlen, heq⟩⟩
  · rw [heq] at hfull
    cases hfull
  · rw [heq] at hfull
    cases hfull
  · rw [heq] at hfull
    cases hfull
  have hle : ((after capacity calls).live now).length ≤ (after capacity calls).seen.length :=
    List.length_filter_le _ _
  have hbound := hsized.bounded
  omega

/-- A cache of one entry: the second key finds it full, the first is a duplicate. -/
theorem replay_cache_safe_one :
    ((after 1 [.reserve "a" 10 1, .reserve "b" 20 2]).reserve "a" 30 3).1 = .duplicate
      ∧ ((after 1 [.reserve "a" 10 1, .reserve "b" 20 2]).live 3).length = 1 := by
  have hsafe := (replay_cache_safe 1 [.reserve "a" 10 1, .reserve "b" 20 2]).2.2
  exact ⟨(hsafe "a" 30 3 (by decide)).1 [] [.reserve "b" 20 2] 10 1 rfl (by decide)
      (by decide) (by decide),
    (hsafe "b" 20 3 (by decide)).2 (by decide)⟩

end ReplayCache

end StormRelay
