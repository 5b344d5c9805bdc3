/-
Records read from a table whose rows are versioned.

Every update of a row raises its version.  A record that was once read from the table is
then either the row as it stands, or has a lower version than the row.

* `Known.eq_of_version` — **a known record with the version of the row is the row.**
-/
import StormRelay.Table

namespace Snapshots

open Table

variable {α κ : Type} {key : α → κ} {version : α → ℕ} {t new : List α} {r row : α}

def Known (key : α → κ) (version : α → ℕ) (t : List α) (r : α) : Prop :=
  ∃ row ∈ t, key row = key r ∧ (version r < version row ∨ row = r)

theorem known_of_mem (h : r ∈ t) : Known key version t r :=
  ⟨r, h, rfl, .inr rfl⟩

theorem Known.append (h : Known key version t r) : Known key version (t ++ new) r := by
  obtain ⟨row, hrow, hkey⟩ := h
  exact ⟨row, List.mem_append_left new hrow, hkey⟩

theorem Known.update {p : α → Bool} {f : α → α}
    (hf : ∀ x, key (f x) = key x ∧ version x < version (f x)) (h : Known key version t r) :
    Known key version (update p f t) r := by
  obtain ⟨row, hrow, hkey, hversion⟩ := h
  refine ⟨patch p f row, List.mem_map_of_mem hrow, ?_⟩
  by_cases hp : p row = true
  · rw [patch_pos hp]
    refine ⟨(hf row).1.trans hkey, .inl ?_⟩
    rcases hversion with hlt | rfl
    · exact lt_trans hlt (hf row).2
    · exact (hf row).2
  · rw [patch_neg (Bool.eq_false_iff.mpr hp)]
    exact ⟨hkey, hversion⟩

/-- **A known record with the version of the row is the row.** -/
theorem Known.eq_of_version (hkeyed : Keyed key t) (h : Known key version t r) (hrow : row ∈ t)
    (hkey : key row = key r) (hversion : version row = version r) : row = r := by
  obtain ⟨row', hrow', hkey', hor⟩ := h
  obtain rfl := hkeyed.eq_of_key hrow hrow' (hkey.trans hkey'.symm)
  rcases hor with hlt | rfl
  · omega
  · rfl

end Snapshots
