/-
JSON documents over a type of numbers.

An object is listed by key; the order of its members is not part of the value it
denotes.

* `JsonTree.map_eq_self_iff` — **a document is unchanged exactly when all its
  numbers are**.
-/
import Mathlib.Data.List.Basic

inductive JsonTree (N : Type) where
  | null
  | bool (b : Bool)
  | num (n : N)
  | str (s : String)
  | arr (items : List (JsonTree N))
  | obj (members : List (String × JsonTree N))

namespace JsonTree

variable {N M K : Type}

/-! ### Numbers -/

mutual

/-- The document with `f` applied to its numbers. -/
def map (f : N → M) : JsonTree N → JsonTree M
  | .null => .null
  | .bool b => .bool b
  | .num n => .num (f n)
  | .str s => .str s
  | .arr items => .arr (mapItems f items)
  | .obj members => .obj (mapMembers f members)

def mapItems (f : N → M) : List (JsonTree N) → List (JsonTree M)
  | [] => []
  | item :: items => item.map f :: mapItems f items

def mapMembers (f : N → M) : List (String × JsonTree N) → List (String × JsonTree M)
  | [] => []
  | (name, value) :: members => (name, value.map f) :: mapMembers f members

end

mutual

/-- The numbers of a document. -/
def nums : JsonTree N → List N
  | .null | .bool _ | .str _ => []
  | .num n => [n]
  | .arr items => numsItems items
  | .obj members => numsMembers members

def numsItems : List (JsonTree N) → List N
  | [] => []
  | item :: items => item.nums ++ numsItems items

def numsMembers : List (String × JsonTree N) → List N
  | [] => []
  | (_, value) :: members => value.nums ++ numsMembers members

end

/-! ### Changes of the numbers -/

-- The induction follows the recursion: over documents, items and members together.
mutual

theorem map_map (f : N → M) (g : M → K) : ∀ t : JsonTree N, (t.map f).map g = t.map (g ∘ f)
  | .null => rfl
  | .bool _ => rfl
  | .num _ => rfl
  | .str _ => rfl
  | .arr items => by rw [map, map, map, mapItems_mapItems f g items]
  | .obj members => by rw [map, map, map, mapMembers_mapMembers f g members]

theorem mapItems_mapItems (f : N → M) (g : M → K) :
    ∀ items : List (JsonTree N), mapItems g (mapItems f items) = mapItems (g ∘ f) items
  | [] => rfl
  | item :: items => by
    rw [mapItems, mapItems, mapItems, map_map f g item, mapItems_mapItems f g items]

theorem mapMembers_mapMembers (f : N → M) (g : M → K) :
    ∀ members : List (String × JsonTree N),
      mapMembers g (mapMembers f members) = mapMembers (g ∘ f) members
  | [] => rfl
  | (name, value) :: members => by
    rw [mapMembers, mapMembers, mapMembers, map_map f g value,
      mapMembers_mapMembers f g members]

end

mutual

/-- **A document is unchanged exactly when all its numbers are.** -/
theorem map_eq_self_iff (f : N → N) :
    ∀ t : JsonTree N, t.map f = t ↔ ∀ n ∈ t.nums, f n = n
  | .null => by simp [map, nums]
  | .bool _ => by simp [map, nums]
  | .num _ => by simp [map, nums]
  | .str _ => by simp [map, nums]
  | .arr items => by rw [map, nums, arr.injEq, mapItems_eq_self_iff f items]
  | .obj members => by rw [map, nums, obj.injEq, mapMembers_eq_self_iff f members]

theorem mapItems_eq_self_iff (f : N → N) :
    ∀ items : List (JsonTree N), mapItems f items = items ↔ ∀ n ∈ numsItems items, f n = n
  | [] => by simp [mapItems, numsItems]
  | item :: items => by
    rw [mapItems, numsItems, List.cons.injEq, map_eq_self_iff f item,
      mapItems_eq_self_iff f items, List.forall_mem_append]

theorem mapMembers_eq_self_iff (f : N → N) :
    ∀ members : List (String × JsonTree N),
      mapMembers f members = members ↔ ∀ n ∈ numsMembers members, f n = n
  | [] => by simp [mapMembers, numsMembers]
  | (name, value) :: members => by
    rw [mapMembers, numsMembers, List.cons.injEq, Prod.mk.injEq, map_eq_self_iff f value,
      mapMembers_eq_self_iff f members, List.forall_mem_append]
    exact and_congr_left fun _ => and_iff_right rfl

end

theorem map_eq_null_iff (f : N → M) (t : JsonTree N) : t.map f = .null ↔ t = .null := by
  cases t <;> simp [map]

end JsonTree
