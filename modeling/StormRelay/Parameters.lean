/-
The parameters of an execution (`validateParameters` in `internal/api/runbooks.go`).

Parameters are stored with the execution, so their keys may not name a secret at
any level, and their nesting is limited.  Go visits the entries of a map in an order
of its own; the order is an argument here.

* `inspect_ok_iff` — **the check succeeds exactly on the values without deep nesting
  and without sensitive keys**, in whatever order entries are visited;
* `validateParameters_ok_iff` — the same for the parameters of a request, with a limit
  of 64 KiB for their JSON.
-/
import StormRelay.Schema

namespace StormRelay.Parameters

open GoStd

/-- The entries of a map in the order they are visited; the path says at which map. -/
abbrev Order := String → List (String × Json) → List (String × Json)

def sensitiveKeys : List String :=
  ["secret", "token", "password", "authorization", "cookie", "credential", "private_key"]

def isSensitiveKey (toLower : String → String) (key : String) : Bool :=
  sensitiveKeys.any fun secret => contains (toLower key) secret

/-- `inspectParameterValue` with `room` levels left: none is left beyond depth 10. -/
def inspectWithin (toLower : String → String) (order : Order) :
    ℕ → String → Json → Except String Unit
  | 0, _, _ => .error "parameters nesting exceeds 10 levels"
  | room + 1, path, value =>
    match value with
    | .obj members =>
      (order path members).forM fun (key, child) =>
        if isSensitiveKey toLower key then
          .error (path ++ "." ++ key ++ " contains a prohibited sensitive key")
        else inspectWithin toLower order room (path ++ "." ++ key) child
    | .arr items =>
      items.zipIdx.forM fun (child, index) =>
        inspectWithin toLower order room (path ++ "[" ++ toString index ++ "]") child
    | _ => .ok ()

def inspectParameterValue (toLower : String → String) (order : Order) (path : String)
    (value : Json) (depth : ℕ) : Except String Unit :=
  inspectWithin toLower order (11 - depth) path value

/-- `validateParameters`; `marshal` is `json.Marshal`, `toLower` is `strings.ToLower`. -/
def validateParameters (toLower : String → String) (order : Order)
    (marshal : Json → Option (List UInt8)) (parameters : List (String × Json)) :
    Except String Unit :=
  match marshal (.obj parameters) with
  | none => .error "parameters must be JSON-compatible"
  | some data =>
    if data.length > 64 * 1024 then .error "parameters exceed 64 KiB"
    else inspectParameterValue toLower order "parameters" (.obj parameters) 0

/-! ### What is nested in a value -/

/-- The second value occurs in the first one, so many levels deep. -/
inductive Inside : Json → ℕ → Json → Prop
  | here (value : Json) : Inside value 0 value
  | item {items : List Json} {child value : Json} {depth : ℕ} (hchild : child ∈ items)
      (h : Inside child depth value) : Inside (.arr items) (depth + 1) value
  | member {members : List (String × Json)} {key : String} {child value : Json} {depth : ℕ}
      (hchild : (key, child) ∈ members) (h : Inside child depth value) :
      Inside (.obj members) (depth + 1) value

/-- Everything inside is less than `room` levels deep, and no key is sensitive. -/
structure Clean (toLower : String → String) (room : ℕ) (value : Json) : Prop where
  shallow : ∀ depth inner, Inside value depth inner → depth < room
  keys : ∀ depth members, Inside value depth (.obj members) →
    ∀ key child, (key, child) ∈ members → isSensitiveKey toLower key = false

variable {toLower : String → String} {room : ℕ}

theorem not_clean_zero (value : Json) : ¬ Clean toLower 0 value :=
  fun h => absurd (h.shallow 0 value (.here value)) (Nat.lt_irrefl 0)

theorem clean_arr_iff {items : List Json} :
    Clean toLower (room + 1) (.arr items) ↔ ∀ child ∈ items, Clean toLower room child := by
  constructor
  · intro h child hchild
    refine ⟨fun depth inner hin => ?_, fun depth members hin => ?_⟩
    · exact Nat.lt_of_succ_lt_succ (h.shallow _ _ (.item hchild hin))
    · exact h.keys _ _ (.item hchild hin)
  intro h
  refine ⟨fun depth inner hin => ?_, fun depth members hin => ?_⟩
  · cases hin with
    | here => exact Nat.succ_pos room
    | item hchild hin => exact Nat.succ_lt_succ ((h _ hchild).shallow _ _ hin)
  · cases hin with
    | item hchild hin => exact (h _ hchild).keys _ _ hin

theorem clean_obj_iff {members : List (String × Json)} :
    Clean toLower (room + 1) (.obj members) ↔ ∀ key child, (key, child) ∈ members →
      isSensitiveKey toLower key = false ∧ Clean toLower room child := by
  constructor
  · intro h key child hchild
    refine ⟨h.keys 0 members (.here _) key child hchild, ?_, ?_⟩
    · intro depth inner hin
      exact Nat.lt_of_succ_lt_succ (h.shallow _ _ (.member hchild hin))
    · intro depth inner hin
      exact h.keys _ _ (.member hchild hin)
  intro h
  refine ⟨fun depth inner hin => ?_, fun depth inner hin => ?_⟩
  · cases hin with
    | here => exact Nat.succ_pos room
    | member hchild hin => exact Nat.succ_lt_succ ((h _ _ hchild).2.shallow _ _ hin)
  · cases hin with
    | here => exact fun key child hchild => (h key child hchild).1
    | member hchild hin => exact (h _ _ hchild).2.keys _ _ hin

theorem clean_scalar {value : Json} (harr : ∀ items, value ≠ .arr items)
    (hobj : ∀ members, value ≠ .obj members) : Clean toLower (room + 1) value := by
  refine ⟨fun depth inner hin => ?_, fun depth members hin => ?_⟩
  · cases hin with
    | here => exact Nat.succ_pos room
    | item => exact absurd rfl (harr _)
    | member => exact absurd rfl (hobj _)
  · cases hin with
    | here | member => exact absurd rfl (hobj _)
    | item => exact absurd rfl (harr _)

/-! ### The check -/

/-- The check with `room` levels left, by induction on them: an entry is visited in any
order of its map. -/
theorem inspectWithin_ok_iff {order : Order}
    (horder : ∀ path members, (order path members).Perm members) (path : String) (value : Json) :
    inspectWithin toLower order room path value = .ok () ↔ Clean toLower room value := by
  induction room generalizing path value with
  | zero => exact iff_of_false (fun h => by cases h) (not_clean_zero value)
  | succ room ih =>
    cases value with
    | obj members =>
      rw [inspectWithin, forM_eq_ok_iff, clean_obj_iff]
      have hentry : ∀ key child, (if isSensitiveKey toLower key then
            .error (path ++ "." ++ key ++ " contains a prohibited sensitive key")
          else inspectWithin toLower order room (path ++ "." ++ key) child) = .ok ()
          ↔ isSensitiveKey toLower key = false ∧ Clean toLower room child := by
        intro key child
        cases hkey : isSensitiveKey toLower key with
        | true => exact iff_of_false (fun h => by cases h) (fun h => by cases h.1)
        | false => exact (ih _ child).trans (and_iff_right rfl).symm
      constructor
      · intro h key child hchild
        exact (hentry key child).mp (h (key, child) ((horder path members).mem_iff.mpr hchild))
      · rintro h ⟨key, child⟩ hchild
        exact (hentry key child).mpr (h key child ((horder path members).mem_iff.mp hchild))
    | arr items =>
      rw [inspectWithin, forM_eq_ok_iff, clean_arr_iff]
      constructor
      · intro h child hchild
        obtain ⟨index, hindex⟩ := List.mem_iff_getElem?.mp hchild
        exact (ih _ child).mp (h (child, index) (List.mk_mem_zipIdx_iff_getElem?.mpr hindex))
      · rintro h ⟨child, index⟩ hchild
        refine (ih _ child).mpr (h child ?_)
        exact List.mem_of_getElem? (List.mk_mem_zipIdx_iff_getElem?.mp hchild)
    | _ =>
      refine iff_of_true rfl (clean_scalar ?_ ?_)
      · intro items h
        cases h
      · intro members h
        cases h

/-- **The parameters carry no sensitive keys.**  Started at depth 0, the check succeeds
exactly when nothing inside the value is nested more than ten levels deep and no key of
an object inside it contains a sensitive word, in whatever order the entries of each map
are visited. -/
theorem inspect_ok_iff (toLower : String → String) {order : Order}
    (horder : ∀ path members, (order path members).Perm members) (path : String) (value : Json) :
    inspectParameterValue toLower order path value 0 = .ok () ↔
      (∀ depth inner, Inside value depth inner → depth ≤ 10)
        ∧ ∀ depth members, Inside value depth (.obj members) →
          ∀ key child, (key, child) ∈ members →
            ∀ secret ∈ sensitiveKeys, contains (toLower key) secret = false := by
  rw [inspectParameterValue, inspectWithin_ok_iff horder]
  have hkey : ∀ key, isSensitiveKey toLower key = false
      ↔ ∀ secret ∈ sensitiveKeys, contains (toLower key) secret = false := by
    intro key
    rw [isSensitiveKey, List.any_eq_false]
    simp only [Bool.not_eq_true]
  constructor
  · rintro ⟨hshallow, hkeys⟩
    refine ⟨fun depth inner hin => Nat.le_of_lt_succ (hshallow depth inner hin), ?_⟩
    intro depth members hin key child hchild
    exact (hkey key).mp (hkeys depth members hin key child hchild)
  rintro ⟨hshallow, hkeys⟩
  refine ⟨fun depth inner hin => Nat.lt_succ_of_le (hshallow depth inner hin), ?_⟩
  intro depth members hin key child hchild
  exact (hkey key).mpr (hkeys depth members hin key child hchild)

/-- Visited from the last entry to the first, plain parameters are accepted, and
nothing inside them is nested too deep. -/
theorem inspect_ok_region :
    inspectParameterValue (fun key => key) (fun _ members => members.reverse) "parameters"
        (.obj [("region", .str "eu"), ("hosts", .arr [.str "a"])]) 0 = .ok ()
      ∧ ∀ depth inner,
        Inside (.obj [("region", .str "eu"), ("hosts", .arr [.str "a"])]) depth inner →
          depth ≤ 10 := by
  have hok : inspectParameterValue (fun key => key) (fun _ members => members.reverse) "parameters"
      (.obj [("region", .str "eu"), ("hosts", .arr [.str "a"])]) 0 = .ok () := by
    decide +kernel
  exact ⟨hok, ((inspect_ok_iff (fun key => key) (fun _ members => List.reverse_perm members)
    "parameters" _).mp hok).1⟩

theorem validateParameters_ok_iff {order : Order}
    (horder : ∀ path members, (order path members).Perm members)
    {marshal : Json → Option (List UInt8)} {parameters : List (String × Json)} :
    validateParameters toLower order marshal parameters = .ok () ↔
      (∃ data, marshal (.obj parameters) = some data ∧ data.length ≤ 64 * 1024)
        ∧ Clean toLower 11 (.obj parameters) := by
  rw [validateParameters, ← inspectWithin_ok_iff horder "parameters"]
  cases hmarshal : marshal (.obj parameters) with
  | none =>
    refine iff_of_false (fun h => by cases h) ?_
    rintro ⟨⟨_, h, _⟩, _⟩
    cases h
  | some data =>
    by_cases hlong : data.length > 64 * 1024
    · simp only [if_pos hlong]
      refine iff_of_false (fun h => by cases h) ?_
      rintro ⟨⟨other, h, hshort⟩, _⟩
      obtain rfl : data = other := Option.some.inj h
      omega
    · simp only [if_neg hlong]
      exact (and_iff_right ⟨data, rfl, by omega⟩).symm

end StormRelay.Parameters
