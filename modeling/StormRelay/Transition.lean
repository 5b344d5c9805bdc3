/-
Runs of a labelled transition system.

A system is a total function `step : A → S → S`; every choice its environment
makes is part of the label.  A run is a list of labels.

* `tally` — the number of steps of a run that meet a condition, with its
  invariant rule `tally_invariant`.
-/
import Mathlib.Data.List.Basic

namespace Transition

variable {S A : Type} (step : A → S → S)

/-- The state a run ends in. -/
def run (as : List A) (s : S) : S :=
  as.foldl (fun s a => step a s) s

@[simp] theorem run_cons (a : A) (as : List A) (s : S) :
    run step (a :: as) s = run step as (step a s) := rfl

theorem run_append (as bs : List A) (s : S) :
    run step (as ++ bs) s = run step bs (run step as s) := by
  rw [run, List.foldl_append]
  rfl

/-- Some run from an initial state ends in `s`. -/
def Reachable (Init : S → Prop) (s : S) : Prop :=
  ∃ s₀ as, Init s₀ ∧ run step as s₀ = s

/-- `P` holds of every label of the run and the state it is taken in. -/
def Along (P : A → S → Prop) : List A → S → Prop
  | [], _ => True
  | a :: as, s => P a s ∧ Along P as (step a s)

/-- `I` holds in the first state of the run and in every state after it. -/
def Throughout (I : S → Prop) : List A → S → Prop
  | [], s => I s
  | a :: as, s => I s ∧ Throughout I as (step a s)

instance decidableThroughout (I : S → Prop) [DecidablePred I] :
    ∀ (as : List A) (s : S), Decidable (Throughout step I as s)
  | [], s => inferInstanceAs (Decidable (I s))
  | a :: as, s =>
    have := decidableThroughout I as (step a s)
    inferInstanceAs (Decidable (I s ∧ Throughout step I as (step a s)))

/-- The number of steps of the run that meet the condition `p`. -/
def tally (p : A → S → Bool) : List A → S → ℕ
  | [], _ => 0
  | a :: as, s => (p a s).toNat + tally p as (step a s)

variable {step} {I J : S → Prop}

theorem run_invariant (h : ∀ a s, I s → I (step a s)) :
    ∀ (as : List A) {s : S}, I s → I (run step as s)
  | [], _, hs => hs
  | a :: as, _, hs => run_invariant h as (h a _ hs)

/-- Where every step takes each row of a table to a row it is related to, so does a run. -/
theorem run_rows {ρ : Type} (rows : S → List ρ) {R : ρ → ρ → Prop} (hrefl : ∀ r, R r r)
    (htrans : ∀ a b c, R a b → R b c → R a c) (hI : ∀ a s, I s → I (step a s))
    (h : ∀ a s, I s → ∀ r ∈ rows s, ∃ r' ∈ rows (step a s), R r r') :
    ∀ (as : List A) {s : S}, I s → ∀ r ∈ rows s, ∃ r' ∈ rows (run step as s), R r r'
  | [], _, _, r, hr => ⟨r, hr, hrefl r⟩
  | a :: as, s, hs, r, hr => by
    obtain ⟨r₁, hr₁, h₁⟩ := h a s hs r hr
    obtain ⟨r', hr', h'⟩ := run_rows rows hrefl htrans hI h as (hI a s hs) r₁ hr₁
    exact ⟨r', hr', htrans r r₁ r' h₁ h'⟩

variable {s : S}

theorem Reachable.invariant {Init : S → Prop} (h₀ : ∀ s, Init s → I s)
    (h : ∀ a s, I s → I (step a s)) (hs : Reachable step Init s) : I s := by
  obtain ⟨s₀, as, hinit, rfl⟩ := hs
  exact run_invariant h as (h₀ s₀ hinit)

theorem Reachable.next {Init : S → Prop} (hs : Reachable step Init s) (a : A) :
    Reachable step Init (step a s) := by
  obtain ⟨s₀, as, hinit, rfl⟩ := hs
  exact ⟨s₀, as ++ [a], hinit, by rw [run_append]; rfl⟩

variable {P : A → S → Prop}

theorem along_append {as bs : List A} :
    Along step P (as ++ bs) s ↔ Along step P as s ∧ Along step P bs (run step as s) := by
  induction as generalizing s with
  | nil => exact ⟨fun h => ⟨trivial, h⟩, fun h => h.2⟩
  | cons a as ih =>
    show P a s ∧ Along step P (as ++ bs) (step a s)
      ↔ (P a s ∧ Along step P as (step a s)) ∧ Along step P bs (run step as (step a s))
    rw [ih, and_assoc]

/-- An invariant of the steps that meet `P` holds in every state of a run along
which `P` holds. -/
theorem Along.throughout (h : ∀ a s, I s → P a s → I (step a s)) :
    ∀ (as : List A) {s : S}, I s → Along step P as s → Throughout step I as s
  | [], _, hs, _ => hs
  | a :: as, s, hs, hP => ⟨hs, Along.throughout h as (h a s hs hP.1) hP.2⟩

/-- What holds at every step that meets `P` in a state of the invariant `I` holds
along every run whose steps meet `P`, if these keep `I`. -/
theorem Along.along {Q : A → S → Prop} (h : ∀ a s, I s → P a s → I (step a s))
    (hQ : ∀ a s, I s → P a s → Q a s) :
    ∀ (as : List A) {s : S}, I s → Along step P as s → Along step Q as s
  | [], _, _, _ => trivial
  | a :: as, s, hs, hP => ⟨hQ a s hs hP.1, Along.along h hQ as (h a s hs hP.1) hP.2⟩

theorem Along.and_of_mem {Q : A → Prop} :
    ∀ (as : List A) {s : S}, (∀ a ∈ as, Q a) → Along step P as s →
      Along step (fun a s => Q a ∧ P a s) as s
  | [], _, _, _ => trivial
  | a :: as, _, hQ, hP =>
    ⟨⟨hQ a List.mem_cons_self, hP.1⟩,
      Along.and_of_mem as (fun b hb => hQ b (List.mem_cons_of_mem a hb)) hP.2⟩

theorem Throughout.imp {I' : S → Prop} (h : ∀ s, I s → I' s) :
    ∀ (as : List A) {s : S}, Throughout step I as s → Throughout step I' as s
  | [], s, hs => h s hs
  | _ :: as, s, hs => ⟨h s hs.1, Throughout.imp h as hs.2⟩

/-- What holds at every step taken from a state of the invariant `J` holds along
every run that starts in one. -/
theorem along_of_invariant (hJ : ∀ a s, J s → J (step a s)) (hP : ∀ a s, J s → P a s) :
    ∀ (as : List A) {s : S}, J s → Along step P as s
  | [], _, _ => trivial
  | a :: as, s, hs => ⟨hP a s hs, along_of_invariant hJ hP as (hJ a s hs)⟩

/-- Counting invariants of the runs that meet a condition at every step. -/
theorem Along.tally_invariant {p : A → S → Bool} {J : ℕ → S → Prop}
    (h : ∀ a n s, J n s → P a s → J (n + (p a s).toNat) (step a s)) :
    ∀ (as : List A) {n : ℕ} {s : S}, J n s → Along step P as s →
      J (n + tally step p as s) (run step as s)
  | [], _, _, hs, _ => hs
  | a :: as, n, s, hs, hP => by
    rw [tally, ← Nat.add_assoc]
    exact Along.tally_invariant h as (h a n s hs hP.1) hP.2

/-- **Counting invariants.**  If every step carries `J n` over to `J (n + 1)` when
it meets `p` and to `J n` when it does not, then a run carries `J 0` over to
`J` of its tally. -/
theorem tally_invariant {p : A → S → Bool} {J : ℕ → S → Prop}
    (h : ∀ a n s, J n s → J (n + (p a s).toNat) (step a s)) (as : List A) (hs : J 0 s) :
    J (tally step p as s) (run step as s) := by
  have hall : Along step (fun _ _ => True) as s :=
    along_of_invariant (J := fun _ => True) (fun _ _ h => h) (fun _ _ h => h) as trivial
  simpa using Along.tally_invariant (fun a n s hs _ => h a n s hs) as hs hall

theorem tally_mono {p q : A → S → Bool} :
    ∀ (as : List A) {s : S}, (∀ a ∈ as, ∀ s, p a s = true → q a s = true) →
      tally step p as s ≤ tally step q as s
  | [], _, _ => Nat.le_refl 0
  | a :: as, s, h => by
    have hhead : (p a s).toNat ≤ (q a s).toNat := by
      cases hp : p a s with
      | false => exact Nat.zero_le _
      | true => exact Nat.le_of_eq (congrArg Bool.toNat (h a List.mem_cons_self s hp).symm)
    exact Nat.add_le_add hhead
      (tally_mono as fun b hb => h b (List.mem_cons_of_mem a hb))

theorem throughout_of_invariant (hJ : ∀ a s, J s → J (step a s)) :
    ∀ (as : List A) {s : S}, J s → Throughout step J as s
  | [], _, hs => hs
  | a :: as, s, hs => ⟨hs, throughout_of_invariant hJ as (hJ a s hs)⟩

theorem Throughout.head {as : List A} (h : Throughout step I as s) :
    I s := by
  rcases as with _ | ⟨a, as⟩
  · exact h
  · exact h.1

theorem throughout_iff {as : List A} :
    Throughout step I as s ↔ ∀ bs, bs <+: as → I (run step bs s) := by
  induction as generalizing s with
  | nil =>
    constructor
    · intro h bs hbs
      rw [List.prefix_nil.mp hbs]
      exact h
    · intro h
      exact h [] (List.prefix_refl _)
  | cons a as ih =>
    constructor
    · rintro ⟨hs, hrest⟩ bs hbs
      rcases bs with _ | ⟨b, bs⟩
      · exact hs
      · obtain ⟨rfl, hbs'⟩ := List.cons_prefix_cons.mp hbs
        exact ih.mp hrest bs hbs'
    · intro h
      refine ⟨h [] (List.nil_prefix), ih.mpr fun bs hbs => ?_⟩
      exact h (a :: bs) (List.cons_prefix_cons.mpr ⟨rfl, hbs⟩)

/-- **Exact conditions.**  If from a good state (in which the side invariant `J`
holds) a step keeps `I` exactly when `P` holds of it, then `P` holds along a
run if and only if `I` holds throughout it. -/
theorem along_iff_of_exact (hJ : ∀ a s, J s → J (step a s))
    (hexact : ∀ a s, J s → I s → (I (step a s) ↔ P a s)) :
    ∀ (as : List A) {s : S}, J s → I s → (Throughout step I as s ↔ Along step P as s)
  | [], _, _, hI => ⟨fun _ => trivial, fun _ => hI⟩
  | a :: as, s, hJs, hI => by
    constructor
    · rintro ⟨_, hrest⟩
      have hnext : I (step a s) := hrest.head
      exact ⟨(hexact a s hJs hI).mp hnext,
        (along_iff_of_exact hJ hexact as (hJ a s hJs) hnext).mp hrest⟩
    · rintro ⟨hP, hrest⟩
      have hnext : I (step a s) := (hexact a s hJs hI).mpr hP
      exact ⟨hI, (along_iff_of_exact hJ hexact as (hJ a s hJs) hnext).mpr hrest⟩

end Transition
