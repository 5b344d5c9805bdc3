/-
What becomes of a row over a whole run.

Workers, timers and operators rewrite rows in any order.  For each table one relation says
what a later row keeps of an earlier one; every operation keeps it, so every run does.

* `steps_evolve` — **a step is never lost or redefined, and its version tells every change**;
* `version_fences_claim` — **the version of a claimed row tells whether the claim is stale**;
* `executions_persist` — **an execution stays the one that was started**;
* `approvals_settle` — **a request for approval is never altered, and decided once**.
-/
import StormRelay.Approvals

namespace StormRelay

open Table Transition

variable {env : Env} {s : Sys} {op : Op} {r r' : ExecutionStep}

/-- `r'` is what the row `r` has become. -/
structure ExecutionStep.Evolves (r r' : ExecutionStep) : Prop where
  definition : r'.definition = r.definition
  attempts : r.attemptCount ≤ r'.attemptCount
  started : r.startedAt.isSome → r'.startedAt = r.startedAt
  finished : r.status.finished = true → r' = r
  version : r.version < r'.version ∨ r' = r

namespace ExecutionStep.Evolves

theorem refl (r : ExecutionStep) : r.Evolves r :=
  ⟨rfl, le_rfl, fun _ => rfl, fun _ => rfl, .inr rfl⟩

theorem id_eq (h : r.Evolves r') : r'.id = r.id :=
  column_of_definition ExecutionStep.id (fun _ => rfl) h.definition

theorem trans {a b c : ExecutionStep} (h : a.Evolves b) (h' : b.Evolves c) : a.Evolves c where
  definition := h'.definition.trans h.definition
  attempts := h.attempts.trans h'.attempts
  started hs := (h'.started (h.started hs ▸ hs)).trans (h.started hs)
  finished hf := by
    obtain rfl := h.finished hf
    exact h'.finished hf
  version := by
    rcases h.version with hlt | rfl
    · rcases h'.version with hlt' | rfl
      · exact .inl (hlt.trans hlt')
      · exact .inl hlt
    · exact h'.version

end ExecutionStep.Evolves

theorem StepChange.evolves (hc : Consistent s.db) (hr : r ∈ s.db.steps)
    (h : StepChange s op r r') : r.Evolves r' where
  definition := h.definition
  attempts := h.attempts
  started hs := by
    cases h with
    | claim =>
      -- A claim keeps the time of the first one.
      obtain ⟨t, ht⟩ := Option.isSome_iff_exists.mp hs
      simp [claimRow, ht]
    | _ => rfl
  finished hf := by
    rw [h.unfinished hc hr] at hf
    cases hf
  version := .inl (by cases h <;> exact Nat.lt_succ_self _)

theorem evolves_perform (env : Env) (hi : s.Inv) (op : Op) :
    ∀ r ∈ s.db.steps, ∃ r' ∈ (Sys.perform env op s).db.steps, r.Evolves r' := by
  intro r hr
  obtain ⟨r', hr', rfl | hch⟩ := (effect_perform env hi op).rows.next hr
  · exact ⟨r', hr', .refl r'⟩
  · exact ⟨r', hr', hch.evolves hi.consistent hr⟩

/-- **A step row over a whole run.**  It is never lost; the row of its id keeps the columns
that define the step, its attempts and the time of its first claim; a finished row stays as it
is; and a row that still has the version it had has not changed in any column. -/
theorem steps_evolve (hs : Sys.Reachable env s) (ops : List Op) :
    ∀ r ∈ s.db.steps, (∃ r' ∈ (run (Sys.perform env) ops s).db.steps, r'.id = r.id)
      ∧ ∀ r' ∈ (run (Sys.perform env) ops s).db.steps, r'.id = r.id → r.Evolves r' := by
  intro r hr
  have hinv := inv_of_reachable hs
  have hrows : ∀ r ∈ s.db.steps,
      ∃ r' ∈ (run (Sys.perform env) ops s).db.steps, r.Evolves r' :=
    run_rows (I := Sys.Inv) (fun s => s.db.steps) .refl (fun _ _ _ => .trans)
      (fun op _ hi => inv_perform env hi op) (fun op _ hi => evolves_perform env hi op) ops hinv
  obtain ⟨r₁, hr₁, hev⟩ := hrows r hr
  refine ⟨⟨r₁, hr₁, hev.id_eq⟩, fun r' hr' hid' => ?_⟩
  have hlast : (run (Sys.perform env) ops s).Inv :=
    run_invariant (I := Sys.Inv) (fun op _ hi => inv_perform env hi op) ops hinv
  obtain rfl := hlast.consistent.eq_of_id hr' hr₁ (hid'.trans hev.id_eq.symm)
  exact hev

theorem reachable_overdueState : Sys.Reachable gatedEnv overdueState :=
  ⟨oneRunbook, overdueRun, ⟨rfl, rfl, rfl, rfl⟩, rfl⟩

theorem steps_evolve_decided :
    overdueState.db.steps.length = 2
      ∧ ∀ r ∈ overdueState.db.steps, ∀ r' ∈ (run (Sys.perform gatedEnv)
        [.decide "t" "ap" .approved "op" "" "" ""] overdueState).db.steps,
        r'.id = r.id → r.Evolves r' :=
  ⟨by decide +kernel, fun r hr => (steps_evolve reachable_overdueState _ r hr).2⟩

/-! ### Claims -/

theorem step_mem_of_claims {locked : List String} {workerID : String} {limit lease : ℤ}
    {c : ClaimedStep} (h : c ∈ s.claims locked workerID limit lease) :
    c.step ∈ (Sys.perform env (.claim locked workerID limit lease false) s).db.steps := by
  obtain ⟨r, hr, e, hin, -, rfl⟩ := mem_claims h
  rw [perform_claim_db]
  have hmem := mem_update_of_mem
    (p := fun es : ExecutionStep => es.id ∈ candidates s.db s.now locked (claimLimit limit))
    (f := claimRow s.now workerID (claimLease lease)) hr
  rwa [patch_pos (by simpa using hin)] at hmem

/-- **The version fences a claim.**  However late a worker comes back, the row of its step has
evolved from the row it claimed, and has the claimed version exactly if nothing has touched it. -/
theorem version_fences_claim (hs : Sys.Reachable env s) :
    ∀ w ∈ s.issued, ∀ r ∈ s.db.steps, r.id = w.2.step.id →
      w.2.step.Evolves r ∧ (r.version = w.2.step.version ↔ r = w.2.step) := by
  have hall : s.Inv ∧ ∀ w ∈ s.issued, ∃ r ∈ s.db.steps, w.2.step.Evolves r := by
    refine Reachable.invariant (I := fun s : Sys =>
      s.Inv ∧ ∀ w ∈ s.issued, ∃ r ∈ s.db.steps, w.2.step.Evolves r)
      (fun s h₀ => ⟨inv_init h₀, by simp [h₀.2.2.2]⟩) (fun op s h => ?_) hs
    have hold : ∀ w ∈ s.issued, ∃ r ∈ (Sys.perform env op s).db.steps, w.2.step.Evolves r := by
      intro w hw
      obtain ⟨r, hr, hev⟩ := h.2 w hw
      obtain ⟨r', hr', hnext⟩ := evolves_perform env h.1 op r hr
      exact ⟨r', hr', hev.trans hnext⟩
    refine ⟨inv_perform env h.1 op, ?_⟩
    obtain hsame | ⟨locked, workerID, limit, lease, rfl, hissued⟩ := perform_issued env s op
    · rwa [hsame]
    rw [hissued]
    refine List.forall_mem_append.mpr ⟨hold, fun w hw => ?_⟩
    obtain ⟨c, hc, rfl⟩ := List.mem_map.mp hw
    exact ⟨c.step, step_mem_of_claims hc, .refl _⟩
  intro w hw r hr hid
  obtain ⟨r', hr', hev⟩ := hall.2 w hw
  obtain rfl := hall.1.consistent.eq_of_id hr hr' (hid.trans hev.id_eq.symm)
  exact ⟨hev, fun hv => hev.version.resolve_left (by omega), congrArg ExecutionStep.version⟩

theorem version_fences_claim_overdue :
    overdueState.issued.length = 1
      ∧ ∀ w ∈ overdueState.issued, ∀ r ∈ overdueState.db.steps, r.id = w.2.step.id →
        w.2.step.Evolves r ∧ (r.version = w.2.step.version ↔ r = w.2.step) :=
  ⟨by decide +kernel, version_fences_claim reachable_overdueState⟩

/-! ### Executions -/

/-- **An execution over a whole run.**  It is never lost, keeps the tenant, incident, version,
parameters and dry-run flag it was started with, and a request to cancel it stands. -/
theorem executions_persist (hs : Sys.Reachable env s) (ops : List Op) :
    ∀ e ∈ s.db.executions, ∃ e' ∈ (run (Sys.perform env) ops s).db.executions,
      ExecutionKept e e' := by
  refine run_rows (I := Sys.Inv) (fun s => s.db.executions) .refl
    (fun _ _ _ h h' => ⟨h'.definition.trans h.definition, fun hc => h'.cancel (h.cancel hc)⟩)
    (fun op _ hi => inv_perform env hi op) (fun op s hi e he => ?_) ops (inv_of_reachable hs)
  obtain ⟨kept, new, hexec, hkept, -⟩ := (effect_perform env hi op).executions
  obtain ⟨e', he', hlater⟩ := hkept.exists_mem he
  exact ⟨e', hexec ▸ List.mem_append_left _ he', hlater⟩

theorem executions_persist_canceled :
    overdueState.db.executions.length = 1
      ∧ ∀ e ∈ overdueState.db.executions, ∃ e' ∈ (run (Sys.perform gatedEnv)
        [.changeState "t" "e" .cancel "op" "" ""] overdueState).db.executions,
        ExecutionKept e e' :=
  ⟨by decide +kernel, executions_persist reachable_overdueState _⟩

/-! ### Approvals -/

/-- The columns written when the approval is requested. -/
def Approval.request (a : Approval) : Approval :=
  { a with status := .pending, decidedAt := none, decidedBy := none, reason := none }

theorem ApprovalChange.request {a a' : Approval} (h : ApprovalChange s op a a') :
    a'.request = a.request := by
  cases h <;> rfl

/-- **An approval over a whole run.**  What was asked for stays as it was asked, and a decision
or an expiry is never taken back or replaced. -/
theorem approvals_settle (hs : Sys.Reachable env s) (ops : List Op) :
    ∀ a ∈ s.db.approvals, ∃ a' ∈ (run (Sys.perform env) ops s).db.approvals,
      a'.request = a.request ∧ (a.status ≠ .pending → a' = a) := by
  refine run_rows (I := Sys.Inv) (fun s => s.db.approvals)
    (fun a => ⟨rfl, fun _ => rfl⟩) ?_ (fun op _ hi => inv_perform env hi op)
    (fun op s hi a ha => ?_) ops (inv_of_reachable hs)
  · rintro a b c ⟨hab, hb⟩ ⟨hbc, hc⟩
    exact ⟨hbc.trans hab, fun ha => (hc (hb ha ▸ ha)).trans (hb ha)⟩
  obtain ⟨k, new, happr, hk, -⟩ := (effect_perform env hi op).approvalRows
  refine ⟨k a, happr ▸ List.mem_append_left _ (List.mem_map_of_mem ha), ?_⟩
  rcases hk a ha with hsame | hch
  · exact ⟨congrArg Approval.request hsame, fun _ => hsame⟩
  · exact ⟨hch.request, fun hd => absurd hch.pending hd⟩

theorem approvals_settle_expired :
    overdueState.db.approvals.length = 1
      ∧ ∀ a ∈ overdueState.db.approvals, ∃ a' ∈ (run (Sys.perform gatedEnv)
        [.advance [] "timer", .decide "t" "ap" .approved "op" "" "" ""] overdueState).db.approvals,
        a'.request = a.request ∧ (a.status ≠ .pending → a' = a) :=
  ⟨by decide +kernel, approvals_settle reachable_overdueState _⟩

end StormRelay
