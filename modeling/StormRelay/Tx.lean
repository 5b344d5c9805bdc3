/-
Transactions on one connection.

`Tx σ α` is a transaction body over a database state `σ`: it runs on a `Conn`,
which carries the state and whether a result set is currently open on it.  A
connection may be *exclusive*: it then refuses every statement sent while a
result set is neither closed nor exhausted (`connBusy`).

* `Relates`, `Keeps` — what a body does to the database, and what it leaves as
  it is.
-/
import Mathlib.Data.Nat.Notation
import Mathlib.Tactic.Common

/-- Why a transaction failed. -/
inductive TxError where
  | connBusy
  | noRows
  | failed (message : String)
deriving DecidableEq, Repr

/-- A connection: its database state, and whether a result set is open. -/
structure Conn (σ : Type) where
  exclusive : Bool
  reading : Bool
  db : σ

def Conn.blocked {σ : Type} (c : Conn σ) : Bool :=
  c.exclusive && c.reading

/-- A transaction body over the state `σ`. -/
def Tx (σ α : Type) : Type :=
  Conn σ → Except TxError (α × Conn σ)

namespace Tx

variable {σ α β : Type}

instance : Monad (Tx σ) where
  pure a := fun c => .ok (a, c)
  bind m k := fun c =>
    match m c with
    | .ok (a, c') => k a c'
    | .error e => .error e

/-- The body gives up with an error of its own. -/
def fail (message : String) : Tx σ α :=
  fun _ => .error (.failed message)

def statement (f : σ → Except String (α × σ)) : Tx σ α := fun c =>
  if c.blocked then .error .connBusy
  else match f c.db with
    | .ok (a, db) => .ok (a, { c with db := db })
    | .error message => .error (.failed message)

/-- `Exec` of a statement that cannot violate a constraint; returns the number
of rows affected. -/
def exec (f : σ → ℕ × σ) : Tx σ ℕ :=
  statement fun db => .ok (f db)

/-- `Exec` of an `INSERT`, which a constraint may reject. -/
def insert (f : σ → Except String σ) : Tx σ Unit :=
  statement fun db => (f db).map fun db' => ((), db')

/-- `QueryRow(…).Scan(…)`: the result set is read and closed at once. -/
def queryRow (q : σ → Option α) : Tx σ α := fun c =>
  if c.blocked then .error .connBusy
  else match q c.db with
    | some a => .ok (a, c)
    | none => .error .noRows

/-- `QueryRow(…).Scan(…)` where the body has a branch for an empty result. -/
def queryMaybe (q : σ → Option α) : Tx σ (Option α) :=
  statement fun db => .ok (q db, db)

/-- `Query`: runs the statement and leaves its result set open. -/
def query (q : σ → List α × σ) : Tx σ (List α) := fun c =>
  if c.blocked then .error .connBusy
  else .ok ((q c.db).1, { c with db := (q c.db).2, reading := true })

/-- Scanning the rows into a slice until `Next` reports the end, which closes
the result set. -/
def scanAll (rows : List α) : Tx σ (List α) := fun c =>
  .ok (rows, { c with reading := false })

/-- `rows.Close()`. -/
def close : Tx σ Unit := fun c =>
  .ok ((), { c with reading := false })

def each : List α → (α → Tx σ Unit) → Tx σ Unit
  | [], _ => pure ()
  | a :: as, body => do
    body a
    each as body

/-- `for rows.Next() { body }`: the result set stays open during every pass. -/
def eachRow (rows : List α) (body : α → Tx σ Unit) : Tx σ Unit := do
  each rows body
  close

def fold (body : β → α → Tx σ β) : β → List α → Tx σ β
  | b, [] => pure b
  | b, a :: as => do
    let b' ← body b a
    fold body b' as

/-- `for rows.Next() { body }` with a value carried from pass to pass. -/
def foldRows (rows : List α) (b : β) (body : β → α → Tx σ β) : Tx σ β := do
  let b' ← fold body b rows
  close
  pure b'

def commit (exclusive : Bool) (m : Tx σ α) (db : σ) : Except TxError α × σ :=
  match m ⟨exclusive, false, db⟩ with
  | .ok (a, c) => if c.blocked then (.error .connBusy, db) else (.ok a, c.db)
  | .error e => (.error e, db)

/-- The state after the transaction, whether it committed or not. -/
def after (exclusive : Bool) (m : Tx σ α) (db : σ) : σ :=
  (commit exclusive m db).2

/-- The transaction committed. -/
def succeeds (exclusive : Bool) (m : Tx σ α) (db : σ) : Bool :=
  (commit exclusive m db).1.isOk

/-- The transaction fails because a statement met an open result set. -/
def FailsBusy (exclusive : Bool) (m : Tx σ α) (db : σ) : Prop :=
  (commit exclusive m db).1 = .error .connBusy

def answersBusy : Except TxError α → Bool
  | .error .connBusy => true
  | _ => false

variable {x : Bool} {m : Tx σ α} {db db' : σ}

theorem ok_inj {ε : Type} {a a' : α} {b b' : β}
    (h : (Except.ok (a, b) : Except ε (α × β)) = .ok (a', b')) : a = a' ∧ b = b' :=
  Prod.mk.inj (Except.ok.inj h)

theorem failsBusy_iff :
    FailsBusy x m db ↔ answersBusy (commit x m db).1 = true := by
  rw [FailsBusy]
  rcases (commit x m db).1 with (_ | _ | _) | _ <;> simp [answersBusy]

instance (x : Bool) (m : Tx σ α) (db : σ) : Decidable (FailsBusy x m db) :=
  decidable_of_iff _ failsBusy_iff.symm

/-! ### Running a body -/

@[simp] theorem blocked_idle (x : Bool) (db : σ) : Conn.blocked ⟨x, false, db⟩ = false := by
  simp [Conn.blocked]

theorem pure_apply (a : α) (c : Conn σ) : (pure a : Tx σ α) c = .ok (a, c) := rfl

theorem bind_apply (m : Tx σ α) (k : α → Tx σ β) (c : Conn σ) :
    (m >>= k) c = match m c with
      | .ok (a, c') => k a c'
      | .error e => .error e := rfl

variable {k : α → Tx σ β} {c c' : Conn σ} {a : α}

theorem bind_ok (h : m c = .ok (a, c')) : (m >>= k) c = k a c' := by
  rw [bind_apply, h]

variable {e : TxError}

theorem bind_error (h : m c = .error e) : (m >>= k) c = .error e := by
  rw [bind_apply, h]

theorem exec_apply {f : σ → ℕ × σ} (h : c.blocked = false) :
    exec f c = .ok ((f c.db).1, { c with db := (f c.db).2 }) := by
  simp [exec, statement, h]

theorem exec_idle (f : σ → ℕ × σ) (x : Bool) (db : σ) :
    exec f ⟨x, false, db⟩ = .ok ((f db).1, ⟨x, false, (f db).2⟩) :=
  exec_apply (blocked_idle x db)

variable {f : σ → Except String σ}

theorem insert_ok (h : f db = .ok db') :
    insert f ⟨x, false, db⟩ = .ok ((), ⟨x, false, db'⟩) := by
  simp [insert, statement, h, Except.map]

variable {message : String}

theorem insert_error (h : f db = .error message) :
    insert f ⟨x, false, db⟩ = .error (.failed message) := by
  simp [insert, statement, h, Except.map]

variable {q : σ → Option α}

theorem queryRow_some (h : q db = some a) :
    queryRow q ⟨x, false, db⟩ = .ok (a, ⟨x, false, db⟩) := by
  simp [queryRow, h]

theorem queryRow_none (h : q db = none) :
    queryRow q ⟨x, false, db⟩ = .error .noRows := by
  simp [queryRow, h]

theorem query_idle (q : σ → List α × σ) (x : Bool) (db : σ) :
    query q ⟨x, false, db⟩ = .ok ((q db).1, ⟨x, true, (q db).2⟩) := by
  simp [query]

/-! The equations that execute a body statement by statement on an idle
connection. -/

@[simp] theorem run_pure (a : α) (k : α → Tx σ β) (c : Conn σ) : (pure a >>= k) c = k a c := rfl

@[simp] theorem run_bind {γ : Type} (m : Tx σ α) (f : α → Tx σ β) (k : β → Tx σ γ) (c : Conn σ) :
    ((m >>= f) >>= k) c = (m >>= fun a => f a >>= k) c := by
  rw [bind_apply, bind_apply, bind_apply]
  rcases m c with e | ⟨a, c'⟩ <;> rfl

theorem bind_bind {γ : Type} (m : Tx σ α) (f : α → Tx σ β) (k : β → Tx σ γ) :
    (m >>= f) >>= k = m >>= fun a => f a >>= k :=
  funext (run_bind m f k)

theorem bind_pure_self (m : Tx σ α) : (m >>= fun a => pure a) = m := by
  funext c
  rw [bind_apply]
  rcases m c with e | ⟨a, c'⟩ <;> rfl

@[simp] theorem run_exec (f : σ → ℕ × σ) (k : ℕ → Tx σ β) (x : Bool) (db : σ) :
    (exec f >>= k) ⟨x, false, db⟩ = k (f db).1 ⟨x, false, (f db).2⟩ :=
  bind_ok (exec_idle f x db)

@[simp] theorem run_query (q : σ → List α × σ) (k : List α → Tx σ β) (x : Bool) (db : σ) :
    (query q >>= k) ⟨x, false, db⟩ = k (q db).1 ⟨x, true, (q db).2⟩ :=
  bind_ok (query_idle q x db)

@[simp] theorem run_scanAll (rows : List α) (k : List α → Tx σ β) (x r : Bool) (db : σ) :
    (scanAll rows >>= k) ⟨x, r, db⟩ = k rows ⟨x, false, db⟩ := rfl

@[simp] theorem run_close (k : Unit → Tx σ β) (x r : Bool) (db : σ) :
    (close >>= k) ⟨x, r, db⟩ = k () ⟨x, false, db⟩ := rfl

theorem run_queryRow_some (h : q db = some a) :
    (queryRow q >>= k) ⟨x, false, db⟩ = k a ⟨x, false, db⟩ :=
  bind_ok (queryRow_some h)

theorem run_queryRow_none (h : q db = none) : (queryRow q >>= k) ⟨x, false, db⟩ = .error .noRows :=
  bind_error (queryRow_none h)

@[simp] theorem run_queryMaybe (q : σ → Option α) (k : Option α → Tx σ β) (x : Bool) (db : σ) :
    (queryMaybe q >>= k) ⟨x, false, db⟩ = k (q db) ⟨x, false, db⟩ :=
  bind_ok (by simp [queryMaybe, statement])

theorem run_insert_ok {k : Unit → Tx σ β} (h : f db = .ok db') :
    (insert f >>= k) ⟨x, false, db⟩ = k () ⟨x, false, db'⟩ :=
  bind_ok (insert_ok h)

theorem run_insert_error {k : Unit → Tx σ β} (h : f db = .error message) :
    (insert f >>= k) ⟨x, false, db⟩ = .error (.failed message) :=
  bind_error (insert_error h)

theorem run_statement_ok {f : σ → Except String (α × σ)} (h : f db = .ok (a, db')) :
    (statement f >>= k) ⟨x, false, db⟩ = k a ⟨x, false, db'⟩ :=
  bind_ok (by simp [statement, h])

theorem run_statement_error {f : σ → Except String (α × σ)} (h : f db = .error message) :
    (statement f >>= k) ⟨x, false, db⟩ = .error (.failed message) :=
  bind_error (by simp [statement, h])

theorem run_ok {b : β} (h : (m >>= k) c = .ok (b, c')) :
    ∃ a c₁, m c = .ok (a, c₁) ∧ k a c₁ = .ok (b, c') := by
  rw [bind_apply] at h
  rcases hm : m c with e | ⟨a, c₁⟩
  · rw [hm] at h
    cases h
  · rw [hm] at h
    exact ⟨a, c₁, rfl, h⟩

theorem run_failed (h : (m >>= k) c = .error e) :
    m c = .error e ∨ ∃ a c₁, m c = .ok (a, c₁) ∧ k a c₁ = .error e := by
  rw [bind_apply] at h
  rcases hm : m c with e' | ⟨a, c₁⟩
  · rw [hm] at h
    exact .inl (congrArg Except.error (Except.error.inj h))
  · rw [hm] at h
    exact .inr ⟨a, c₁, rfl, h⟩

theorem statement_failed {f : σ → Except String (α × σ)}
    (h : statement f c = .error (.failed message)) : f c.db = .error message := by
  rw [statement] at h
  split at h
  · cases h
  rcases hf : f c.db with message' | ⟨a, db⟩
  · rw [hf] at h
    rw [TxError.failed.inj (Except.error.inj h)]
  · rw [hf] at h
    cases h

/-! What a successful statement says about the state it ran in. -/

theorem queryMaybe_inv {found : Option α} (h : queryMaybe q c = .ok (found, c')) :
    found = q c.db ∧ c' = c := by
  rw [queryMaybe, statement] at h
  split at h
  · cases h
  · obtain ⟨rfl, rfl⟩ := ok_inj h
    exact ⟨rfl, rfl⟩

theorem queryRow_inv (h : queryRow q ⟨x, false, db⟩ = .ok (a, c)) :
    q db = some a ∧ c = ⟨x, false, db⟩ := by
  rcases hq : q db with _ | b
  · rw [queryRow_none hq] at h
    cases h
  · rw [queryRow_some hq] at h
    obtain ⟨rfl, rfl⟩ := ok_inj h
    exact ⟨rfl, rfl⟩

theorem insert_inv {u : Unit} (h : insert f ⟨x, false, db⟩ = .ok (u, c)) :
    ∃ db', f db = .ok db' ∧ c = ⟨x, false, db'⟩ := by
  rcases hf : f db with message | db'
  · rw [insert_error hf] at h
    cases h
  · rw [insert_ok hf] at h
    exact ⟨db', rfl, (ok_inj h).2.symm⟩

theorem statement_inv {f : σ → Except String (α × σ)}
    (h : statement f ⟨x, false, db⟩ = .ok (a, c)) :
    ∃ db', f db = .ok (a, db') ∧ c = ⟨x, false, db'⟩ := by
  rcases hf : f db with message | ⟨b, db'⟩
  · simp [statement, hf] at h
  simp only [statement, blocked_idle, hf, Bool.false_eq_true, if_false, Except.ok.injEq,
    Prod.mk.injEq] at h
  obtain ⟨rfl, rfl⟩ := h
  exact ⟨db', rfl, rfl⟩

variable {body : α → Tx σ Unit} {as : List α}

/-- A loop whose passes all succeed is a fold over the state; `P` is what the
passes need and keep. -/
theorem each_eq_foldl_of {g : σ → α → σ} {r : Bool} {P : σ → Prop}
    (h : ∀ a ∈ as, ∀ db, P db → body a ⟨x, r, db⟩ = .ok ((), ⟨x, r, g db a⟩) ∧ P (g db a))
    (hP : P db) :
    each as body ⟨x, r, db⟩ = .ok ((), ⟨x, r, as.foldl g db⟩) := by
  induction as generalizing db with
  | nil => rfl
  | cons a as ih =>
    obtain ⟨hbody, hnext⟩ := h a List.mem_cons_self db hP
    rw [each, bind_ok hbody, List.foldl_cons]
    exact ih (fun a' ha' => h a' (List.mem_cons_of_mem a ha')) hnext

theorem each_eq_foldl {g : σ → α → σ} {r : Bool}
    (h : ∀ a db, body a ⟨x, r, db⟩ = .ok ((), ⟨x, r, g db a⟩)) (as : List α) (db : σ) :
    each as body ⟨x, r, db⟩ = .ok ((), ⟨x, r, as.foldl g db⟩) :=
  each_eq_foldl_of (P := fun _ => True) (fun a _ db _ => ⟨h a db, trivial⟩) trivial

/-- What every pass of a loop keeps, the loop keeps. -/
theorem fold_inv {body : β → α → Tx σ β} {P : β → Prop}
    (h : ∀ a ∈ as, ∀ b b' c c', P b → body b a c = .ok (b', c') → P b') {b b' : β} (hb : P b)
    (hfold : fold body b as c = .ok (b', c')) : P b' := by
  induction as generalizing b c with
  | nil => exact (ok_inj hfold).1 ▸ hb
  | cons a as ih =>
    rw [fold] at hfold
    obtain ⟨b₁, c₁, hpass, hrest⟩ := run_ok hfold
    exact ih (fun a' ha' => h a' (List.mem_cons_of_mem a ha'))
      (h a List.mem_cons_self b b₁ c c₁ hb hpass) hrest

theorem foldRows_inv {body : β → α → Tx σ β} {P : β → Prop} {rows : List α}
    (h : ∀ a ∈ rows, ∀ b b' c c', P b → body b a c = .ok (b', c') → P b') {b b' : β} (hb : P b)
    (hfold : foldRows rows b body c = .ok (b', c')) : P b' := by
  rw [foldRows] at hfold
  obtain ⟨b₁, c₁, hpasses, hrest⟩ := run_ok hfold
  obtain ⟨rfl, -⟩ := ok_inj hrest
  exact fold_inv h hb hpasses

theorem each_error (h : body a c = .error e) : each (a :: as) body c = .error e := by
  rw [each, bind_error h]

theorem commit_ok (h : m ⟨x, false, db⟩ = .ok (a, ⟨x, false, db'⟩)) :
    commit x m db = (.ok a, db') := by
  simp [commit, h]

theorem commit_error (h : m ⟨x, false, db⟩ = .error e) : commit x m db = (.error e, db) := by
  simp [commit, h]

theorem after_ok (h : m ⟨x, false, db⟩ = .ok (a, ⟨x, false, db'⟩)) : after x m db = db' := by
  rw [after, commit_ok h]

theorem after_error (h : m ⟨x, false, db⟩ = .error e) : after x m db = db := by
  rw [after, commit_error h]

/-- A transaction fails and changes nothing, or runs to its end and commits. -/
theorem commit_cases (m : Tx σ α) (x : Bool) (db : σ) :
    (∃ e, commit x m db = (.error e, db))
      ∨ ∃ a c, m ⟨x, false, db⟩ = .ok (a, c) ∧ commit x m db = (.ok a, c.db) := by
  rcases hm : m ⟨x, false, db⟩ with e | ⟨a, c⟩
  · exact .inl ⟨e, commit_error hm⟩
  · by_cases hb : c.blocked = true
    · exact .inl ⟨.connBusy, by simp [commit, hm, hb]⟩
    · exact .inr ⟨a, c, rfl, by simp [commit, hm, hb]⟩

/-- A transaction that changed the state ran to its end. -/
theorem after_cases (m : Tx σ α) (x : Bool) (db : σ) :
    after x m db = db ∨ ∃ a c, m ⟨x, false, db⟩ = .ok (a, c) ∧ after x m db = c.db := by
  rw [after]
  rcases commit_cases m x db with ⟨e, h⟩ | ⟨a, c, hm, h⟩
  · exact .inl (by rw [h])
  · exact .inr ⟨a, c, hm, by rw [h]⟩

/-- The state that a run from `db` leaves behind. -/
def settled (db : σ) : Except TxError (α × Conn σ) → σ
  | .ok (_, c) => if c.blocked then db else c.db
  | .error _ => db

theorem after_eq_settled : after x m db = settled db (m ⟨x, false, db⟩) := by
  rw [after, commit]
  rcases m ⟨x, false, db⟩ with e | ⟨a, c⟩
  · rfl
  · simp only [settled]
    split <;> rfl

theorem settled_ok : settled db (.ok (a, ⟨x, false, db'⟩)) = db' := by
  simp [settled]

theorem commit_ok_inv (h : (commit x m db).1 = .ok a) :
    ∃ c, m ⟨x, false, db⟩ = .ok (a, c) ∧ (commit x m db).2 = c.db := by
  rcases commit_cases m x db with ⟨e, hcommit⟩ | ⟨a', c, hrun, hcommit⟩
  · rw [hcommit] at h
    cases h
  · rw [hcommit] at h ⊢
    obtain rfl := Except.ok.inj h
    exact ⟨c, hrun, rfl⟩

theorem commit_error_inv (h : (commit x m db).1 = .error e) : (commit x m db).2 = db := by
  rcases commit_cases m x db with ⟨e', hcommit⟩ | ⟨a, c, -, hcommit⟩
  · rw [hcommit]
  · rw [hcommit] at h
    cases h

theorem succeeds_ok (h : m ⟨x, false, db⟩ = .ok (a, ⟨x, false, db'⟩)) : succeeds x m db = true := by
  rw [succeeds, commit_ok h]
  rfl

theorem succeeds_inv (h : succeeds x m db = true) :
    ∃ a c, m ⟨x, false, db⟩ = .ok (a, c) ∧ after x m db = c.db := by
  rw [succeeds] at h
  rw [after]
  rcases commit_cases m x db with ⟨e, hcommit⟩ | ⟨a, c, hm, hcommit⟩
  · rw [hcommit] at h
    cases h
  · exact ⟨a, c, hm, by rw [hcommit]⟩

theorem after_of_not_succeeds (h : succeeds x m db = false) : after x m db = db := by
  rw [succeeds] at h
  rw [after]
  rcases commit_cases m x db with ⟨e, hcommit⟩ | ⟨a, c, -, hcommit⟩
  · rw [hcommit]
  · rw [hcommit] at h
    cases h

/-! ### Bodies that never meet a busy connection

The lemmas are tagged for `grind`, which proves a body quiet by following its
structure. -/

/-- Started on the connection `c`, `m` does not find it busy, and leaves it idle
when it succeeds. -/
def QuietAt (m : Tx σ α) (c : Conn σ) : Prop :=
  match m c with
  | .ok (_, c') => c'.reading = false
  | .error e => e ≠ .connBusy

/-- Started on an idle connection, `m` never finds it busy, and leaves it idle
when it succeeds. -/
def Quiet (m : Tx σ α) : Prop :=
  ∀ c : Conn σ, c.reading = false → QuietAt m c

theorem quietAt_error (h : m c = .error e) (he : e ≠ .connBusy) : QuietAt m c := by
  rw [QuietAt, h]
  exact he

theorem quietAt_of_eq {m' : Tx σ α} (h : m c = m' c') (hq : QuietAt m' c') :
    QuietAt m c := by
  rw [QuietAt, h]
  exact hq

theorem quietAt_bind (hm : QuietAt m c)
    (hk : ∀ a c', m c = .ok (a, c') → c'.reading = false → QuietAt (k a) c') :
    QuietAt (m >>= k) c := by
  rw [QuietAt] at hm
  rcases hmc : m c with e | ⟨a, c'⟩
  · rw [hmc] at hm
    exact quietAt_error (bind_error hmc) hm
  · rw [hmc] at hm
    rw [QuietAt, bind_ok hmc]
    exact hk a c' hmc hm

@[grind ←] theorem quiet_pure (a : α) : Quiet (pure a : Tx σ α) :=
  fun _ hc => hc

@[grind ←] theorem quiet_fail (message : String) : Quiet (fail message : Tx σ α) :=
  fun _ _ => quietAt_error rfl nofun

@[grind ←] theorem quiet_statement (f : σ → Except String (α × σ)) : Quiet (statement f) := by
  intro c hc
  have hb : c.blocked = false := by simp [Conn.blocked, hc]
  rw [QuietAt, statement, if_neg (by simp [hb])]
  rcases f c.db with message | ⟨a, db⟩
  · simp
  · exact hc

@[grind ←] theorem quiet_exec (f : σ → ℕ × σ) : Quiet (exec f) :=
  quiet_statement _

@[grind ←] theorem quiet_insert (f : σ → Except String σ) : Quiet (insert f) :=
  quiet_statement _

@[grind ←] theorem quiet_queryMaybe (q : σ → Option α) : Quiet (queryMaybe q) :=
  quiet_statement _

@[grind ←] theorem quiet_queryRow (q : σ → Option α) : Quiet (queryRow q : Tx σ α) := by
  intro c hc
  have hb : c.blocked = false := by simp [Conn.blocked, hc]
  rw [QuietAt, queryRow, if_neg (by simp [hb])]
  rcases q c.db with _ | a
  · simp
  · exact hc

@[grind ←] theorem quiet_close : Quiet (close : Tx σ Unit) :=
  fun _ _ => rfl

@[grind ←] theorem quiet_bind (hm : Quiet m) (hk : ∀ a, Quiet (k a)) :
    Quiet (m >>= k) :=
  fun c hc => quietAt_bind (hm c hc) fun a c' _ hc' => hk a c' hc'

theorem quiet_query_scanAll (q : σ → List α × σ) {k : List α → Tx σ β}
    (hk : ∀ rows, Quiet (k rows)) : Quiet (query q >>= fun rows => scanAll rows >>= k) := by
  intro c hc
  have hb : c.blocked = false := by simp [Conn.blocked, hc]
  rw [QuietAt, bind_apply, query, if_neg (by simp [hb])]
  exact hk _ _ rfl

theorem quiet_query_rows (q : σ → List α × σ) :
    Quiet (query q >>= fun rows => scanAll rows) :=
  quiet_query_scanAll q fun rows => quiet_pure rows

@[grind ←] theorem quiet_each (h : ∀ a, Quiet (body a)) (as : List α) :
    Quiet (each as body) := by
  induction as with
  | nil => exact quiet_pure ()
  | cons a as ih => exact quiet_bind (h a) fun _ => ih

@[grind ←] theorem quiet_fold {body : β → α → Tx σ β} (h : ∀ b a, Quiet (body b a)) (b : β)
    (as : List α) : Quiet (fold body b as) := by
  induction as generalizing b with
  | nil => exact quiet_pure b
  | cons a as ih => exact quiet_bind (h b a) fun b' => ih b'

theorem quiet_ite {p : Prop} [Decidable p] {n : Tx σ α} (hm : Quiet m) (hn : Quiet n) :
    Quiet (if p then m else n) := by
  split
  · exact hm
  · exact hn

/-- **A quiet body commits or fails for a reason of its own.** -/
theorem QuietAt.not_failsBusy (h : QuietAt m ⟨x, false, db⟩) :
    ¬ FailsBusy x m db := by
  rw [QuietAt] at h
  rw [FailsBusy, commit]
  rcases hm : m ⟨x, false, db⟩ with e | ⟨a, c⟩
  · rw [hm] at h
    simpa using h
  · rw [hm] at h
    have hb : c.blocked = false := by simp [Conn.blocked, show c.reading = false from h]
    simp [hb]

theorem Quiet.not_failsBusy (h : Quiet m) (x : Bool) (db : σ) :
    ¬ FailsBusy x m db :=
  (h ⟨x, false, db⟩ rfl).not_failsBusy

theorem failsBusy_of_error (h : m ⟨x, false, db⟩ = .error .connBusy) : FailsBusy x m db := by
  rw [FailsBusy, commit_error h]

/-! ### What a body does to the database

`R` relates the database before a body to the one after it.  A frame is the
special case in which a part `f` of the database is the same. -/

/-- When `m` succeeds, `R` relates the databases before and after it. -/
def Relates (R : σ → σ → Prop) (m : Tx σ α) : Prop :=
  ∀ c a c', m c = .ok (a, c') → R c.db c'.db

section Relations

variable {R : σ → σ → Prop}

theorem relates_statement {g : σ → Except String (α × σ)}
    (hg : ∀ db a db', g db = .ok (a, db') → R db db') : Relates R (statement g) := by
  intro c a c' h
  rw [statement] at h
  split at h
  · cases h
  rcases hdb : g c.db with message | ⟨a', db'⟩
  · rw [hdb] at h
    cases h
  · rw [hdb] at h
    obtain ⟨-, rfl⟩ := ok_inj h
    exact hg _ _ _ hdb

theorem relates_exec {g : σ → ℕ × σ} (hg : ∀ db, R db (g db).2) : Relates R (exec g) :=
  relates_statement fun db a db' h => by
    obtain rfl := congrArg Prod.snd (Except.ok.inj h)
    exact hg db

theorem relates_insert {g : σ → Except String σ} (hg : ∀ db db', g db = .ok db' → R db db') :
    Relates R (insert g) :=
  relates_statement fun db a db' h => by
    rcases hdb : g db with message | db₁
    · rw [hdb] at h
      cases h
    · rw [hdb] at h
      obtain rfl := congrArg Prod.snd (Except.ok.inj h)
      exact hg db _ hdb

/-- A query that writes what it returns, as `UPDATE … RETURNING` does. -/
theorem relates_queryUpdate {g : σ → List α × σ} (hg : ∀ db, R db (g db).2) :
    Relates R (query g) := by
  intro c a c' h
  rw [query] at h
  split at h
  · cases h
  · rw [← (ok_inj h).2]
    exact hg c.db

@[grind ←] theorem relates_fail (message : String) : Relates R (fail message : Tx σ α) :=
  nofun

section Refl

variable [Std.Refl R]

@[grind ←] theorem relates_pure (a : α) : Relates R (pure a : Tx σ α) := by
  intro c b c' h
  obtain ⟨-, rfl⟩ := ok_inj h
  exact Std.Refl.refl _

@[grind ←] theorem relates_queryMaybe (q : σ → Option α) : Relates R (queryMaybe q) :=
  relates_statement fun db a db' h => by
    rw [(ok_inj h).2]
    exact Std.Refl.refl _

@[grind ←] theorem relates_queryRow (q : σ → Option α) : Relates R (queryRow q) := by
  intro c a c' h
  rw [queryRow] at h
  split at h
  · cases h
  split at h
  · rw [← (ok_inj h).2]
    exact Std.Refl.refl _
  · cases h

theorem relates_query (q : σ → List α) : Relates R (query fun db => (q db, db)) :=
  relates_queryUpdate fun _ => Std.Refl.refl _

@[grind ←] theorem relates_scanAll (rows : List α) : Relates R (scanAll rows) := by
  intro c a c' h
  rw [← (ok_inj h).2]
  exact Std.Refl.refl _

@[grind ←] theorem relates_close : Relates R (close : Tx σ Unit) := by
  intro c a c' h
  rw [← (ok_inj h).2]
  exact Std.Refl.refl _

/-- **A body relates the states around it whether it commits or not.** -/
theorem Relates.after {m : Tx σ α} (h : Relates R m) (x : Bool) (db : σ) :
    R db (Tx.after x m db) := by
  rcases after_cases m x db with hsame | ⟨a, c, hm, hafter⟩
  · rw [hsame]
    exact Std.Refl.refl _
  · rw [hafter]
    exact h _ a c hm

end Refl

section Trans

variable [IsTrans σ R]

@[grind ←] theorem relates_bind {m : Tx σ α} {k : α → Tx σ β} (hm : Relates R m)
    (hk : ∀ a, Relates R (k a)) : Relates R (m >>= k) := by
  intro c b c' h
  obtain ⟨a, c₁, h₁, h₂⟩ := run_ok h
  exact IsTrans.trans _ _ _ (hm c a c₁ h₁) (hk a c₁ b c' h₂)

variable [Std.Refl R]

@[grind ←] theorem relates_fold {body : β → α → Tx σ β} (h : ∀ b a, Relates R (body b a)) (b : β)
    (as : List α) : Relates R (fold body b as) := by
  induction as generalizing b with
  | nil => exact relates_pure b
  | cons a as ih => exact relates_bind (h b a) fun b' => ih b'

@[grind ←] theorem relates_foldRows {body : β → α → Tx σ β} (h : ∀ b a, Relates R (body b a))
    (b : β) (rows : List α) : Relates R (foldRows rows b body) :=
  relates_bind (relates_fold h b rows) fun b' => relates_bind relates_close fun _ => relates_pure b'

theorem relates_each {body : α → Tx σ Unit} (h : ∀ a, Relates R (body a)) (as : List α) :
    Relates R (each as body) := by
  induction as with
  | nil => exact relates_pure ()
  | cons a as ih => exact relates_bind (h a) fun _ => ih

end Trans

end Relations

/-! ### Frames -/

/-- When `m` succeeds, `f` of the database is what it was. -/
def Keeps {τ : Type} (f : σ → τ) (m : Tx σ α) : Prop :=
  ∀ c a c', m c = .ok (a, c') → f c'.db = f c.db

section Frames

variable {τ : Type} {f : σ → τ}

instance : Std.Refl fun db db' : σ => f db' = f db :=
  ⟨fun _ => rfl⟩

instance : IsTrans σ fun db db' => f db' = f db :=
  ⟨fun _ _ _ h h' => h'.trans h⟩

@[grind ←] theorem keeps_pure (a : α) : Keeps f (pure a : Tx σ α) :=
  relates_pure (R := fun db db' => f db' = f db) a

@[grind ←] theorem keeps_fail (message : String) : Keeps f (fail message : Tx σ α) :=
  nofun

variable {m : Tx σ α}

@[grind ←] theorem keeps_bind {k : α → Tx σ β} (hm : Keeps f m) (hk : ∀ a, Keeps f (k a)) :
    Keeps f (m >>= k) :=
  relates_bind (R := fun db db' => f db' = f db) hm hk

theorem keeps_statement {g : σ → Except String (α × σ)}
    (hg : ∀ db a db', g db = .ok (a, db') → f db' = f db) : Keeps f (statement g) :=
  relates_statement (R := fun db db' => f db' = f db) hg

theorem keeps_exec {g : σ → ℕ × σ} (hg : ∀ db, f (g db).2 = f db) : Keeps f (exec g) :=
  relates_exec (R := fun db db' => f db' = f db) hg

theorem keeps_insert {g : σ → Except String σ} (hg : ∀ db db', g db = .ok db' → f db' = f db) :
    Keeps f (insert g) :=
  relates_insert (R := fun db db' => f db' = f db) hg

@[grind ←] theorem keeps_queryMaybe (q : σ → Option α) : Keeps f (queryMaybe q) :=
  relates_queryMaybe (R := fun db db' => f db' = f db) q

@[grind ←] theorem keeps_queryRow (q : σ → Option α) : Keeps f (queryRow q) :=
  relates_queryRow (R := fun db db' => f db' = f db) q

theorem keeps_query (q : σ → List α) : Keeps f (query fun db => (q db, db)) :=
  relates_query (R := fun db db' => f db' = f db) q

theorem keeps_queryUpdate {g : σ → List α × σ} (hg : ∀ db, f (g db).2 = f db) : Keeps f (query g) :=
  relates_queryUpdate (R := fun db db' => f db' = f db) hg

@[grind ←] theorem keeps_scanAll (rows : List α) : Keeps f (scanAll rows) :=
  relates_scanAll (R := fun db db' => f db' = f db) rows

@[grind ←] theorem keeps_close : Keeps f (close : Tx σ Unit) :=
  relates_close (R := fun db db' => f db' = f db)

@[grind ←] theorem keeps_fold {body : β → α → Tx σ β} (h : ∀ b a, Keeps f (body b a)) (b : β)
    (as : List α) : Keeps f (fold body b as) :=
  relates_fold (R := fun db db' => f db' = f db) h b as

@[grind ←] theorem keeps_foldRows {body : β → α → Tx σ β} (h : ∀ b a, Keeps f (body b a)) (b : β)
    (rows : List α) : Keeps f (foldRows rows b body) :=
  relates_foldRows (R := fun db db' => f db' = f db) h b rows

@[grind ←] theorem keeps_each {body : α → Tx σ Unit} (h : ∀ a, Keeps f (body a)) (as : List α) :
    Keeps f (each as body) :=
  relates_each (R := fun db db' => f db' = f db) h as

@[grind ←] theorem keeps_eachRow {body : α → Tx σ Unit} (h : ∀ a, Keeps f (body a))
    (rows : List α) : Keeps f (eachRow rows body) :=
  keeps_bind (keeps_each h rows) fun _ => keeps_close

/-- A frame decides every relation that only looks at what it keeps. -/
theorem Keeps.relates {R : σ → σ → Prop} (h : Keeps f m) (hR : ∀ db db', f db' = f db → R db db') :
    Relates R m :=
  fun c a c' hm => hR _ _ (h c a c' hm)

/-- **A body keeps its frame whether it commits or not.** -/
theorem Keeps.after (h : Keeps f m) (x : Bool) (db : σ) :
    f (Tx.after x m db) = f db :=
  Relates.after (R := fun db db' => f db' = f db) h x db

end Frames

end Tx
