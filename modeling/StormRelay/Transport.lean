/-
Event transport (`internal/worker/worker.go`, `internal/messaging/nats.go`).

Accepted events are messages on the event subject.  A durable consumer hands a
message to a worker at most `MaxDeliver` times while it is not acknowledged; the
worker processes it, and on failure puts it back or, on the last delivery,
publishes it on the dead-letter subject.  The environment decides when messages
are delivered (again), which database calls fail, whether a publish or an
acknowledgement arrives, and where a worker crashes; any number of handlers may
work on one message.

* `safe_step_iff` — the moves that lose a message: those that end the last handler
  of an unsettled message without a delivery left;
* `transport_safe_iff` — **every message is committed, dead-lettered, in flight or
  deliverable throughout a run exactly when the run takes none of these moves**.
-/
import StormRelay.Process
import StormRelay.Transition

namespace StormRelay

open Transition

/-! ### The worker -/

/-- The configuration of a worker, and the decoding of an envelope by
`encoding/json`. -/
structure Worker where
  platform : EventPlatform
  decode : List UInt8 → Option Events.Event
  dedupeWindow : ℤ
  correlationWindow : ℤ
  publicBaseURL : String
  configuredMaxDeliveries : ℤ

namespace Worker

/-- `Worker.eventMaxDeliveries`. -/
def eventMaxDeliveries (w : Worker) : ℕ :=
  if w.configuredMaxDeliveries < 2 then 5 else w.configuredMaxDeliveries.toNat

/-- The `MaxDeliver` of the consumer that `SubscriptionWithMaxDeliveries`
configures. -/
def maxDeliver (w : Worker) : ℕ :=
  if w.eventMaxDeliveries < 2 then 5 else w.eventMaxDeliveries

theorem two_le_eventMaxDeliveries (w : Worker) : 2 ≤ w.eventMaxDeliveries := by
  rw [eventMaxDeliveries]
  split <;> omega

theorem maxDeliver_eq (w : Worker) : w.maxDeliver = w.eventMaxDeliveries :=
  if_neg (by have := w.two_le_eventMaxDeliveries; omega)

theorem maxDeliver_pos (w : Worker) : 0 < w.maxDeliver := by
  rw [maxDeliver_eq]
  have := w.two_le_eventMaxDeliveries
  omega

/-- The options `handleMessage` passes to `ProcessEvent`. -/
def options (w : Worker) : ProcessOptions :=
  { dedupeWindow := w.dedupeWindow, correlationWindow := w.correlationWindow
    actorID := "stormrelay-worker", publicBaseURL := w.publicBaseURL }

end Worker

/-- What the database does with one call: it answers, it is down, or it runs
the transaction and the answer is lost. -/
inductive Database where
  | up
  | down (reason : String)
  | unanswered (reason : String)

def txErrorText : TxError → String
  | .connBusy => "conn busy"
  | .noRows => "no rows in result set"
  | .failed message => message

/-- What `handleMessage` has learned after `ProcessEvent`: the error it reports,
whether the transaction committed, and the database. -/
structure Handled where
  error : Option String
  committed : Bool
  db : EventDB

/-- `handleMessage` up to the acknowledgement. -/
def handleMessage (w : Worker) (now : Time) (gen : Generated) (database : Database)
    (data : List UInt8) (db : EventDB) : Handled :=
  match w.decode data with
  | none => ⟨some "decode event", false, db⟩
  | some e =>
    match database with
    | .down reason => ⟨some reason, false, db⟩
    | .up =>
      match Tx.commit true (processEvent w.platform now gen e w.options) db with
      | (.ok _, db') => ⟨none, true, db'⟩
      | (.error err, db') => ⟨some (txErrorText err), false, db'⟩
    | .unanswered reason =>
      match Tx.commit true (processEvent w.platform now gen e w.options) db with
      | (.ok _, db') => ⟨some reason, true, db'⟩
      | (.error err, db') => ⟨some (txErrorText err), false, db'⟩

theorem handleMessage_committed {w : Worker} {now : Time} {gen : Generated} {database : Database}
    {data : List UInt8} {db : EventDB}
    (h : (handleMessage w now gen database data db).error = none) :
    (handleMessage w now gen database data db).committed = true := by
  grind [handleMessage]

/-! ### Messages and handlers -/

/-- A message of the event subject; `committed` records that some `ProcessEvent`
for it has committed. -/
structure Message where
  data : List UInt8
  deliveries : ℕ
  acked : Bool
  committed : Bool

/-- Where a handler is: before `ProcessEvent`, in `failMessage`, or about to
acknowledge. -/
inductive HandlerStage where
  | processing
  | failing (reason : String)
  | acking
deriving DecidableEq, Repr

/-- A running `handleMessage`; `delivery` is the `NumDelivered` of its message's
metadata. -/
structure Handler where
  message : ℕ
  delivery : ℕ
  stage : HandlerStage

structure DeadLetter where
  message : ℕ
  data : List UInt8
  failure : List UInt8
  deliveries : ℕ

structure Transport where
  messages : List Message
  handlers : List Handler
  dlq : List DeadLetter
  db : EventDB

/-- The outcome of `PublishDLQ`: stored, stored with the answer lost, or not
stored. -/
inductive Published where
  | stored
  | unanswered
  | failed
deriving DecidableEq, Repr

/-- One atomic call; handlers are named by their position. -/
inductive Move where
  | publish (data : List UInt8)
  | deliver (i : ℕ)
  | process (n : ℕ) (now : Time) (gen : Generated) (database : Database)
  | fail (n : ℕ) (published : Published)
  | ack (n : ℕ) (reached : Bool)
  | crash (n : ℕ)

namespace Transport

variable (w : Worker)

/-- The handler returns: after a `Nak`, or because its worker is gone. -/
def endHandler (n : ℕ) (s : Transport) : Transport :=
  { s with handlers := s.handlers.eraseIdx n }

/-- The consumer hands out message `i` once more. -/
def deliver (i : ℕ) (m : Message) (s : Transport) : Transport :=
  { s with
    messages := s.messages.set i { m with deliveries := m.deliveries + 1 }
    handlers := s.handlers ++ [⟨i, m.deliveries + 1, .processing⟩] }

/-- `PublishDLQ` stores the message with the reason cut to 500 bytes. -/
def bury (h : Handler) (m : Message) (reason : String) (s : Transport) : Transport :=
  { s with dlq := s.dlq ++ [⟨h.message, m.data, (Policy.utf8 reason).take 500, h.delivery⟩] }

/-- The handler has run `ProcessEvent`. -/
def handled (n : ℕ) (h : Handler) (m : Message) (r : Handled) (s : Transport) : Transport :=
  { s with
    messages := s.messages.set h.message { m with committed := m.committed || r.committed }
    handlers := s.handlers.set n { h with stage := r.error.elim .acking .failing }
    db := r.db }

/-- `failMessage`. -/
def failMessage (n : ℕ) (h : Handler) (m : Message) (reason : String) (published : Published)
    (s : Transport) : Transport :=
  if h.delivery ≥ w.eventMaxDeliveries then
    match published with
    | .stored => { s.bury h m reason with handlers := s.handlers.set n { h with stage := .acking } }
    | .unanswered => (s.bury h m reason).endHandler n
    | .failed => s.endHandler n
  else s.endHandler n

def acknowledge (n : ℕ) (h : Handler) (m : Message) (reached : Bool) (s : Transport) : Transport :=
  { s.endHandler n with
    messages := s.messages.set h.message { m with acked := m.acked || reached } }

/-- The effect of a move; one that is not possible has none. -/
def step (move : Move) (s : Transport) : Transport :=
  match move with
  | .publish data => { s with messages := s.messages ++ [⟨data, 0, false, false⟩] }
  | .deliver i =>
    match s.messages[i]? with
    | some m => if m.acked = false ∧ m.deliveries < w.maxDeliver then s.deliver i m else s
    | none => s
  | .crash n => s.endHandler n
  | .process n now gen database =>
    match s.handlers[n]? with
    | some h =>
      match h.stage, s.messages[h.message]? with
      | .processing, some m =>
        s.handled n h m (handleMessage w now gen database m.data s.db)
      | _, _ => s
    | none => s
  | .fail n published =>
    match s.handlers[n]? with
    | some h =>
      match h.stage, s.messages[h.message]? with
      | .failing reason, some m => s.failMessage w n h m reason published
      | _, _ => s
    | none => s
  | .ack n reached =>
    match s.handlers[n]? with
    | some h =>
      match h.stage, s.messages[h.message]? with
      | .acking, some m => s.acknowledge n h m reached
      | _, _ => s
    | none => s

/-- No messages yet, any database. -/
def Init (s : Transport) : Prop :=
  s.messages = [] ∧ s.handlers = [] ∧ s.dlq = []

/-! ### What keeps a message -/

/-- Message `i` has been committed by `ProcessEvent` or is on the dead-letter
subject. -/
def Settled (s : Transport) (i : ℕ) : Prop :=
  (∃ m, s.messages[i]? = some m ∧ m.committed = true) ∨ ∃ d ∈ s.dlq, d.message = i

/-- Some handler works on message `i`. -/
def InFlight (s : Transport) (i : ℕ) : Prop :=
  ∃ h ∈ s.handlers, h.message = i

/-- Message `i` has been delivered fewer than `MaxDeliver` times. -/
def Deliverable (s : Transport) (i : ℕ) : Prop :=
  ∃ m, s.messages[i]? = some m ∧ m.deliveries < w.maxDeliver

/-- No message of the event subject is lost. -/
def Safe (s : Transport) : Prop :=
  ∀ i < s.messages.length, s.Settled i ∨ s.InFlight i ∨ s.Deliverable w i

/-- Handlers work on stored messages, and acknowledge only settled ones. -/
structure Sound (s : Transport) : Prop where
  stored : ∀ h ∈ s.handlers, h.message < s.messages.length
  acking : ∀ h ∈ s.handlers, h.stage = .acking → s.Settled h.message

/-- The handler at `n` is all that is left of its message. -/
structure LastHandler (s : Transport) (n : ℕ) (h : Handler) : Prop where
  at_ : s.handlers[n]? = some h
  only : ∀ k h', k ≠ n → s.handlers[k]? = some h' → h'.message ≠ h.message
  unsettled : ¬ s.Settled h.message
  spent : ¬ s.Deliverable w h.message

/-- The moves that lose a message: the last handler of a message with no
delivery left crashes, or fails and does not get the message onto the
dead-letter subject, be it that the publish fails or that its own delivery was
not the last one. -/
def Abandons (move : Move) (s : Transport) : Prop :=
  match move with
  | .crash n => ∃ h, LastHandler w s n h
  | .fail n published =>
    ∃ h reason, LastHandler w s n h ∧ h.stage = .failing reason
      ∧ (published = .failed ∨ h.delivery < w.maxDeliver)
  | _ => False

/-! ### Steps that lose nothing -/

variable {w} {s s' : Transport} {i n : ℕ} {h : Handler} {m m' : Message}

/-- A state that keeps what is settled, in flight or deliverable stays safe. -/
theorem Safe.mono (hs : s.Safe w) (hlen : s'.messages.length = s.messages.length)
    (hsettled : ∀ i, s.Settled i → s'.Settled i) (hflight : ∀ i, s.InFlight i → s'.InFlight i)
    (hdeliverable : ∀ i, s.Deliverable w i → s'.Deliverable w i ∨ s'.InFlight i) : s'.Safe w := by
  intro i hi
  rcases hs i (hlen ▸ hi) with hi | hi | hi
  · exact .inl (hsettled i hi)
  · exact .inr (.inl (hflight i hi))
  · exact .inr (hdeliverable i hi).symm

theorem settled_set (hmessages : s'.messages = s.messages.set i m')
    (hm : s.messages[i]? = some m) (hcommitted : m.committed = true → m'.committed = true)
    (hdlq : s.dlq ⊆ s'.dlq) (j : ℕ)
    (hj : s.Settled j) : s'.Settled j := by
  rcases hj with ⟨x, hx, hc⟩ | ⟨d, hd, hdj⟩
  · left
    rw [hmessages, List.getElem?_set]
    by_cases hij : i = j
    · subst hij
      rw [hm] at hx
      cases hx
      rw [if_pos rfl, if_pos (List.getElem?_eq_some_iff.mp hm).1]
      exact ⟨m', rfl, hcommitted hc⟩
    · rw [if_neg hij]
      exact ⟨x, hx, hc⟩
  · exact .inr ⟨d, hdlq hd, hdj⟩

theorem deliverable_set (hmessages : s'.messages = s.messages.set i m')
    (hm : s.messages[i]? = some m) (hle : m'.deliveries ≤ m.deliveries) (j : ℕ)
    (hj : s.Deliverable w j) :
    s'.Deliverable w j := by
  obtain ⟨x, hx, hlt⟩ := hj
  rw [Deliverable, hmessages, List.getElem?_set]
  by_cases hij : i = j
  · subst hij
    rw [hm] at hx
    cases hx
    rw [if_pos rfl, if_pos (List.getElem?_eq_some_iff.mp hm).1]
    exact ⟨m', rfl, hle.trans_lt hlt⟩
  · rw [if_neg hij]
    exact ⟨x, hx, hlt⟩

theorem inFlight_set {stage : HandlerStage} (hn : s.handlers[n]? = some h)
    (hhandlers : s'.handlers = s.handlers.set n { h with stage := stage }) (j : ℕ)
    (hj : s.InFlight j) : s'.InFlight j := by
  obtain ⟨x, hx, hxj⟩ := hj
  obtain ⟨k, hk⟩ := List.mem_iff_getElem?.mp hx
  rw [InFlight, hhandlers]
  by_cases hkn : n = k
  · subst hkn
    rw [hn] at hk
    cases hk
    exact ⟨_, List.mem_set (List.getElem?_eq_some_iff.mp hn).1 _, hxj⟩
  · refine ⟨x, List.mem_iff_getElem?.mpr ⟨k, ?_⟩, hxj⟩
    rw [List.getElem?_set_ne hkn]
    exact hk

theorem safe_publish (hs : s.Safe w) (data : List UInt8) :
    ({ s with messages := s.messages ++ [⟨data, 0, false, false⟩] } : Transport).Safe w := by
  intro i hi
  rw [List.length_append, List.length_singleton] at hi
  by_cases hold : i < s.messages.length
  · have hget : (s.messages ++ [(⟨data, 0, false, false⟩ : Message)])[i]? = s.messages[i]? :=
      List.getElem?_append_left hold
    rcases hs i hold with (⟨m, hm, hc⟩ | hdlq) | hflight | ⟨m, hm, hlt⟩
    · exact .inl (.inl ⟨m, hget.trans hm, hc⟩)
    · exact .inl (.inr hdlq)
    · exact .inr (.inl hflight)
    · exact .inr (.inr ⟨m, hget.trans hm, hlt⟩)
  -- The new message has all its deliveries left.
  obtain rfl : i = s.messages.length := by omega
  refine .inr (.inr ⟨⟨data, 0, false, false⟩, ?_, w.maxDeliver_pos⟩)
  rw [List.getElem?_append_right le_rfl, Nat.sub_self]
  rfl

theorem safe_deliver (hs : s.Safe w) (hm : s.messages[i]? = some m) : (s.deliver i m).Safe w := by
  refine hs.mono (List.length_set ..) (settled_set rfl hm (fun hc => hc) fun _ hd => hd) ?_ ?_
  · rintro j ⟨h, hh, hj⟩
    exact ⟨h, List.mem_append_left _ hh, hj⟩
  intro j hj
  by_cases hij : i = j
  · exact .inr ⟨⟨i, m.deliveries + 1, .processing⟩, by simp [deliver], hij⟩
  obtain ⟨x, hx, hlt⟩ := hj
  refine .inl ⟨x, ?_, hlt⟩
  rw [deliver, List.getElem?_set_ne hij]
  exact hx

theorem safe_handled (hs : s.Safe w) (hn : s.handlers[n]? = some h)
    (hm : s.messages[h.message]? = some m) (r : Handled) : (s.handled n h m r).Safe w := by
  refine hs.mono (List.length_set ..) (settled_set rfl hm ?_ fun _ hd => hd) (inFlight_set hn rfl)
    fun j hj => .inl (deliverable_set rfl hm (by simp) j hj)
  intro hc
  simp [hc]

/-! ### Steps that end a handler -/

theorem inFlight_endHandler {j : ℕ} :
    (s.endHandler n).InFlight j ↔ ∃ k h, k ≠ n ∧ s.handlers[k]? = some h ∧ h.message = j := by
  constructor
  · rintro ⟨h, hh, hj⟩
    obtain ⟨k, hk, hget⟩ := List.mem_eraseIdx_iff_getElem?.mp hh
    exact ⟨k, h, hk, hget, hj⟩
  · rintro ⟨k, h, hk, hget, hj⟩
    exact ⟨h, List.mem_eraseIdx_iff_getElem?.mpr ⟨k, hk, hget⟩, hj⟩

/-- **Ending a handler loses a message exactly if the handler was its last
hope.** -/
theorem safe_endHandler_iff (hs : s.Safe w) (hsound : s.Sound) :
    (s.endHandler n).Safe w ↔ ¬ ∃ h, LastHandler w s n h := by
  constructor
  · rintro hsafe ⟨h, hlast⟩
    have hmem : h ∈ s.handlers := List.mem_of_getElem? hlast.at_
    rcases hsafe h.message (hsound.stored h hmem) with hset | hflight | hdel
    · exact hlast.unsettled hset
    · obtain ⟨k, h', hk, hget, hj⟩ := inFlight_endHandler.mp hflight
      exact hlast.only k h' hk hget hj
    · exact hlast.spent hdel
  intro hno i hi
  by_contra hlost
  rw [not_or, not_or] at hlost
  obtain ⟨hset, hflight, hdel⟩ := hlost
  -- Nothing else keeps the message, so the state was safe because of this handler.
  obtain ⟨h, hh, rfl⟩ := ((hs i hi).resolve_left hset).resolve_right hdel
  obtain ⟨k, hk⟩ := List.mem_iff_getElem?.mp hh
  have hkn : k = n := by
    by_contra hne
    exact hflight (inFlight_endHandler.mpr ⟨k, h, hne, hk, rfl⟩)
  subst hkn
  refine hno ⟨h, hk, fun k' h' hne hget hmsg => ?_, hset, hdel⟩
  exact hflight (inFlight_endHandler.mpr ⟨k', h', hne, hget, hmsg⟩)

theorem settled_bury {reason : String} : (s.bury h m reason).Settled h.message :=
  .inr ⟨_, List.mem_append_right _ (List.mem_singleton_self _), rfl⟩

theorem settled_bury_of {reason : String} {j : ℕ} (hj : s.Settled j) :
    (s.bury h m reason).Settled j :=
  hj.imp_right fun ⟨d, hd, hdj⟩ => ⟨d, List.mem_append_left _ hd, hdj⟩

theorem safe_bury (hs : s.Safe w) (reason : String) : (s.bury h m reason).Safe w :=
  hs.mono rfl (fun _ => settled_bury_of) (fun _ hj => hj) fun _ hj => .inl hj

theorem Sound.bury (hsound : s.Sound) (reason : String) : (s.bury h m reason).Sound :=
  ⟨hsound.stored, fun h hh hstage => settled_bury_of (hsound.acking h hh hstage)⟩

theorem safe_acknowledge (hs : s.Safe w) (hsound : s.Sound) (hn : s.handlers[n]? = some h)
    (hm : s.messages[h.message]? = some m) (hstage : h.stage = .acking) (reached : Bool) :
    (s.acknowledge n h m reached).Safe w := by
  have hended : (s.endHandler n).Safe w := by
    rw [safe_endHandler_iff hs hsound]
    rintro ⟨h', hlast⟩
    obtain rfl : h = h' := Option.some.inj (hn.symm.trans hlast.at_)
    exact hlast.unsettled (hsound.acking h (List.mem_of_getElem? hn) hstage)
  exact hended.mono (List.length_set ..) (settled_set rfl hm (fun hc => hc) fun _ hd => hd)
    (fun _ hj => hj) fun j hj => .inl (deliverable_set rfl hm (by simp) j hj)

/-- `failMessage` loses its message exactly if the handler was its last hope and
the message does not reach the dead-letter subject. -/
theorem safe_failMessage_iff (hs : s.Safe w) (hsound : s.Sound) (hn : s.handlers[n]? = some h)
    (reason : String) (published : Published) :
    (s.failMessage w n h m reason published).Safe w
      ↔ ¬ (LastHandler w s n h ∧ (published = .failed ∨ h.delivery < w.maxDeliver)) := by
  have hat : (∃ h', LastHandler w s n h') ↔ LastHandler w s n h := by
    constructor
    · rintro ⟨h', hlast⟩
      obtain rfl : h = h' := Option.some.inj (hn.symm.trans hlast.at_)
      exact hlast
    · exact fun hlast => ⟨h, hlast⟩
  unfold failMessage
  rw [w.maxDeliver_eq]
  by_cases hthreshold : h.delivery ≥ w.eventMaxDeliveries
  · rw [if_pos hthreshold]
    have hnot : ¬ h.delivery < w.eventMaxDeliveries := by omega
    cases published with
    | stored =>
      refine iff_of_true ?_ (by simp [hnot])
      exact (safe_bury hs reason).mono rfl (fun _ hj => hj) (inFlight_set hn rfl)
        fun _ hj => .inl hj
    | unanswered =>
      refine iff_of_true ?_ (by simp [hnot])
      rw [safe_endHandler_iff (safe_bury hs reason) (hsound.bury reason)]
      rintro ⟨h', hlast⟩
      obtain rfl : h = h' := Option.some.inj (hn.symm.trans hlast.at_)
      exact hlast.unsettled settled_bury
    | failed =>
      show (s.endHandler n).Safe w ↔ _
      rw [safe_endHandler_iff hs hsound, hat]
      simp
  · rw [if_neg hthreshold, safe_endHandler_iff hs hsound, hat]
    have hlt : h.delivery < w.eventMaxDeliveries := by omega
    simp [hlt]

/-! ### Soundness of the handlers -/

theorem Sound.of_handlers (hsound : s.Sound) (hlen : s.messages.length ≤ s'.messages.length)
    (hsettled : ∀ i, s.Settled i → s'.Settled i)
    (hhandlers : ∀ h ∈ s'.handlers, h ∈ s.handlers
      ∨ h.message < s'.messages.length ∧ (h.stage = .acking → s'.Settled h.message)) :
    s'.Sound := by
  constructor
  · intro h hh
    rcases hhandlers h hh with hold | hnew
    · exact (hsound.stored h hold).trans_le hlen
    · exact hnew.1
  intro h hh hstage
  rcases hhandlers h hh with hold | hnew
  · exact hsettled _ (hsound.acking h hold hstage)
  · exact hnew.2 hstage

theorem Sound.endHandler (hsound : s.Sound) (n : ℕ) : (s.endHandler n).Sound :=
  hsound.of_handlers le_rfl (fun _ hj => hj) fun _ hh => .inl (List.mem_of_mem_eraseIdx hh)

theorem Sound.handled (hsound : s.Sound) (hm : s.messages[h.message]? = some m) {r : Handled}
    (hr : r.error = none → r.committed = true) : (s.handled n h m r).Sound := by
  have hlt : h.message < s.messages.length := (List.getElem?_eq_some_iff.mp hm).1
  refine hsound.of_handlers (List.length_set ..).ge
    (settled_set rfl hm (fun hc => by simp [hc]) fun _ hd => hd) fun h' hh' => ?_
  rcases List.mem_or_eq_of_mem_set hh' with hold | rfl
  · exact .inl hold
  refine .inr ⟨hlt.trans_eq (List.length_set ..).symm, fun hstage => .inl ?_⟩
  -- The handler acknowledges only after its `ProcessEvent` has committed.
  have hnone : r.error = none := by
    cases herror : r.error with
    | none => rfl
    | some reason => simp [herror] at hstage
  refine ⟨{ m with committed := m.committed || r.committed }, ?_, by simp [hr hnone]⟩
  simp [Transport.handled, hlt]

theorem Sound.step (hsound : s.Sound) (move : Move) : (s.step w move).Sound := by
  cases move with
  | publish data =>
    refine hsound.of_handlers (by simp [Transport.step]) ?_ fun _ hh => .inl hh
    rintro i (⟨m, hm, hc⟩ | hdlq)
    · refine .inl ⟨m, ?_, hc⟩
      exact (List.getElem?_append_left (List.getElem?_eq_some_iff.mp hm).1).trans hm
    · exact .inr hdlq
  | deliver i =>
    rw [Transport.step]
    rcases hm : s.messages[i]? with _ | m
    · exact hsound
    simp only
    split
    · refine hsound.of_handlers (List.length_set ..).ge
        (settled_set rfl hm (fun hc => hc) fun _ hd => hd) fun h hh => ?_
      rcases List.mem_append.mp hh with hold | hnew
      · exact .inl hold
      · rw [List.mem_singleton.mp hnew]
        refine .inr ⟨?_, nofun⟩
        exact (List.getElem?_eq_some_iff.mp hm).1.trans_eq (List.length_set ..).symm
    · exact hsound
  | crash n => exact hsound.endHandler n
  | process n now gen database =>
    rw [Transport.step]
    split
    · split
      · exact hsound.handled ‹_› handleMessage_committed
      · exact hsound
    · exact hsound
  | fail n published =>
    rw [Transport.step]
    split
    · split
      · rename_i h _ _ _ reason m _ hm
        unfold failMessage
        split
        · cases published with
          | stored =>
            refine (hsound.bury reason).of_handlers le_rfl (fun _ hj => hj) fun h' hh' => ?_
            rcases List.mem_or_eq_of_mem_set hh' with hold | rfl
            · exact .inl hold
            · refine .inr ⟨(List.getElem?_eq_some_iff.mp hm).1, fun _ => ?_⟩
              show (s.bury h m reason).Settled h.message
              exact settled_bury
          | unanswered => exact (hsound.bury reason).endHandler n
          | failed => exact hsound.endHandler n
        · exact hsound.endHandler n
      · exact hsound
    · exact hsound
  | ack n reached =>
    rw [Transport.step]
    split
    · split
      · rename_i h _ _ _ m _ hm
        exact (hsound.endHandler n).of_handlers (List.length_set ..).ge
          (settled_set rfl hm (fun hc => hc) fun _ hd => hd) fun _ hh => .inl hh
      · exact hsound
    · exact hsound

/-! ### Which runs are safe -/

/-- **Which steps lose a message.** -/
theorem safe_step_iff (move : Move) (hsound : s.Sound) (hs : s.Safe w) :
    (s.step w move).Safe w ↔ ¬ Abandons w move s := by
  cases move with
  | publish data => exact iff_of_true (safe_publish hs data) id
  | deliver i =>
    refine iff_of_true ?_ id
    rw [Transport.step]
    rcases hm : s.messages[i]? with _ | m
    · exact hs
    simp only
    split
    · exact safe_deliver hs hm
    · exact hs
  | crash n => exact safe_endHandler_iff hs hsound
  | process n now gen database =>
    refine iff_of_true ?_ id
    rw [Transport.step]
    split
    · split
      · exact safe_handled hs ‹_› ‹_› _
      · exact hs
    · exact hs
  | fail n published =>
    rcases hn : s.handlers[n]? with _ | h
    · refine iff_of_true (by simpa [Transport.step, hn] using hs) ?_
      rintro ⟨h, reason, hlast, -⟩
      rw [hlast.at_] at hn
      cases hn
    have hlt := hsound.stored h (List.mem_of_getElem? hn)
    obtain ⟨m, hm⟩ : ∃ m, s.messages[h.message]? = some m :=
      ⟨_, List.getElem?_eq_getElem hlt⟩
    have habandons : Abandons w (.fail n published) s ↔ (∃ reason, h.stage = .failing reason)
        ∧ LastHandler w s n h ∧ (published = .failed ∨ h.delivery < w.maxDeliver) := by
      constructor
      · rintro ⟨h', reason, hlast, hstage, hlost⟩
        obtain rfl : h = h' := Option.some.inj (hn.symm.trans hlast.at_)
        exact ⟨⟨reason, hstage⟩, hlast, hlost⟩
      · rintro ⟨⟨reason, hstage⟩, hlast, hlost⟩
        exact ⟨h, reason, hlast, hstage, hlost⟩
    rw [habandons, Transport.step]
    simp only [hn, hm]
    cases hstage : h.stage with
    | failing reason =>
      simp only
      rw [safe_failMessage_iff hs hsound hn]
      simp
    | processing | acking => simpa using hs
  | ack n reached =>
    refine iff_of_true ?_ id
    rw [Transport.step]
    split
    · split
      · exact safe_acknowledge hs hsound ‹_› ‹_› ‹_› reached
      · exact hs
    · exact hs

end Transport

open Transport in
/-- **No accepted event is lost, as long as no last handler is.**  From the empty
system, every message is committed, dead-lettered, in flight or deliverable in
every state of a run if and only if no step of the run ends the last handler of
an unsettled message without a delivery left: by a crash, by a failed
dead-letter publish, or by a failure whose own delivery was not the last. -/
theorem transport_safe_iff (w : Worker) (moves : List Move) (s : Transport) (hinit : s.Init) :
    Throughout (Transport.step w) (Safe w) moves s
      ↔ Along (Transport.step w) (fun move s => ¬ Abandons w move s) moves s := by
  obtain ⟨hmessages, hhandlers, -⟩ := hinit
  have hsound : s.Sound := ⟨by simp [hhandlers], by simp [hhandlers]⟩
  have hsafe : s.Safe w := fun i hi => absurd hi (by simp [hmessages])
  exact along_iff_of_exact (J := Sound) (fun move _ hs => hs.step move)
    (fun move _ hs hsafe => safe_step_iff move hs hsafe) moves hsound hsafe

def poisonedWorker : Worker :=
  { platform :=
      { policy := { decodeYAML := fun _ => .error "no policy", toLower := id, quote := id }
        uuid := some, sha256 := id, encrypt := fun _ _ => [], decrypt := fun _ _ => none }
    decode := fun _ => none, dedupeWindow := 0, correlationWindow := 0, publicBaseURL := ""
    configuredMaxDeliveries := 2 }

def emptyDB : EventDB :=
  { tenants := [], sources := [], rawEvents := [], normalizedEvents := [], duplicates := []
    incidents := [], transitions := [], incidentEvents := [], policies := [], policyVersions := []
    channels := [], deliveries := [], ackTokens := [], audit := [] }

def emptyTransport : Transport :=
  { messages := [], handlers := [], dlq := [], db := emptyDB }

def anyIDs : Generated :=
  { rawID := "raw", normalizedID := "event", duplicateID := "dup", incidentID := "incident"
    transitionID := "transition", tokenID := "token", rawToken := "secret", deliveryIDs := []
    traceParent := "" }

def lastDelivery : List Move :=
  [.publish [1], .deliver 0, .process 0 0 anyIDs .up, .fail 0 .stored, .deliver 0,
    .process 0 0 anyIDs .up]

/-- A poison message whose dead-letter publish succeeds is never lost. -/
theorem transport_safe_poison :
    Throughout (Transport.step poisonedWorker) (Transport.Safe poisonedWorker)
      (lastDelivery ++ [.fail 0 .stored, .ack 0 true]) emptyTransport := by
  refine (transport_safe_iff poisonedWorker _ emptyTransport ⟨rfl, rfl, rfl⟩).mpr
    ⟨id, id, id, ?_, id, id, ?_, id, trivial⟩
  · -- The first delivery fails with another one left.
    rintro ⟨h, reason, hlast, -⟩
    cases hlast.at_
    exact hlast.spent ⟨_, rfl, by decide⟩
  -- The last one reaches the dead-letter subject.
  rintro ⟨h, reason, hlast, -, hlost⟩
  cases hlast.at_
  exact absurd hlost (by decide)

/-- A failed dead-letter publish on the last delivery loses the message, and so
does a crash there: it is not committed, not on the dead-letter subject, not in
flight, and will not be delivered again. -/
theorem last_delivery_loses_message :
    ¬ (run (Transport.step poisonedWorker) (lastDelivery ++ [.fail 0 .failed])
        emptyTransport).Safe poisonedWorker
      ∧ ¬ (run (Transport.step poisonedWorker) (lastDelivery ++ [.crash 0])
        emptyTransport).Safe poisonedWorker := by
  have hlost : ¬ (⟨[⟨[1], 2, false, false⟩], [], [], emptyDB⟩ : Transport).Safe poisonedWorker := by
    intro hsafe
    rcases hsafe 0 (by decide) with (⟨m, hm, hc⟩ | ⟨d, hd, -⟩) | ⟨h, hh, -⟩ | ⟨m, hm, hlt⟩
    · cases hm
      cases hc
    · cases hd
    · cases hh
    · cases hm
      exact absurd hlt (by decide)
  exact ⟨hlost, hlost⟩

end StormRelay
