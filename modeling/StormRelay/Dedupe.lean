/-
The two layers of deduplication (`internal/messaging/nats.go`,
`internal/api/sources.go`, `internal/storage/process.go`).

The stream discards a message whose identifier it stored less than fifteen
minutes ago; the store counts an event as a duplicate when its bucket, a fixed
window of configurable length, already holds one with its key.  The message
identifier does not contain the bucket.

* `layers_agree` — **in every run that swallows no event, an event with a new
  key and bucket is stored and becomes a canonical event**.
-/
import StormRelay.Envelope

namespace StormRelay

open Tx Transition

/-! ### Publishing -/

/-- `Duplicates` of the stream that `ensureStream` creates. -/
def streamDuplicates : ℤ := 15 * minute

/-- The message identifier `ingestWebhook` publishes an event under. -/
def messageID (e : Events.Event) : String :=
  e.sourceID ++ ":" ++ dedupeKey e

/-- An event that `ingestWebhook` accepts: the trace of the span that publishes
it, the time at which its message reaches the stream, and the time and the
identifiers with which a worker processes it. -/
structure AcceptedEvent where
  event : Events.Event
  traceParent : String := ""
  publishedAt : Time
  now : Time
  gen : Generated

def AcceptedEvent.message (a : AcceptedEvent) : Events.Event :=
  a.event.carried a.traceParent

/-- The accepted events, the messages the stream has stored, and the event
tables. -/
structure Pipeline where
  received : List AcceptedEvent
  stored : List AcceptedEvent
  db : EventDB

def dedupeTuple (w : Worker) (e : Events.Event) :
    Option String × Option String × String × Time :=
  (w.platform.uuid e.tenantID, w.platform.uuid e.sourceID, dedupeKey e,
    timeBucket e.receivedAt w.options.effective.dedupeWindow)

namespace Pipeline

/-- The stream has stored a message with the identifier within its duplicate
window; it acknowledges the new message and drops it. -/
def discards (s : Pipeline) (a : AcceptedEvent) : Bool :=
  s.stored.any fun m =>
    messageID m.event = messageID a.event && a.publishedAt < m.publishedAt + streamDuplicates

/-- One accepted event: published, and processed when the stream stored it. -/
def step (w : Worker) (a : AcceptedEvent) (s : Pipeline) : Pipeline :=
  if s.discards a then { s with received := s.received ++ [a] }
  else
    { received := s.received ++ [a], stored := s.stored ++ [a]
      db := after true (processEvent w.platform a.now a.gen a.message w.options) s.db }

/-- Nothing has been published yet. -/
structure Init (s : Pipeline) : Prop where
  received : s.received = []
  stored : s.stored = []
  db : s.db.NoEvents

def New (w : Worker) (a : AcceptedEvent) (s : Pipeline) : Prop :=
  ∀ b ∈ s.received, dedupeTuple w b.event ≠ dedupeTuple w a.event

/-- **Agreement of the layers** on one event: when it is new, the stream stores
it, and its `ProcessEvent`, when it commits, makes it a canonical event. -/
def LayersAgree (w : Worker) (a : AcceptedEvent) (s : Pipeline) : Prop :=
  New w a s →
    s.discards a = false
      ∧ (succeeds true (processEvent w.platform a.now a.gen a.message w.options) s.db = true →
        ∃ n ∈ (step w a s).db.normalizedEvents, n.rawEventID = a.gen.rawID)

/-- **The layers disagree**: the stream holds a message with the event's
identifier, younger than its duplicate window, whose bucket is another one. -/
def Swallows (w : Worker) (a : AcceptedEvent) (s : Pipeline) : Prop :=
  ∃ m ∈ s.stored, messageID m.event = messageID a.event
    ∧ a.publishedAt < m.publishedAt + streamDuplicates
    ∧ dedupeTuple w m.event ≠ dedupeTuple w a.event

instance (w : Worker) (a : AcceptedEvent) (s : Pipeline) : Decidable (New w a s) :=
  inferInstanceAs (Decidable (∀ b ∈ s.received, dedupeTuple w b.event ≠ dedupeTuple w a.event))

instance (w : Worker) (a : AcceptedEvent) (s : Pipeline) : Decidable (Swallows w a s) :=
  inferInstanceAs (Decidable (∃ m ∈ s.stored, messageID m.event = messageID a.event
    ∧ a.publishedAt < m.publishedAt + streamDuplicates
    ∧ dedupeTuple w m.event ≠ dedupeTuple w a.event))

/-! ### Where stored messages and canonical events come from -/

/-- An accepted event has the key `k` of a canonical event. -/
def Received (w : Worker) (received : List AcceptedEvent) (k : String × String × String × Time) :
    Prop :=
  ∃ b ∈ received, dedupeTuple w b.event = (some k.1, some k.2.1, k.2.2)

/-- Stored messages and canonical events come from accepted events. -/
structure Sound (w : Worker) (s : Pipeline) : Prop where
  conserved : s.db.ledger.Conserved
  stored : ∀ m ∈ s.stored, m ∈ s.received
  canonical : ∀ k ∈ s.db.ledger.entries.map Ledger.Entry.key, Received w s.received k

section Runs

variable {w : Worker} {s : Pipeline} {a : AcceptedEvent}

theorem Init.sound (h : s.Init) : s.Sound w where
  conserved := h.db.conserved
  stored := by
    intro m hm
    rw [h.stored] at hm
    cases hm
  canonical := by
    intro k hk
    rw [EventDB.ledger, h.db.normalized] at hk
    cases hk

theorem dedupeTuple_eq {e : Events.Event} {gen : Generated} {tenantID sourceID : String}
    (htenant : w.platform.uuid e.tenantID = some tenantID)
    (hsource : w.platform.uuid e.sourceID = some sourceID) {k : String × String × String × Time}
    (hk : (canonicalRow gen tenantID sourceID w.options e).bucketKey = k) :
    dedupeTuple w e = (some k.1, some k.2.1, k.2.2) := by
  subst hk
  rw [dedupeTuple, htenant, hsource]
  rfl

theorem dedupeTuple_message (w : Worker) (a : AcceptedEvent) :
    dedupeTuple w a.message = dedupeTuple w a.event :=
  rfl

theorem Sound.step (h : s.Sound w) (a : AcceptedEvent) : (step w a s).Sound w := by
  have hold : ∀ k, Received w s.received k → Received w (s.received ++ [a]) k :=
    fun k ⟨b, hb, hk⟩ => ⟨b, List.mem_append_left _ hb, hk⟩
  rw [Pipeline.step]
  split
  · exact ⟨h.conserved, fun m hm => List.mem_append_left _ (h.stored m hm),
      fun k hk => hold k (h.canonical k hk)⟩
  have hstored : ∀ m ∈ s.stored ++ [a], m ∈ s.received ++ [a] := by
    intro m hm
    rcases List.mem_append.mp hm with hm | hm
    · exact List.mem_append_left _ (h.stored m hm)
    · exact List.mem_append_right _ hm
  have hout := process_outcome true w.platform a.now a.gen a.message w.options s.db
  refine ⟨hout.conserved h.conserved, hstored, fun k hk => ?_⟩
  simp only at hk
  generalize (commit true _ s.db).1 = answer at hout
  generalize after true _ s.db = db' at hout hk
  cases answer with
  | error err =>
    cases hout
    exact hold k (h.canonical k hk)
  | ok res =>
    obtain ⟨-, tenantID, sourceID, htenant, hsource, hrec⟩ := hout.recorded h.conserved
    cases hrec with
    | duplicate m _ _ hledger =>
      -- A duplicate adds no key.
      simp only [hledger, Ledger.note, Ledger.map_update_bump Ledger.Entry.key fun _ => rfl] at hk
      exact hold k (h.canonical k hk)
    | canonical g groups _ _ _ _ hledger =>
      simp only [hledger, Ledger.enter, List.map_append, List.mem_append] at hk
      rcases hk with hk | hk
      · exact hold k (h.canonical k hk)
      · exact ⟨a, List.mem_append_right _ (List.mem_singleton.mpr rfl),
          dedupeTuple_message w a ▸ dedupeTuple_eq htenant hsource (List.mem_singleton.mp hk).symm⟩

/-- A new event whose message is stored becomes a canonical event. -/
theorem Sound.canonical_of_new (h : s.Sound w) (hnew : New w a s) (hstored : s.discards a = false)
    (hok : succeeds true (processEvent w.platform a.now a.gen a.message w.options) s.db = true) :
    ∃ n ∈ (Pipeline.step w a s).db.normalizedEvents, n.rawEventID = a.gen.rawID := by
  obtain ⟨res, hout⟩ := outcome_of_succeeds hok
  obtain ⟨-, tenantID, sourceID, htenant, hsource, hrec⟩ := hout.recorded h.conserved
  rw [Pipeline.step, if_neg (by simp [hstored])]
  cases hrec with
  | duplicate m hmem hsame _ =>
    -- The bucket holds an event, so an earlier one had this tuple.
    obtain ⟨b, hb, hk⟩ := h.canonical m.bucketKey
      (List.mem_map.mpr ⟨m.entry, List.mem_map_of_mem hmem, rfl⟩)
    have htuple : dedupeTuple w a.message = _ :=
      dedupeTuple_eq htenant hsource (sameBucket_iff.mp hsame)
    exact absurd (hk.trans (htuple.symm.trans (dedupeTuple_message w a))) (hnew b hb)
  | canonical g groups _ _ _ _ hledger =>
    have hentry : (canonicalRow a.gen tenantID sourceID w.options a.message).entry
        ∈ (after true (processEvent w.platform a.now a.gen a.message w.options)
          s.db).ledger.entries := by
      rw [hledger]
      exact List.mem_append_right _ (List.mem_singleton.mpr rfl)
    obtain ⟨n, hn, heq⟩ := List.mem_map.mp hentry
    exact ⟨n, hn, congrArg Ledger.Entry.item heq⟩

theorem Sound.layersAgree (h : s.Sound w) (hkeep : ¬ Swallows w a s) : LayersAgree w a s := by
  intro hnew
  have hstored : s.discards a = false := by
    rw [← Bool.not_eq_true]
    intro hseen
    obtain ⟨m, hm, hid⟩ := List.any_eq_true.mp hseen
    simp only [Bool.and_eq_true, decide_eq_true_eq] at hid
    exact hkeep ⟨m, hm, hid.1, hid.2, hnew m (h.stored m hm)⟩
  exact ⟨hstored, h.canonical_of_new hnew hstored⟩

end Runs

end Pipeline

def defaultWorker : Worker :=
  { platform := pagePlatform, decode := fun _ => none, dedupeWindow := 15 * minute
    correlationWindow := 30 * minute, publicBaseURL := "", configuredMaxDeliveries := 5 }

/-- An alert that is received, published and processed `seconds` after the start
of a bucket. -/
def alertAt (seconds : ℕ) (rawID : String) : AcceptedEvent :=
  { event := { pageEvent with sourceEventID := "disk-full", receivedAt := seconds * second }
    publishedAt := seconds * second, now := seconds * second
    gen := { pageIDs with rawID := rawID, normalizedID := "event-" ++ rawID } }

def emptyPipeline : Pipeline :=
  { received := [], stored := [], db := mockDB }

end StormRelay
