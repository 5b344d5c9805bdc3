/-
What an incident says about its events (`correlate` in
`internal/storage/process.go`).

The row of an incident summarises the events linked to it: when the first and
the last were received, and the worst severity.  The summary is kept up event by
event, in the order in which workers process them.

* `aggregates_are_maxima` — **the last event and the severity are the maxima over
  the linked events, in every order**;
* `first_event_first` — **`first_event_at` is the first event in the runs in which
  no new event comes late**;
* `window_respected` — **events are grouped by the window in the runs in which no
  new event comes later than the window allows**.
-/
import Mathlib.Algebra.Order.Group.Int
import StormRelay.IncidentLife
import StormRelay.Window

namespace StormRelay

open Tx Table Transition

/-! ### Maxima -/

/-- **The row's last event and severity are the maxima over the linked events.** -/
structure Case.Peaks (c : Case) : Prop where
  last : c.row.lastEventAt ∈ c.events.map Prod.fst
  latest : ∀ p ∈ c.events, p.1 ≤ c.row.lastEventAt
  severity : c.row.severity ∈ c.events.map Prod.snd
  worst : ∀ p ∈ c.events, p.2.rank ≤ c.row.severity.rank

theorem peaks_opened {c : Case} (h : CaseOpened c) : c.Peaks := by
  obtain ⟨⟩ := h
  exact ⟨by simp [newIncident], by simp [newIncident], by simp [newIncident],
    by simp [newIncident]⟩

theorem rank_maxSeverity (a b : Severity) : (maxSeverity a b).rank = max a.rank b.rank := by
  rw [maxSeverity]
  split <;> omega

theorem maxSeverity_mem (a b : Severity) : maxSeverity a b = a ∨ maxSeverity a b = b := by
  rw [maxSeverity]
  split
  · exact .inr rfl
  · exact .inl rfl

theorem Case.Peaks.joined {c : Case} (h : c.Peaks) (now : Time) (e : Events.Event) :
    (c.joined now e).Peaks where
  last := by
    rw [Case.joined, List.map_append, List.mem_append]
    rcases max_choice c.row.lastEventAt e.receivedAt with hmax | hmax
    · exact .inl ((congrArg (· ∈ c.events.map Prod.fst) hmax).mpr h.last)
    · exact .inr (List.mem_singleton.mpr hmax)
  latest := by
    intro p hp
    rcases List.mem_append.mp hp with hp | hp
    · exact (h.latest p hp).trans (le_max_left _ _)
    · rw [List.mem_singleton.mp hp]
      exact le_max_right _ _
  severity := by
    rw [Case.joined, List.map_append, List.mem_append]
    rcases maxSeverity_mem c.row.severity e.severity with hmax | hmax
    · exact .inl ((congrArg (· ∈ c.events.map Prod.snd) hmax).mpr h.severity)
    · exact .inr (List.mem_singleton.mpr hmax)
  worst := by
    have hrank : (c.joined now e).row.severity.rank = max c.row.severity.rank e.severity.rank :=
      rank_maxSeverity _ _
    intro p hp
    rw [hrank]
    rcases List.mem_append.mp hp with hp | hp
    · exact (h.worst p hp).trans (le_max_left _ _)
    · rw [List.mem_singleton.mp hp]
      exact le_max_right _ _

variable {db : EventDB}

theorem Case.Peaks.change {x : Bool} {op : EventOp} {c c' : Case} (h : c.Peaks)
    (hchange : CaseChange x db op c c') : c'.Peaks := by
  cases hchange with
  | joined hjoins => exact h.joined _ _
  | moved hvalid => exact ⟨h.last, h.latest, h.severity, h.worst⟩

theorem EveryCase.peaks {x : Bool} (op : EventOp) (h : EveryCase Case.Peaks db) :
    EveryCase Case.Peaks (db.perform x op) :=
  h.perform (fun _ hopened => peaks_opened hopened) fun _ _ _ hc hchange => hc.change hchange

/-- The incidents that a step links events to are open when it does. -/
def LinksOpen (x : Bool) (op : EventOp) (db : EventDB) : Prop :=
  ∀ link ∈ (db.perform x op).incidentEvents, link ∉ db.incidentEvents →
    ∀ i ∈ db.incidents, i.id = link.1 → i.state ≠ .resolved ∧ i.state ≠ .closed

theorem linksOpen_of_filed (h : db.Filed) (x : Bool) (op : EventOp) :
    LinksOpen x op db := by
  intro link hlink hnew i hi hid
  have hstep := fileStep_perform h x op
  have hlinks : link ∈ (db.perform x op).casefile.links := hlink
  generalize (db.perform x op).casefile = f at hstep hlinks
  cases hstep with
  | kept hno hfile | duplicate hno hfile | moved hwrites hj hvalid ht hfile =>
    subst hfile
    exact absurd hlinks hnew
  | opened hno hentered hfresh hfile =>
    subst hfile
    obtain rfl := List.mem_singleton.mp ((List.mem_append.mp hlinks).resolve_left hnew)
    exact absurd hid (hfresh i hi)
  | joined hwrites hentered hjoins hj hopen hfile =>
    subst hfile
    obtain rfl := List.mem_singleton.mp ((List.mem_append.mp hlinks).resolve_left hnew)
    obtain rfl := h.keyed.eq_of_key hi hj hid
    simpa [IncidentState.isOpen] using hopen

/-- **The aggregates are maxima, in every order.**  In every state of every run
from fresh tables the last event and the severity of every incident are the
maxima over the events linked to it, and no step links an event to an incident
that is resolved or closed. -/
theorem aggregates_are_maxima (x : Bool) {start : EventDB} (hfresh : start.Fresh)
    (ops : List EventOp) :
    Throughout (EventDB.perform x)
        (fun db => ∀ i ∈ db.incidents, (db.casefile.caseOf i).Peaks) ops start
      ∧ Along (EventDB.perform x) (LinksOpen x) ops start := by
  have hstep : ∀ op (db : EventDB), EveryCase Case.Peaks db →
      EveryCase Case.Peaks (db.perform x op) := fun op db h => h.peaks op
  constructor
  · exact Throughout.imp (fun db h => h.holds) ops
      (throughout_of_invariant hstep ops (hfresh.everyCase _))
  · exact along_of_invariant hstep (fun op db h => linksOpen_of_filed h.filed x op) ops
      (hfresh.everyCase _)

/-- The ranks are in the order of the severities. -/
example : [Severity.info, .warning, .error, .critical].map Severity.rank = [0, 1, 2, 3] := by
  decide

/-- An event received at `receivedAt`, processed under identifiers that end in
`n`. -/
def arrival (n : String) (receivedAt : Time) (severity : Severity) : EventOp :=
  .call (.processEvent pagePlatform 0
    { pageIDs with
      rawID := "raw" ++ n, normalizedID := "event" ++ n, incidentID := "incident" ++ n
      transitionID := "transition" ++ n, tokenID := "token" ++ n, rawToken := "secret" ++ n
      deliveryIDs := ["delivery" ++ n] }
    { pageEvent with sourceEventID := n, receivedAt := receivedAt, severity := severity }
    { dedupeWindow := 0, correlationWindow := 0 })

def criticalThenWarning : List EventOp :=
  [arrival "1" minute .critical, arrival "2" 0 .warning]

theorem aggregates_critical_then_warning :
    ((run (EventDB.perform true) criticalThenWarning mockDB).incidents.map fun i =>
        (i.lastEventAt, i.severity)) = [(minute, .critical)]
      ∧ ∀ i ∈ (run (EventDB.perform true) criticalThenWarning mockDB).incidents,
        ((run (EventDB.perform true) criticalThenWarning mockDB).casefile.caseOf
          i).Peaks := by
  refine ⟨by decide +kernel, ?_⟩
  have hrun := (aggregates_are_maxima true mockDB_fresh criticalThenWarning).1
  exact throughout_iff.mp hrun criticalThenWarning List.prefix_rfl

/-! ### The first event -/

/-- `first_event_at` is not later than any linked event. -/
def Case.Begins (c : Case) : Prop :=
  ∀ p ∈ c.events, c.row.firstEventAt ≤ p.1

instance (c : Case) : Decidable c.Begins :=
  inferInstanceAs (Decidable (∀ p ∈ c.events, _))

/-- When the linked events were received. -/
def Case.times (c : Case) : List Time :=
  c.events.map Prod.fst

/-- An event comes at most `D` late: if its deduplication bucket holds no event before
the call and the candidate query finds an open incident for it, then some event of this
incident was received at most `D` after it. -/
def Timely (D : ℤ) : EventOp → EventDB → Prop
  | .call (.processEvent pf _ gen e options), db =>
    ∀ tenantID ∈ pf.uuid e.tenantID, ∀ sourceID ∈ pf.uuid e.sourceID,
      (∀ m ∈ db.normalizedEvents,
        sameBucket (canonicalRow gen tenantID sourceID options e) m = false) →
      ∀ i ∈ foundIncident tenantID options e db,
        ∃ t ∈ (db.casefile.caseOf i).times, t ≤ e.receivedAt + D
  | _, _ => True

instance (D : ℤ) (op : EventOp) (db : EventDB) : Decidable (Timely D op db) :=
  match op with
  | .call (.processEvent pf _ gen e options) =>
    inferInstanceAs (Decidable (∀ tenantID ∈ pf.uuid e.tenantID, ∀ sourceID ∈ pf.uuid e.sourceID,
      (∀ m ∈ db.normalizedEvents,
        sameBucket (canonicalRow gen tenantID sourceID options e) m = false) →
      ∀ i ∈ foundIncident tenantID options e db,
        ∃ t ∈ (db.casefile.caseOf i).times, t ≤ e.receivedAt + D))
  | .call (.claimDeliveries ..) | .call (.completeDelivery ..) | .call (.transitionIncident ..)
  | .call (.acknowledgeByToken ..) | .call (.recordAudit ..) | .configure _ => .isTrue trivial

theorem Joins.timely {x : Bool} {op : EventOp} {i : Incident} {e : Events.Event} {D : ℤ}
    (h : Joins x db i e op) (htimely : Timely D op db) :
    ∃ t ∈ (db.casefile.caseOf i).times, t ≤ e.receivedAt + D := by
  obtain @⟨pf, now, gen, options, tenantID, res, htenant, hfound, hcommit, hnew⟩ := h
  have hout := process_outcome x pf now gen e options db
  rw [hcommit] at hout
  generalize after x (processEvent pf now gen e options) db = db' at hout
  -- The event is no duplicate, so its bucket was empty.
  cases hout with
  | duplicate haccepted hm hsame hres hfile =>
    rw [hres.1] at hnew
    cases hnew
  | opened haccepted hcanonical | joined haccepted hcanonical =>
    obtain rfl := Option.some.inj (htenant.symm.trans haccepted.tenant)
    exact htimely _ htenant _ haccepted.source hcanonical.unseen i hfound

theorem EveryCase.begins {x : Bool} {op : EventOp} (h : EveryCase Case.Begins db)
    (htimely : Timely 0 op db) : EveryCase Case.Begins (db.perform x op) := by
  refine h.perform (fun c hopened => ?_) fun i hi c' hc hchange => ?_
  · obtain ⟨⟩ := hopened
    simp [Case.Begins, newIncident]
  cases hchange with
  | moved hvalid => exact hc
  | @joined now e hjoins =>
    intro p hp
    rcases List.mem_append.mp hp with hp | hp
    · exact hc p hp
    obtain ⟨t, ht, hle⟩ := hjoins.timely htimely
    obtain ⟨q, hq, rfl⟩ := List.mem_map.mp ht
    rw [List.mem_singleton.mp hp]
    exact (hc q hq).trans (hle.trans (add_zero _).le)

/-- **`first_event_at` is the first event where no event comes late.**  In every state of
a run from fresh tables it is at most the time of every linked event, if each new event
that is processed while an open incident waits for it was received no earlier than some
event of that incident. -/
theorem first_event_first (x : Bool) {start : EventDB} (hfresh : start.Fresh)
    (ops : List EventOp) (htimely : Along (EventDB.perform x) (Timely 0) ops start) :
    Throughout (EventDB.perform x)
      (fun db => ∀ i ∈ db.incidents, (db.casefile.caseOf i).Begins) ops start :=
  Throughout.imp (fun _ h => h.holds) ops
    (Along.throughout (fun _ _ h hop => h.begins hop) ops (hfresh.everyCase _) htimely)

def inOrder : List EventOp :=
  [arrival "1" 0 .critical, arrival "2" minute .critical]

/-- Two events in the order of their times, of which the second joins. -/
theorem first_event_in_order :
    Along (EventDB.perform true) (Timely 0) inOrder mockDB
      ∧ ((run (EventDB.perform true) inOrder mockDB).incidents.map fun i =>
          (i.firstEventAt,
            ((run (EventDB.perform true) inOrder mockDB).casefile.caseOf i).times))
        = [(0, [0, minute])]
      ∧ Throughout (EventDB.perform true)
        (fun db => ∀ i ∈ db.incidents, (db.casefile.caseOf i).Begins) inOrder mockDB := by
  have htimely : Along (EventDB.perform true) (Timely 0) inOrder mockDB :=
    ⟨by decide +kernel, by decide +kernel, trivial⟩
  exact ⟨htimely, by decide +kernel, first_event_first true mockDB_fresh inOrder htimely⟩

def outOfOrder : List EventOp :=
  [arrival "1" hour .critical, arrival "2" 0 .critical]

/-- An older event that is processed later joins the incident, and
`first_event_at` stays behind. -/
theorem first_event_out_of_order :
    ((run (EventDB.perform true) outOfOrder mockDB).incidents.map fun i =>
        (i.firstEventAt,
          (run (EventDB.perform true) outOfOrder mockDB).casefile.gathered i.id))
        = [(hour, [(hour, .critical), (0, .critical)])]
      ∧ ¬ Throughout (EventDB.perform true)
        (fun db => ∀ i ∈ db.incidents, (db.casefile.caseOf i).Begins) outOfOrder mockDB := by
  exact ⟨by decide +kernel, by decide +kernel⟩

/-! ### The window -/

/-- The step processes events, if at all, with the correlation window `W`. -/
def EventOp.WindowIs (W : ℤ) : EventOp → Prop
  | .call (.processEvent _ _ _ _ options) => options.effective.correlationWindow = W
  | _ => True

/-- The event that the step attaches to an open incident lies within `W` of one
of the incident's events, earlier or later. -/
def AttachesNear (x : Bool) (W : ℤ) (op : EventOp) (db : EventDB) : Prop :=
  ∀ i e, Joins x db i e op →
    ∃ t ∈ (db.casefile.caseOf i).times, e.receivedAt - W ≤ t ∧ t ≤ e.receivedAt + W

theorem effective_correlationWindow_pos (options : ProcessOptions) :
    0 < options.effective.correlationWindow := by
  simp only [ProcessOptions.effective]
  split
  · decide
  · omega

section Window

variable {x : Bool} {W : ℤ} {op : EventOp} {db : EventDB}

/-- What the query behind a joined event guarantees: its window is positive, and
the incident's last event is not more than the window older. -/
theorem Joins.late {i : Incident} {e : Events.Event} (h : Joins x db i e op)
    (hW : op.WindowIs W) : 0 < W ∧ i ∈ db.incidents ∧ e.receivedAt - W ≤ i.lastEventAt := by
  obtain ⟨htenant, hfound, hcommit, hnew⟩ := h
  obtain ⟨hi, -, -, -, hlast⟩ := foundIncident_some hfound
  rw [EventOp.WindowIs] at hW
  subst hW
  exact ⟨effective_correlationWindow_pos _, hi, hlast⟩

theorem attachesNear_of_spaced (hW : op.WindowIs W) (hpeaks : EveryCase Case.Peaks db)
    (hspaced : ∀ i ∈ db.incidents, Window.Spaced W (db.casefile.caseOf i).times)
    (htimely : Timely W op db) : AttachesNear x W op db := by
  intro i e hjoins
  obtain ⟨hpos, hi, hlast⟩ := hjoins.late hW
  have hlinked := (Window.spaced_iff hpos.le).mp (hspaced i hi)
  exact hlinked.exists_near ⟨i.lastEventAt, (hpeaks.holds i hi).last, hlast⟩
    (hjoins.timely htimely)

theorem spaced_perform (hW : op.WindowIs W) (hpeaks : EveryCase Case.Peaks db)
    (hspaced : ∀ i ∈ db.incidents, Window.Spaced W (db.casefile.caseOf i).times)
    (htimely : Timely W op db) :
    ∀ i ∈ (db.perform x op).incidents,
      Window.Spaced W ((db.perform x op).casefile.caseOf i).times := by
  have hevery : EveryCase (fun c => Window.Spaced W c.times) db := ⟨hpeaks.filed, hspaced⟩
  refine (hevery.perform (fun c hopened => ?_) fun i hi c' hc hchange => ?_).holds
  · obtain ⟨⟩ := hopened
    exact Window.spaced_singleton _
  cases hchange with
  | moved hvalid => exact hc
  | @joined now e hjoins =>
    have hpos := (hjoins.late hW).1
    have hne : (db.casefile.caseOf i).times ≠ [] :=
      List.ne_nil_of_mem (hpeaks.holds i hi).last
    have hnear := attachesNear_of_spaced hW hpeaks hspaced htimely i e hjoins
    have htimes : ((db.casefile.caseOf i).joined now e).times
        = (db.casefile.caseOf i).times ++ [e.receivedAt] := List.map_append
    rw [htimes]
    exact (Window.Spaced.append_iff hpos.le hne hc).mpr hnear

end Window

/-- **Correlation respects the window where no event comes later than it.**  In a run from
fresh tables with the correlation window `W`: the sorted times of the events of every
incident are at most `W` apart in every state, and every event is attached within `W` of
an event of its incident, if each new event that is processed while an open incident
waits for it was received at most `W` before some event of that incident. -/
theorem window_respected (x : Bool) (W : ℤ) {start : EventDB} (hfresh : start.Fresh)
    (ops : List EventOp) (hW : ∀ op ∈ ops, op.WindowIs W)
    (htimely : Along (EventDB.perform x) (Timely W) ops start) :
    Throughout (EventDB.perform x)
        (fun db => ∀ i ∈ db.incidents, Window.Spaced W (db.casefile.caseOf i).times) ops start
      ∧ Along (EventDB.perform x) (AttachesNear x W) ops start := by
  have hboth := Along.and_of_mem ops hW htimely
  -- The invariant: the maxima, and the spacing itself.
  have hinv : ∀ op (db : EventDB),
      (EveryCase Case.Peaks db
        ∧ ∀ i ∈ db.incidents, Window.Spaced W (db.casefile.caseOf i).times) →
      op.WindowIs W ∧ Timely W op db →
      EveryCase Case.Peaks (db.perform x op)
        ∧ ∀ i ∈ (db.perform x op).incidents,
          Window.Spaced W ((db.perform x op).casefile.caseOf i).times :=
    fun op db h hP => ⟨h.1.peaks op, spaced_perform hP.1 h.1 h.2 hP.2⟩
  have hinit := And.intro (hfresh.everyCase Case.Peaks)
    (hfresh.everyCase fun c => Window.Spaced W c.times).holds
  constructor
  · exact Throughout.imp (fun db h => h.2) ops
      (Along.throughout hinv ops hinit hboth)
  · exact Along.along hinv
      (fun op db h hP => attachesNear_of_spaced hP.1 h.1 h.2 hP.2) ops hinit hboth

/-- An event that is processed late, but within the window of thirty minutes. -/
def slightlyLate : List EventOp :=
  [arrival "1" (20 * minute) .critical, arrival "2" 0 .critical]

/-- The late event joins inside the window. -/
theorem window_respected_late :
    Along (EventDB.perform true) (Timely (30 * minute)) slightlyLate mockDB
      ∧ ((run (EventDB.perform true) slightlyLate mockDB).incidents.map fun i =>
          ((run (EventDB.perform true) slightlyLate mockDB).casefile.caseOf i).times)
        = [[20 * minute, 0]]
      ∧ Throughout (EventDB.perform true)
        (fun db => ∀ i ∈ db.incidents, Window.Spaced (30 * minute) (db.casefile.caseOf i).times)
        slightlyLate mockDB
      ∧ Along (EventDB.perform true) (AttachesNear true (30 * minute)) slightlyLate
        mockDB := by
  have htimely :
      Along (EventDB.perform true) (Timely (30 * minute)) slightlyLate mockDB :=
    ⟨by decide +kernel, by decide +kernel, trivial⟩
  have hwindow : ∀ op ∈ slightlyLate, op.WindowIs (30 * minute) := by
    intro op hop
    simp only [slightlyLate, List.mem_cons, List.not_mem_nil, or_false] at hop
    rcases hop with rfl | rfl <;> rfl
  exact ⟨htimely, by decide +kernel,
    window_respected true (30 * minute) mockDB_fresh slightlyLate hwindow htimely⟩

/-- With a window of thirty minutes, an event joins an incident whose only event
was received an hour after it. -/
theorem window_exceeded_out_of_order :
    ((run (EventDB.perform true) outOfOrder mockDB).incidents.map fun i =>
        ((run (EventDB.perform true) outOfOrder mockDB).casefile.caseOf i).times)
        = [[hour, 0]]
      ∧ ¬ ∀ i ∈ (run (EventDB.perform true) outOfOrder mockDB).incidents,
        Window.Spaced (30 * minute)
          ((run (EventDB.perform true) outOfOrder mockDB).casefile.caseOf i).times :=
  ⟨by decide +kernel, by decide +kernel⟩

end StormRelay
