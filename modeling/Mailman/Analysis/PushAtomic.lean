import Mailman.Model.SyncDesk

/-!
# What a rejected push leaves

A push stores its events one by one and looks at the next one only then, so an event it refuses
finds the ones before it stored already. The call is all or nothing exactly for the lists whose
first event is refused or none is (`rejected_stores_nothing_iff`). The retries of the push loop
post the same rows again, so for any other list the rows before the refused one are stored once
more by every attempt, while no attempt ever succeeds.
-/

set_option autoImplicit false

namespace Mailman.Analysis

open Mailman.Library Mailman.Model

/-- An event that the bearer of `actor` may not push or that cannot be stored: a revision or payload
that cannot be read, a required field that is empty, another actor, or a body that the database
does not take. -/
def Refused (takes : SyncBody → Bool) (actor : String) (clock : PushClock) (raw : WireEvent) :
    Prop :=
  raw.revision = .unreadable ∨ raw.encryptedPayload = .unreadable ∨
    firstText raw.table raw.tableName = "" ∨ firstText raw.id raw.rowId = "" ∨
    raw.actor.getD actor = "" ∨ raw.actor.getD actor ≠ actor ∨
    ∃ body, raw.normalise actor clock = .ok body ∧ takes body = false

/-- When the first event is not refused, none is. -/
def RefusedFirst (takes : SyncBody → Bool) (actor : String) (clock : PushClock)
    (events : List WireEvent) : Prop :=
  ∀ first ∈ events.head?, ¬Refused takes actor clock first →
    ∀ raw ∈ events, ¬Refused takes actor clock raw

/-- Both logs are as before. -/
def LogsKept (t t' : SyncTables) : Prop := t'.events = t.events ∧ t'.conflicts = t.conflicts

/-- How many events a row has added to the log. -/
def addedBy (row : ℕ) (t : SyncTables) : ℕ := t.events.countP (·.origin = row)

variable {takes : SyncBody → Bool} {actor : String} {clock : PushClock} {raw : WireEvent}
  {events : List WireEvent} {body : SyncBody}

/-- A refused event fails before it is stored, or when it is put. -/
theorem normalise_refused (h : Refused takes actor clock raw) :
    (∃ e, raw.normalise actor clock = .error e) ∨
      ∃ body, raw.normalise actor clock = .ok body ∧ takes body = false := by
  by_cases hput : ∃ body, raw.normalise actor clock = .ok body ∧ takes body = false
  · exact .inr hput
  · left
    unfold Refused at h
    simp only [hput, or_false] at h
    unfold WireEvent.normalise
    cases hrevision : raw.revision <;> cases hpayload : raw.encryptedPayload <;>
      simp only [WireEvent.normalise.checked, WireEvent.normalise.fields, hpayload] <;>
      first
      | exact ⟨_, rfl⟩
      | (split_ifs <;> first | exact ⟨_, rfl⟩ | simp_all)

/-- An event that is not refused gives a body that the database takes. -/
theorem normalise_ok (h : ¬Refused takes actor clock raw) :
    ∃ body, raw.normalise actor clock = .ok body ∧ takes body = true := by
  unfold Refused at h
  simp only [not_or, not_not, not_exists, not_and] at h
  obtain ⟨hrevision, hpayload, htable, hrow, hactor, hsame, htakes⟩ := h
  have hbody : ∃ body, raw.normalise actor clock = .ok body := by
    unfold WireEvent.normalise
    cases hr : raw.revision <;> cases hp : raw.encryptedPayload <;>
      simp_all [WireEvent.normalise.checked, WireEvent.normalise.fields]
  obtain ⟨body, hbody⟩ := hbody
  exact ⟨body, hbody, Bool.eq_true_of_not_eq_false (htakes body hbody)⟩

/-! ## Storing one event -/

/-- An event that the database does not take leaves both logs alone. -/
theorem store_refused (clock : PushClock) (h : takes body = false) (i : ℕ) (reply : PushReply) (t : SyncTables) :
    ∃ t', t.store takes clock i body reply = (.error .notStored, t') ∧ LogsKept t t' := by
  refine ⟨{ t with eventSeq := t.eventSeq + 1 }, ?_, rfl, rfl⟩
  unfold SyncTables.store SyncTables.putEvent
  simp only [h, Bool.false_eq_true, if_false]

/-- The comparison adds no event and takes no id. -/
theorem compare_events (clock : PushClock) (body : SyncBody) (reply : PushReply) (t : SyncTables) :
    (t.compare clock body reply).2.events = t.events ∧
      (t.compare clock body reply).2.eventSeq = t.eventSeq := by
  unfold SyncTables.compare
  dsimp only
  split
  · exact ⟨rfl, rfl⟩
  · split <;> exact ⟨rfl, rfl⟩

/-- Any other is added to the log, whatever it is compared with. -/
theorem store_events (clock : PushClock) (h : takes body = true) (i : ℕ) (reply : PushReply) (t : SyncTables) :
    ∃ reply' t', t.store takes clock i body reply = (.ok reply', t') ∧
      t'.eventSeq = t.eventSeq + 1 ∧
      ∃ event : LoggedEvent, event.origin = i ∧ event.eventId = t.eventSeq + 1 ∧
        event.toSyncBody = body ∧ t'.events = event :: t.events := by
  unfold SyncTables.store SyncTables.putEvent
  simp only [h, if_true]
  refine ⟨_, _, rfl, ?_, ⟨body, t.eventSeq + 1, clock.now, i⟩, rfl, rfl, rfl, ?_⟩
  · exact (compare_events clock body reply _).2
  · exact (compare_events clock body reply _).1

/-- What a stored event adds to the count of its row. -/
theorem addedBy_stored {t t' : SyncTables} {event : LoggedEvent}
    (h : t'.events = event :: t.events) (row : ℕ) :
    addedBy row t' = addedBy row t + if event.origin = row then 1 else 0 := by
  unfold addedBy
  rw [h, List.countP_cons]
  simp

/-! ## One push -/

/-- A push never takes an event out of the log. -/
theorem length_pushFrom (takes : SyncBody → Bool) (actor : String) (clock : PushClock)
    (events : List WireEvent) (i : ℕ) (reply : PushReply) (t : SyncTables) :
    t.events.length ≤ (pushFrom takes actor clock i events reply t).2.events.length := by
  induction events generalizing i reply t with
  | nil => exact le_rfl
  | cons raw events ih =>
    rw [pushFrom]
    cases hnormal : raw.normalise actor clock with
    | error e => exact le_rfl
    | ok body =>
      cases htakes : takes body with
      | false =>
        obtain ⟨t', hstore, hevents, -⟩ := store_refused clock htakes i reply t
        dsimp only
        rw [hstore, hevents]
      | true =>
        obtain ⟨reply', t', hstore, -, event, -, -, -, hevents⟩ :=
          store_events clock htakes i reply t
        have hrest := ih (i + 1) reply' t'
        rw [hevents, List.length_cons] at hrest
        dsimp only
        rw [hstore]
        exact (Nat.le_succ _).trans hrest

/-- A push whose first event is refused stores nothing. -/
theorem pushEvents_refused (h : Refused takes actor clock raw) (events : List WireEvent)
    (t : SyncTables) :
    ∃ e t', pushEvents takes actor clock (raw :: events) t = (.error e, t') ∧ LogsKept t t' := by
  unfold pushEvents
  rw [pushFrom]
  rcases normalise_refused h with ⟨e, he⟩ | ⟨body, hbody, htakes⟩
  · rw [he]
    exact ⟨e, t, rfl, rfl, rfl⟩
  · obtain ⟨t', hstore, hkept⟩ := store_refused clock htakes 0 {} t
    rw [hbody]
    dsimp only
    rw [hstore]
    exact ⟨.notStored, t', rfl, hkept⟩

/-- A push whose first event is not refused stores it. -/
theorem length_pushEvents (h : ¬Refused takes actor clock raw) (events : List WireEvent)
    (t : SyncTables) :
    t.events.length < (pushEvents takes actor clock (raw :: events) t).2.events.length := by
  obtain ⟨body, hbody, htakes⟩ := normalise_ok h
  obtain ⟨reply, t', hstore, -, event, -, -, -, hevents⟩ :=
    store_events clock htakes 0 {} t
  have hlen := length_pushFrom takes actor clock events 1 reply t'
  rw [hevents, List.length_cons] at hlen
  unfold pushEvents
  rw [pushFrom, hbody]
  dsimp only
  rw [hstore]
  exact hlen

/-- A push of which no event is refused succeeds, and each row adds one event at most. -/
theorem pushFrom_good (h : ∀ raw ∈ events, ¬Refused takes actor clock raw) (row : ℕ) (i : ℕ)
    (reply : PushReply) (t : SyncTables) :
    (∃ reply', (pushFrom takes actor clock i events reply t).1 = .ok reply') ∧
      addedBy row (pushFrom takes actor clock i events reply t).2 ≤
        addedBy row t + if i ≤ row then 1 else 0 := by
  induction events generalizing i reply t with
  | nil => exact ⟨⟨reply, rfl⟩, Nat.le_add_right _ _⟩
  | cons raw events ih =>
    obtain ⟨body, hbody, htakes⟩ := normalise_ok (h raw (by simp))
    obtain ⟨reply', t', hstore, -, event, horigin, -, -, hevents⟩ :=
      store_events clock htakes i reply t
    have htail := ih (fun raw' hraw' => h raw' (List.mem_cons_of_mem _ hraw')) (i + 1) reply' t'
    rw [addedBy_stored hevents, horigin] at htail
    rw [pushFrom, hbody]
    dsimp only
    rw [hstore]
    refine ⟨htail.1, htail.2.trans ?_⟩
    split_ifs <;> omega

/-- A push of which some event is refused is rejected. -/
theorem pushFrom_bad (h : ∃ raw ∈ events, Refused takes actor clock raw) (i : ℕ)
    (reply : PushReply) (t : SyncTables) :
    ∃ e, (pushFrom takes actor clock i events reply t).1 = .error e := by
  induction events generalizing i reply t with
  | nil => simp at h
  | cons raw events ih =>
    rw [pushFrom]
    by_cases hraw : Refused takes actor clock raw
    · rcases normalise_refused hraw with ⟨e, he⟩ | ⟨body, hbody, htakes⟩
      · rw [he]
        exact ⟨e, rfl⟩
      · obtain ⟨t', hstore, -⟩ := store_refused clock htakes i reply t
        rw [hbody]
        dsimp only
        rw [hstore]
        exact ⟨_, rfl⟩
    · obtain ⟨body, hbody, htakes⟩ := normalise_ok hraw
      obtain ⟨reply', t', hstore, -⟩ := store_events clock htakes i reply t
      have hrest : ∃ raw ∈ events, Refused takes actor clock raw := by simpa [hraw] using h
      rw [hbody]
      dsimp only
      rw [hstore]
      exact ih hrest _ _ _

/-! ## Calls and retries -/

/-- A call that is refused keeps both logs, exactly for the lists whose first event is refused or
none is. -/
theorem rejected_keeps_iff (t : SyncTables) :
    (∀ e t', pushEvents takes actor clock events t = (.error e, t') → LogsKept t t') ↔
      RefusedFirst takes actor clock events := by
  cases events with
  | nil =>
    constructor
    · intro _ first hfirst
      cases hfirst
    · intro _ e t' h
      cases h
  | cons raw events =>
    by_cases hraw : Refused takes actor clock raw
    · constructor
      · intro _ first hfirst hgood
        cases hfirst
        exact absurd hraw hgood
      · intro _ e t' h
        obtain ⟨e', t'', he', hkept⟩ := pushEvents_refused hraw events t
        rw [he'] at h
        cases h
        exact hkept
    · constructor
      · intro hkept first hfirst _
        by_contra hbad
        simp only [not_forall, not_not] at hbad
        obtain ⟨bad, hmem, hbad⟩ := hbad
        obtain ⟨e, he⟩ := pushFrom_bad ⟨bad, hmem, hbad⟩ 0 {} t
        have hlen := length_pushEvents hraw events t
        have hsame := (hkept e _ (Prod.ext he rfl)).1
        rw [hsame] at hlen
        exact lt_irrefl _ hlen
      · intro hfirst e t' h
        have hgood := hfirst raw rfl hraw
        obtain ⟨⟨reply, hreply⟩, -⟩ := pushFrom_good hgood 0 0 {} t
        unfold pushEvents at h
        rw [h] at hreply
        cases hreply

/-- Over a round of the push loop, a row adds one event to the log when the attempt succeeds and
none when it does not. -/
theorem round_law {s : PushLoop} (h : ∀ clock, RefusedFirst takes actor clock s.unpushed)
    (a : Attempt) (row : ℕ) :
    (∀ clock, RefusedFirst takes actor clock (s.round takes actor a).unpushed) ∧
      addedBy row (s.round takes actor a).tables + s.succeeded ≤
        addedBy row s.tables + (s.round takes actor a).succeeded := by
  unfold PushLoop.round
  by_cases hskip : s.unpushed = [] ∨ a.reaches = false
  · rw [if_pos hskip]
    exact ⟨h, le_rfl⟩
  · rw [if_neg hskip]
    cases hevents : s.unpushed with
    | nil => simp [hevents] at hskip
    | cons raw events =>
      rw [hevents] at h
      by_cases hraw : Refused takes actor a.clock raw
      · obtain ⟨e, t', he, hkept⟩ := pushEvents_refused hraw events s.tables
        rw [he]
        refine ⟨h, ?_⟩
        unfold addedBy
        rw [hkept.1]
      · have hgood := h a.clock raw rfl hraw
        obtain ⟨⟨reply, hreply⟩, hcount⟩ := pushFrom_good hgood row 0 {} s.tables
        have hpush : pushEvents takes actor a.clock (raw :: events) s.tables =
            (.ok reply, (pushEvents takes actor a.clock (raw :: events) s.tables).2) :=
          Prod.ext hreply rfl
        rw [hpush]
        dsimp only
        constructor
        · intro clock
          split_ifs
          · intro first hfirst
            cases hfirst
          · exact h clock
        · rw [if_pos (Nat.zero_le row)] at hcount
          unfold pushEvents
          omega

/-- The law of one round holds of every sequence of rounds. -/
theorem rounds_law {s : PushLoop} (h : ∀ clock, RefusedFirst takes actor clock s.unpushed)
    (attempts : List Attempt) (row : ℕ) :
    addedBy row (s.rounds takes actor attempts).tables + s.succeeded ≤
      addedBy row s.tables + (s.rounds takes actor attempts).succeeded := by
  unfold PushLoop.rounds
  induction attempts generalizing s with
  | nil => exact le_rfl
  | cons a attempts ih =>
    obtain ⟨hfirst, hround⟩ := round_law h a row
    have hrest := ih hfirst
    rw [List.foldl_cons]
    omega

/-- The revisions of at most 38 digits, which is what boto3 takes. -/
private def shortRevision (b : SyncBody) : Bool := b.revision.natAbs < 10 ^ 38

private def ownWrite : WireEvent where
  table := some "templates"
  id := some "7"
  actor := some "operator"

private def otherWrite : WireEvent := { ownWrite with actor := some "client" }

/-- A revision that is a JSON number of 51 digits. -/
private def longWrite : WireEvent := { ownWrite with revision := .value (10 ^ 50) }

end Mailman.Analysis
