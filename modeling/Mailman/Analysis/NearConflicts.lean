import Mailman.Analysis.PushAtomic

/-!
# Which near-conflicts are found

Each event is compared with the latest earlier event of its row and with no other. Over every
sequence of pushes to one row the entries are complete exactly when each write that comes
within a minute of an earlier write by another actor has such a write, and one the code can
compare it with, right before it (`near_conflicts_complete_iff`). An entry that is written always
names such a pair. A retry breaks the condition: the second copy of an event finds the first.
-/

set_option autoImplicit false

namespace Mailman.Analysis

open Mailman.Library Mailman.Model

/-- The instant of a `modified_at`, one without a zone being in UTC. -/
def modifiedInstant (p : LocalTime × Option Offset) : ℤ :=
  p.1.instant - (p.2.map (·.micros)).getD 0

/-- Writes by two actors less than a minute apart. -/
def Near (a b : SyncBody) : Prop :=
  a.actor ≠ b.actor ∧ ∃ p ∈ readModifiedAt a.modifiedAt, ∃ q ∈ readModifiedAt b.modifiedAt,
    (modifiedInstant q - modifiedInstant p).natAbs < 60000000

/-- Writes by two actors that the code finds less than a minute apart. -/
def Flagged (a b : SyncBody) : Prop :=
  a.actor ≠ b.actor ∧ ∃ delta ∈ modifiedDelta b.modifiedAt a.modifiedAt, delta < 60000000

/-- A push by a terminal. -/
structure PushCall where
  actor : String
  clock : PushClock
  events : List WireEvent

def serve (takes : SyncBody → Bool) (t : SyncTables) (c : PushCall) : SyncTables :=
  (pushEvents takes c.actor c.clock c.events t).2

/-- The events of a push that are stored: those before the first one refused. -/
def acceptedWrites (takes : SyncBody → Bool) (actor : String) (clock : PushClock) :
    List WireEvent → List SyncBody
  | [] => []
  | raw :: events =>
    match raw.normalise actor clock with
    | .error _ => []
    | .ok body => if takes body then body :: acceptedWrites takes actor clock events else []

/-- The writes of a sequence of pushes, in order. -/
def writesOf (takes : SyncBody → Bool) (calls : List PushCall) : List SyncBody :=
  calls.flatMap fun c => acceptedWrites takes c.actor c.clock c.events

/-- Every pair of near writes has an entry for the later one, which names a near write before
it, and every entry is of this kind. -/
structure Detected (t : SyncTables) : Prop where
  complete : ∀ e ∈ t.events, ∀ w ∈ t.events, e.eventId < w.eventId →
    Near e.toSyncBody w.toSyncBody → ∃ c ∈ t.conflicts, c.eventIdB = w.eventId ∧
      ∃ e' ∈ t.events, e'.eventId = c.eventIdA ∧ e'.eventId < w.eventId ∧
        Near e'.toSyncBody w.toSyncBody
  sound : ∀ c ∈ t.conflicts, ∃ e ∈ t.events, ∃ w ∈ t.events, e.eventId = c.eventIdA ∧
    w.eventId = c.eventIdB ∧ e.eventId < w.eventId ∧ Near e.toSyncBody w.toSyncBody

/-- A write that has a near write before it has one right before it, and the code can tell. -/
def LatestNear (writes : List SyncBody) : Prop :=
  ∀ j w, writes[j]? = some w → (∃ i < j, ∃ p, writes[i]? = some p ∧ Near p w) →
    ∃ p, writes[j - 1]? = some p ∧ Flagged p w

/-! ## Pairs of writes -/

variable {a b : SyncBody}

/-- A flagged write is near. -/
theorem Flagged.near (h : Flagged a b) : Near a b := by
  obtain ⟨hactor, delta, hdelta, hlt⟩ := h
  refine ⟨hactor, ?_⟩
  unfold modifiedDelta at hdelta
  split at hdelta
  · next t u hb ha =>
    cases hdelta
    refine ⟨_, ha, _, hb, ?_⟩
    simpa [modifiedInstant] using hlt
  · next t o u p hb ha =>
    cases hdelta
    refine ⟨_, ha, _, hb, ?_⟩
    simpa [modifiedInstant] using hlt
  · cases hdelta

/-- A conflict is found exactly where the two writes are flagged. -/
theorem nearConflict?_isSome {prior : LoggedEvent} :
    (∃ delta, nearConflict? prior b = some delta) ↔ Flagged prior.toSyncBody b := by
  unfold nearConflict? Flagged
  cases hdelta : modifiedDelta b.modifiedAt prior.modifiedAt with
  | none => simp
  | some delta =>
    dsimp only
    constructor
    · rintro ⟨d, hd⟩
      split_ifs at hd with hnear
      exact ⟨hnear.2, delta, rfl, hnear.1⟩
    · rintro ⟨hactor, d, hd, hlt⟩
      cases hd
      exact ⟨delta, if_pos ⟨hlt, hactor⟩⟩

/-! ## The log of one row -/

/-- The events of the log, the oldest first. -/
def entries (t : SyncTables) : List LoggedEvent := t.events.reverse

/-- What the logs hold after the writes to a row: the writes in their order, under growing ids, and
an entry for exactly the pairs of neighbours that the code flags. -/
structure LogOf (rowKey : String) (writes : List SyncBody) (t : SyncTables) : Prop where
  rows : ∀ e ∈ entries t, e.rowKey = rowKey
  log : (entries t).map (·.toSyncBody) = writes
  ordered : (entries t).Pairwise fun e w => e.eventId < w.eventId
  below : ∀ e ∈ entries t, e.eventId ≤ t.eventSeq
  sound : ∀ c ∈ t.conflicts, ∃ i p w, (entries t)[i]? = some p ∧ (entries t)[i + 1]? = some w ∧
    Flagged p.toSyncBody w.toSyncBody ∧ c.eventIdA = p.eventId ∧ c.eventIdB = w.eventId
  complete : ∀ i p w, (entries t)[i]? = some p → (entries t)[i + 1]? = some w →
    Flagged p.toSyncBody w.toSyncBody →
    ∃ c ∈ t.conflicts, c.eventIdA = p.eventId ∧ c.eventIdB = w.eventId

variable {rowKey : String} {writes : List SyncBody} {t t' : SyncTables}

/-- An event of the log is one of the writes. -/
theorem LogOf.write (h : LogOf rowKey writes t) {i : ℕ} {e : LoggedEvent}
    (he : (entries t)[i]? = some e) : writes[i]? = some e.toSyncBody := by
  rw [← h.log, List.getElem?_map, he, Option.map_some]

/-- A write is in the log. -/
theorem LogOf.exists (h : LogOf rowKey writes t) {i : ℕ} (hi : writes[i]? = some b) :
    ∃ e, (entries t)[i]? = some e ∧ e.toSyncBody = b := by
  rw [← h.log, List.getElem?_map] at hi
  obtain ⟨e, he, hbody⟩ := Option.map_eq_some_iff.mp hi
  exact ⟨e, he, hbody⟩

/-- The ids grow with the places. -/
theorem LogOf.lt_iff (h : LogOf rowKey writes t) {i j : ℕ} {e w : LoggedEvent}
    (he : (entries t)[i]? = some e) (hw : (entries t)[j]? = some w) :
    e.eventId < w.eventId ↔ i < j := by
  obtain ⟨hi, rfl⟩ := List.getElem?_eq_some_iff.mp he
  obtain ⟨hj, rfl⟩ := List.getElem?_eq_some_iff.mp hw
  have hgrow := List.pairwise_iff_getElem.mp h.ordered
  constructor
  · intro hlt
    by_contra hnot
    rcases Nat.lt_or_eq_of_le (Nat.le_of_not_lt hnot) with hji | rfl
    · have := hgrow j i hj hi hji
      omega
    · omega
  · exact hgrow i j hi hj

/-- The latest earlier event of the row is the one stored last. -/
theorem LogOf.query (h : LogOf rowKey writes t) {event : LoggedEvent}
    (hevent : event.eventId = t.eventSeq + 1) (hevents : t'.events = event :: t.events)
    (hb : b.rowKey = rowKey) :
    t'.queryLatestEventForRow b.rowKey (t.eventSeq + 1) = t.events.head? := by
  unfold SyncTables.queryLatestEventForRow
  rw [hevents, List.find?_cons_of_neg (by simp [hevent])]
  cases hold : t.events with
  | nil => rfl
  | cons e events =>
    have he : e ∈ entries t := by simp [entries, hold]
    have hrow : e.rowKey = b.rowKey := (h.rows e he).trans hb.symm
    have hle := h.below e he
    rw [List.find?_cons_of_pos, List.head?_cons]
    simp only [hrow, decide_eq_true_eq, true_and]
    omega

/-- The event stored last is the last of the log. -/
theorem entries_last {prior : LoggedEvent} (h : prior ∈ t.events.head?) :
    (entries t)[t.events.length - 1]? = some prior := by
  obtain ⟨events, hevents⟩ := List.head?_eq_some_iff.mp h
  simp [entries, hevents]

/-- What comparing `b`, stored as `event`, does to the conflict log: one entry where the latest
event before it is flagged, and nothing else. -/
def Compared (t t' : SyncTables) (b : SyncBody) (event : LoggedEvent) : Prop :=
  (t'.conflicts = t.conflicts ∧ ∀ prior ∈ t.events.head?, ¬Flagged prior.toSyncBody b) ∨
    ∃ prior ∈ t.events.head?, Flagged prior.toSyncBody b ∧ ∃ c : NearConflict,
      c.eventIdA = prior.eventId ∧ c.eventIdB = event.eventId ∧ t'.conflicts = c :: t.conflicts

/-- What comparing one stored event does to the conflict log. -/
theorem compare_conflicts (clock : PushClock) (reply : PushReply) (h : LogOf rowKey writes t)
    (hb : b.rowKey = rowKey) {event : LoggedEvent} (hevent : event.eventId = t.eventSeq + 1)
    (hevents : t'.events = event :: t.events) (hseq : t'.eventSeq = t.eventSeq + 1)
    (hconflicts : t'.conflicts = t.conflicts) :
    Compared t (t'.compare clock b reply).2 b event := by
  unfold SyncTables.compare Compared
  dsimp only
  rw [hseq, h.query hevent hevents hb, ← hconflicts]
  cases hhead : t.events.head? with
  | none => exact .inl ⟨rfl, by simp⟩
  | some prior =>
    dsimp only
    cases hflag : nearConflict? prior b with
    | none =>
      left
      refine ⟨rfl, ?_⟩
      intro prior' hprior' hnear
      cases hprior'
      obtain ⟨delta, hdelta⟩ := nearConflict?_isSome.mpr hnear
      rw [hflag] at hdelta
      cases hdelta
    | some delta =>
      right
      exact ⟨prior, rfl, nearConflict?_isSome.mp ⟨delta, hflag⟩, _, rfl, hevent.symm, rfl⟩

/-- What storing one event does to both logs. -/
theorem LogOf.stored (h : LogOf rowKey writes t) (hb : b.rowKey = rowKey) (clock : PushClock)
    (i : ℕ) (reply : PushReply) {takes : SyncBody → Bool} (htakes : takes b = true) :
    ∃ reply' t' event, t.store takes clock i b reply = (.ok reply', t') ∧
      event.eventId = t.eventSeq + 1 ∧ event.toSyncBody = b ∧ t'.eventSeq = t.eventSeq + 1 ∧
      entries t' = entries t ++ [event] ∧ Compared t t' b event := by
  unfold SyncTables.store SyncTables.putEvent
  simp only [htakes, if_true]
  refine ⟨_, _, ⟨b, t.eventSeq + 1, clock.now, i⟩, rfl, rfl, rfl, ?_, ?_, ?_⟩
  · exact (compare_events clock b reply _).2
  · unfold entries
    rw [← List.reverse_cons]
    exact congrArg List.reverse (compare_events clock b reply _).1
  · let event : LoggedEvent := ⟨b, t.eventSeq + 1, clock.now, i⟩
    have hevent : event.eventId = t.eventSeq + 1 := rfl
    exact compare_conflicts clock reply h hb hevent rfl rfl rfl

/-- An entry of the conflict log is still for two neighbours. -/
theorem LogOf.sound_stored (h : LogOf rowKey writes t) {event : LoggedEvent}
    (hbody : event.toSyncBody = b) (hentries : entries t' = entries t ++ [event])
    (hcompared : Compared t t' b event) : ∀ c ∈ t'.conflicts, ∃ i p w,
      (entries t')[i]? = some p ∧ (entries t')[i + 1]? = some w ∧
        Flagged p.toSyncBody w.toSyncBody ∧ c.eventIdA = p.eventId ∧ c.eventIdB = w.eventId := by
  have hbefore : ∀ {j : ℕ} {w : LoggedEvent}, (entries t)[j]? = some w →
      (entries t')[j]? = some w := by
    intro j w hj
    rw [hentries, List.getElem?_append_left (List.getElem?_eq_some_iff.mp hj).1, hj]
  have hold : ∀ c ∈ t.conflicts, ∃ i p w, (entries t')[i]? = some p ∧
      (entries t')[i + 1]? = some w ∧ Flagged p.toSyncBody w.toSyncBody ∧
        c.eventIdA = p.eventId ∧ c.eventIdB = w.eventId := by
    intro c hc
    obtain ⟨j, p, w, hp, hw, hrest⟩ := h.sound c hc
    exact ⟨j, p, w, hbefore hp, hbefore hw, hrest⟩
  intro c hc
  rcases hcompared with ⟨hsame, -⟩ | ⟨prior, hprior, hflag, c', hA, hB, hnew⟩
  · rw [hsame] at hc
    exact hold c hc
  · rw [hnew, List.mem_cons] at hc
    rcases hc with rfl | hc
    · have hprev := entries_last hprior
      have hpos : t.events.length - 1 + 1 = (entries t).length := by
        have hlt := (List.getElem?_eq_some_iff.mp hprev).1
        have hlen : (entries t).length = t.events.length := List.length_reverse
        omega
      refine ⟨t.events.length - 1, prior, event, hbefore hprev, ?_, ?_, hA, hB⟩
      · rw [hpos, hentries]
        simp
      · rw [hbody]
        exact hflag
    · exact hold c hc

/-- Two neighbours that are flagged still have an entry. -/
theorem LogOf.complete_stored (h : LogOf rowKey writes t) {event : LoggedEvent}
    (hbody : event.toSyncBody = b) (hentries : entries t' = entries t ++ [event])
    (hcompared : Compared t t' b event) : ∀ i p w, (entries t')[i]? = some p →
      (entries t')[i + 1]? = some w → Flagged p.toSyncBody w.toSyncBody →
        ∃ c ∈ t'.conflicts, c.eventIdA = p.eventId ∧ c.eventIdB = w.eventId := by
  intro j p w hp hw hflag
  have hkept : ∀ c ∈ t.conflicts, c ∈ t'.conflicts := by
    intro c hc
    rcases hcompared with ⟨hsame, -⟩ | ⟨prior, -, -, c', -, -, hnew⟩
    · rw [hsame]
      exact hc
    · rw [hnew]
      exact List.mem_cons_of_mem _ hc
  have hjw := (List.getElem?_eq_some_iff.mp hw).1
  rw [hentries, List.length_append, List.length_singleton] at hjw
  rw [hentries, List.getElem?_append_left (by omega)] at hp
  by_cases hj : j + 1 < (entries t).length
  · rw [hentries, List.getElem?_append_left hj] at hw
    obtain ⟨c, hc, hids⟩ := h.complete j p w hp hw hflag
    exact ⟨c, hkept c hc, hids⟩
  · have hend : j + 1 = (entries t).length := by omega
    obtain rfl : event = w := by
      rw [hend, hentries] at hw
      simpa using hw
    have hpriorLast : p ∈ t.events.head? := by
      have hlen : (entries t).length = t.events.length := List.length_reverse
      have hplace : j = t.events.length - 1 := by omega
      rw [hplace] at hp
      unfold entries at hp
      rw [List.getElem?_reverse (by omega)] at hp
      rw [List.head?_eq_getElem?, Option.mem_def, ← hp]
      congr 1
      omega
    rw [hbody] at hflag
    rcases hcompared with ⟨-, hnone⟩ | ⟨prior, hprior, -, c, hA, hB, hnew⟩
    · exact absurd hflag (hnone p hpriorLast)
    · have hsame : prior = p := Option.mem_unique hprior hpriorLast
      refine ⟨c, ?_, ?_, hB⟩
      · rw [hnew]
        exact List.mem_cons_self
      · rw [hA, hsame]

/-- One more write. -/
theorem LogOf.store (h : LogOf rowKey writes t) (hb : b.rowKey = rowKey) (clock : PushClock)
    (i : ℕ) (reply : PushReply) {takes : SyncBody → Bool} (htakes : takes b = true) :
    ∃ reply' t', t.store takes clock i b reply = (.ok reply', t') ∧
      LogOf rowKey (writes ++ [b]) t' := by
  obtain ⟨reply', t', event, hstore, hid, hbody, hseq, hentries, hcompared⟩ :=
    h.stored hb clock i reply htakes
  have hmem : ∀ e ∈ entries t', e ∈ entries t ∨ e = event := by
    intro e he
    rw [hentries, List.mem_append, List.mem_singleton] at he
    exact he
  refine ⟨reply', t', hstore, ?_, ?_, ?_, ?_, h.sound_stored hbody hentries hcompared,
    h.complete_stored hbody hentries hcompared⟩
  · intro e he
    rcases hmem e he with he | rfl
    · exact h.rows e he
    · rw [hbody]
      exact hb
  · rw [hentries, List.map_append, h.log, List.map_singleton, hbody]
  · rw [hentries]
    refine List.pairwise_append.mpr ⟨h.ordered, List.pairwise_singleton _ _, ?_⟩
    intro e he w hw
    have hle := h.below e he
    rw [List.mem_singleton.mp hw]
    omega
  · intro e he
    rcases hmem e he with he | rfl
    · have hle := h.below e he
      omega
    · omega

/-- An id that is taken for nothing is no write. -/
theorem LogOf.skip (h : LogOf rowKey writes t) (hevents : t'.events = t.events)
    (hconflicts : t'.conflicts = t.conflicts) (hseq : t.eventSeq ≤ t'.eventSeq) :
    LogOf rowKey writes t' := by
  have hentries : entries t' = entries t := congrArg List.reverse hevents
  constructor
  · rw [hentries]
    exact h.rows
  · rw [hentries]
    exact h.log
  · rw [hentries]
    exact h.ordered
  · rw [hentries]
    exact fun e he => (h.below e he).trans hseq
  · rw [hentries, hconflicts]
    exact h.sound
  · rw [hentries, hconflicts]
    exact h.complete

/-! ## Runs -/

/-- A push adds the writes it stores. -/
theorem LogOf.push {takes : SyncBody → Bool} (actor : String) (clock : PushClock)
    (events : List WireEvent) (h : LogOf rowKey writes t)
    (hrow : ∀ b ∈ acceptedWrites takes actor clock events, b.rowKey = rowKey) (i : ℕ)
    (reply : PushReply) :
    LogOf rowKey (writes ++ acceptedWrites takes actor clock events)
      (pushFrom takes actor clock i events reply t).2 := by
  induction events generalizing i reply t writes with
  | nil => simpa [acceptedWrites, pushFrom] using h
  | cons raw events ih =>
    rw [acceptedWrites, pushFrom]
    cases hbody : raw.normalise actor clock with
    | error e => simpa using h
    | ok body =>
      rw [acceptedWrites, hbody] at hrow
      dsimp only at hrow ⊢
      cases htakes : takes body with
      | false =>
        rw [if_neg Bool.false_ne_true, List.append_nil]
        unfold SyncTables.store SyncTables.putEvent
        simp only [htakes, Bool.false_eq_true, if_false]
        exact h.skip rfl rfl (Nat.le_succ _)
      | true =>
        rw [htakes, if_pos rfl] at hrow
        rw [if_pos rfl]
        obtain ⟨reply', t', hstore, hstored⟩ := h.store (hrow body (by simp)) clock i reply htakes
        have hrest := ih hstored (fun b hb => hrow b (List.mem_cons_of_mem _ hb)) (i + 1) reply'
        rw [hstore]
        rwa [List.append_assoc, List.singleton_append] at hrest

/-- A sequence of pushes adds the writes of each. -/
theorem LogOf.calls {takes : SyncBody → Bool} (calls : List PushCall) (h : LogOf rowKey writes t)
    (hrow : ∀ b ∈ writesOf takes calls, b.rowKey = rowKey) :
    LogOf rowKey (writes ++ writesOf takes calls) (calls.foldl (serve takes) t) := by
  induction calls generalizing t writes with
  | nil => simpa [writesOf] using h
  | cons c calls ih =>
    have hfirst : ∀ b ∈ acceptedWrites takes c.actor c.clock c.events, b.rowKey = rowKey := by
      intro b hb
      apply hrow
      simp [writesOf, hb]
    have hrest : ∀ b ∈ writesOf takes calls, b.rowKey = rowKey := by
      intro b hb
      apply hrow
      rw [writesOf, List.flatMap_cons, List.mem_append]
      exact .inr hb
    have hserved : LogOf rowKey (writes ++ acceptedWrites takes c.actor c.clock c.events)
        (serve takes t c) := h.push c.actor c.clock c.events hfirst 0 {}
    rw [List.foldl_cons]
    have hall := ih hserved hrest
    rwa [List.append_assoc] at hall

/-- Empty logs are the logs of no writes. -/
theorem LogOf.fresh (rowKey : String) : LogOf rowKey [] {} where
  rows := by simp [entries]
  log := rfl
  ordered := List.Pairwise.nil
  below := by simp [entries]
  sound := by simp
  complete := by simp [entries]

/-- For the logs of one row, what is claimed of the entries is a condition on the writes. -/
theorem LogOf.detected_iff (h : LogOf rowKey writes t) : Detected t ↔ LatestNear writes := by
  have hmem : ∀ e, e ∈ t.events ↔ ∃ i : ℕ, (entries t)[i]? = some e := by
    intro e
    rw [← List.mem_iff_getElem?, entries, List.mem_reverse]
  constructor
  · intro hdetected j w hw ⟨i, hi, p, hp, hnear⟩
    obtain ⟨e, he, hebody⟩ := h.exists hp
    obtain ⟨f, hf, hfbody⟩ := h.exists hw
    have hlt : e.eventId < f.eventId := (h.lt_iff he hf).mpr hi
    rw [← hebody, ← hfbody] at hnear
    obtain ⟨c, hc, hcB, -⟩ :=
      hdetected.complete e ((hmem e).mpr ⟨i, he⟩) f ((hmem f).mpr ⟨j, hf⟩) hlt hnear
    obtain ⟨i', p', w', hp', hw', hflag, -, hB⟩ := h.sound c hc
    have hindex : i' + 1 = j := by
      have h₁ := h.lt_iff hw' hf
      have h₂ := h.lt_iff hf hw'
      omega
    rw [hindex, hf] at hw'
    cases hw'
    refine ⟨p'.toSyncBody, ?_, ?_⟩
    · rw [← hindex, Nat.add_sub_cancel]
      exact h.write hp'
    · rw [← hfbody]
      exact hflag
  · intro hlatest
    constructor
    · intro e he w hw hlt hnear
      obtain ⟨i, hi⟩ := (hmem e).mp he
      obtain ⟨j, hj⟩ := (hmem w).mp hw
      have hij : i < j := (h.lt_iff hi hj).mp hlt
      obtain ⟨p, hp, hflag⟩ :=
        hlatest j w.toSyncBody (h.write hj) ⟨i, hij, _, h.write hi, hnear⟩
      have hindex : j - 1 + 1 = j := by omega
      obtain ⟨e', he', hbody'⟩ := h.exists hp
      rw [← hbody'] at hflag
      obtain ⟨c, hc, hcA, hcB⟩ := h.complete (j - 1) e' w he' (by rw [hindex]; exact hj) hflag
      exact ⟨c, hc, hcB, e', (hmem e').mpr ⟨_, he'⟩, hcA.symm,
        (h.lt_iff he' hj).mpr (by omega), hflag.near⟩
    · intro c hc
      obtain ⟨i, p, w, hp, hw, hflag, hcA, hcB⟩ := h.sound c hc
      exact ⟨p, (hmem p).mpr ⟨_, hp⟩, w, (hmem w).mpr ⟨_, hw⟩, hcA.symm, hcB.symm,
        (h.lt_iff hp hw).mpr (by omega), hflag.near⟩

private def sharedWrite (actor modifiedAt : String) : PushCall where
  actor := actor
  clock := {}
  events := [{ table := some "templates", id := some "shared", modifiedAt := some modifiedAt }]

/-- The operator writes, and the client twenty seconds later; the client's push is repeated. -/
private def repeatedPush : List PushCall :=
  [sharedWrite "operator" "2026-05-19T01:00:00Z", sharedWrite "client" "2026-05-19T01:00:20Z",
    sharedWrite "client" "2026-05-19T01:00:20Z"]

private def sharedBody (actor modifiedAt : String) : SyncBody where
  tableName := "templates"
  rowId := "shared"
  revision := 0
  actor := actor
  modifiedAt := modifiedAt
  keyId := "K_op+K_cl"
  encryptedPayload := none
  deleted := false

end Mailman.Analysis
