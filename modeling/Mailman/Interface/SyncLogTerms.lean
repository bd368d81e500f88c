import Mailman.Model.SyncLog

/-!
# The terms of the event log

What always holds of the log, the outboxes and the inboxes (`HubInv`), and what one request
of program `n` may do to them (`HubStep`, and `SideStep` for one terminal's transaction).
For the terminals in `watched` the invariant also says that nothing of the log lies behind
the cursor unseen and that all of it can be stored; that needs `InOrder` and `LandsStorable` of
every step, which no program can promise.
-/

set_option autoImplicit false

namespace Mailman.Interface

open Mailman.Library Mailman.Model

/-- The event is in the log under this id. -/
def Stored (log : List EventItem) (e : SyncEventIn) (id : ℕ) : Prop :=
  ∃ item ∈ log, item.eventId = id ∧ item.toEventBody = e.body

/-- The same outbox row, whether marked or not. -/
def SameOut (r r' : OutboxRow) : Prop :=
  r'.outboxId = r.outboxId ∧ r'.toEventBody = r.toEventBody

/-- Two inbox rows for one (table, row id, revision). -/
def SameKey (r r' : PulledRow) : Prop :=
  r.tableName = r'.tableName ∧ r.rowId = r'.rowId ∧ r.revision = r'.revision

/-- What always holds of one terminal's tables. -/
structure SideOk (log : List EventItem) (d : SyncSide) : Prop where
  outbox_nodup : (d.outbox.map (·.outboxId)).Nodup
  outbox_le : ∀ r ∈ d.outbox, r.outboxId ≤ d.outbox.length
  pushed : ∀ r ∈ d.outbox, r.pushedAt ≠ none →
    ∃ id, r.assignedEventId = some id ∧ Stored log r.wire id
  distinct : d.inbox.Pairwise fun r r' => ¬ SameKey r r'
  bindable : ∀ r ∈ d.inbox, r.bindable = true
  inbox : ∀ r ∈ d.inbox, ∃ e ∈ log, e.eventId = r.eventId ∧ r.sameKey e = true
  passed : ∀ e ∈ d.passed, ∃ r ∈ d.inbox, r.sameKey e = true

/-- Nothing of the log lies behind the cursor, or within the newest page, unseen, and all of it
can be stored. -/
structure SideFull (log : List EventItem) (d : SyncSide) : Prop where
  storable : ∀ e ∈ log, e.storable = true
  behind : ∀ e ∈ log, e.eventId ≤ d.cursor → e ∈ d.passed
  noGap : ∀ P, d.seen.head? = some P → ∀ e ∈ log,
    e.eventId ≤ d.cursor ∨ e ∈ P ∨ ∀ e' ∈ P, e'.eventId < e.eventId

/-- What always holds. -/
structure HubInv (watched : Actor → Prop) (s : SyncHub) : Prop where
  log_nodup : (s.log.map (·.eventId)).Nodup
  owned : ∀ k, s.owner k ≠ none → k ≤ s.seq
  log_owned : ∀ e ∈ s.log, s.owner e.eventId ≠ none
  replies : ∀ k ids, s.replies k = some ids → ∃ a events, s.requests[k]? = some (a, events) ∧
    List.Forall₂ (Stored s.log) events ids
  side : ∀ a, SideOk s.log (s.side a)
  full : ∀ a, watched a → SideFull s.log (s.side a)

/-- The pages that terminal `a` was served in this step. -/
def newPages (a : Actor) (s t : SyncHub) : List (List EventItem) :=
  (t.side a).seen.take ((t.side a).seen.length - (s.side a).seen.length)

/-- In this step no item lands at or below the cursor of terminal `a` or an id of the page it was
served last, and no page is served to it that misses an item before its last one. -/
def InOrder (a : Actor) (s t : SyncHub) : Prop :=
  (∀ e ∈ t.log, e ∉ s.log → (s.side a).cursor < e.eventId ∧
    ∀ P ∈ (s.side a).seen.head?, ∀ e' ∈ P, e'.eventId < e.eventId) ∧
  ∀ P ∈ newPages a s t, ∀ e ∈ s.log, (s.side a).cursor < e.eventId →
    (∃ e' ∈ P, e.eventId ≤ e'.eventId) → e ∈ P

instance (a : Actor) (s t : SyncHub) : Decidable (InOrder a s t) :=
  inferInstanceAs (Decidable ((∀ e ∈ t.log, _) ∧ _))

/-- An item that lands in this step has a key and a revision that SQLite can bind, and no null where
the inbox takes none. -/
def LandsStorable (s t : SyncHub) : Prop := ∀ e ∈ t.log, e ∉ s.log → e.storable = true

instance (s t : SyncHub) : Decidable (LandsStorable s t) :=
  inferInstanceAs (Decidable (∀ e ∈ t.log, _))

/-- What one transaction of a terminal may do; `pulls` when it belongs to its pull loop. -/
inductive SideStep (pulls : Prop) (log : List EventItem) (d : SyncSide) : SyncSide → Prop where
  | enqueue (body : EventBody) :
      SideStep pulls log d
        { d with outbox := d.outbox ++ [{ toEventBody := body, outboxId := d.outbox.length + 1 }] }
  | pushed (nowText : String) (marks : List (ℕ × ℕ))
      (h : ∀ mark ∈ marks, ∀ r ∈ d.outbox, r.outboxId = mark.1 → Stored log r.wire mark.2) :
      SideStep pulls log d (d.markOutboxPushed nowText marks)
  | serve (P : List EventItem) (h : pulls) : SideStep pulls log d { d with seen := P :: d.seen }
  | store (e : EventItem) (inbox : List PulledRow) (he : e ∈ log)
      (h : storeEvent d.inbox e = some inbox) :
      SideStep pulls log d { d with inbox := inbox, passed := e :: d.passed }
  | advance (P : List EventItem) (last : EventItem) (h : pulls) (hP : d.seen.head? = some P)
      (hlast : last ∈ P) (hle : ∀ e ∈ P, e.eventId ≤ last.eventId)
      (hpassed : ∀ e ∈ P, e ∈ d.passed) (hcursor : d.cursor ≤ last.eventId) :
      SideStep pulls log d { d with cursor := last.eventId }
  | mark (eventId : ℕ) (nowText : String) :
      SideStep pulls log d { d with inbox := updateRows d.inbox (·.eventId = eventId) fun r =>
        { r with materialisedAt := some nowText } }

/-- What one request of program `n` may do. -/
inductive HubStep (n : ℕ) (s : SyncHub) : SyncHub → Prop where
  | stay : HubStep n s s
  | take : HubStep n s
      { s with seq := s.seq + 1, owner := Function.update s.owner (s.seq + 1) (some n) }
  | append (e : EventItem) (hn : s.owner e.eventId = some n)
      (hnew : ∀ e' ∈ s.log, e'.eventId ≠ e.eventId) : HubStep n s { s with log := e :: s.log }
  | request (r : Actor × List SyncEventIn) : HubStep n s { s with requests := s.requests ++ [r] }
  | reply (k : ℕ) (ids : List ℕ) (a : Actor) (events : List SyncEventIn)
      (hk : s.requests[k]? = some (a, events)) (h : List.Forall₂ (Stored s.log) events ids) :
      HubStep n s { s with replies := Function.update s.replies k (some ids) }
  | side (a : Actor) (d : SyncSide) (h : SideStep (n = pullNumber a) s.log (s.side a) d) :
      HubStep n s (s.setSide a fun _ => d)

/-- What a waiting program may rely on for one terminal's tables. -/
structure SideLater (pulls : Prop) (d d' : SyncSide) : Prop where
  outbox : ∀ r ∈ d.outbox, ∃ r' ∈ d'.outbox, SameOut r r'
  passed : ∀ e ∈ d.passed, e ∈ d'.passed
  pull : pulls → d'.cursor = d.cursor ∧ d'.seen = d.seen
  cursor : d.cursor ≤ d'.cursor

/-- What program `n` may rely on while it waits. -/
structure HubRely (n : ℕ) (s t : SyncHub) : Prop where
  log : ∀ e ∈ s.log, e ∈ t.log
  own : ∀ k, s.owner k = some n → t.owner k = some n ∧
    ((∀ e ∈ s.log, e.eventId ≠ k) → ∀ e ∈ t.log, e.eventId ≠ k)
  requests : s.requests <+: t.requests
  side : ∀ a, SideLater (n = pullNumber a) (s.side a) (t.side a)

/-- A row of the outbox says what it says. -/
theorem SameOut.refl (r : OutboxRow) : SameOut r r := ⟨rfl, rfl⟩

/-- Saying the same is transitive. -/
theorem SameOut.trans {r r' r'' : OutboxRow} (h : SameOut r r') (h' : SameOut r' r'') :
    SameOut r r'' := ⟨h'.1.trans h.1, h'.2.trans h.2⟩

/-- Rows that say the same are the same on the wire. -/
theorem SameOut.wire {r r' : OutboxRow} (h : SameOut r r') : r'.wire = r.wire := by
  simp [OutboxRow.wire, h.2]

/-- What is stored stays stored. -/
theorem Stored.mono {log log' : List EventItem} (hlog : ∀ e ∈ log, e ∈ log') {e : SyncEventIn}
    {id : ℕ} (h : Stored log e id) : Stored log' e id := by
  obtain ⟨item, hitem, heq⟩ := h
  exact ⟨item, hlog item hitem, heq⟩

/-! ## Marking the outbox -/

/-- One mark of `_mark_outbox_pushed`. -/
theorem mem_markOut {nowText : String} {mark : ℕ × ℕ} {rows : List OutboxRow} {r' : OutboxRow} :
    r' ∈ updateRows rows (·.outboxId = mark.1) (fun r =>
      { r with pushedAt := some nowText, assignedEventId := some mark.2 }) →
    ∃ r ∈ rows, SameOut r r' ∧
      (r' = r ∨ r.outboxId = mark.1 ∧ r'.assignedEventId = some mark.2) := by
  intro h
  obtain ⟨r, hr, heq⟩ := mem_updateRows.mp h
  by_cases hid : r.outboxId = mark.1
  · simp only [hid, decide_true, if_true] at heq
    subst heq
    exact ⟨r, hr, ⟨hid.symm ▸ rfl, rfl⟩, .inr ⟨hid, rfl⟩⟩
  · simp only [hid, decide_false, Bool.false_eq_true, if_false] at heq
    subst heq
    exact ⟨r, hr, .refl r, .inl rfl⟩

/-- After all marks every row is an old one, unchanged or marked by one of them. -/
theorem mem_markOutboxPushed {nowText : String} {marks : List (ℕ × ℕ)} {d : SyncSide}
    {r' : OutboxRow} (h : r' ∈ (d.markOutboxPushed nowText marks).outbox) :
    ∃ r ∈ d.outbox, SameOut r r' ∧
      (r' = r ∨ ∃ mark ∈ marks, r.outboxId = mark.1 ∧ r'.assignedEventId = some mark.2) := by
  obtain ⟨outbox, inbox, cursor, seen, passed⟩ := d
  simp only [SyncSide.markOutboxPushed] at h ⊢
  induction marks generalizing outbox with
  | nil => exact ⟨r', h, .refl r', .inl rfl⟩
  | cons mark marks ih =>
    obtain ⟨r₁, hr₁, hsame₁, hlast⟩ := ih _ h
    obtain ⟨r, hr, hsame, hfirst⟩ := mem_markOut hr₁
    refine ⟨r, hr, hsame.trans hsame₁, ?_⟩
    rcases hlast with rfl | ⟨mark', hmark', hid, hassigned⟩
    · rcases hfirst with rfl | ⟨hid, hassigned⟩
      · exact .inl rfl
      · exact .inr ⟨mark, List.mem_cons_self .., hid, hassigned⟩
    · exact .inr ⟨mark', List.mem_cons_of_mem _ hmark', hsame.1 ▸ hid, hassigned⟩

/-- An update that keeps a field keeps its list. -/
theorem updateRows_map {α β : Type} {rows : List α} {p : α → Bool} {f : α → α} {g : α → β}
    (h : ∀ r ∈ rows, g (f r) = g r) : (updateRows rows p f).map g = rows.map g := by
  unfold updateRows
  rw [List.map_map]
  refine List.map_congr_left fun r hr => ?_
  simp only [Function.comp_apply]
  split
  · exact h r hr
  · rfl

/-- Marking rows as pushed keeps their ids. -/
theorem markOutboxPushed_ids (nowText : String) (marks : List (ℕ × ℕ)) (d : SyncSide) :
    (d.markOutboxPushed nowText marks).outbox.map (·.outboxId) = d.outbox.map (·.outboxId) := by
  obtain ⟨outbox, inbox, cursor, seen, passed⟩ := d
  simp only [SyncSide.markOutboxPushed]
  induction marks generalizing outbox with
  | nil => rfl
  | cons mark marks ih =>
    rw [List.foldl_cons, ih]
    exact updateRows_map fun _ _ => rfl

/-- Every row is still there after the marks. -/
theorem exists_markOutboxPushed (nowText : String) (marks : List (ℕ × ℕ)) {d : SyncSide}
    {r : OutboxRow} (h : r ∈ d.outbox) :
    ∃ r' ∈ (d.markOutboxPushed nowText marks).outbox, SameOut r r' := by
  obtain ⟨outbox, inbox, cursor, seen, passed⟩ := d
  simp only [SyncSide.markOutboxPushed] at h ⊢
  induction marks generalizing outbox r with
  | nil => exact ⟨r, h, .refl r⟩
  | cons mark marks ih =>
    obtain ⟨r', hr', hsame⟩ := ih _ (mem_updateRows.mpr ⟨r, h, rfl⟩)
    refine ⟨r', hr', SameOut.trans ?_ hsame⟩
    split <;> exact ⟨rfl, rfl⟩

/-! ## Storing an event -/

/-- One key is one table, row and revision. -/
theorem sameKey_iff {r : PulledRow} {e : EventItem} : r.sameKey e = true ↔
    r.tableName = e.tableName ∧ r.rowId = e.rowId ∧ r.revision = e.revision := by
  simp [PulledRow.sameKey]

/-- Rows of one key have the key of one event. -/
theorem SameKey.sameKey {r r' : PulledRow} {e : EventItem} (h : SameKey r r')
    (he : r.sameKey e = true) : r'.sameKey e = true := by
  rw [sameKey_iff] at he ⊢
  exact ⟨h.1 ▸ he.1, h.2.1 ▸ he.2.1, h.2.2 ▸ he.2.2⟩

/-- The row of an event has its key. -/
theorem sameKey_row (e : EventItem) : e.row.sameKey e = true := sameKey_iff.mpr ⟨rfl, rfl, rfl⟩

/-- The two things `_apply_event` may do, when it does not raise. -/
theorem storeEvent_cases {inbox inbox' : List PulledRow} {e : EventItem}
    (h : storeEvent inbox e = some inbox') :
    (inbox' = inbox ∧ ∃ r ∈ inbox, r.sameKey e = true) ∨
    (inbox' = inbox ++ [e.row] ∧ (∀ r ∈ inbox, r.sameKey e = false) ∧
      (∀ r ∈ inbox, r.eventId ≠ e.eventId) ∧ e.bindable = true) := by
  unfold storeEvent at h
  by_cases hbind : e.bindable = true
  · rw [hbind, Bool.not_true, if_neg Bool.false_ne_true] at h
    split at h
    · next hany =>
      cases h
      exact .inl ⟨rfl, List.any_eq_true.mp hany⟩
    · next hany =>
      split at h
      · cases h
      · next hid =>
        cases h
        rw [Bool.or_eq_true, not_or] at hid
        exact .inr ⟨rfl, by simpa using hany, by simpa using hid.2, hbind⟩
  · rw [Bool.eq_false_of_not_eq_true hbind, Bool.not_false, if_pos rfl] at h
    cases h

/-- A row with the key of an event has its revision. -/
theorem bindable_of_sameKey {r : PulledRow} {e : EventItem} (h : r.sameKey e = true)
    (hr : r.bindable = true) : e.bindable = true := by
  obtain ⟨htable, hrow, hrevision⟩ := sameKey_iff.mp h
  unfold EventBody.bindable at hr ⊢
  rwa [← htable, ← hrow, ← hrevision]

/-- An event of a key that is in the inbox changes nothing. -/
theorem storeEvent_of_mem {inbox : List PulledRow} {e : EventItem} {r : PulledRow}
    (hr : r ∈ inbox) (h : r.sameKey e = true) (hbind : r.bindable = true) :
    storeEvent inbox e = some inbox := by
  have hany : inbox.any (·.sameKey e) = true := List.any_eq_true.mpr ⟨r, hr, h⟩
  simp [storeEvent, hany, bindable_of_sameKey h hbind]

/-! ## One transaction of a terminal -/

section side

variable {pulls : Prop} {log log' : List EventItem} {d d' : SyncSide}

/-- An empty side is in order. -/
theorem sideOk_empty : SideOk [] {} := by constructor <;> simp

/-- A side that is in order stays so under a longer log. -/
theorem SideOk.mono (h : SideOk log d) (hlog : ∀ e ∈ log, e ∈ log') : SideOk log' d where
  outbox_nodup := h.outbox_nodup
  outbox_le := h.outbox_le
  pushed r hr hne := by
    obtain ⟨id, hid, hstored⟩ := h.pushed r hr hne
    exact ⟨id, hid, hstored.mono hlog⟩
  distinct := h.distinct
  bindable := h.bindable
  inbox r hr := by
    obtain ⟨e, he, heq⟩ := h.inbox r hr
    exact ⟨e, hlog e he, heq⟩
  passed := h.passed

/-- A marked row is filed as the old one is. -/
theorem markRow_filed (nowText : String) (p : Bool) (r : PulledRow) :
    SameKey r (if p then { r with materialisedAt := some nowText } else r) ∧
      (if p then { r with materialisedAt := some nowText } else r).eventId = r.eventId := by
  cases p <;> exact ⟨⟨rfl, rfl, rfl⟩, rfl⟩

/-- A step keeps a side in order. -/
theorem SideStep.ok (h : SideStep pulls log d d') (hd : SideOk log d) : SideOk log d' := by
  cases h with
  | enqueue body =>
    refine ⟨?_, fun r hr => ?_, fun r hr hne => ?_, hd.distinct, hd.bindable, hd.inbox,
      hd.passed⟩
    · simp only [List.map_append, List.map_cons, List.map_nil]
      refine List.nodup_append.mpr ⟨hd.outbox_nodup, List.nodup_singleton _, ?_⟩
      intro id hid id' hid'
      obtain ⟨r, hr, rfl⟩ := List.mem_map.mp hid
      have := hd.outbox_le r hr
      simp only [List.mem_singleton] at hid'
      omega
    · simp only [List.length_append, List.length_singleton]
      rcases List.mem_append.mp hr with hr | hr
      · have := hd.outbox_le r hr
        omega
      · rw [List.mem_singleton.mp hr]
    · rcases List.mem_append.mp hr with hr | hr
      · exact hd.pushed r hr hne
      · rw [List.mem_singleton.mp hr] at hne
        exact absurd rfl hne
  | pushed nowText marks hmarks =>
    have hids := markOutboxPushed_ids nowText marks d
    have hlen : (d.markOutboxPushed nowText marks).outbox.length = d.outbox.length := by
      simpa using congrArg List.length hids
    refine ⟨hids ▸ hd.outbox_nodup, fun r hr => ?_, fun r hr hne => ?_, hd.distinct, hd.bindable,
      hd.inbox, hd.passed⟩
    · obtain ⟨r₀, hr₀, hsame, -⟩ := mem_markOutboxPushed hr
      rw [hsame.1, hlen]
      exact hd.outbox_le r₀ hr₀
    · obtain ⟨r₀, hr₀, hsame, rfl | ⟨mark, hmark, hid, hassigned⟩⟩ := mem_markOutboxPushed hr
      · exact hd.pushed r hr₀ hne
      · exact ⟨mark.2, hassigned, hsame.wire ▸ hmarks mark hmark r₀ hr₀ hid⟩
  | serve P _ =>
    exact ⟨hd.outbox_nodup, hd.outbox_le, hd.pushed, hd.distinct, hd.bindable, hd.inbox,
      hd.passed⟩
  | store e inbox he hstore =>
    rcases storeEvent_cases hstore with ⟨rfl, r, hr, hkey⟩ | ⟨rfl, hnew, hid, hbind⟩
    · refine ⟨hd.outbox_nodup, hd.outbox_le, hd.pushed, hd.distinct, hd.bindable, hd.inbox, ?_⟩
      intro e' he'
      rcases List.mem_cons.mp he' with rfl | he'
      · exact ⟨r, hr, hkey⟩
      · exact hd.passed e' he'
    · refine ⟨hd.outbox_nodup, hd.outbox_le, hd.pushed, ?_, ?_, ?_, ?_⟩
      · refine List.pairwise_append.mpr ⟨hd.distinct, List.pairwise_singleton _ _, ?_⟩
        intro r hr r' hr' hsame
        rw [List.mem_singleton.mp hr'] at hsame
        have hrow : r.sameKey e = true := sameKey_iff.mpr hsame
        rw [hnew r hr] at hrow
        cases hrow
      · intro r hr
        rcases List.mem_append.mp hr with hr | hr
        · exact hd.bindable r hr
        · rw [List.mem_singleton.mp hr]
          exact hbind
      · intro r hr
        rcases List.mem_append.mp hr with hr | hr
        · exact hd.inbox r hr
        · rw [List.mem_singleton.mp hr]
          exact ⟨e, he, rfl, sameKey_row e⟩
      · intro e' he'
        rcases List.mem_cons.mp he' with rfl | he'
        · exact ⟨_, List.mem_append_right _ (List.mem_singleton_self _), sameKey_row _⟩
        · obtain ⟨r, hr, hkey⟩ := hd.passed e' he'
          exact ⟨r, List.mem_append_left _ hr, hkey⟩
  | advance =>
    exact ⟨hd.outbox_nodup, hd.outbox_le, hd.pushed, hd.distinct, hd.bindable, hd.inbox,
      hd.passed⟩
  | mark eventId nowText =>
    refine ⟨hd.outbox_nodup, hd.outbox_le, hd.pushed, ?_, fun r hr => ?_, fun r hr => ?_,
      fun e he => ?_⟩
    · refine List.pairwise_map.mpr (hd.distinct.imp fun {r r'} hne hsame => hne ?_)
      obtain ⟨hr, -⟩ := markRow_filed nowText (r.eventId = eventId) r
      obtain ⟨hr', -⟩ := markRow_filed nowText (r'.eventId = eventId) r'
      exact ⟨hr.1.trans (hsame.1.trans hr'.1.symm), hr.2.1.trans (hsame.2.1.trans hr'.2.1.symm),
        hr.2.2.trans (hsame.2.2.trans hr'.2.2.symm)⟩
    · obtain ⟨r₀, hr₀, rfl⟩ := mem_updateRows.mp hr
      split <;> exact hd.bindable r₀ hr₀
    · obtain ⟨r₀, hr₀, rfl⟩ := mem_updateRows.mp hr
      obtain ⟨hkey₀, hid₀⟩ := markRow_filed nowText (r₀.eventId = eventId) r₀
      obtain ⟨e, he, hid, hkey⟩ := hd.inbox r₀ hr₀
      exact ⟨e, he, hid.trans hid₀.symm, hkey₀.sameKey hkey⟩
    · obtain ⟨r, hr, hkey⟩ := hd.passed e he
      obtain ⟨hkey₀, -⟩ := markRow_filed nowText (r.eventId = eventId) r
      exact ⟨_, mem_updateRows.mpr ⟨r, hr, rfl⟩, hkey₀.sameKey hkey⟩

/-- Every transaction but one of the pull loop itself leaves cursor and pages alone, and none
takes anything back. -/
theorem SideStep.later (h : SideStep pulls log d d') {pulls' : Prop} (hpulls : pulls → ¬ pulls') :
    SideLater pulls' d d' := by
  have hkeep : ∀ r ∈ d.outbox, ∃ r' ∈ d.outbox, SameOut r r' := fun r hr => ⟨r, hr, .refl r⟩
  cases h with
  | enqueue body =>
    refine ⟨fun r hr => ?_, fun _ he => he, fun _ => ⟨rfl, rfl⟩, Nat.le_refl _⟩
    exact ⟨r, List.mem_append_left _ hr, .refl r⟩
  | pushed nowText marks _ =>
    exact ⟨fun r hr => exists_markOutboxPushed nowText marks hr, fun _ he => he,
      fun _ => ⟨rfl, rfl⟩, Nat.le_refl _⟩
  | serve P h =>
    exact ⟨hkeep, fun _ he => he, fun h' => absurd h' (hpulls h), Nat.le_refl _⟩
  | store e inbox _ _ =>
    exact ⟨hkeep, fun _ he => List.mem_cons_of_mem _ he, fun _ => ⟨rfl, rfl⟩, Nat.le_refl _⟩
  | advance P last h _ _ _ _ hcursor =>
    exact ⟨hkeep, fun _ he => he, fun h' => absurd h' (hpulls h), hcursor⟩
  | mark => exact ⟨hkeep, fun _ he => he, fun _ => ⟨rfl, rfl⟩, Nat.le_refl _⟩

/-- A transaction keeps the log covered, as long as a page it is served has no gap. -/
theorem SideStep.full (h : SideStep pulls log d d') (hd : SideFull log d)
    (hserve : ∀ P, d'.seen = P :: d.seen → ∀ e ∈ log, d.cursor < e.eventId →
      (∃ e' ∈ P, e.eventId ≤ e'.eventId) → e ∈ P) : SideFull log d' := by
  cases h with
  | enqueue | pushed | mark => exact ⟨hd.storable, hd.behind, hd.noGap⟩
  | serve P _ =>
    refine ⟨hd.storable, hd.behind, fun P' hP' e he => ?_⟩
    cases hP'
    by_cases hbehind : e.eventId ≤ d.cursor
    · exact .inl hbehind
    · by_cases hin : ∃ e' ∈ P, e.eventId ≤ e'.eventId
      · exact .inr (.inl (hserve P rfl e he (by omega) hin))
      · exact .inr (.inr fun e' he' => Nat.lt_of_not_le fun hle => hin ⟨e', he', hle⟩)
  | store e inbox _ _ =>
    exact ⟨hd.storable, fun e' he' hle => List.mem_cons_of_mem _ (hd.behind e' he' hle), hd.noGap⟩
  | advance P last _ hP hlast hle hpassed hcursor =>
    refine ⟨hd.storable, fun e he hbehind => ?_, fun P' hP' e he => ?_⟩
    · rcases hd.noGap P hP e he with h | h | h
      · exact hd.behind e he h
      · exact hpassed e h
      · have := h last hlast
        change e.eventId ≤ last.eventId at hbehind
        omega
    · exact (hd.noGap P' hP' e he).imp_left fun h => Nat.le_trans h hcursor

/-- A landing item that can be stored keeps the log covered, if it lands past the cursor and the
newest page. -/
theorem SideFull.append (hd : SideFull log d) {e : EventItem} (he : e.storable = true)
    (hcursor : d.cursor < e.eventId)
    (hpast : ∀ P ∈ d.seen.head?, ∀ e' ∈ P, e'.eventId < e.eventId) : SideFull (e :: log) d where
  storable e' he' := by
    rcases List.mem_cons.mp he' with rfl | he'
    · exact he
    · exact hd.storable e' he'
  behind e' he' hle := by
    rcases List.mem_cons.mp he' with rfl | he'
    · omega
    · exact hd.behind e' he' hle
  noGap P hP e' he' := by
    rcases List.mem_cons.mp he' with rfl | he'
    · exact .inr (.inr (hpast P hP))
    · exact hd.noGap P hP e' he'

/-- An empty side has all that it pulled. -/
theorem sideFull_empty : SideFull [] {} := by constructor <;> simp

end side

/-! ## One request -/

section hub

variable {watched : Actor → Prop} {n m : ℕ} {s t u : SyncHub}

/-- A side that is set is what it was set to. -/
@[simp] theorem setSide_self (s : SyncHub) (a : Actor) (f : SyncSide → SyncSide) :
    (s.setSide a f).side a = f (s.side a) := Function.update_self ..

/-- Setting one side leaves the other. -/
@[simp] theorem setSide_ne (s : SyncHub) {a b : Actor} (f : SyncSide → SyncSide) (h : b ≠ a) :
    (s.setSide a f).side b = s.side b := Function.update_of_ne h ..

/-- What a prefix has at a place, the list has there. -/
theorem getElem?_of_prefix {α : Type} {l l' : List α} (h : l <+: l') {k : ℕ} {x : α}
    (hk : l[k]? = some x) : l'[k]? = some x := by
  obtain ⟨rest, rfl⟩ := h
  obtain ⟨hlt, -⟩ := List.getElem?_eq_some_iff.mp hk
  rw [List.getElem?_append_left hlt, hk]

/-- The empty hub keeps the invariant. -/
theorem hubInv_empty : HubInv watched {} where
  log_nodup := List.nodup_nil
  owned := by simp
  log_owned := by simp
  replies := by simp
  side _ := sideOk_empty
  full _ _ := sideFull_empty

/-- The invariant when only the log grows. -/
theorem HubInv.forall₂_mono {log log' : List EventItem} (hlog : ∀ e ∈ log, e ∈ log')
    {events : List SyncEventIn} {ids : List ℕ} (h : List.Forall₂ (Stored log) events ids) :
    List.Forall₂ (Stored log') events ids := h.imp fun _ _ hs => hs.mono hlog

/-- **Every request keeps the invariant**, if it is in order for the watched terminals and what
lands can be stored. -/
theorem HubStep.inv (h : HubStep n s t) (hs : HubInv watched s)
    (hC : ∀ a, watched a → InOrder a s t ∧ LandsStorable s t) : HubInv watched t := by
  cases h with
  | stay => exact hs
  | take =>
    refine ⟨hs.log_nodup, fun k hk => ?_, fun e he => ?_, hs.replies, hs.side, hs.full⟩
    · by_cases heq : k = s.seq + 1
      · exact heq.le
      · have := hs.owned k (by simpa [Function.update_of_ne heq] using hk)
        exact Nat.le_succ_of_le this
    · by_cases heq : e.eventId = s.seq + 1
      · simp [heq]
      · simpa [Function.update_of_ne heq] using hs.log_owned e he
  | append e hn hnew =>
    have hgrow : ∀ e' ∈ s.log, e' ∈ e :: s.log := fun _ he' => List.mem_cons_of_mem _ he'
    refine ⟨?_, hs.owned, ?_, fun k ids hk => ?_, fun a => (hs.side a).mono hgrow,
      fun a ha => ?_⟩
    · rw [List.map_cons, List.nodup_cons]
      refine ⟨fun hmem => ?_, hs.log_nodup⟩
      obtain ⟨e', he', hid⟩ := List.mem_map.mp hmem
      exact hnew e' he' hid
    · intro e' he'
      rcases List.mem_cons.mp he' with rfl | he'
      · simp [hn]
      · exact hs.log_owned e' he'
    · obtain ⟨a, events, hreq, hstored⟩ := hs.replies k ids hk
      exact ⟨a, events, hreq, HubInv.forall₂_mono hgrow hstored⟩
    · have hnotin : e ∉ s.log := fun hmem => hnew e hmem rfl
      obtain ⟨hcursor, hpast⟩ := (hC a ha).1.1 e (List.mem_cons_self ..) hnotin
      exact (hs.full a ha).append ((hC a ha).2 e (List.mem_cons_self ..) hnotin) hcursor hpast
  | request r =>
    refine ⟨hs.log_nodup, hs.owned, hs.log_owned, fun k ids hk => ?_, hs.side, hs.full⟩
    obtain ⟨a, events, hreq, hstored⟩ := hs.replies k ids hk
    have hgrow : s.requests <+: s.requests ++ [r] := List.prefix_append _ _
    exact ⟨a, events, getElem?_of_prefix hgrow hreq, hstored⟩
  | reply k ids a events hreq hstored =>
    refine ⟨hs.log_nodup, hs.owned, hs.log_owned, fun k' ids' hk' => ?_, hs.side,
      hs.full⟩
    by_cases heq : k' = k
    · subst heq
      simp only [Function.update_self, Option.some.injEq] at hk'
      subst hk'
      exact ⟨a, events, hreq, hstored⟩
    · exact hs.replies k' ids' (by simpa [Function.update_of_ne heq] using hk')
  | side a d hd =>
    refine ⟨hs.log_nodup, hs.owned, hs.log_owned, hs.replies, fun b => ?_,
      fun b hb => ?_⟩
    · by_cases heq : b = a
      · subst heq
        rw [setSide_self]
        exact hd.ok (hs.side b)
      · rw [setSide_ne s _ heq]
        exact hs.side b
    · by_cases heq : b = a
      · subst heq
        rw [setSide_self]
        refine hd.full (hs.full b hb) fun P hP => (hC b hb).1.2 P ?_
        simp [newPages, hP]
      · rw [setSide_ne s _ heq]
        exact hs.full b hb

/-- A side follows itself. -/
theorem SideLater.refl (pulls : Prop) (d : SyncSide) : SideLater pulls d d :=
  ⟨fun r hr => ⟨r, hr, .refl r⟩, fun _ he => he, fun _ => ⟨rfl, rfl⟩, Nat.le_refl _⟩

/-- Later on a side is transitive. -/
theorem SideLater.trans {pulls : Prop} {d d' d'' : SyncSide} (h : SideLater pulls d d')
    (h' : SideLater pulls d' d'') : SideLater pulls d d'' where
  outbox r hr := by
    obtain ⟨r₁, hr₁, h₁⟩ := h.outbox r hr
    obtain ⟨r₂, hr₂, h₂⟩ := h'.outbox r₁ hr₁
    exact ⟨r₂, hr₂, h₁.trans h₂⟩
  passed e he := h'.passed e (h.passed e he)
  pull hp := ⟨(h'.pull hp).1.trans (h.pull hp).1, (h'.pull hp).2.trans (h.pull hp).2⟩
  cursor := Nat.le_trans h.cursor h'.cursor

/-- A hub follows itself. -/
theorem HubRely.refl (n : ℕ) (s : SyncHub) : HubRely n s s :=
  ⟨fun _ he => he, fun _ hk => ⟨hk, id⟩, List.prefix_rfl, fun _ => .refl _ _⟩

/-- Later on the hub is transitive. -/
theorem HubRely.trans (h : HubRely n s t) (h' : HubRely n t u) : HubRely n s u where
  log e he := h'.log e (h.log e he)
  own k hk := ⟨(h'.own k (h.own k hk).1).1, fun hnew =>
    (h'.own k (h.own k hk).1).2 ((h.own k hk).2 hnew)⟩
  requests := h.requests.trans h'.requests
  side a := (h.side a).trans (h'.side a)

/-- Every request of another program may be relied on. -/
theorem HubStep.rely (h : HubStep m s t) (hs : HubInv watched s) (hmn : m ≠ n) : HubRely n s t := by
  have hstay := HubRely.refl n s
  cases h with
  | stay => exact hstay
  | take =>
    refine ⟨hstay.log, fun k hk => ⟨?_, id⟩, hstay.requests, hstay.side⟩
    have hle := hs.owned k (by simp [hk])
    have hne : k ≠ s.seq + 1 := by omega
    simpa [Function.update_of_ne hne] using hk
  | append e hn _ =>
    refine ⟨fun _ he => List.mem_cons_of_mem _ he, fun k hk => ⟨hk, fun hnew e' he' => ?_⟩,
      hstay.requests, hstay.side⟩
    rcases List.mem_cons.mp he' with rfl | he'
    · rintro rfl
      rw [hn] at hk
      cases hk
      exact hmn rfl
    · exact hnew e' he'
  | request r => exact ⟨hstay.log, hstay.own, List.prefix_append _ _, hstay.side⟩
  | reply => exact ⟨hstay.log, hstay.own, hstay.requests, hstay.side⟩
  | side a d hd =>
    refine ⟨hstay.log, hstay.own, hstay.requests, fun b => ?_⟩
    by_cases heq : b = a
    · subst heq
      rw [setSide_self]
      exact hd.later fun hm hn => hmn (hm.trans hn.symm)
    · rw [setSide_ne s _ heq]
      exact .refl _ _

/-- No cursor goes back. -/
theorem HubStep.cursor (h : HubStep n s t) (a : Actor) : (s.side a).cursor ≤ (t.side a).cursor := by
  cases h with
  | stay | take | append | request | reply => exact Nat.le_refl _
  | side b d hd =>
    by_cases heq : a = b
    · subst heq
      rw [setSide_self]
      have hlater : SideLater False (s.side a) d := hd.later fun _ h => h
      exact hlater.cursor
    · rw [setSide_ne s _ heq]

end hub

end Mailman.Interface
