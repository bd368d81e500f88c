import Mailman.Model.EventLog

/-!
# What the inbox owes to a suppression event

The terms on which webhooks, pulls and materialiser batches share the event log and the
inbox: what always holds of them (`SyncInv`), what one step does (`SyncStep`), and the two
conditions under which no suppression event is lost. A pull must not meet a suppression
event it can open whose (table, row id, revision) is held by a row it cannot (`Undropped`),
and no such event may have fifty rows that cannot be opened in front of it (`Unstarved`).
-/

set_option autoImplicit false

namespace Mailman.Interface

open Mailman.Library Mailman.Model

variable {Id : Type}

/-- The materialiser gets through a row with this payload. -/
def opens (bundle : KeyBundle) (payload : Option BothEnvelope) : Bool :=
  match payload with
  | none => true
  | some envelope => (decryptForBoth envelope bundle).isSome

/-- The shape `resend_webhook` gives to a suppression event of the hash `h`. -/
def Suppresses (h : String) (payload : Option BothEnvelope) : Prop :=
  h ≠ "" ∧ ∃ op cl t reason nowIso, WebhookType.suppressionReason t = some reason ∧
    payload = some (.sealed op cl (some (suppressionPayload h t reason nowIso)))

/-- A suppression row or event is filed under the hash it is about. -/
def Filed (table : SyncTable) (rowId : String) (payload : Option BothEnvelope) : Prop :=
  table = .suppression → Suppresses rowId payload

/-- A suppression row that the terminal can open and has not marked yet. -/
def Pending (bundle : KeyBundle) (r : InboxRow) : Prop :=
  r.table = .suppression ∧ opens bundle r.payload = true ∧ r.materialisedAt = none

instance (bundle : KeyBundle) (r : InboxRow) : Decidable (Pending bundle r) :=
  inferInstanceAs (Decidable (_ ∧ _))

/-- Rows that stay in front of `r` in every batch. -/
def blockers (bundle : KeyBundle) (db : Db Id) (r : InboxRow) : List InboxRow :=
  db.inbox.filter fun r' => !opens bundle r'.payload && r'.eventId < r.eventId

/-- No pending suppression has a whole batch of rows that cannot be opened in front of it. -/
def Unstarved (bundle : KeyBundle) (db : Db Id) : Prop :=
  ∀ r ∈ db.inbox, Pending bundle r → (db.suppressions r.rowId).isSome = false →
    (blockers bundle db r).length < 50

instance (bundle : KeyBundle) (db : Db Id) : Decidable (Unstarved bundle db) :=
  inferInstanceAs (Decidable (∀ r ∈ db.inbox, _))

/-- One step neither stores a suppression event that is dropped as a duplicate of a row the
terminal cannot open, nor starves a pending one. -/
def Undropped (bundle : KeyBundle) (s t : SyncWorld Id) : Prop :=
  (∀ e ∈ t.served, e ∉ s.served → e.table = .suppression → opens bundle e.payload = true →
    (s.db.suppressions e.rowId).isSome = false →
    ∀ r ∈ s.db.inbox, r.sameRevision e = true → opens bundle r.payload = true) ∧
  Unstarved bundle t.db

instance (bundle : KeyBundle) (s t : SyncWorld Id) : Decidable (Undropped bundle s t) :=
  inferInstanceAs (Decidable ((∀ e ∈ t.served, _) ∧ _))

/-- What the event log, the inbox and the suppression table always satisfy. -/
structure SyncInv (bundle : KeyBundle) (s : SyncWorld Id) : Prop where
  log : ∀ e ∈ s.log, Filed e.table e.rowId e.payload
  inbox : ∀ r ∈ s.db.inbox, Filed r.table r.rowId r.payload
  ids : (s.db.inbox.map (·.eventId)).Nodup
  applied : ∀ r ∈ s.db.inbox, r.table = .suppression → opens bundle r.payload = true →
    r.materialisedAt ≠ none → (s.db.suppressions r.rowId).isSome
  served : ∀ e ∈ s.served, e.table = .suppression → opens bundle e.payload = true →
    (s.db.suppressions e.rowId).isSome ∨
      ∃ r ∈ s.db.inbox, r.rowId = e.rowId ∧ Pending bundle r
  fair : Unstarved bundle s.db

/-- The same inbox row, whether marked or not. -/
def SameRow (r r' : InboxRow) : Prop :=
  r'.eventId = r.eventId ∧ r'.table = r.table ∧ r'.rowId = r.rowId ∧ r'.payload = r.payload

/-- What a waiting program may rely on: nothing is taken off the suppression table or out of
the inbox. -/
structure SyncLater (s t : SyncWorld Id) : Prop where
  suppressions : ∀ h, (s.db.suppressions h).isSome → (t.db.suppressions h).isSome
  inbox : ∀ r ∈ s.db.inbox, ∃ r' ∈ t.db.inbox, SameRow r r'

/-- What one request or transaction may do. -/
inductive SyncStep (bundle : KeyBundle) (s t : SyncWorld Id) : Prop where
  | cloud (hdb : t.db = s.db) (hserved : t.served = s.served)
      (hlog : ∀ e ∈ t.log, e ∈ s.log ∨ Filed e.table e.rowId e.payload)
  | serve (e : SyncEvent) (he : Filed e.table e.rowId e.payload) (hlog : t.log = s.log)
      (hdb : applyEvent s.db e = some t.db) (hserved : t.served = e :: s.served)
  | apply (hlog : t.log = s.log) (hserved : t.served = s.served)
      (hinbox : t.db.inbox = s.db.inbox)
      (hsup : ∀ h, (s.db.suppressions h).isSome → (t.db.suppressions h).isSome)
  | mark (r : InboxRow) (nowIso : String) (hlog : t.log = s.log) (hserved : t.served = s.served)
      (hdb : t.db = markMaterialised nowIso s.db r.eventId)
      (hrow : ∃ r' ∈ s.db.inbox, SameRow r r')
      (hsup : r.table = .suppression → opens bundle r.payload = true →
        (s.db.suppressions r.rowId).isSome)

/-- A world follows itself. -/
theorem SyncLater.refl (s : SyncWorld Id) : SyncLater s s :=
  ⟨fun _ h => h, fun r hr => ⟨r, hr, rfl, rfl, rfl, rfl⟩⟩

/-- Later is transitive. -/
theorem SyncLater.trans {s t u : SyncWorld Id} (h : SyncLater s t) (h' : SyncLater t u) :
    SyncLater s u where
  suppressions k hk := h'.suppressions k (h.suppressions k hk)
  inbox r hr := by
    obtain ⟨r₁, hr₁, h₁⟩ := h.inbox r hr
    obtain ⟨r₂, hr₂, h₂⟩ := h'.inbox r₁ hr₁
    exact ⟨r₂, hr₂, h₂.1.trans h₁.1, h₂.2.1.trans h₁.2.1, h₂.2.2.1.trans h₁.2.2.1,
      h₂.2.2.2.trans h₁.2.2.2⟩

/-- A marked row is the same row. -/
theorem sameRow_mark (nowIso : String) (n : ℕ) (r : InboxRow) :
    SameRow r (if r.eventId = n then { r with materialisedAt := some nowIso } else r) := by
  split <;> exact ⟨rfl, rfl, rfl, rfl⟩

/-- The two things `_apply_event` may do, when it does not raise. -/
theorem applyEvent_cases {db db' : Db Id} {e : SyncEvent} (h : applyEvent db e = some db') :
    (db' = db ∧ ∃ r ∈ db.inbox, r.sameRevision e = true) ∨
    ((∀ r ∈ db.inbox, r.eventId ≠ e.eventId) ∧
      db' = { db with inbox := db.inbox ++ [
        { eventId := e.eventId, table := e.table, rowId := e.rowId, revision := e.revision,
          payload := e.payload }] }) := by
  unfold applyEvent at h
  split at h
  · next hany =>
    cases h
    exact .inl ⟨rfl, by simpa using hany⟩
  · split at h
    · cases h
    · next hids =>
      cases h
      refine .inr ⟨fun r hr he => hids ?_, rfl⟩
      simpa using ⟨r, hr, he⟩

/-- The rows after a mark are the rows before, one of them marked. -/
theorem mem_markMaterialised {db : Db Id} {nowIso : String} {n : ℕ} {r : InboxRow} :
    r ∈ (markMaterialised nowIso db n).inbox ↔ ∃ r' ∈ db.inbox,
      (if r'.eventId = n then { r' with materialisedAt := some nowIso } else r') = r := by
  simp [markMaterialised, mem_updateRows]

/-- Nothing is ever taken back. -/
theorem SyncStep.later {bundle : KeyBundle} {s t : SyncWorld Id} (h : SyncStep bundle s t) :
    SyncLater s t := by
  cases h with
  | cloud hdb =>
    refine ⟨fun _ hk => ?_, fun r hr => ⟨r, ?_, rfl, rfl, rfl, rfl⟩⟩
    · rw [hdb]; exact hk
    · rw [hdb]; exact hr
  | serve e he hlog hdb hserved =>
    rcases applyEvent_cases hdb with ⟨heq, -⟩ | ⟨-, heq⟩
    · exact ⟨fun _ hk => heq ▸ hk, fun r hr => ⟨r, heq ▸ hr, rfl, rfl, rfl, rfl⟩⟩
    · refine ⟨fun _ hk => heq ▸ hk, fun r hr => ⟨r, ?_, rfl, rfl, rfl, rfl⟩⟩
      rw [heq]
      exact List.mem_append_left _ hr
  | apply hlog hserved hinbox hsup =>
    exact ⟨hsup, fun r hr => ⟨r, hinbox ▸ hr, rfl, rfl, rfl, rfl⟩⟩
  | mark r nowIso hlog hserved hdb hrow hsup =>
    refine ⟨fun _ hk => by rw [hdb]; exact hk, fun r' hr' => ?_⟩
    refine ⟨_, ?_, sameRow_mark nowIso r.eventId r'⟩
    rw [hdb]
    exact mem_markMaterialised.mpr ⟨r', hr', rfl⟩

/-- Rows of one event id are the same row. -/
theorem SyncInv.eq_of_eventId {bundle : KeyBundle} {s : SyncWorld Id} (hs : SyncInv bundle s)
    {r r' : InboxRow} (hr : r ∈ s.db.inbox) (hr' : r' ∈ s.db.inbox)
    (h : r.eventId = r'.eventId) : r = r' :=
  List.inj_on_of_nodup_map hs.ids hr hr' h

/-- **One step keeps the terms**, if it drops and starves nothing. -/
theorem SyncStep.inv {bundle : KeyBundle} {s t : SyncWorld Id} (h : SyncStep bundle s t)
    (hs : SyncInv bundle s) (hc : Undropped bundle s t) : SyncInv bundle t := by
  have hlater := h.later
  cases h with
  | cloud hdb hserved hlog =>
    refine ⟨fun e he => ?_, hdb ▸ hs.inbox, hdb ▸ hs.ids, hdb ▸ hs.applied, ?_, hc.2⟩
    · rcases hlog e he with he | he
      · exact hs.log e he
      · exact he
    · rw [hdb, hserved]
      exact hs.served
  | apply hlog hserved hinbox hsup =>
    refine ⟨hlog ▸ hs.log, hinbox ▸ hs.inbox, hinbox ▸ hs.ids, ?_, ?_, hc.2⟩
    · intro r hr ht ho hm
      exact hsup _ (hs.applied r (hinbox ▸ hr) ht ho hm)
    · intro e he ht ho
      rcases hs.served e (hserved ▸ he) ht ho with hsome | ⟨r, hr, hrow, hp⟩
      · exact .inl (hsup _ hsome)
      · exact .inr ⟨r, hinbox ▸ hr, hrow, hp⟩
  | serve e he hlog hdb hserved =>
    -- what was served before is where it was, and the new event is stored or found there
    have hold : ∀ e' ∈ s.served, e'.table = .suppression → opens bundle e'.payload = true →
        (t.db.suppressions e'.rowId).isSome ∨
          ∃ r ∈ t.db.inbox, r.rowId = e'.rowId ∧ Pending bundle r := by
      intro e' he' ht ho
      rcases hs.served e' he' ht ho with hsome | ⟨r, hr, hrow, hp⟩
      · exact .inl (hlater.suppressions _ hsome)
      · refine .inr ⟨r, ?_, hrow, hp⟩
        rcases applyEvent_cases hdb with ⟨heq, -⟩ | ⟨-, heq⟩
        · rw [heq]; exact hr
        · rw [heq]; exact List.mem_append_left _ hr
    have hnew : e.table = .suppression → opens bundle e.payload = true →
        (t.db.suppressions e.rowId).isSome ∨
          ∃ r ∈ t.db.inbox, r.rowId = e.rowId ∧ Pending bundle r := by
      intro ht ho
      by_cases hmem : e ∈ s.served
      · exact hold e hmem ht ho
      rcases applyEvent_cases hdb with ⟨heq, r, hr, hsame⟩ | ⟨-, heq⟩
      · by_cases hsome : (s.db.suppressions e.rowId).isSome
        · exact .inl (hlater.suppressions _ hsome)
        have hropen : opens bundle r.payload = true :=
          hc.1 e (hserved ▸ List.mem_cons_self ..) hmem ht ho (by simpa using hsome) r hr hsame
        have hkey : r.table = e.table ∧ r.rowId = e.rowId := by
          simp only [InboxRow.sameRevision, decide_eq_true_eq] at hsame
          exact ⟨hsame.1, hsame.2.1⟩
        cases hm : r.materialisedAt with
        | none => exact .inr ⟨r, heq ▸ hr, hkey.2, hkey.1.trans ht, hropen, hm⟩
        | some at' =>
          have := hs.applied r hr (hkey.1.trans ht) hropen (by simp [hm])
          rw [hkey.2] at this
          exact .inl (hlater.suppressions _ this)
      · rw [heq]
        exact .inr ⟨_, List.mem_append_right _ (List.mem_singleton_self _), rfl, ht, ho, rfl⟩
    refine ⟨hlog ▸ hs.log, ?_, ?_, ?_, ?_, hc.2⟩
    · rcases applyEvent_cases hdb with ⟨heq, -⟩ | ⟨-, heq⟩
      · rw [heq]; exact hs.inbox
      · rw [heq]
        intro r hr
        rcases List.mem_append.mp hr with hr | hr
        · exact hs.inbox r hr
        · rw [List.mem_singleton.mp hr]
          exact he
    · rcases applyEvent_cases hdb with ⟨heq, -⟩ | ⟨hids, heq⟩
      · rw [heq]; exact hs.ids
      · rw [heq, List.map_append, List.nodup_append]
        refine ⟨hs.ids, by simp, ?_⟩
        rintro a ha b hb rfl
        obtain ⟨r, hr, rfl⟩ := List.mem_map.mp ha
        exact hids r hr (by simpa using hb)
    · intro r hr ht ho hm
      rcases applyEvent_cases hdb with ⟨heq, -⟩ | ⟨-, heq⟩
      · rw [heq] at hr ⊢
        exact hs.applied r hr ht ho hm
      · rw [heq] at hr ⊢
        rcases List.mem_append.mp hr with hr | hr
        · exact hs.applied r hr ht ho hm
        · rw [List.mem_singleton.mp hr] at hm
          exact absurd rfl hm
    · intro e' he' ht ho
      rw [hserved] at he'
      rcases List.mem_cons.mp he' with rfl | he'
      · exact hnew ht ho
      · exact hold e' he' ht ho
  | mark r nowIso hlog hserved hdb hrow hsup =>
    obtain ⟨r₀, hr₀, hsame₀⟩ := hrow
    have hinbox : ∀ r' ∈ t.db.inbox, ∃ r₁ ∈ s.db.inbox, SameRow r₁ r' ∧
        (r' = r₁ ∨ r₁.eventId = r.eventId) := by
      intro r' hr'
      rw [hdb] at hr'
      obtain ⟨r₁, hr₁, heq⟩ := mem_markMaterialised.mp hr'
      refine ⟨r₁, hr₁, heq ▸ sameRow_mark nowIso r.eventId r₁, ?_⟩
      split at heq
      · next hid => exact .inr hid
      · exact .inl heq.symm
    refine ⟨hlog ▸ hs.log, ?_, ?_, ?_, ?_, hc.2⟩
    · intro r' hr'
      obtain ⟨r₁, hr₁, ⟨-, ht, hrow, hp⟩, -⟩ := hinbox r' hr'
      rw [ht, hrow, hp]
      exact hs.inbox r₁ hr₁
    · have hmap : t.db.inbox.map (·.eventId) = s.db.inbox.map (·.eventId) := by
        rw [hdb]
        simp only [markMaterialised, updateRows, List.map_map]
        refine List.map_congr_left fun r' _ => ?_
        dsimp only [Function.comp_apply]
        split <;> rfl
      rw [hmap]
      exact hs.ids
    · intro r' hr' ht ho hm
      obtain ⟨r₁, hr₁, ⟨-, ht₁, hrow₁, hp₁⟩, hcase⟩ := hinbox r' hr'
      rcases hcase with rfl | hid
      · exact hlater.suppressions _ (hs.applied r' hr₁ ht ho hm)
      · -- the marked row is the one that was applied
        have heq := hs.eq_of_eventId hr₁ hr₀ (hid.trans hsame₀.1.symm)
        rw [ht₁, heq, hsame₀.2.1] at ht
        rw [hp₁, heq, hsame₀.2.2.2] at ho
        have := hlater.suppressions _ (hsup ht ho)
        rwa [hrow₁, heq, hsame₀.2.2.1]
    · intro e he ht ho
      rcases hs.served e (hserved ▸ he) ht ho with hsome | ⟨r₁, hr₁, hrow₁, hp₁⟩
      · exact .inl (hlater.suppressions _ hsome)
      by_cases hid : r₁.eventId = r.eventId
      · have heq := hs.eq_of_eventId hr₁ hr₀ (hid.trans hsame₀.1.symm)
        have hsome := hsup (by rw [← hsame₀.2.1, ← heq]; exact hp₁.1)
          (by rw [← hsame₀.2.2.2, ← heq]; exact hp₁.2.1)
        rw [← hsame₀.2.2.1, ← heq, hrow₁] at hsome
        exact .inl (hlater.suppressions _ hsome)
      · refine .inr ⟨r₁, ?_, hrow₁, hp₁⟩
        rw [hdb]
        exact mem_markMaterialised.mpr ⟨r₁, hr₁, by simp [hid]⟩

end Mailman.Interface
