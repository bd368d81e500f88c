import Mailman.Interface.InboxTerms

/-!
# Served suppression events are applied

Every request and transaction of the receiver, the pull and the materialiser is a
`SyncStep`, so a run whose steps drop and starve nothing keeps the terms of the inbox. When
a whole batch then applies nothing, every suppression event that was served and can be
opened has reached the suppression table. Without the two conditions it need not.
-/

set_option autoImplicit false

namespace Mailman.Analysis

open Mailman.Library Mailman.Model Mailman.Interface

variable {Id : Type} {emailHash : String → String} {bundle : KeyBundle}

/-- The terms on which webhooks, pulls and materialiser batches run side by side. -/
def syncDiscipline (Id : Type) (bundle : KeyBundle) : Discipline (SyncWorld Id) where
  inv := SyncInv bundle
  rely _ := SyncLater
  guar _ := SyncStep bundle
  cond := Undropped bundle
  rely_refl _ := .refl
  rely_trans _ _ _ _ := .trans
  guar_rely _ _ _ _ _ _ h _ := h.later
  keep _ _ _ hs h hc := h.inv hs hc

/-! ## One rule for each request -/

section requests

variable {α β : Type} {n : ℕ} {Q : β → SyncWorld Id → Prop} {s : SyncWorld Id}

/-- A request that touches neither the terminal nor what was served, and logs only events
that are filed under their hash. -/
theorem safe_cloud {f : SyncWorld Id → SyncInput → SyncWorld Id × α}
    {k : α → SyncProc Id β}
    (hf : ∀ t i, (f t i).1.db = t.db ∧ (f t i).1.served = t.served ∧
      ∀ e ∈ (f t i).1.log, e ∈ t.log ∨ Filed e.table e.rowId e.payload)
    (h : ∀ t i, SyncInv bundle t → (syncDiscipline Id bundle).Safe n (k (f t i).2) Q (f t i).1) :
    (syncDiscipline Id bundle).Safe n ((Proc.act f).bind k) Q s :=
  Discipline.Safe.act fun t _ hi i => ⟨.cloud (hf t i).1 (hf t i).2.1 (hf t i).2.2, h t i hi⟩

/-- Storing a filed event keeps the terms. -/
theorem safe_putEvent {table : SyncTable} {rowId : String} {payload : BothEnvelope}
    {k : ℕ → SyncProc Id β} (hfiled : Filed table rowId (some payload))
    (h : ∀ t n', (syncDiscipline Id bundle).Safe n (k n') Q t) :
    (syncDiscipline Id bundle).Safe n ((putEvent table rowId payload).bind k) Q s := by
  refine Discipline.Safe.bind (safe_cloud (fun t i => ⟨rfl, rfl, fun e he => .inl he⟩)
    fun t i _ => safe_cloud (fun t i => ⟨rfl, rfl, fun e he => ?_⟩) fun t i _ => h _ _)
  rcases List.mem_cons.mp he with rfl | he
  · exact .inr hfiled
  · exact .inl he

/-- The webhook keeps the terms. -/
theorem safe_resendWebhook (hhash : ∀ a, emailHash a ≠ "") (req : WebhookRequest) :
    (syncDiscipline Id bundle).Safe n (resendWebhook emailHash req) (fun _ _ => True) s := by
  have hraw : ∀ t : SyncWorld Id,
      (syncDiscipline Id bundle).Safe n (putWebhookRaw req.svixId) (fun _ _ => True) t :=
    fun t => safe_cloud (fun t i => ⟨rfl, rfl, fun e he => .inl he⟩) fun _ _ _ => trivial
  have hread : ∀ {γ : Type} {f : SyncWorld Id → SyncInput → γ} {k : γ → SyncProc Id Unit}
      {t : SyncWorld Id}, (∀ a u, (syncDiscipline Id bundle).Safe n (k a) (fun _ _ => True) u) →
      (syncDiscipline Id bundle).Safe n ((Proc.get f).bind k) (fun _ _ => True) t :=
    fun h => safe_cloud (fun t i => ⟨rfl, rfl, fun e he => .inl he⟩) fun _ _ _ => h _ _
  unfold resendWebhook
  refine hread fun existing t => ?_
  split
  · trivial
  refine hread fun op t => hread fun cl t => ?_
  rcases op with - | op
  · exact hraw _
  rcases cl with - | cl
  · exact hraw _
  refine safe_putEvent (fun ht => by cases ht) fun t _ => ?_
  dsimp only
  cases hreason : req.eventType.suppressionReason with
  | none => exact hraw _
  | some reason =>
    dsimp only
    split
    · exact hraw _
    refine hread fun now t => safe_putEvent (fun _ => ?_) fun t _ => hraw _
    exact ⟨hhash _, op, cl, req.eventType, reason, now, hreason, rfl⟩

/-- Applying filed events keeps the terms. -/
theorem safe_applyEvents (events : List SyncEvent)
    (hfiled : ∀ e ∈ events, Filed e.table e.rowId e.payload) :
    (syncDiscipline Id bundle).Safe n (applyEvents events) (fun _ _ => True) s := by
  induction events generalizing s with
  | nil => trivial
  | cons e events ih =>
    have ih := fun t => ih (s := t) fun e' he' => hfiled e' (List.mem_cons_of_mem _ he')
    refine Discipline.Safe.act fun t hr hi i => ?_
    cases hdb : applyEvent t.db e with
    | none => exact ⟨.cloud rfl rfl fun e he => .inl he, trivial⟩
    | some db => exact ⟨.serve e (hfiled e (List.mem_cons_self ..)) rfl hdb rfl, ih _⟩

/-- A pull keeps the terms. -/
theorem safe_pullEvents :
    (syncDiscipline Id bundle).Safe n pullEvents (fun _ _ => True) s := by
  unfold pullEvents
  refine safe_cloud (fun t i => ⟨rfl, rfl, fun e he => .inl he⟩) fun t i _ => ?_
  refine safe_cloud (fun t i => ⟨rfl, rfl, fun e he => .inl he⟩) fun u j hu => ?_
  refine Discipline.Safe.bind ((safe_applyEvents _ fun e he => ?_).weaken fun applied v _ => ?_)
  · exact hu.log e (List.mem_of_mem_filter (mem_of_mem_page he))
  · dsimp only
    split
    · exact safe_cloud (fun t i => ⟨rfl, rfl, fun e he => .inl he⟩) fun _ _ _ => trivial
    · trivial

end requests

/-! ## The materialiser -/

/-- The reason of a webhook's event is one of the reasons. -/
theorem ofText_suppressionReason {t : WebhookType} {reason : String}
    (h : t.suppressionReason = some reason) : ∃ r, SuppressionReason.ofText reason = some r := by
  cases t <;> simp only [WebhookType.suppressionReason, reduceCtorEq, Option.some.injEq] at h
  all_goals
    subst h
    exact ⟨_, rfl⟩

/-- A suppression event lifts no suppression. -/
theorem applySuppressionEvent_mono (nowIso : String) (t : Suppressions) (p : SuppressionPayload)
    {h : String} (hs : (t h).isSome) : (applySuppressionEvent nowIso t p h).isSome := by
  unfold applySuppressionEvent
  split
  · exact hs
  · cases (p.reason.getD (some "unsubscribe")).bind SuppressionReason.ofText with
    | none => exact hs
    | some reason =>
      cases p.addedAt.getD (some nowIso) with
      | none => exact hs
      | some addedAt => exact insertOrIgnore_mono t _ _ hs

/-- A suppression event of the receiver puts its hash on the table. -/
theorem applySuppressionEvent_self {h : String} (h0 : h ≠ "") {w : WebhookType} {reason : String}
    (hr : w.suppressionReason = some reason) (nowIso now' : String) (t : Suppressions) :
    (applySuppressionEvent nowIso t (suppressionPayload h w reason now').toSuppressionPayload
      h).isSome := by
  obtain ⟨r, hr'⟩ := ofText_suppressionReason hr
  unfold applySuppressionEvent
  simp [suppressionPayload, h0, hr', insertOrIgnore_self]

/-- The materialiser raises exactly on the rows it cannot open. -/
theorem applyRow_isSome (nowIso : String) (db : Db Id) (r : InboxRow) :
    (applyRow emailHash bundle nowIso db r).isSome = opens bundle r.payload := by
  unfold applyRow opens
  cases r.payload <;> simp

/-- Applying a row leaves the inbox alone and takes no hash off the table. -/
theorem applyRow_frame {nowIso : String} {db db' : Db Id} {r : InboxRow}
    (h : applyRow emailHash bundle nowIso db r = some db') :
    db'.inbox = db.inbox ∧ ∀ k, (db.suppressions k).isSome → (db'.suppressions k).isSome := by
  unfold applyRow at h
  split at h
  · cases h
    exact ⟨rfl, fun _ => id⟩
  · obtain ⟨payload, -, rfl⟩ := Option.map_eq_some_iff.mp h
    split
    · unfold applyWebhookEvent
      dsimp only
      repeat' split
      all_goals first
        | exact ⟨rfl, fun _ => id⟩
        | exact ⟨rfl, fun _ => insertOrIgnore_mono _ _ _⟩
    · exact ⟨rfl, fun _ => applySuppressionEvent_mono _ _ _⟩

/-- Applying a suppression row that is filed under its hash puts that hash on the table. -/
theorem applyRow_suppresses {nowIso : String} {db db' : Db Id} {r : InboxRow}
    (h : applyRow emailHash bundle nowIso db r = some db') (ht : r.table = .suppression)
    (hfiled : Filed r.table r.rowId r.payload) : (db'.suppressions r.rowId).isSome := by
  obtain ⟨h0, op, cl, w, reason, now', hw, hp⟩ := hfiled ht
  unfold applyRow at h
  rw [hp] at h
  obtain ⟨payload, hopen, rfl⟩ := Option.map_eq_some_iff.mp h
  have hpayload : payload = suppressionPayload r.rowId w reason now' := by
    simp only [decryptForBoth, Option.ite_none_right_eq_some] at hopen
    exact (Option.some.inj hopen.2).symm
  subst hpayload
  rw [ht]
  exact applySuppressionEvent_self h0 hw _ _ _

section programs

variable {n : ℕ} {s : SyncWorld Id}

/-- Materialising filed rows keeps the terms. -/
theorem safe_materialiseRows (nowIso : String) (rows : List InboxRow) (applied : ℕ)
    (hrows : ∀ r ∈ rows, Filed r.table r.rowId r.payload ∧ ∃ r' ∈ s.db.inbox, SameRow r r') :
    (syncDiscipline Id bundle).Safe n (materialiseRows emailHash bundle nowIso rows applied)
      (fun _ _ => True) s := by
  induction rows generalizing s applied with
  | nil => trivial
  | cons r rows ih =>
    -- the rows of the batch are still in the inbox whenever the program goes on
    have hkeep : ∀ t : SyncWorld Id, SyncLater s t → ∀ r' ∈ r :: rows,
        Filed r'.table r'.rowId r'.payload ∧ ∃ r'' ∈ t.db.inbox, SameRow r' r'' := by
      intro t hst r' hr'
      obtain ⟨hfiled, r₁, hr₁, h₁⟩ := hrows r' hr'
      obtain ⟨r₂, hr₂, h₂⟩ := hst.inbox r₁ hr₁
      exact ⟨hfiled, r₂, hr₂, h₂.1.trans h₁.1, h₂.2.1.trans h₁.2.1, h₂.2.2.1.trans h₁.2.2.1,
        h₂.2.2.2.trans h₁.2.2.2⟩
    have hrest : ∀ t applied, SyncLater s t →
        (syncDiscipline Id bundle).Safe n (materialiseRows emailHash bundle nowIso rows applied)
          (fun _ _ => True) t := fun t applied hst =>
      ih applied fun r' hr' => hkeep t hst r' (List.mem_cons_of_mem _ hr')
    refine Discipline.Safe.act fun t hst hi i => ?_
    cases hdb : applyRow emailHash bundle nowIso t.db r with
    | none => exact ⟨.cloud rfl rfl fun e he => .inl he, hrest t _ hst⟩
    | some db =>
      obtain ⟨hinbox, hsup⟩ := applyRow_frame hdb
      refine ⟨.apply rfl rfl hinbox hsup, ?_⟩
      have hst' : SyncLater s { t with db := db } :=
        hst.trans ⟨hsup, fun r hr => ⟨r, hinbox ▸ hr, rfl, rfl, rfl, rfl⟩⟩
      refine Discipline.Safe.act fun u hu hiu j => ?_
      have hsu := hst'.trans hu
      obtain ⟨hfiled, hrow⟩ := hkeep u hsu r (List.mem_cons_self ..)
      have hmark : SyncStep bundle u { u with db := markMaterialised nowIso u.db r.eventId } :=
        .mark r nowIso rfl rfl rfl hrow fun ht _ =>
          hu.suppressions _ (applyRow_suppresses hdb ht hfiled)
      exact ⟨hmark, hrest _ _ (hsu.trans hmark.later)⟩

/-- A batch of the materialiser keeps the terms. -/
theorem safe_materialiseBatch :
    (syncDiscipline Id bundle).Safe n (materialiseBatch emailHash bundle) (fun _ _ => True) s := by
  unfold materialiseBatch
  refine safe_cloud (fun t i => ⟨rfl, rfl, fun e he => .inl he⟩) fun t i ht => ?_
  refine safe_materialiseRows i.nowIso _ 0 fun r hr => ?_
  have hmem : r ∈ t.db.inbox := List.mem_of_mem_filter (mem_of_mem_page hr)
  exact ⟨ht.inbox r hmem, r, hmem, rfl, rfl, rfl, rfl⟩

end programs

/-- Every operation keeps the terms of the inbox. -/
theorem syncCode_safe (hhash : ∀ a, emailHash a ≠ "") (n : ℕ) (op : SyncOp) (s : SyncWorld Id) :
    (syncDiscipline Id bundle).Safe n (syncCode emailHash bundle n op) (fun _ _ => True) s := by
  cases op with
  | registerPubkey actor key =>
    exact safe_cloud (fun t i => ⟨rfl, rfl, fun e he => .inl he⟩) fun _ _ _ => trivial
  | webhook req => exact safe_resendWebhook hhash req
  | pull => exact safe_pullEvents
  | materialise => exact Discipline.Safe.bind (safe_materialiseBatch.weaken fun _ _ _ => trivial)

/-! ## Whole runs -/

/-- A batch applies the rows it can open and no others. -/
theorem materialiseRowsCounted_snd (nowIso : String) (rows : List InboxRow) (db : Db Id)
    (applied : ℕ) :
    (materialiseRowsCounted emailHash bundle nowIso rows (db, applied)).2 =
      applied + (rows.filter fun r => opens bundle r.payload).length := by
  induction rows generalizing db applied with
  | nil => rfl
  | cons r rows ih =>
    have hopens : (applyRow emailHash bundle nowIso db r).isSome = opens bundle r.payload :=
      applyRow_isSome nowIso db r
    unfold materialiseRowsCounted materialiseRow
    cases hrow : applyRow emailHash bundle nowIso db r with
    | none =>
      rw [hrow] at hopens
      simp only [Option.map_none, ih, List.filter_cons, ← hopens, Option.isSome_none,
        Bool.false_eq_true, if_false]
    | some db' =>
      rw [hrow] at hopens
      simp only [Option.map_some, ih, List.filter_cons, ← hopens, Option.isSome_some, if_true,
        List.length_cons]
      omega

/-- The terms hold in every state of a run whose steps drop and starve nothing. -/
theorem syncRun_inv (hhash : ∀ a, emailHash a ≠ "") (db : Db Id)
    (es : List (Event SyncOp SyncInput))
    (hC : (Pool.idle { db := { db with inbox := [] } : SyncWorld Id }).Steps
      (syncCode emailHash bundle) (Undropped bundle) es) :
    SyncInv bundle (syncRun emailHash bundle db es).state := by
  have h0 : SyncInv bundle ({ db := { db with inbox := [] } } : SyncWorld Id) := by
    constructor <;> simp [Unstarved]
  have hsound : (syncDiscipline Id bundle).Sound
      (Pool.idle { db := { db with inbox := [] } } : Pool (SyncWorld Id) SyncInput) :=
    Discipline.sound_idle h0
  exact (Discipline.run_sound (fun n op s _ => syncCode_safe hhash n op s) hsound es hC).1

/-- A pending row that is not in the next batch has a whole batch in front of it. -/
theorem blockers_of_notMem_inboxBatch {s : SyncWorld Id} (hs : SyncInv bundle s) {r : InboxRow}
    (hr : r ∈ s.db.inbox) (hp : Pending bundle r) (hn : r ∉ s.db.inboxBatch)
    (hstuck : ∀ r' ∈ s.db.inboxBatch, opens bundle r'.payload = false) :
    50 ≤ (blockers bundle s.db r).length := by
  have hmem : r ∈ s.db.inbox.filter (·.materialisedAt = none) := by simp [hr, hp.2.2]
  have hlen : s.db.inboxBatch.length = 50 := length_page_of_notMem hmem hn
  have hnodup : s.db.inboxBatch.Nodup := nodup_page ((List.Nodup.of_map _ hs.ids).filter _)
  have hsub : s.db.inboxBatch ⊆ blockers bundle s.db r := by
    intro r' hr'
    have hin : r' ∈ s.db.inbox := List.mem_of_mem_filter (mem_of_mem_page hr')
    have hle : r'.eventId ≤ r.eventId := le_of_mem_of_notMem_page hr' hmem hn
    have hne : r'.eventId ≠ r.eventId := by
      intro heq
      rw [hs.eq_of_eventId hin hr heq] at hr'
      exact hn hr'
    have hlt : r'.eventId < r.eventId := by omega
    simp [blockers, hin, hstuck r' hr', hlt]
  calc 50 = s.db.inboxBatch.length := hlen.symm
    _ ≤ (blockers bundle s.db r).length := (List.subperm_of_subset hnodup hsub).length_le

/-- **No served suppression is lost**, in every run of webhooks, key registrations, pulls and
materialiser batches in which no pull meets a suppression event it can open whose inbox row is
one it cannot, and no pending suppression ever has fifty rows that cannot be opened in front of
it: once a batch applies nothing any more, every served suppression event that the terminal can
open is on the suppression table.
SOURCE: cloud/webhook_receiver.py:74-182, terminal/sync_client.py:177-203, 472-513 -/
theorem served_suppression_applied (hhash : ∀ a, emailHash a ≠ "") (db : Db Id)
    (es : List (Event SyncOp SyncInput)) (nowIso : String)
    (hC : (Pool.idle { db := { db with inbox := [] } : SyncWorld Id }).Steps
      (syncCode emailHash bundle) (Undropped bundle) es)
    (hquiet : (materialiseInboxBatch emailHash bundle nowIso
      (syncRun emailHash bundle db es).state.db).2 = 0) :
    ∀ e ∈ (syncRun emailHash bundle db es).state.served, e.table = .suppression →
      opens bundle e.payload = true →
      ((syncRun emailHash bundle db es).state.db.suppressions e.rowId).isSome := by
  intro e he ht ho
  have hs := syncRun_inv hhash db es hC
  generalize (syncRun emailHash bundle db es).state = s at hs hquiet he ⊢
  have hstuck : ∀ r ∈ s.db.inboxBatch, opens bundle r.payload = false := by
    have hcount : 0 = 0 + (s.db.inboxBatch.filter fun r => opens bundle r.payload).length :=
      hquiet.symm.trans (materialiseRowsCounted_snd nowIso s.db.inboxBatch s.db 0)
    have hnil : (s.db.inboxBatch.filter fun r => opens bundle r.payload) = [] :=
      List.eq_nil_of_length_eq_zero (by omega)
    intro r hr
    simpa using List.filter_eq_nil_iff.mp hnil r hr
  rcases hs.served e he ht ho with hsome | ⟨r, hr, hrow, hp⟩
  · exact hsome
  by_contra hnone
  have hnone : (s.db.suppressions r.rowId).isSome = false := by simpa [hrow] using hnone
  have hfew := hs.fair r hr hp hnone
  have hbatch : r ∉ s.db.inboxBatch := by
    intro hmem
    have hopen := hp.2.1
    rw [hstuck r hmem] at hopen
    cases hopen
  have hmany := blockers_of_notMem_inboxBatch hs hr hp hbatch hstuck
  omega

section witness

/-- The terminal's keys; the cloud first has another public key of the operator. -/
private def inboxBundle : KeyBundle := ⟨.operator, ⟨2⟩⟩

private def inboxWebhook (svixId : String) (t : WebhookType) : SyncOp :=
  .webhook { svixId := svixId, eventType := t, messageId := none, recipient := some "a@x" }

/-- A complaint while the operator's key is `key`, all the way into the log. -/
private def inboxComplaint (key : ℕ) : List (Event SyncOp SyncInput) :=
  [.start 0 (.registerPubkey .operator ⟨key⟩), .step 0 {},
   .start 1 (.registerPubkey .client ⟨3⟩), .step 1 {},
   .start 2 (inboxWebhook "s1" .complained)] ++ List.replicate 9 (.step 2 {})

/-- A later bounce of the same address under the terminal's own key, a pull and a batch. -/
private def inboxBounce : List (Event SyncOp SyncInput) :=
  [.start 3 (.registerPubkey .operator ⟨2⟩), .step 3 {}, .start 4 (inboxWebhook "s2" .bounced)] ++
    List.replicate 9 (.step 4 {}) ++ [.start 5 .pull] ++ List.replicate 7 (.step 5 {}) ++
    [.start 6 .materialise] ++ List.replicate 9 (.step 6 {})

/-- Under the terminal's own key throughout, the second event finds a row that opens. -/
theorem served_suppression_applied_demo :
    ∃ e ∈ (syncRun (fun _ => "h") inboxBundle ({} : Db ℕ)
        (inboxComplaint 2 ++ inboxBounce)).state.served,
      e.table = .suppression ∧
      ((syncRun (fun _ => "h") inboxBundle ({} : Db ℕ)
        (inboxComplaint 2 ++ inboxBounce)).state.db.suppressions e.rowId).isSome := by
  obtain ⟨e, he, htable, hopens⟩ : ∃ e ∈ (syncRun (fun _ => "h") inboxBundle ({} : Db ℕ)
      (inboxComplaint 2 ++ inboxBounce)).state.served,
      e.table = .suppression ∧ opens inboxBundle e.payload = true := by decide
  exact ⟨e, he, htable, served_suppression_applied (fun _ => by decide) {} _ "" (by decide)
    (by decide) e he htable hopens⟩

/-- When the complaint came under another key, its row holds the place of the bounce, which is
served, can be opened, and is never applied. -/
theorem served_suppression_lost :
    ¬ ∀ (es : List (Event SyncOp SyncInput)) (nowIso : String),
      (materialiseInboxBatch (fun _ => "h") inboxBundle nowIso
        (syncRun (fun _ => "h") inboxBundle ({} : Db ℕ) es).state.db).2 = 0 →
      ∀ e ∈ (syncRun (fun _ => "h") inboxBundle ({} : Db ℕ) es).state.served,
        e.table = .suppression → opens inboxBundle e.payload = true →
        ((syncRun (fun _ => "h") inboxBundle ({} : Db ℕ) es).state.db.suppressions
          e.rowId).isSome := by
  intro hall
  have h := hall (inboxComplaint 1 ++ inboxBounce) "" (by decide)
  revert h
  decide

end witness

end Mailman.Analysis
