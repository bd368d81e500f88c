import Mailman.Interface.Engagement

/-!
# The order of a pack's outcome and its webhook events

Once the outcome has written the message id, every webhook event of that message finds the
recipient, and materialising it is one `Engagement.step`. What a list of events leaves is
then known for every order. The order does show: a click after a bounce or a complaint is
not marked, and of bounces and complaints the last one decides the status.
-/

set_option autoImplicit false

namespace Mailman.Analysis

open Mailman.Model Mailman.Interface

variable {Id : Type} (emailHash : String → String) (nowIso : String)

/-- The recipient row of `job` is `r`, and the message id `m` leads to it. -/
structure Tracks (db : Db Id) (job : Job Id) (m : String) (r : Recipient) : Prop where
  row : db.recipients.find? job.isRecipient = some r
  message : db.byMessage? m = some r

/-- The outcome of a sent pack writes its message id into the recipient row. -/
theorem tracks_applyPackOutcome [DecidableEq Id] {db : Db Id} {pack : PackOutcome Id} {job : Job Id} {m : String}
    {r : Recipient} (hsent : pack.status = .sent) (hm : pack.resendMessageId = some m)
    (hjob : db.job? pack.packId = some job) (hr : r ∈ db.recipients)
    (hrow : job.isRecipient r = true) (hstatus : r.status.engaged = false)
    (hkey : ∀ r' ∈ db.recipients, job.isRecipient r' = true → r' = r)
    (hother : ∀ r' ∈ db.recipients, r'.messageId = some m → r' = r) :
    ∃ r', Tracks (applyPackOutcome nowIso db pack) job m r' ∧ r'.contactId = r.contactId ∧
      engagement r' = { engagement r with status := .sent } := by
  have hupd : (applyPackOutcome nowIso db pack).recipients =
      updateRows db.recipients (fun r' => job.isRecipient r' && !r'.status.engaged) fun r' =>
        { r' with
          status := .sent, messageId := some m
          failureReason :=
            if pack.failureReason.getD "" = "" then none else some (pack.failureReason.getD "")
          sentAt := some nowIso } := by
    simp [applyPackOutcome, hsent, hjob, hm]
  generalize hf : (fun r' : Recipient => ({ r' with
    status := .sent, messageId := some m
    failureReason :=
      if pack.failureReason.getD "" = "" then none else some (pack.failureReason.getD "")
    sentAt := some nowIso } : Recipient)) = f at hupd
  have hhit : (job.isRecipient r && !r.status.engaged) = true := by simp [hrow, hstatus]
  have hkeep : ∀ r', (f r').campaignId = r'.campaignId ∧ (f r').contactId = r'.contactId := by
    simp [← hf]
  have hfind : db.recipients.find? job.isRecipient = some r := by
    have hsome : (db.recipients.find? job.isRecipient).isSome := by
      rw [List.find?_isSome]
      exact ⟨r, hr, hrow⟩
    obtain ⟨r', hr'⟩ := Option.isSome_iff_exists.mp hsome
    rw [hr', hkey r' (List.mem_of_find?_eq_some hr') (List.find?_some hr')]
  refine ⟨f r, ⟨?_, ?_⟩, (hkeep r).2, by simp [← hf, engagement]⟩
  · rw [hupd, find?_updateRows fun r' _ _ => by simp [Job.isRecipient, hkeep]]
    simp [hfind, hrow, hstatus]
  · -- only the updated row can carry the message id afterwards
    unfold Db.byMessage?
    rw [hupd]
    have hmem : f r ∈ updateRows db.recipients
        (fun r' => job.isRecipient r' && !r'.status.engaged) f :=
      mem_updateRows.mpr ⟨r, hr, by simp [hrow, hstatus]⟩
    have hsome : ((updateRows db.recipients
        (fun r' => job.isRecipient r' && !r'.status.engaged) f).find?
          (·.messageId = some m)).isSome := by
      rw [List.find?_isSome]
      exact ⟨f r, hmem, by simp [← hf]⟩
    obtain ⟨r', hr'⟩ := Option.isSome_iff_exists.mp hsome
    obtain ⟨r₀, hr₀, heq⟩ := mem_updateRows.mp (List.mem_of_find?_eq_some hr')
    have hmsg : r'.messageId = some m := by simpa using List.find?_some hr'
    rw [hr']
    split at heq
    · next hcond =>
      rw [Bool.and_eq_true] at hcond
      rw [← heq, hkey r₀ hr₀ hcond.1]
    · next hcond =>
      subst heq
      rw [hother r₀ hr₀ hmsg] at hcond
      exact absurd hhit hcond

/-- A webhook event of the message moves the tracked recipient by one step. -/
theorem tracks_applyWebhookEvent {db : Db Id} {job : Job Id} {m : String} {r : Recipient}
    (h : Tracks db job m r) (hm : m ≠ "") {payload : InboxPayload}
    (hp : payload.messageId = some m) :
    ∃ r', Tracks (applyWebhookEvent emailHash nowIso db payload) job m r' ∧
      r'.contactId = r.contactId ∧ engagement r' = (engagement r).step payload.eventType := by
  -- an update of the row by its id keeps it tracked
  have hset : ∀ (f : Recipient → Recipient), (∀ r', (f r').campaignId = r'.campaignId ∧
      (f r').contactId = r'.contactId ∧ (f r').messageId = r'.messageId) →
      Tracks (db.setRecipient r.id f) job m (f r) := by
    intro f hf
    constructor
    · unfold Db.setRecipient
      rw [find?_updateRows fun r' _ _ => by simp [Job.isRecipient, hf], h.row]
      simp
    · have hrow := h.message
      unfold Db.byMessage? at hrow
      unfold Db.byMessage? Db.setRecipient
      rw [find?_updateRows fun r' _ _ => by simp [hf], hrow]
      simp
  unfold applyWebhookEvent
  simp only [hp, Option.getD_some, hm, if_false, h.message]
  cases ht : payload.eventType with
  | bounced =>
    simp only [reduceCtorEq, ne_eq, not_true_eq_false, false_and, and_false, if_false]
    refine ⟨{ r with status := .bounced, bouncedAt := some nowIso }, ?_, rfl, by
      simp [engagement, Engagement.step]⟩
    have := hset (fun r' => { r' with status := .bounced, bouncedAt := some nowIso })
      fun _ => ⟨rfl, rfl, rfl⟩
    split
    · exact this
    · exact ⟨this.row, this.message⟩
  | complained =>
    simp only [reduceCtorEq, ne_eq, not_true_eq_false, and_false, if_false]
    exact ⟨_, hset _ fun _ => ⟨rfl, rfl, rfl⟩, rfl, by simp [engagement, Engagement.step]⟩
  | clicked =>
    by_cases hfail : r.status = .bounced ∨ r.status = .complained
    · have hstep : (engagement r).step .clicked = engagement r := if_pos hfail
      exact ⟨r, by simpa [hfail] using h, rfl, hstep.symm⟩
    · have hstep : (engagement r).step .clicked =
          { engagement r with status := .clicked, clicked := true } := if_neg hfail
      simp only [hfail, false_and, if_false]
      exact ⟨_, hset _ fun _ => ⟨rfl, rfl, rfl⟩, rfl, by rw [hstep]; simp [engagement]⟩
  | opened | unsubscribed | other _ =>
    refine ⟨r, ?_, rfl, rfl⟩
    split <;> exact h

/-- An event lifts no suppression. -/
theorem applyWebhookEvent_suppressions {db : Db Id} {h : String} (payload : InboxPayload)
    (hs : (db.suppressions h).isSome) :
    ((applyWebhookEvent emailHash nowIso db payload).suppressions h).isSome := by
  unfold applyWebhookEvent
  dsimp only
  repeat' split
  all_goals first
    | exact hs
    | exact insertOrIgnore_mono _ _ _ hs

/-- A bounce suppresses the hash of the tracked recipient's address. -/
theorem applyWebhookEvent_bounced {db : Db Id} {job : Job Id} {m : String} {r : Recipient}
    (h : Tracks db job m r) (hm : m ≠ "") {payload : InboxPayload}
    (hp : payload.messageId = some m) (hb : payload.eventType = .bounced) {k : String}
    (hk : db.recipientHash emailHash r = some k) :
    ((applyWebhookEvent emailHash nowIso db payload).suppressions k).isSome := by
  unfold applyWebhookEvent
  simp only [hp, Option.getD_some, hm, if_false, h.message, hb, ne_eq, not_true_eq_false,
    false_and, and_false, hk]
  exact insertOrIgnore_self _ _ _

/-- An event changes no contact. -/
theorem applyWebhookEvent_contacts (db : Db Id) (payload : InboxPayload) :
    (applyWebhookEvent emailHash nowIso db payload).contacts = db.contacts := by
  unfold applyWebhookEvent
  dsimp only
  repeat' split
  all_goals rfl

/-- A webhook event of message `m` as the materialiser meets it: an inbox row that the
terminal's keys open, and the time it is applied at. -/
structure Arrival (bundle : KeyBundle) (m : String) where
  nowIso : String
  row : InboxRow
  payload : InboxPayload
  webhook : row.table = .webhookEvent
  opens : ∃ envelope, row.payload = some envelope ∧ decryptForBoth envelope bundle = some payload
  message : payload.messageId = some m

variable {bundle : KeyBundle} {m : String}

/-- Materialising an arrival applies its payload and marks its row. -/
theorem materialiseRow_arrival (a : Arrival bundle m) (db : Db Id) :
    materialiseRow emailHash bundle a.nowIso db a.row =
      some (markMaterialised a.nowIso (applyWebhookEvent emailHash a.nowIso db a.payload)
        a.row.eventId) := by
  obtain ⟨envelope, hrow, hopen⟩ := a.opens
  simp [materialiseRow, applyRow, hrow, hopen, a.webhook]

/-- The database after materialising webhook events one after the other. -/
def materialiseAll (emailHash : String → String) (db : Db Id) (as : List (Arrival bundle m)) :
    Db Id :=
  as.foldl (fun db a => (materialiseRow emailHash bundle a.nowIso db a.row).getD db) db

/-- The recipient after any list of events of its message, and the suppression of its
address. -/
theorem tracks_materialiseAll (as : List (Arrival bundle m)) {db : Db Id} {job : Job Id}
    {r : Recipient} (h : Tracks db job m r) (hm : m ≠ "") :
    ∃ r', Tracks (materialiseAll emailHash db as) job m r' ∧ r'.contactId = r.contactId ∧
      engagement r' =
        (as.map (·.payload.eventType)).foldl Engagement.step (engagement r) ∧
      ∀ k, db.recipientHash emailHash r = some k →
        ((db.suppressions k).isSome ∨ .bounced ∈ as.map (·.payload.eventType)) →
        ((materialiseAll emailHash db as).suppressions k).isSome := by
  induction as generalizing db r with
  | nil => exact ⟨r, h, rfl, rfl, fun k _ hs => by simpa [materialiseAll] using hs⟩
  | cons a as ih =>
    obtain ⟨r₁, htracks, hcontact, heng⟩ :=
      tracks_applyWebhookEvent emailHash a.nowIso h hm a.message
    have hmark : Tracks ((materialiseRow emailHash bundle a.nowIso db a.row).getD db) job m r₁ := by
      rw [materialiseRow_arrival]
      exact ⟨htracks.row, htracks.message⟩
    obtain ⟨r₂, h₂, hc₂, he₂, hs₂⟩ := ih hmark
    refine ⟨r₂, h₂, hc₂.trans hcontact, ?_, fun k hk hs => hs₂ k ?_ ?_⟩
    · rw [he₂, heng]
      rfl
    · rw [materialiseRow_arrival]
      have hcontacts := applyWebhookEvent_contacts emailHash a.nowIso db a.payload
      simpa [Db.recipientHash, markMaterialised, hcontacts, hcontact] using hk
    · rw [materialiseRow_arrival]
      rcases hs with hs | hs
      · exact .inl (applyWebhookEvent_suppressions emailHash a.nowIso a.payload hs)
      · rw [List.map_cons, List.mem_cons] at hs
        rcases hs with hb | hs
        · exact .inl (applyWebhookEvent_bounced emailHash a.nowIso h hm a.message hb.symm hk)
        · exact .inr hs

/-- A recorded pack as `_record_dispatch` left it: its job is there, its recipient row is
`sent` and the only one of that campaign and contact (the schema's unique constraint), and no
other row carries the provider's message id. -/
structure RecordedPack [DecidableEq Id] (db : Db Id) (packId : Id) (m : String) (job : Job Id)
    (r : Recipient) : Prop where
  recorded : db.job? packId = some job
  mem : r ∈ db.recipients
  row : job.isRecipient r = true
  sent : r.status = .sent
  unique : ∀ r' ∈ db.recipients, job.isRecipient r' = true → r' = r
  message : ∀ r' ∈ db.recipients, r'.messageId = some m → r' = r

/-- **What a sent pack's webhook events leave**, in whatever order they are materialised after
its outcome: a bounce or a complaint is always marked, and a bounce suppresses the address; a
click is marked when it came before every bounce and complaint; and the status is that of the
last bounce or complaint, else clicked after a click, else sent.
SOURCE: terminal/sync_client.py:348-391, 472-575 -/
theorem webhooks_after_outcome [DecidableEq Id] {db : Db Id} {pack : PackOutcome Id}
    {job : Job Id} {r : Recipient} (hsent : pack.status = .sent)
    (hid : pack.resendMessageId = some m) (hm : m ≠ "")
    (hrec : RecordedPack db pack.packId m job r) (as : List (Arrival bundle m)) :
    ∃ r', (materialiseAll emailHash (applyPackOutcome nowIso db pack) as).recipients.find?
        job.isRecipient = some r' ∧
      (r'.bouncedAt.isSome ↔
        r.bouncedAt.isSome ∨ .bounced ∈ as.map (·.payload.eventType)) ∧
      (r'.complainedAt.isSome ↔
        r.complainedAt.isSome ∨ .complained ∈ as.map (·.payload.eventType)) ∧
      (r'.clickedAt.isSome ↔ r.clickedAt.isSome ∨
        .clicked ∈ (as.map (·.payload.eventType)).takeWhile fun t => !failure t) ∧
      r'.status = Engagement.statusAfter .sent (as.map (·.payload.eventType)) ∧
      ∀ k, db.recipientHash emailHash r = some k →
        .bounced ∈ as.map (·.payload.eventType) →
        ((materialiseAll emailHash (applyPackOutcome nowIso db pack) as).suppressions k).isSome := by
  obtain ⟨r₁, h₁, hc₁, he₁⟩ := tracks_applyPackOutcome nowIso hsent hid hrec.recorded
    hrec.mem hrec.row (by simp [hrec.sent, RecipientStatus.engaged]) hrec.unique hrec.message
  obtain ⟨r₂, h₂, hc₂, he₂, hs₂⟩ := tracks_materialiseAll emailHash as h₁ hm
  have hopen : ¬ Engagement.Failed (engagement r₁).status := by simp [he₁, Engagement.Failed]
  have hb := Engagement.foldl_step_bounced (engagement r₁) (as.map (·.payload.eventType))
  have hcm := Engagement.foldl_step_complained (engagement r₁) (as.map (·.payload.eventType))
  have hcl := Engagement.foldl_step_clicked hopen (as.map (·.payload.eventType))
  have hst := Engagement.foldl_step_status (engagement r₁) (as.map (·.payload.eventType))
  rw [← he₂] at hb hcm hcl hst
  rw [he₁] at hb hcm hcl hst
  refine ⟨r₂, h₂.row, hb, hcm, hcl, hst, fun k hk hmem => hs₂ k ?_ (.inr hmem)⟩
  · have hcontacts : (applyPackOutcome nowIso db pack).contacts = db.contacts := by
      simp [applyPackOutcome, hsent, hrec.recorded]
    simpa [Db.recipientHash, hcontacts, hc₁] using hk

section witness

private def demoKey : KemKey := ⟨7⟩

private def demoBundle : KeyBundle := ⟨.operator, demoKey⟩

/-- One campaign with one contact, whose pack 0 is recorded. -/
private def demoDb : Db ℕ where
  contacts := [{ id := 5, email := "b@y" }]
  recipients := [{ id := 1, campaignId := 1, contactId := 5, status := .sent }]
  jobs := [{ jobId := 0, campaignId := 1, recipientId := 5 }]

private def demoJob : Job ℕ := { jobId := 0, campaignId := 1, recipientId := 5 }

private def demoOutcome : PackOutcome ℕ :=
  { packId := 0, status := .sent, resendMessageId := some "m" }

/-- A webhook event of message `m`, as event `n` of the log. -/
private def demoArrival (n : ℕ) (t : WebhookType) : Arrival demoBundle "m" where
  nowIso := "t1"
  row :=
    { eventId := n, table := .webhookEvent, rowId := "svix", revision := 0
      payload := some (.sealed demoKey ⟨8⟩ (some { eventType := t, messageId := some "m" })) }
  payload := { eventType := t, messageId := some "m" }
  webhook := rfl
  opens := ⟨_, rfl, rfl⟩
  message := rfl

/-- A click and a bounce after the outcome. -/
theorem webhooks_after_outcome_demo :
    ((materialiseAll id (applyPackOutcome "t0" demoDb demoOutcome)
      [demoArrival 1 .clicked, demoArrival 2 .bounced]).suppressions "b@y").isSome := by
  have hrec : RecordedPack demoDb 0 "m" demoJob
      { id := 1, campaignId := 1, contactId := 5, status := .sent } :=
    ⟨rfl, by simp [demoDb], rfl, rfl, by simp [demoDb], by simp [demoDb]⟩
  obtain ⟨_, _, _, _, _, _, hs⟩ := webhooks_after_outcome id "t0"
    (show demoOutcome.status = .sent from rfl) rfl (by decide) hrec
    [demoArrival 1 .clicked, demoArrival 2 .bounced]
  exact hs "b@y" rfl (by simp [demoArrival])

/-- The same two events in the other order leave the click unmarked. -/
theorem webhook_order_shows :
    ¬ ∀ as bs : List (Arrival demoBundle "m"), as.Perm bs →
      ((materialiseAll id (applyPackOutcome "t0" demoDb demoOutcome) as).recipients.map
          (·.clickedAt.isSome)) =
        (materialiseAll id (applyPackOutcome "t0" demoDb demoOutcome) bs).recipients.map
          (·.clickedAt.isSome) := by
  intro hall
  have h := hall [demoArrival 1 .clicked, demoArrival 2 .bounced]
    [demoArrival 2 .bounced, demoArrival 1 .clicked] (.swap _ _ _)
  revert h
  decide

end witness

end Mailman.Analysis
