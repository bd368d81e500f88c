import Mailman.Analysis.SendNeeds
import Mailman.Interface.WorldTurns

/-!
# The first batch of a normal launch

The transaction of a normal launch numbers the recipients and adds the rows of the batches; it
leaves alone what else a dispatch reads. So what `dispatch_batch` chooses after it can be told from
the tables before it (`chooseBatch_opened`), and its check on the recipients is one that they have
passed already.
-/

set_option autoImplicit false

namespace Mailman.Analysis

open Mailman.Library Mailman.Model Mailman.Interface

variable {Id : Type} [LinearOrder Id] {env : Setup Id} {x : PressInput}

/-- A recipient with the number that a normal launch gives it. -/
def numbered (campaignId : ℕ) (batches : List (List Candidate × ℕ)) (r : Recipient) : Recipient :=
  batches.foldl (fun r batch =>
    if r.campaignId = campaignId ∧ batch.1.any (·.contactId = r.contactId) then
      { r with batchNo := some (batch.2 + 1) } else r) r

/-- The queued recipients that a normal launch numbers one, or leaves under that number. -/
def firstBatch (campaignId : ℕ) (batches : List (List Candidate)) (t : Terminal Id) :
    List Candidate :=
  t.candidates campaignId fun r =>
    (numbered campaignId batches.zipIdx r).batchNo = some 1 && r.status = .queued

/-- What a normal launch needs after its commit: a row for the first batch, somebody in it, and
settings by which the mails of those that are not suppressed go out. -/
structure FirstBatchReady (env : Setup Id) (x : PressInput) (campaignId : ℕ) (ctx : SendCtx)
    (batches : List (List Candidate)) (t : Terminal Id) : Prop where
  row : batches ≠ [] ∨ t.batch? campaignId 1 ≠ none
  somebody : firstBatch campaignId batches t ≠ [] ∨
    (t.batch? campaignId 1).bind (·.dispatchStartedAt) ≠ none
  sends : ∀ plan, planCheck env ctx.camp (genKeyFor ctx.camp.relaunchGen)
    (firstBatch campaignId batches t) t = .ok plan → plan.sends ≠ [] →
      SendsOut x t.settings ctx plan.sends t.activeSeedEmails

/-! ## The transaction -/

section opened

variable {c : ℕ} {t : Terminal Id}

/-- A number changes neither the key nor the status of a recipient. -/
theorem numbered_key (bs : List (List Candidate × ℕ)) (r : Recipient) :
    (numbered c bs r).campaignId = r.campaignId ∧ (numbered c bs r).contactId = r.contactId ∧
      (numbered c bs r).status = r.status := by
  unfold numbered
  induction bs generalizing r with
  | nil => exact ⟨rfl, rfl, rfl⟩
  | cons b bs ih =>
    rw [List.foldl_cons]
    split_ifs
    · exact ih _
    · exact ih r

omit [LinearOrder Id] in
/-- The batches of a launch write the batches and the numbers of the recipients. -/
theorem createBatches_eq (bs : List (List Candidate × ℕ)) (t : Terminal Id) :
    bs.foldl (Terminal.createBatch c) t =
      { t with
        batches := (bs.foldl (Terminal.createBatch c) t).batches
        recipients := t.recipients.map (numbered c bs) } := by
  induction bs generalizing t with
  | nil =>
    show t = { t with recipients := t.recipients.map id }
    rw [List.map_id]
  | cons b bs ih =>
    rw [List.foldl_cons, ih]
    unfold Terminal.createBatch
    dsimp only
    split_ifs
    · simp [Terminal.updateRecipients, updateRows, numbered]
    · simp [Terminal.updateRecipients, updateRows, numbered]

omit [LinearOrder Id] in
/-- The first batch has a row as soon as there is a batch. -/
theorem batch?_createBatches (bs : List (List Candidate × ℕ)) (t : Terminal Id) :
    ((bs.foldl (Terminal.createBatch c) t).batch? c 1 = none ↔
      t.batch? c 1 = none ∧ ∀ b ∈ bs, b.2 ≠ 0) ∧
    ((bs.foldl (Terminal.createBatch c) t).batch? c 1).bind (·.dispatchStartedAt) =
      (t.batch? c 1).bind (·.dispatchStartedAt) := by
  induction bs generalizing t with
  | nil => simp
  | cons b bs ih =>
    rw [List.foldl_cons]
    obtain ⟨hnone, hmark⟩ := ih (t.createBatch c b)
    rw [hnone, hmark]
    have hstep : (t.createBatch c b).batch? c 1 = (t.batch? c 1).or
        (if b.2 = 0 then some { campaignId := c, batchNo := 1, size := b.1.length } else none) := by
      unfold Terminal.createBatch
      dsimp only
      split_ifs with hrow hfirst hfirst
      · rw [hfirst] at hrow
        obtain ⟨row, hrow⟩ := Option.isSome_iff_exists.mp hrow
        show t.batch? c 1 = _
        rw [show t.batch? c 1 = some row from hrow]
        rfl
      · exact (Option.or_none).symm
      · show List.find? _ (t.batches ++ [_]) = _
        rw [List.find?_append, hfirst]
        simp [Terminal.batch?]
      · show List.find? _ (t.batches ++ [_]) = _
        rw [List.find?_append]
        simp [Terminal.batch?, hfirst]
    rw [hstep]
    by_cases hfirst : b.2 = 0
    · cases t.batch? c 1 with
      | none => simp [hfirst]
      | some row => simp [hfirst]
    · simp [hfirst]

omit [LinearOrder Id] in
/-- The candidates of the first batch. -/
theorem candidates_opened (batches : List (List Candidate)) :
    (t.openBatches x c batches).candidates c
      (fun r => r.batchNo = some 1 && r.status = .queued) = firstBatch c batches t := by
  have hrecipients : (t.openBatches x c batches).recipients =
      t.recipients.map (numbered c batches.zipIdx) := by
    unfold Terminal.openBatches Terminal.updateCampaign
    rw [createBatches_eq]
  have hcontacts : (t.openBatches x c batches).contacts = t.contacts := by
    unfold Terminal.openBatches Terminal.updateCampaign
    rw [createBatches_eq]
  unfold firstBatch Terminal.candidates
  rw [hrecipients, hcontacts, List.filter_map, List.filterMap_map]
  simp only [Function.comp_def, numbered_key]

omit [LinearOrder Id] in
/-- Opening the batches marks the campaign as dispatched. -/
theorem openBatches_campaigns (batches : List (List Candidate)) (t : Terminal Id) :
    (t.openBatches x c batches).campaigns = updateRows t.campaigns (fun row => row.id = c)
      fun row => { row with
        status := .dispatched
        dispatchedAt := some x.now
        lockUntil := some (x.now + row.lockDurationS)
        unsubsConfirmedAt := none } := by
  unfold Terminal.openBatches Terminal.updateCampaign
  rw [createBatches_eq]
  simp

omit [LinearOrder Id] in
/-- Opening the batches leaves the settings. -/
theorem openBatches_settings (batches : List (List Candidate)) (t : Terminal Id) :
    (t.openBatches x c batches).settings = t.settings := by
  unfold Terminal.openBatches Terminal.updateCampaign
  rw [createBatches_eq]

end opened

/-! ## The choice of its dispatch -/

section choice

variable {c : ℕ} {t : Terminal Id} {ctx : SendCtx} {recipients : List Candidate}
  {batches : List (List Candidate)} {bearer : Actor} {relaunch : Bool}

omit [LinearOrder Id] in
/-- The campaign and the recipients that a launch reads. -/
theorem loadLaunch_eq_ok {override : Option ℕ} {isStage : Bool} {camp : Campaign} {tmpl : Template}
    (h : t.loadLaunch c override isStage relaunch = .ok (camp, tmpl, recipients)) :
    t.campaign? c = some camp ∧ recipients = t.candidates c fun r =>
      if !isStage && !relaunch then r.status = .queued else r.status.sendable := by
  unfold Terminal.loadLaunch at h
  cases hfind : t.campaign? c with
  | none =>
    rw [hfind] at h
    cases h
  | some camp' =>
    rw [hfind] at h
    dsimp only at h
    split at h
    · cases h
    split at h
    · cases h
    split at h
    · cases h
    split at h
    · cases h
    split at h
    · cases h
    cases h
    exact ⟨rfl, rfl⟩

omit [LinearOrder Id] in
/-- What a context holds of the campaign and the settings. -/
theorem sendCtx_eq_ok {set : Settings} {camp : Campaign} {tmpl : Template} {unset : String}
    (h : sendCtx env x set bearer camp tmpl unset = .ok ctx) :
    ctx.camp = camp ∧ ctx.publicHost = set.publicHost ∧ senderOf x set camp unset = .ok ctx.sender ∧
      ∃ k, x.key = .ok k ∧ ctx.keyId = "K_temp_" ++ env.kTempId k := by
  unfold sendCtx at h
  obtain ⟨sender, hsender, h⟩ := bind_eq_ok.mp h
  obtain ⟨companyName, -, h⟩ := bind_eq_ok.mp h
  obtain ⟨kTemp, hkey, h⟩ := bind_eq_ok.mp h
  cases h
  exact ⟨rfl, rfl, hsender, kTemp, hkey, rfl⟩

omit [LinearOrder Id] in
/-- What a launch has read once its checks have passed. -/
theorem launchChecks_eq_ok (h : launchChecks env x c relaunch bearer t = .ok (ctx, recipients)) :
    t.campaign? c = some ctx.camp ∧ (recipients = t.candidates c fun r =>
      if !relaunch then r.status = .queued else r.status.sendable) ∧
        ctx.publicHost = t.settings.publicHost ∧
          (∃ unset, senderOf x t.settings ctx.camp unset = .ok ctx.sender) ∧
            ∃ k, x.key = .ok k ∧ ctx.keyId = "K_temp_" ++ env.kTempId k := by
  unfold launchChecks at h
  obtain ⟨⟨camp, tmpl, rows⟩, hload, h⟩ := bind_eq_ok.mp h
  dsimp only at h
  split_ifs at h
  obtain ⟨ctx', hctx, h⟩ := bind_eq_ok.mp h
  cases h
  obtain ⟨hcamp, hhost, hsender, hkey⟩ := sendCtx_eq_ok hctx
  obtain ⟨hfind, hrows⟩ := loadLaunch_eq_ok hload
  rw [hcamp]
  refine ⟨hfind, ?_, hhost, ⟨_, hsender⟩, hkey⟩
  simpa using hrows

omit [LinearOrder Id] in
/-- The last checks of a launch have seen everyone that is not suppressed, and the seeds. -/
theorem batchesCheck_eq_ok (h : batchesCheck env ctx recipients t = .ok batches) :
    deliverable env ctx recipients t ≠ [] ∧
      makeBatches t.settings.sendBatchSize (deliverable env ctx recipients t) = .ok batches ∧
        ∀ r ∈ (deliverable env ctx recipients t).map (·.row) ++ seedRows t.activeSeedEmails,
          unsendable (ctx.mailCtx t.settings) r = .ok none := by
  unfold batchesCheck at h
  dsimp only at h
  split_ifs at h with hnone
  obtain ⟨_, hsend, hmake⟩ := bind_eq_ok.mp h
  exact ⟨hnone, hmake, assertRecipientsSendable_iff.mp hsend⟩

omit [LinearOrder Id] in
/-- Who is in the first batch and not suppressed has passed the last check of the launch. -/
theorem deliverable_of_firstBatch
    (hready : launchChecks env x c false bearer t = .ok (ctx, recipients)) {r : Candidate}
    (hr : r ∈ firstBatch c batches t)
    (hfree : suppressedMap ctx.camp.kind t.suppressions (env.emailHash r.email) = none) :
    r ∈ deliverable env ctx recipients t := by
  obtain ⟨-, hrows, -⟩ := launchChecks_eq_ok hready
  have hqueued : r ∈ recipients := by
    rw [hrows, mem_candidates]
    obtain ⟨row, hrow, ⟨hcampaign, hfilter⟩, hcontact⟩ := mem_candidates.mp hr
    simp only [Bool.and_eq_true, decide_eq_true_eq] at hfilter
    exact ⟨row, hrow, ⟨hcampaign, by simpa using hfilter.2⟩, hcontact⟩
  exact List.mem_filter.mpr ⟨hqueued, by simp [hfree]⟩

/-- **What the dispatch of the first batch chooses**, told from the tables before the launch. -/
theorem chooseBatch_opened (hready : launchChecks env x c false bearer t = .ok (ctx, recipients))
    (hbatches : batchesCheck env ctx recipients t = .ok batches) {plan : SendPlan}
    (hplan : planCheck env ctx.camp (genKeyFor ctx.camp.relaunchGen) (firstBatch c batches t) t =
      .ok plan) :
    chooseBatch env ctx 1 (t.openBatches x c batches) =
      if firstBatch c batches t = [] ∧ (t.batch? c 1).bind (·.dispatchStartedAt) = none then
        .error ⟨.launch, s!"batch {1}: no queued recipients"⟩
      else .ok ⟨(t.openBatches x c batches).batch? c 1, plan, t.activeSeedEmails⟩ := by
  obtain ⟨hcamp, -, -⟩ := launchChecks_eq_ok hready
  have hid : ctx.camp.id = c := campaign?_id hcamp
  have hsame : (t.openBatches x c batches).activeSeedEmails = t.activeSeedEmails ∧
      (t.openBatches x c batches).suppressions = t.suppressions ∧
        (t.openBatches x c batches).jobs = t.jobs := by
    unfold Terminal.openBatches Terminal.updateCampaign Terminal.activeSeedEmails
    rw [createBatches_eq]
    exact ⟨rfl, rfl, rfl⟩
  obtain ⟨hseeds, hsuppressions, hjobs⟩ := hsame
  have hmark : ((t.openBatches x c batches).batch? c 1).bind (·.dispatchStartedAt) =
      (t.batch? c 1).bind (·.dispatchStartedAt) := (batch?_createBatches batches.zipIdx t).2
  have hgen : ((t.openBatches x c batches).campaign? c).map (·.relaunchGen) =
      some ctx.camp.relaunchGen := by
    unfold Terminal.campaign?
    have hkey : ∀ row ∈ t.campaigns, decide (row.id = c) = true →
        decide (row.id = c) = decide (row.id = c) := fun _ _ _ => rfl
    rw [openBatches_campaigns, find?_updateRows (by exact hkey)]
    rw [show t.campaigns.find? (·.id = c) = some ctx.camp from hcamp]
    rw [Option.map_some, Option.map_some]
    split_ifs
    · rfl
    · rfl
  have hsend : assertRecipientsSendable (ctx.mailCtx t.settings)
      (plan.sends.map (·.1.row) ++ seedRows t.activeSeedEmails) = .ok () := by
    obtain ⟨-, -, hchecked⟩ := batchesCheck_eq_ok hbatches
    rw [assertRecipientsSendable_iff]
    intro r hr
    apply hchecked
    rw [List.mem_append] at hr ⊢
    refine hr.imp_left fun hr => ?_
    obtain ⟨s, hs, rfl⟩ := List.mem_map.mp hr
    obtain ⟨plan', hplan', -, hsends⟩ := plan_answers env ctx.camp (genKeyFor ctx.camp.relaunchGen)
      (firstBatch c batches t) t
    cases hplan.symm.trans hplan'
    obtain ⟨hin, hfree⟩ := hsends s hs
    exact List.mem_map.mpr ⟨s.1, deliverable_of_firstBatch hready hin hfree, rfl⟩
  unfold chooseBatch
  dsimp only
  rw [hid, candidates_opened, hmark]
  split_ifs
  · rfl
  · obtain ⟨camp, hfound, hcampGen⟩ := Option.map_eq_some_iff.mp hgen
    rw [hfound]
    dsimp only
    rw [hcampGen, planCheck_congr hsuppressions hjobs, hplan, openBatches_settings, hseeds]
    show (assertRecipientsSendable _ _ >>= fun _ => _) = _
    rw [hsend]
    rfl

/-- The first batch is dispatchable after the launch's commit exactly where it is ready before. -/
theorem firstBatchReady_iff (hready : launchChecks env x c false bearer t = .ok (ctx, recipients))
    (hbatches : batchesCheck env ctx recipients t = .ok batches) :
    FirstBatchReady env x c ctx batches t ↔
      ∃ chosen, chooseBatch env ctx 1 (t.openBatches x c batches) = .ok chosen ∧
        chosen.row ≠ none ∧
          (chosen.plan.sends ≠ [] → SendsOut x t.settings ctx chosen.plan.sends chosen.seeds) := by
  obtain ⟨plan, hplan, -, -⟩ := plan_answers env ctx.camp (genKeyFor ctx.camp.relaunchGen)
    (firstBatch c batches t) t
  have hrow : (t.openBatches x c batches).batch? c 1 ≠ none ↔
      batches ≠ [] ∨ t.batch? c 1 ≠ none := by
    have hnone := (batch?_createBatches (c := c) batches.zipIdx t).1
    have hopened : (t.openBatches x c batches).batch? c 1 = none ↔
        t.batch? c 1 = none ∧ ∀ b ∈ batches.zipIdx, b.2 ≠ 0 := hnone
    rw [Ne, hopened, not_and_or, or_comm]
    apply or_congr_left
    cases batches with
    | nil => simp
    | cons b bs => simp
  rw [chooseBatch_opened hready hbatches hplan]
  constructor
  · intro h
    refine ⟨_, if_neg ?_, hrow.mpr h.row, h.sends plan hplan⟩
    rintro ⟨hnobody, hmark⟩
    exact h.somebody.elim (fun hsome => hsome hnobody) fun hsome => hsome hmark
  · rintro ⟨chosen, hchosen, hchosenRow, hout⟩
    split_ifs at hchosen with hnobody
    cases hchosen
    refine ⟨hrow.mp hchosenRow, not_and_or.mp hnobody, ?_⟩
    intro plan' hplan'
    cases hplan.symm.trans hplan'
    exact hout

end choice

end Mailman.Analysis
