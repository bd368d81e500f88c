import Mathlib.Data.List.InsertIdx
import Mailman.Analysis.LaunchSafe

/-!
# Everything that may run keeps the ledger

The batches, the launches and the other presses, each a sequence of sessions that leave the
jobs alone, with at most one push in it, and then the outcomes loop and the cloud's own
programs. `worldCode_safe` is the rule for all of them.
-/

set_option autoImplicit false

namespace Mailman.Analysis

open Mailman.Library Mailman.Model Mailman.Interface

variable {Id : Type} [LinearOrder Id] {env : Setup Id} {n : ℕ} {s : World Id}

/-! ## Sessions that leave the sends alone -/

section frames

variable {t t' t'' : Terminal Id}

omit [LinearOrder Id] in
/-- No change keeps the sends. -/
theorem KeepsSends.refl (t : Terminal Id) : KeepsSends t t := ⟨rfl, fun _ _ h => h⟩

omit [LinearOrder Id] in
/-- Two changes that keep the sends keep them one after the other. -/
theorem KeepsSends.trans (h : KeepsSends t t') (h' : KeepsSends t' t'') : KeepsSends t t'' :=
  ⟨h'.jobs.trans h.jobs, fun c x hx => h'.created c x (h.created c x hx)⟩

omit [LinearOrder Id] in
/-- A session that writes neither jobs nor campaigns. -/
theorem KeepsSends.of_eq (hjobs : t'.jobs = t.jobs) (hcamp : t'.campaigns = t.campaigns) :
    KeepsSends t t' := by
  refine ⟨hjobs, fun c x hx => ?_⟩
  unfold Terminal.campaign? at hx ⊢
  rw [hcamp]
  exact hx

omit [LinearOrder Id] in
/-- A change of batch rows keeps the sends. -/
theorem KeepsSends.updateBatches (t : Terminal Id) (c : ℕ) (p : CampaignBatch → Bool)
    (f : CampaignBatch → CampaignBatch) : KeepsSends t (t.updateBatches c p f) :=
  .of_eq rfl rfl

omit [LinearOrder Id] in
/-- A change of recipients keeps the sends. -/
theorem KeepsSends.updateRecipients (t : Terminal Id) (c : ℕ) (p : Recipient → Bool)
    (f : Recipient → Recipient) : KeepsSends t (t.updateRecipients c p f) :=
  .of_eq rfl rfl

omit [LinearOrder Id] in
/-- A change of a campaign that keeps its id and its creation keeps the sends. -/
theorem KeepsSends.updateCampaign (t : Terminal Id) (campaignId : ℕ) (p : Campaign → Bool)
    {f : Campaign → Campaign} (hid : ∀ c, (f c).id = c.id)
    (hcreated : ∀ c, (f c).createdAt = c.createdAt) :
    KeepsSends t (t.updateCampaign campaignId p f) := by
  refine ⟨rfl, fun c x hx => ?_⟩
  unfold Terminal.campaign? Terminal.updateCampaign at *
  rw [find?_updateRows fun r _ _ => by rw [hid]]
  obtain ⟨camp, hcamp, rfl⟩ := Option.map_eq_some_iff.mp hx
  rw [hcamp, Option.map_some, Option.map_some]
  split
  · rw [hcreated]
  · rfl

omit [LinearOrder Id] in
/-- A fold of such sessions. -/
theorem KeepsSends.foldl {γ : Type} {f : Terminal Id → γ → Terminal Id}
    (hf : ∀ t x, KeepsSends t (f t x)) (xs : List γ) (t : Terminal Id) :
    KeepsSends t (xs.foldl f t) := by
  induction xs generalizing t with
  | nil => exact .refl t
  | cons x xs ih => exact (hf t x).trans (ih (f t x))

end frames

/-- Running a program if a condition holds. -/
theorem safe_onlyIf {c : Prop} [Decidable c] {p : LaunchProc Id Unit}
    (h : (worldDiscipline env).SafeOr n p (fun _ _ => True) s) :
    (worldDiscipline env).SafeOr n (Fallible.onlyIf c p) (fun _ _ => True) s :=
  Discipline.SafeOr.onlyIf fun _ => h

/-! ## One batch -/

/-- Marking suppressed recipients keeps the terms. -/
theorem safe_markSuppressed (campaignId : ℕ) (rows : List (ℕ × SuppressionReason)) :
    (worldDiscipline env).SafeOr n (markSuppressed campaignId rows : LaunchProc Id Unit)
      (fun _ _ => True) s :=
  safe_commit fun t _ => .foldl (fun _ _ => .updateRecipients ..) rows t

/-- Closing an empty batch keeps the terms. -/
theorem safe_closeEmptyBatch (campaignId batchNo : ℕ) (handedOver : Bool) (suppressed : ℕ) :
    (worldDiscipline env).SafeOr n
      (closeEmptyBatch campaignId batchNo handedOver suppressed : LaunchProc Id (BatchResult Id))
      (fun _ _ => True) s := by
  refine safe_session (fun t i => ?_) fun _ _ _ => trivial
  split
  · exact .updateBatches ..
  · exact .updateBatches ..

/-- What is among the targets and the seeds is a target or has no send id. -/
theorem mem_insertSeeds {step i : ℕ} {seeds : List String}
    {targets : List (SendRow × Option SendId)} {x : SendRow × Option SendId}
    (h : x ∈ insertSeeds step i seeds targets) : x ∈ targets ∨ x.2 = none := by
  induction seeds generalizing i targets with
  | nil => exact .inl h
  | cons email seeds ih =>
    rcases ih h with hmem | hnone
    · rcases List.eq_or_mem_of_mem_insertIdx hmem with rfl | hold
      · exact .inr rfl
      · exact .inl hold
    · exact .inr hnone

/-- A target of a batch is a planned send or a seed. -/
theorem send_of_mem_batchTargets {sends : List (Candidate × SendId)} {seeds : List String}
    {sendAts : List Stamp} {target : Target} (h : target ∈ batchTargets sends seeds sendAts)
    {k : SendId} (hk : target.send = some k) : ∃ x ∈ sends, x.2 = k := by
  obtain ⟨⟨⟨row, send⟩, sendAt⟩, hmem, rfl⟩ := List.mem_map.mp h
  cases hk
  rcases mem_insertSeeds (List.of_mem_zip hmem).1 with hrow | hnone
  · obtain ⟨x, hx, heq⟩ := List.mem_map.mp hrow
    cases heq
    exact ⟨x, hx, rfl⟩
  · cases hnone

/-- The push of a batch keeps the terms where its plan is of chosen ids. -/
theorem safe_pushBatch (ctx : SendCtx) (campaignId batchNo : ℕ) (batchRow : Option CampaignBatch)
    (plan : SendPlan) (seeds : List String) (hctx : CtxOk s campaignId ctx)
    (hplan : ∀ x ∈ plan.sends, x.2 ∈ s.chosen) :
    (worldDiscipline env).SafeOr n (pushBatch env id ctx campaignId batchNo batchRow plan seeds)
      (fun _ _ => True) s := by
  refine safe_bind (Q := fun _ _ => True) (safe_ask (fun w i => ?_) fun _ _ _ _ _ => trivial)
    fun times t hst _ => ?_
  · split <;> rfl
  obtain ⟨sendAts, draw⟩ := times
  refine safe_bind safe_checked fun _ u htu _ => safe_bind safe_require fun _ v huv _ => ?_
  refine safe_bind (safe_commit fun _ _ => .updateBatches ..) fun _ w hvw _ => ?_
  have hgrown := ((hst.trans htu).trans huv).trans hvw
  have htargets : ∀ target ∈ batchTargets plan.sends seeds sendAts, ∀ k,
      target.send = some k → k ∈ w.chosen := by
    intro target htarget k hk
    obtain ⟨x, hx, rfl⟩ := send_of_mem_batchTargets htarget hk
    exact hgrown.chosen (hplan x hx)
  have hok : ∀ p ∈ (buildPacks env ctx (batchTargets plan.sends seeds sendAts) draw).map (·.1),
      RequestOk env w p := buildPacks_ok (hctx.onward hgrown).key htargets
  refine safe_bind (safe_pushAndRecord _ campaignId _ _ hok (buildPacks_ids ..))
    fun _ _ _ _ => ?_
  exact safe_bind (safe_commit fun _ _ => .updateBatches ..)
    fun _ _ _ _ => Discipline.SafeOr.pure trivial

/-- The dispatch of a chosen batch keeps the terms. -/
theorem safe_dispatchSelected (ctx : SendCtx) (campaignId batchNo : ℕ)
    (hctx : CtxOk s campaignId ctx) :
    (worldDiscipline env).SafeOr n (dispatchSelected env id ctx campaignId batchNo)
      (fun _ _ => True) s := by
  refine safe_bind safe_read fun row t hst _ => ?_
  obtain ⟨recips, batchRow⟩ := row
  refine safe_bind safe_require fun _ u htu _ => safe_bind safe_read fun gen v huv _ => ?_
  cases gen with
  | none => exact Discipline.SafeOr.throw
  | some gen =>
    have hv := hctx.onward ((hst.trans htu).trans huv)
    refine safe_bind (safe_planSends _ _ _ _ _ hv.created) fun plan w hvw hplan => ?_
    refine safe_bind safe_read fun seeds x hwx _ => safe_bind safe_checked fun _ y hxy _ => ?_
    refine safe_bind (safe_onlyIf (safe_markSuppressed _ _)) fun _ z hyz _ => ?_
    have hwz := (hwx.trans hxy).trans hyz
    split
    · refine safe_bind safe_require fun _ _ _ _ => ?_
      exact safe_bind (safe_closeEmptyBatch _ _ _ _) fun _ _ _ _ => Discipline.SafeOr.pure trivial
    · exact safe_pushBatch ctx campaignId batchNo batchRow plan seeds
        (hv.onward (hvw.trans hwz)) fun x hx => hwz.chosen (hplan x hx)

/-- The dispatch of a batch keeps the terms. -/
theorem safe_dispatchBatch (campaignId batchNo : ℕ) (ctx : Option SendCtx)
    (hctx : ∀ c, ctx = some c → CtxOk s campaignId c) :
    (worldDiscipline env).SafeOr n (dispatchBatch env id campaignId batchNo ctx)
      (fun _ _ => True) s := by
  refine safe_bind (safe_refuseClosed _ _) fun _ t hst _ => ?_
  cases ctx with
  | some ctx => exact safe_dispatchSelected ctx campaignId batchNo ((hctx ctx rfl).onward hst)
  | none => exact safe_bind (safe_loadSendCtx campaignId) fun ctx _ _ hctx =>
      safe_dispatchSelected ctx campaignId batchNo hctx

/-- Finishing an interrupted batch keeps the terms. -/
theorem safe_finishInterruptedBatch (campaignId batchNo : ℕ) :
    (worldDiscipline env).SafeOr n (finishInterruptedBatch env id campaignId batchNo)
      (fun _ _ => True) s := by
  refine safe_bind (safe_dispatchBatch campaignId batchNo none fun _ h => by cases h)
    fun res _ _ _ => ?_
  split
  · refine safe_bind (safe_commit fun t _ => ?_) fun _ _ _ _ => Discipline.SafeOr.pure trivial
    exact (KeepsSends.updateBatches ..).trans (.updateBatches ..)
  · exact Discipline.SafeOr.pure trivial

/-! ## A whole launch -/

/-- The claim of a Re-launch keeps the terms. -/
theorem safe_claimRelaunch (campaignId : ℕ) (expectedSeq : Option ℕ) :
    (worldDiscipline env).SafeOr n (claimRelaunch campaignId expectedSeq : LaunchProc Id Unit)
      (fun _ _ => True) s := by
  refine safe_bind (safe_session (Q := fun _ _ => True) (fun t _ => ?_) fun _ _ _ => trivial)
    fun _ _ _ _ => safe_require.weaken fun _ _ _ => trivial
  exact .updateCampaign t _ _ (fun _ => rfl) fun _ => rfl

/-- Opening a generation keeps the terms. -/
theorem safe_openRelaunch (campaignId : ℕ) :
    (worldDiscipline env).SafeOr n (openRelaunch campaignId : LaunchProc Id (ℕ × Bool))
      (fun _ _ => True) s := by
  refine safe_bind (safe_session (Q := fun _ _ => True) (fun t _ => ?_) fun _ _ _ => trivial)
    fun row _ _ _ => ?_
  · exact .updateCampaign t _ _ (fun _ => rfl) fun _ => rfl
  · cases row with
    | none => exact Discipline.SafeOr.throw
    | some row => exact Discipline.SafeOr.pure trivial

/-- A planned launch keeps the terms where its last commit keeps the sends. -/
theorem safe_launchPlanned (ctx : SendCtx) (campaignId : ℕ) (recipients : List Candidate)
    (sendKey : SendKey) (mode : SendMode) (generation : Option ℕ)
    {close : Terminal Id → WorldInput Id → Terminal Id} (hctx : CtxOk s campaignId ctx)
    (hclose : ∀ t i, KeepsSends t (close t i)) :
    (worldDiscipline env).SafeOr n
      (launchPlanned env id ctx campaignId recipients sendKey mode generation close)
      (fun _ _ => True) s := by
  refine safe_bind (safe_planSends _ _ _ _ _ hctx.created) fun plan t hst hplan => ?_
  refine safe_bind (safe_ask (Q := fun _ _ => True) (fun _ _ => rfl) fun _ _ _ _ _ => trivial)
    fun draw u htu _ => safe_bind safe_checked fun _ v huv _ => ?_
  have htv := htu.trans huv
  have hok : ∀ p ∈ (buildPacks env ctx (plan.sends.map fun s =>
      ⟨s.1.row, some s.2, packSendAt ctx.camp.scheduledFor⟩) draw).map (·.1),
      RequestOk env v p := by
    refine buildPacks_ok (hctx.onward (hst.trans htv)).key fun target htarget k hk => ?_
    obtain ⟨x, hx, rfl⟩ := List.mem_map.mp htarget
    cases hk
    exact htv.chosen (hplan x hx)
  refine safe_bind (safe_pushAndRecord _ campaignId _ _ hok (buildPacks_ids ..))
    fun _ _ _ _ => safe_bind (safe_commit hclose) fun _ _ _ _ => Discipline.SafeOr.pure trivial

omit [LinearOrder Id] in
/-- A new batch keeps the sends. -/
theorem KeepsSends.createBatch (campaignId : ℕ) (t : Terminal Id) (batch : List Candidate × ℕ) :
    KeepsSends t (Terminal.createBatch campaignId t batch) := by
  unfold Terminal.createBatch
  dsimp only
  split
  · exact .updateRecipients ..
  · exact .of_eq rfl rfl

/-- A launch in batches keeps the terms. -/
theorem safe_launchBatched (ctx : SendCtx) (campaignId : ℕ) (recipients deliver : List Candidate)
    (hctx : CtxOk s campaignId ctx) :
    (worldDiscipline env).SafeOr n
      (launchBatched env id ctx campaignId recipients deliver) (fun _ _ => True) s := by
  refine safe_bind safe_require fun _ t hst _ => safe_bind safe_checked fun _ u htu _ => ?_
  refine safe_bind safe_read fun batchSize v huv _ => ?_
  split
  · exact Discipline.SafeOr.throw
  · next batches _ =>
    refine safe_bind (safe_commit fun t i => ?_) fun _ w hvw _ => ?_
    · have hbatches := KeepsSends.foldl (KeepsSends.createBatch campaignId) batches.zipIdx t
      exact hbatches.trans (.updateCampaign _ _ _ (fun _ => rfl) fun _ => rfl)
    · have hgrown := ((hst.trans htu).trans huv).trans hvw
      refine safe_bind (safe_dispatchBatch campaignId 1 (some ctx) fun c hc => ?_)
        fun _ _ _ _ => Discipline.SafeOr.pure trivial
      cases hc
      exact hctx.onward hgrown

omit [LinearOrder Id] in
/-- A launch loads the campaign with the creation time that the table has. -/
theorem loadLaunch_created {t : Terminal Id} {campaignId : ℕ} {override : Option ℕ}
    {isStage relaunch : Bool} {camp : Campaign} {tmpl : Template} {recipients : List Candidate}
    (h : t.loadLaunch campaignId override isStage relaunch = .ok (camp, tmpl, recipients)) :
    (t.campaign? campaignId).map (·.createdAt) = some camp.createdAt := by
  unfold Terminal.loadLaunch at h
  split at h
  · cases h
  · next camp' hcamp =>
    have hrow : camp' = camp := by
      dsimp only at h
      split at h
      · cases h
      · split at h
        · cases h
        · split at h
          · cases h
          · split at h
            · cases h
            · split at h
              · cases h
              · cases h
                rfl
    rw [hcamp, hrow, Option.map_some]

/-- A launch keeps the terms once it is loaded. -/
theorem safe_launchLoaded (campaignId : ℕ) (override stageId : Option ℕ) (relaunch : Bool)
    (bearer : Actor) :
    (worldDiscipline env).SafeOr n
      (launchLoaded env id campaignId override stageId relaunch bearer) (fun _ _ => True) s := by
  have hload : (worldDiscipline env).SafeOr n
      (Fallible.act fun (w : World Id) (i : WorldInput Id) =>
        if i.fails then (w, .error ⟨.other, "OperationalError"⟩)
        else (w, w.terminal.loadLaunch campaignId override stageId.isSome relaunch))
      (fun row t => createdAt? t campaignId = some row.1.createdAt) s := by
    refine safe_ask (fun w i => ?_) fun t i row _ hrow => ?_
    · split <;> rfl
    · split at hrow
      · cases hrow
      · exact loadLaunch_created hrow
  refine safe_bind hload fun row t hst hrow => ?_
  obtain ⟨camp, tmpl, recipients⟩ := row
  refine safe_bind safe_read fun suppressed a hta _ => safe_bind safe_require fun _ b hab _ => ?_
  refine safe_bind (safe_session (Q := fun _ _ => True) (fun t _ => .refl t)
    fun _ _ _ => trivial) fun conflicts c hbc _ => safe_bind safe_require fun _ d hcd _ => ?_
  refine safe_bind safe_read fun publicHost e hde _ => ?_
  refine safe_bind (safe_resolveSender camp) fun sender f hef _ => ?_
  refine safe_bind safe_preflight fun companyName g hfg _ => ?_
  refine safe_bind (safe_ensureKTemp bearer) fun k u hgu hk => ?_
  have htu := ((((((hta.trans hab).trans hbc).trans hcd).trans hde).trans hef).trans hfg).trans hgu
  have hctx : CtxOk u campaignId
      { camp, tmpl, sender, publicHost, companyName, kTemp := k, bearer
        keyId := "K_temp_" ++ env.kTempId k } := ⟨htu.created _ _ hrow, hk⟩
  cases stageId with
  | some stageId =>
    refine safe_bind safe_checked fun _ v huv _ => ?_
    exact safe_launchPlanned _ campaignId recipients _ _ _ (hctx.onward huv)
      fun _ _ => .of_eq rfl rfl
  | none =>
    dsimp only
    split
    · refine safe_bind safe_checked fun _ v huv _ => ?_
      refine safe_bind (safe_openRelaunch campaignId) fun row w hvw _ => ?_
      obtain ⟨gen, finishing⟩ := row
      exact safe_launchPlanned _ campaignId recipients _ _ _ (hctx.onward (huv.trans hvw))
        fun t _ => .updateCampaign t _ _ (fun _ => rfl) fun _ => rfl
    · exact safe_launchBatched _ campaignId recipients _ hctx

/-- **Every launch keeps the ledger.** -/
theorem safe_launchCampaign (campaignId : ℕ) (override stageId : Option ℕ) (relaunch : Bool)
    (expectedSeq : Option ℕ) :
    (worldDiscipline env).SafeOr n
      (launchCampaign env id campaignId override stageId relaunch expectedSeq)
      (fun _ _ => True) s := by
  refine safe_bind (safe_onlyIf (safe_refuseClosed _ _)) fun _ _ _ _ => ?_
  refine safe_bind (safe_onlyIf (safe_refuseClosed _ _)) fun _ _ _ _ => ?_
  refine safe_bind (safe_readBearer _) fun bearer _ _ _ => ?_
  split
  · refine safe_bind (safe_claimRelaunch _ _) fun _ _ _ _ => ?_
    refine safe_bind safe_read fun interrupted _ _ _ => ?_
    cases interrupted with
    | none => exact safe_launchLoaded campaignId override stageId relaunch bearer
    | some batchNo =>
      dsimp only
      refine safe_bind (safe_finishInterruptedBatch campaignId batchNo) fun _ _ _ _ => ?_
      exact Discipline.SafeOr.pure trivial
  · exact safe_launchLoaded campaignId override stageId relaunch bearer

/-! ## The other presses -/

/-- An approve keeps the terms. -/
theorem safe_approveBatch (campaignId batchNo : ℕ) :
    (worldDiscipline env).SafeOr n (approveBatch env id campaignId batchNo)
      (fun _ _ => True) s := by
  refine safe_bind (safe_session (Q := fun _ _ => True) (fun t _ => .refl t)
    fun _ _ _ => trivial) fun rows _ _ _ => ?_
  obtain ⟨row, prev, now⟩ := rows
  refine safe_bind safe_require fun _ _ _ _ => safe_bind safe_require fun _ _ _ _ => ?_
  refine safe_bind safe_require fun _ _ _ _ => ?_
  refine safe_bind (safe_dispatchBatch campaignId batchNo none fun _ h => by cases h)
    fun result _ _ _ => safe_bind (safe_commit fun t i => ?_) fun _ _ _ _ =>
      Discipline.SafeOr.pure trivial
  dsimp only
  split
  · exact (KeepsSends.updateBatches ..).trans (.updateBatches ..)
  · exact .updateBatches ..

/-- A retry of the failed keeps the terms. -/
theorem safe_retryFailed (campaignId : ℕ) :
    (worldDiscipline env).SafeOr n (retryFailed campaignId : LaunchProc Id Unit)
      (fun _ _ => True) s := by
  refine safe_bind (safe_session (Q := fun _ _ => True) (fun t _ => ?_) fun _ _ _ => trivial)
    fun _ _ _ _ => safe_require.weaken fun _ _ _ => trivial
  split
  · dsimp only
    split
    · exact (KeepsSends.updateRecipients ..).trans
        (.updateCampaign _ _ _ (fun _ => rfl) fun _ => rfl)
    · exact .updateRecipients ..
  · exact .refl t

/-- A change of status keeps the terms. -/
theorem safe_changeStatus (campaignId : ℕ) (allowed : Campaign → Bool)
    (status : Campaign → CampaignStatus) :
    (worldDiscipline env).SafeOr n (changeStatus campaignId allowed status : LaunchProc Id Unit)
      (fun _ _ => True) s := by
  apply safe_bind safe_read
  intro row t _ _
  cases row with
  | none => exact Discipline.SafeOr.throw
  | some camp =>
    apply safe_bind (safe_require.weaken fun _ _ _ => trivial)
    intro _ u _ _
    apply safe_commit
    intro t i
    exact .updateCampaign _ _ _ (fun _ => rfl) fun _ => rfl

/-- A cancel keeps the terms. -/
theorem safe_cancelCampaign (campaignId : ℕ) :
    (worldDiscipline env).SafeOr n (cancelCampaign campaignId : LaunchProc Id Unit)
      (fun _ _ => True) s := by
  refine safe_bind safe_read fun bearer t _ _ => ?_
  have hcommit : ∀ (cloudOk : Bool) u, (worldDiscipline env).SafeOr n
      (commit fun (t : Terminal Id) _ =>
        let clear := cloudOk && t.pushing campaignId = 0
        let t := t.updateCampaign campaignId (fun _ => true) fun c =>
          { c with status := .cancelled, relaunchOpen := !clear && c.relaunchOpen }
        let t := t.updateBatches campaignId
          (fun b => [.pending, .scheduled, .sending].contains b.status)
          fun b => { b with status := .cancelled }
        if clear then
          t.updateBatches campaignId (fun _ => true) fun b => { b with dispatchStartedAt := none }
        else t) (fun _ _ => True) u := by
    refine fun cloudOk u => safe_commit fun t _ => ?_
    have hcamp := KeepsSends.updateCampaign t campaignId (fun _ => true)
      (f := fun c => { c with
        status := .cancelled
        relaunchOpen := !(cloudOk && t.pushing campaignId = 0) && c.relaunchOpen })
      (fun _ => rfl) fun _ => rfl
    dsimp only
    split
    · exact (hcamp.trans (.updateBatches ..)).trans (.updateBatches ..)
    · exact hcamp.trans (.updateBatches ..)
  cases bearer with
  | none =>
    exact hcommit false t
  | some actor =>
    refine safe_bind (Q := fun _ _ => True) ?_ fun r u _ _ => hcommit _ u
    refine (Discipline.SafeOr.attempt (Q := fun _ _ => True) ?_).weaken fun _ _ _ => trivial
    refine safe_bind safe_checked fun _ u _ _ => ?_
    have hcancel : (cloudDiscipline (Planned env u)).Safe n
        (cancelPendingForCampaign campaignId : CloudProc Id ℕ) (fun _ _ => True) u.cloud :=
      safe_get fun _ pages _ => safe_cancelPages campaignId pages 0
    exact safe_bind (Discipline.SafeOr.lift (safe_onCloud hcancel)) fun _ _ _ _ => safe_checked

/-- An archive keeps the terms. -/
theorem safe_archiveCampaign (campaignId : ℕ) :
    (worldDiscipline env).SafeOr n (archiveCampaign campaignId : LaunchProc Id Unit)
      (fun _ _ => True) s := by
  refine safe_bind safe_read fun camp _ _ _ => ?_
  cases camp with
  | none => exact Discipline.SafeOr.throw
  | some camp =>
    refine safe_bind safe_read fun live _ _ _ => ?_
    refine safe_bind (safe_onlyIf (safe_cancelCampaign campaignId)) fun _ _ _ _ => ?_
    exact safe_commit fun t _ => .updateCampaign t _ _ (fun _ => rfl) fun _ => rfl

/-- A test mail keeps the terms. -/
theorem safe_markTested (campaignId : ℕ) :
    (worldDiscipline env).SafeOr n (markTested campaignId : LaunchProc Id Unit)
      (fun _ _ => True) s := by
  refine safe_bind (safe_session (Q := fun _ _ => True) (fun t _ => ?_) fun _ _ _ => trivial)
    fun _ _ _ _ => safe_require.weaken fun _ _ _ => trivial
  split
  · exact .refl t
  · exact .updateCampaign t _ _ (fun _ => rfl) fun _ => rfl

/-- A new campaign keeps the terms. -/
theorem safe_createCampaign (templateId : ℕ) (kind : SendKind) (entityId : Option ℕ)
    (scheduledFor : ScheduledFor) :
    (worldDiscipline env).SafeOr n
      (createCampaign templateId kind entityId scheduledFor : LaunchProc Id Unit)
      (fun _ _ => True) s := by
  refine safe_bind (safe_session (Q := fun _ _ => True) (fun t i => ?_) fun _ _ _ => trivial)
    fun _ _ _ _ => safe_require.weaken fun _ _ _ => trivial
  split
  · refine ⟨rfl, fun c x hx => ?_⟩
    -- a campaign that was found is found before the new row
    obtain ⟨camp, hcamp, rfl⟩ := Option.map_eq_some_iff.mp hx
    unfold Terminal.campaign? at hcamp ⊢
    rw [List.find?_append, hcamp]
    rfl
  · exact .refl t

/-- New recipients keep the terms. -/
theorem safe_addRecipients (campaignId : ℕ) (contactIds : List ℕ) :
    (worldDiscipline env).SafeOr n (addRecipients campaignId contactIds : LaunchProc Id Unit)
      (fun _ _ => True) s := by
  refine safe_bind (safe_session (Q := fun _ _ => True) (fun t i => ?_) fun _ _ _ => trivial)
    fun _ _ _ _ => safe_require.weaken fun _ _ _ => trivial
  split
  · refine .foldl (fun t contactId => ?_) contactIds t
    split
    · exact .refl t
    · exact .of_eq rfl rfl
  · exact .refl t

/-- The launch of a stage keeps the terms. -/
theorem safe_launchStage (stageId : ℕ) :
    (worldDiscipline env).SafeOr n (launchStage env id stageId) (fun _ _ => True) s := by
  refine safe_bind safe_read fun row _ _ _ => ?_
  cases row with
  | none => exact Discipline.SafeOr.pure trivial
  | some row =>
    refine safe_bind safe_read fun stillDue _ _ _ => safe_onlyIf ?_
    refine safe_bind (Q := fun _ _ => True) ?_ fun result _ _ _ => ?_
    · exact (safe_launchCampaign ..).attempt.weaken fun _ _ _ => trivial
    · cases result with
      | ok _ => exact Discipline.SafeOr.pure trivial
      | error e => exact safe_onlyIf (safe_commit fun _ _ => .of_eq rfl rfl)

/-! ## The outcomes loop -/

/-- Truthful outcomes are applied within the terms. -/
theorem safe_applyOutcomes (rows : List (Pack Id))
    (hrows : ∀ v ∈ rows, v.status.resolved = true ∧ Truthful s.cloud v.outcome) :
    (worldDiscipline env).SafeOr n (applyOutcomes rows) (fun _ _ => True) s := by
  induction rows generalizing s with
  | nil => exact Discipline.SafeOr.pure trivial
  | cons v rows ih =>
    obtain ⟨hres, htrue⟩ := hrows v (List.mem_cons_self ..)
    refine safe_bind (safe_applyOutcome v.outcome hres htrue) fun _ t hst _ => ih fun v' hv' => ?_
    obtain ⟨hres', htrue'⟩ := hrows v' (List.mem_cons_of_mem _ hv')
    exact ⟨hres', htrue'.later hst.lives⟩

/-- What a fetch returns is resolved and true of the cloud. -/
theorem safe_fetchOutcomes (since : OutcomeCursor Id) (limit : ℕ) :
    (worldDiscipline env).SafeOr n (fetchOutcomes since limit)
      (fun rows t => ∀ v ∈ rows, v.status.resolved = true ∧ Truthful t.cloud v.outcome) s := by
  refine Discipline.SafeOr.act fun t hr hi i => ?_
  split
  · exact ⟨guar_refl hi.2, fun rows hrows => by cases hrows⟩
  · refine ⟨guar_terminal hi.2 rfl (fun _ h => .inl h) fun _ _ h => h, fun rows hrows v hv => ?_⟩
    cases hrows
    obtain ⟨hres, ⟨id, hid⟩, -⟩ := mem_listResolvedPacks hv
    exact ⟨hres, outcome_truthful hi.1 hid⟩

/-- A round of outcomes keeps the terms. -/
theorem safe_outcomesRound :
    (worldDiscipline env).SafeOr n (outcomesRound id : LaunchProc Id Unit)
      (fun _ _ => True) s := by
  refine safe_bind safe_read fun since _ _ _ => ?_
  refine safe_bind (safe_fetchOutcomes since 200) fun rows t _ hrows => safe_onlyIf ?_
  refine safe_bind (safe_applyOutcomes rows hrows) fun _ _ _ _ => ?_
  refine Discipline.SafeOr.act fun u _ hi i => ⟨?_, fun _ _ => trivial⟩
  split
  · exact guar_refl hi.2
  · exact guar_terminal hi.2 rfl (fun _ h => .inl h) fun _ _ h => h

omit [LinearOrder Id] in
/-- A webhook never touches a job. -/
theorem applyWebhookEvent_jobs [DecidableEq Id] (emailHash : String → String) (nowIso : String)
    (db : Db Id) (payload : InboxPayload) :
    (applyWebhookEvent emailHash nowIso db payload).jobs = db.jobs := by
  unfold applyWebhookEvent
  dsimp only
  split
  · rfl
  · split
    · rfl
    · split
      · rfl
      · split
        · rfl
        · split <;> rfl
        · rfl
        · rfl

/-! ## All of them -/

/-- A press keeps the terms of its program. -/
theorem safe_press {α : Type} {p : LaunchProc Id α}
    (h : (worldDiscipline env).SafeOr n p (fun _ _ => True) s) :
    (worldDiscipline env).Safe n (press p) (fun _ _ => True) s :=
  Discipline.Safe.bind (Discipline.Safe.weaken h fun _ _ _ => trivial)

/-- What runs on the cloud, but for a push, keeps the terms. -/
theorem safe_cloudOp (op : CloudOp Id) (hput : ∀ p a, op ≠ .putPack p a) :
    (worldDiscipline env).Safe n (onCloud (cloudCode n op)) (fun _ _ => True) s :=
  safe_onCloud (cloudCode_safe n op s.cloud fun p a h => absurd h (hput p a))

/-- **Every program keeps the terms of the ledger.** -/
theorem worldCode_safe (n : ℕ) (op : WorldOp Id) (s : World Id) :
    (worldDiscipline env).Safe n (worldCode env id n op) (fun _ _ => True) s := by
  cases op with
  | launch c => exact safe_press (safe_launchCampaign ..)
  | relaunch c expectedSeq => exact safe_press (safe_launchCampaign ..)
  | approve c b => exact safe_press (safe_approveBatch c b)
  | stage stageId => exact safe_press (safe_launchStage stageId)
  | retryFailed c => exact safe_press (safe_retryFailed c)
  | pause c => exact safe_press (safe_changeStatus _ _ _)
  | resume c => exact safe_press (safe_changeStatus _ _ _)
  | cancel c => exact safe_press (safe_cancelCampaign c)
  | archive c => exact safe_press (safe_archiveCampaign c)
  | markTested c => exact safe_press (safe_markTested c)
  | createCampaign templateId kind entityId scheduledFor =>
    exact safe_press (safe_createCampaign templateId kind entityId scheduledFor)
  | addRecipients c contactIds => exact safe_press (safe_addRecipients c contactIds)
  | pollOutcomes => exact safe_press safe_outcomesRound
  | webhook payload =>
    exact safe_press (safe_commit fun t i => .of_eq (applyWebhookEvent_jobs ..) rfl)
  | servePush request => exact safe_servePush request
  | deliver id => exact safe_cloudOp (.deliver id) fun _ _ h => by cases h
  | cancelPack id => exact safe_cloudOp (.cancelPack id) fun _ _ h => by cases h
  | expireStaleClaims o l => exact safe_cloudOp (.expireStaleClaims o l) fun _ _ h => by cases h
  | revokeKey => exact safe_onKeys (safe_wipeKTemp s.keys)

end Mailman.Analysis
