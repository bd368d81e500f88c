import Mailman.Analysis.PressSafe
import Mailman.Model.Lifecycle

/-!
# The rest of a campaign's life keeps the ledger

The routes and the scheduler's parts that run beside the presses write no job and keep the
`created_at` of every campaign, and a campaign that is due is launched by a press.
`lifecycleCode_safe` is the rule for all of them, so the ledger holds over runs in which batches
are drained, approved and sent one after another.
-/

set_option autoImplicit false

namespace Mailman.Analysis

open Mailman.Library Mailman.Model Mailman.Interface

variable {Id : Type} [LinearOrder Id] {env : Setup Id} {n : ℕ} {s : World Id}

omit [LinearOrder Id] in
/-- A write of rows chosen across all campaigns. -/
theorem KeepsSends.updateCampaigns (t : Terminal Id) (p : Campaign → Bool)
    {f : Campaign → Campaign} (hid : ∀ c, (f c).id = c.id)
    (hcreated : ∀ c, (f c).createdAt = c.createdAt) :
    KeepsSends t { t with campaigns := updateRows t.campaigns p f } := by
  refine ⟨rfl, fun c x hx => ?_⟩
  unfold Terminal.campaign? at *
  rw [find?_updateRows fun r _ _ => by rw [hid]]
  obtain ⟨camp, hcamp, rfl⟩ := Option.map_eq_some_iff.mp hx
  rw [hcamp, Option.map_some, Option.map_some]
  split
  · rw [hcreated]
  · rfl

omit [LinearOrder Id] in
/-- A new row stands behind all that are found. -/
theorem KeepsSends.addCampaign (t : Terminal Id) (row : Campaign) :
    KeepsSends t { t with campaigns := t.campaigns ++ [row] } := by
  refine ⟨rfl, fun c x hx => ?_⟩
  obtain ⟨camp, hcamp, rfl⟩ := Option.map_eq_some_iff.mp hx
  unfold Terminal.campaign? at hcamp ⊢
  rw [List.find?_append, hcamp]
  rfl

/-! ## Routes -/

/-- Scheduling a campaign keeps the ledger. -/
theorem safe_scheduleCampaign (campaignId : ℕ) (scheduledFor : ScheduledFor) :
    (worldDiscipline env).SafeOr n (scheduleCampaign campaignId scheduledFor : LaunchProc Id Unit)
      (fun _ _ => True) s := by
  apply safe_bind safe_require
  intro _ _ _ _
  apply safe_bind (safe_ask (Q := fun _ _ => True) (fun _ _ => rfl) fun _ _ _ _ _ => trivial)
  intro now _ _ _
  apply safe_bind safe_require
  intro _ _ _ _
  apply safe_bind safe_read
  intro row _ _ _
  obtain _ | ⟨camp, curHash, unfinished⟩ := row
  · exact Discipline.SafeOr.throw
  · apply safe_bind safe_require
    intro _ _ _ _
    apply safe_bind safe_require
    intro _ _ _ _
    apply safe_bind safe_require
    intro _ _ _ _
    apply safe_bind (safe_session (Q := fun _ _ => True) (fun t i => ?_) fun _ _ _ => trivial)
    · exact fun _ _ _ _ => safe_require.weaken fun _ _ _ => trivial
    · exact .updateCampaign _ _ _ (fun _ => rfl) fun _ => rfl

/-- Editing a campaign keeps the ledger. -/
theorem safe_editCampaign (campaignId : ℕ) (body : CampaignEdit) :
    (worldDiscipline env).SafeOr n (editCampaign campaignId body : LaunchProc Id Unit)
      (fun _ _ => True) s := by
  apply safe_bind safe_require
  intro _ _ _ _
  apply safe_bind safe_read
  intro row _ _ _
  apply safe_bind safe_require
  intro _ _ _ _
  apply safe_bind safe_checked
  intro _ _ _ _
  exact safe_commit fun t i => .updateCampaign _ _ _ (fun _ => rfl) fun _ => rfl

/-- Cloning a campaign keeps the ledger. -/
theorem safe_cloneCampaign (campaignId : ℕ) :
    (worldDiscipline env).SafeOr n (cloneCampaign campaignId : LaunchProc Id Unit)
      (fun _ _ => True) s := by
  apply safe_bind (safe_session (Q := fun _ _ => True) (fun t i => ?_) fun _ _ _ => trivial)
  · exact fun _ _ _ _ => safe_require.weaken fun _ _ _ => trivial
  · split
    · exact .refl t
    · exact .addCampaign t _

/-- A session that writes the stages only keeps the ledger. -/
theorem safe_stages {f : Terminal Id → WorldInput Id → List CampaignStage} :
    (worldDiscipline env).SafeOr n (commit fun (t : Terminal Id) i => { t with stages := f t i })
      (fun _ _ => True) s :=
  safe_commit fun _ _ => .of_eq rfl rfl

/-- Adding a stage keeps the ledger. -/
theorem safe_addStage (campaignId templateId : ℕ) :
    (worldDiscipline env).SafeOr n (addStage campaignId templateId : LaunchProc Id Unit)
      (fun _ _ => True) s := by
  apply safe_bind (safe_session (Q := fun _ _ => True) (fun t i => ?_) fun _ _ _ => trivial)
  · exact fun _ _ _ _ => safe_require.weaken fun _ _ _ => trivial
  · split
    · exact .of_eq rfl rfl
    · exact .refl t

/-- Editing a stage keeps the ledger. -/
theorem safe_updateStage (campaignId stageId templateId : ℕ) :
    (worldDiscipline env).SafeOr n
      (updateStage campaignId stageId templateId : LaunchProc Id Unit) (fun _ _ => True) s :=
  safe_bind safe_read fun _ _ _ _ => safe_bind safe_require fun _ _ _ _ => safe_stages

/-- Deleting a stage keeps the ledger. -/
theorem safe_deleteStage (campaignId stageId : ℕ) :
    (worldDiscipline env).SafeOr n (deleteStage campaignId stageId : LaunchProc Id Unit)
      (fun _ _ => True) s :=
  safe_bind safe_read fun _ _ _ _ => safe_bind safe_require fun _ _ _ _ => safe_stages

/-! ## The scheduler -/

/-- Confirming the locks that have run out keeps the ledger. -/
theorem safe_confirmElapsedLocks (lastPullOkAt : Option Stamp) :
    (worldDiscipline env).SafeOr n (confirmElapsedLocks lastPullOkAt : LaunchProc Id Unit)
      (fun _ _ => True) s := by
  apply safe_bind (safe_session (Q := fun _ _ => True) (fun t _ => .refl t) fun _ _ _ => trivial)
  intro elapsed _ _ _
  apply safe_onlyIf
  exact safe_commit fun t i => .updateCampaigns t _ (fun _ => rfl) fun _ => rfl

/-- Draining the batches whose window is over keeps the ledger. -/
theorem safe_drainBatches :
    (worldDiscipline env).SafeOr n (drainBatches : LaunchProc Id Unit) (fun _ _ => True) s := by
  apply safe_bind (safe_session (Q := fun _ _ => True) (fun t _ => .refl t) fun _ _ _ => trivial)
  intro ended _ _ _
  apply safe_onlyIf
  exact safe_commit fun _ _ => .of_eq rfl rfl

/-- Refusing a campaign keeps the ledger. -/
theorem safe_refuseCampaign (campaignId : ℕ) (selected : Stamp → ScheduledFor → Bool)
    (since : Bool) :
    (worldDiscipline env).SafeOr n
      (refuseCampaign campaignId selected since : LaunchProc Id Unit) (fun _ _ => True) s :=
  safe_commit fun _ _ => .updateCampaign _ _ _ (fun _ => rfl) fun _ => rfl

/-- Launching a campaign that is due keeps the ledger. -/
theorem safe_launchDue (campaignId : ℕ) :
    (worldDiscipline env).SafeOr n (launchDue env id campaignId) (fun _ _ => True) s := by
  apply safe_bind (safe_session (Q := fun _ _ => True) (fun t _ => .refl t) fun _ _ _ => trivial)
  intro due _ _ _
  apply safe_onlyIf
  apply safe_bind (Q := fun _ _ => True)
  · exact (safe_launchCampaign ..).attempt.weaken fun _ _ _ => trivial
  intro result _ _ _
  cases result with
  | ok _ => exact Discipline.SafeOr.pure trivial
  | error e =>
    apply safe_bind safe_read
    intro still _ _ _
    split
    · apply safe_bind (safe_ask (Q := fun _ _ => True) (fun _ _ => rfl) fun _ _ _ _ _ => trivial)
      intro giveUp _ _ _
      exact safe_onlyIf (safe_refuseCampaign _ _ _)
    · exact safe_refuseCampaign _ _ _

/-- Refusing a campaign whose time cannot be read keeps the ledger. -/
theorem safe_refuseUnreadable (campaignId : ℕ) :
    (worldDiscipline env).SafeOr n (refuseUnreadable campaignId : LaunchProc Id Unit)
      (fun _ _ => True) s := by
  apply safe_bind safe_read
  intro row _ _ _
  split
  · exact safe_refuseCampaign _ _ _
  · exact Discipline.SafeOr.pure trivial

/-- Failing a stage keeps the ledger. -/
theorem safe_failStage (stageId : ℕ) :
    (worldDiscipline env).SafeOr n (failStage stageId : LaunchProc Id Unit)
      (fun _ _ => True) s :=
  safe_bind safe_read fun _ _ _ _ => safe_onlyIf safe_stages

/-- Cancelling the stage of a closed campaign keeps the ledger. -/
theorem safe_cancelClosedStage (stageId : ℕ) :
    (worldDiscipline env).SafeOr n (cancelClosedStage stageId : LaunchProc Id Unit)
      (fun _ _ => True) s := by
  apply safe_bind safe_read
  intro closed _ _ _
  obtain _ | ⟨campaignId, status⟩ := closed
  · exact Discipline.SafeOr.pure trivial
  · exact safe_stages

/-! ## All of them -/

/-- **Every operation of a campaign's life keeps the terms of the ledger.** -/
theorem lifecycleCode_safe (n : ℕ) (op : LifecycleOp Id) (s : World Id) :
    (worldDiscipline env).Safe n (lifecycleCode env id n op) (fun _ _ => True) s := by
  cases op with
  | world op => exact worldCode_safe n op s
  | clone c => exact safe_press (safe_cloneCampaign c)
  | schedule c scheduledFor => exact safe_press (safe_scheduleCampaign c scheduledFor)
  | edit c body => exact safe_press (safe_editCampaign c body)
  | addStage c templateId => exact safe_press (safe_addStage c templateId)
  | updateStage c stageId templateId => exact safe_press (safe_updateStage c stageId templateId)
  | deleteStage c stageId => exact safe_press (safe_deleteStage c stageId)
  | confirmElapsedLocks lastPullOkAt => exact safe_press (safe_confirmElapsedLocks lastPullOkAt)
  | drainBatches => exact safe_press safe_drainBatches
  | launchDue c => exact safe_press (safe_launchDue c)
  | refuseUnreadable c => exact safe_press (safe_refuseUnreadable c)
  | failStage stageId => exact safe_press (safe_failStage stageId)
  | cancelClosedStage stageId => exact safe_press (safe_cancelClosedStage stageId)

end Mailman.Analysis
