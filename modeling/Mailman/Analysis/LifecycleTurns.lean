import Mailman.Analysis.ProgramTurns
import Mailman.Model.Lifecycle

/-!
# What the rest of a campaign's life may write

The turns of the routes and of the parts of a scheduler pass. Those that write the status look
at it in the same `UPDATE`, and none of them marks a campaign dispatched but the launch of one
that is due.
-/

set_option autoImplicit false

namespace Mailman.Analysis

open Mailman.Library Mailman.Model Mailman.Interface

variable {Id : Type} {env : Setup Id} {may : ℕ → WriteKind → Prop} {post : PackIn Id → Prop}
  {c : ℕ}

/-- Scheduling a campaign is a change of it. -/
theorem turn_scheduleCampaign (scheduledFor : ScheduledFor) (hchange : may c .change) :
    Turns env may post (fun _ => True)
      (scheduleCampaign c scheduledFor : LaunchProc Id Unit) := by
  apply turn_require.bind
  intro _ _
  apply Fallible.Yields.bind (Q := fun _ => True) (turn_ask (fun _ _ => rfl) fun _ _ _ _ => trivial)
  intro now _
  apply turn_require.bind
  intro _ _
  apply turn_read.bind
  intro row _
  obtain _ | ⟨camp, curHash, unfinished⟩ := row
  · exact Fallible.Yields.throw
  · apply turn_require.bind
    intro _ _
    apply turn_require.bind
    intro _ _
    apply turn_require.bind
    intro _ _
    apply Fallible.Yields.bind (Q := fun _ => True) (turn_session ?_ fun _ _ => trivial)
    · exact fun _ _ => turn_require
    · intro t i
      apply TerminalTurn.update
      · exact fun _ => rfl
      intro x _ hx
      have htested : x.status = .tested := by
        simp only [Bool.and_eq_true, decide_eq_true_eq] at hx
        exact hx.1
      exact .change x _ _ hchange (by simp [htested])

/-- An edit is a write of that kind. -/
theorem turn_editCampaign (body : CampaignEdit) (hedit : may c .edit) :
    Turns env may post (fun _ => True) (editCampaign c body : LaunchProc Id Unit) := by
  apply turn_require.bind
  intro _ _
  apply turn_read.bind
  intro row _
  apply turn_require.bind
  intro _ _
  apply turn_checked.bind
  intro _ _
  apply turn_commit
  intro t i
  exact .update (fun _ => rfl) fun x _ _ => .edit x _ _ _ _ hedit

/-- A clone is a new campaign and changes no other. -/
theorem turn_cloneCampaign :
    Turns env may post (fun _ => True) (cloneCampaign c : LaunchProc Id Unit) := by
  apply Fallible.Yields.bind (Q := fun _ => True) (turn_session ?_ fun _ _ => trivial)
  · exact fun _ _ => turn_require
  · intro t i
    split
    · exact .refl t
    · exact .create rfl ⟨rfl, rfl, rfl, .inl rfl, rfl, rfl⟩

/-- A session that writes the stages only. -/
theorem turn_stages {f : Terminal Id → WorldInput Id → List CampaignStage} :
    Turns env may post (fun _ => True)
      (commit fun (t : Terminal Id) i => { t with stages := f t i }) :=
  turn_commit fun _ _ => .of_eq rfl rfl rfl rfl

/-- A new stage changes no campaign. -/
theorem turn_addStage (templateId : ℕ) :
    Turns env may post (fun _ => True) (addStage c templateId : LaunchProc Id Unit) := by
  apply Fallible.Yields.bind (Q := fun _ => True) (turn_session ?_ fun _ _ => trivial)
  · exact fun _ _ => turn_require
  · intro t i
    split
    · exact .of_eq rfl rfl rfl rfl
    · exact .refl t

/-- A changed stage changes no campaign. -/
theorem turn_updateStage (stageId templateId : ℕ) :
    Turns env may post (fun _ => True) (updateStage c stageId templateId : LaunchProc Id Unit) :=
  turn_read.bind fun _ _ => turn_require.bind fun _ _ => turn_stages

/-- A deleted stage changes no campaign. -/
theorem turn_deleteStage (stageId : ℕ) :
    Turns env may post (fun _ => True) (deleteStage c stageId : LaunchProc Id Unit) :=
  turn_read.bind fun _ _ => turn_require.bind fun _ _ => turn_stages

/-- A failed stage changes no campaign. -/
theorem turn_failStage (stageId : ℕ) :
    Turns env may post (fun _ => True) (failStage stageId : LaunchProc Id Unit) :=
  turn_read.bind fun _ _ => Fallible.Yields.onlyIf fun _ => turn_stages

/-- A stage that is cancelled for its campaign changes no campaign. -/
theorem turn_cancelClosedStage (stageId : ℕ) :
    Turns env may post (fun _ => True) (cancelClosedStage stageId : LaunchProc Id Unit) := by
  apply turn_read.bind
  intro closed _
  obtain _ | ⟨campaignId, status⟩ := closed
  · exact Fallible.Yields.pure trivial
  · exact turn_stages

/-- A write of rows chosen across all campaigns. -/
theorem TerminalTurn.updateCampaigns {t : Terminal Id} {p : Campaign → Bool}
    {f : Campaign → Campaign} (hid : ∀ x, (f x).id = x.id)
    (h : ∀ x, CampaignWrite (may x.id) x (f x)) :
    TerminalTurn may t { t with campaigns := updateRows t.campaigns p f } where
  rows c := by
    unfold Terminal.campaign?
    rw [find?_updateRows fun r _ _ => by rw [hid]]
    cases hrow : t.campaigns.find? (·.id = c) with
    | none => exact .same none
    | some row =>
      have hc : row.id = c := campaign?_id hrow
      rw [Option.map_some]
      split
      · exact .write _ _ (hc ▸ h row)
      · exact .same _
  batches c := .inr rfl
  ids hids := by
    rw [show (updateRows t.campaigns p f).map (·.id) = t.campaigns.map (·.id) from map_updateRows hid]
    exact hids
  keys h := h
  jobs := keptJobs_of_eq rfl
  db := .inr rfl
  templates := rfl

/-- Confirming elapsed locks confirms campaigns and does no more. -/
theorem turn_confirmElapsedLocks (lastPullOkAt : Option Stamp) (hconfirm : ∀ c, may c .confirm) :
    Turns env may post (fun _ => True)
      (confirmElapsedLocks lastPullOkAt : LaunchProc Id Unit) := by
  apply Fallible.Yields.bind (Q := fun _ => True)
    (turn_session (fun t _ => .refl t) fun _ _ => trivial)
  intro elapsed _
  apply Fallible.Yields.onlyIf
  intro _
  apply turn_commit
  intro t i
  exact TerminalTurn.updateCampaigns (fun _ => rfl) fun x => .confirm x i.nowText (hconfirm x.id)

/-- Draining batches writes batches alone. -/
theorem turn_drainBatches (hbatch : ∀ c, may c .batch) :
    Turns env may post (fun _ => True) (drainBatches : LaunchProc Id Unit) := by
  apply Fallible.Yields.bind (Q := fun _ => True)
    (turn_session (fun t _ => .refl t) fun _ _ => trivial)
  intro ended _
  apply Fallible.Yields.onlyIf
  intro _
  apply turn_commit
  intro t i
  refine ⟨fun c => .same _, fun c => .inl (hbatch c), fun h => h, fun h => ?_, keptJobs_of_eq rfl,
    .inr rfl, rfl⟩
  dsimp only
  rw [map_updateRows]
  · exact h
  · exact fun _ => rfl

/-- A refusal of the scheduler is a change of its campaign. -/
theorem turn_refuseCampaign (selected : Stamp → ScheduledFor → Bool) (since : Bool)
    (hchange : may c .change) :
    Turns env may post (fun _ => True)
      (refuseCampaign c selected since : LaunchProc Id Unit) := by
  apply turn_commit
  intro t i
  apply TerminalTurn.update
  · exact fun _ => rfl
  intro x _ hx
  have hscheduled : x.status = .scheduled := by
    simp only [Bool.and_eq_true, decide_eq_true_eq] at hx
    exact hx.1.1
  exact .change x _ _ hchange (by simp [hscheduled])

/-- The refusal of an unreadable campaign is a change of it. -/
theorem turn_refuseUnreadable (hchange : may c .change) :
    Turns env may post (fun _ => True) (refuseUnreadable c : LaunchProc Id Unit) := by
  apply turn_read.bind
  intro row _
  split
  · exact turn_refuseCampaign _ _ hchange
  · exact Fallible.Yields.pure trivial

variable [LinearOrder Id]

/-- A due launch makes the writes of a launch, or is refused. -/
theorem turn_launchDue (hchange : may c .change) (hmay : LaunchMay may post c false none) :
    Turns env may post (fun _ => True) (launchDue env id c) := by
  apply Fallible.Yields.bind (Q := fun _ => True)
    (turn_session (fun t _ => .refl t) fun _ _ => trivial)
  intro due _
  apply Fallible.Yields.onlyIf
  intro _
  apply (turn_attempt (turn_launchCampaign none none false none nofun nofun hmay)).bind
  intro result _
  cases result with
  | ok _ => exact Fallible.Yields.pure trivial
  | error e =>
    apply turn_read.bind
    intro still _
    split
    · apply Fallible.Yields.bind (Q := fun _ => True)
        (turn_ask (fun _ _ => rfl) fun _ _ _ _ => trivial)
      intro giveUp _
      exact Fallible.Yields.onlyIf fun _ => turn_refuseCampaign _ _ hchange
    · exact turn_refuseCampaign _ _ hchange

/-- What an operation may write. -/
def lifecycleWrites : LifecycleOp Id → ℕ → WriteKind → Prop
  | .world op, c', k => opWrites op c' k
  | .clone _, _, _ => False
  | .schedule c _, c', k => c' = c ∧ k ∈ [.change]
  | .edit c _, c', k => c' = c ∧ k ∈ [.edit]
  | .addStage .., _, _ => False
  | .updateStage .., _, _ => False
  | .deleteStage .., _, _ => False
  | .confirmElapsedLocks _, _, k => k ∈ [.confirm]
  | .drainBatches, _, k => k ∈ [.batch]
  | .launchDue c, c', k => c' = c ∧ k ∈ [.choose, .batch, .db, .dispatch, .change]
  | .refuseUnreadable c, c', k => c' = c ∧ k ∈ [.change]
  | .failStage _, _, _ => False
  | .cancelClosedStage _, _, _ => False

/-- The packs an operation may push. -/
def lifecyclePosts : LifecycleOp Id → PackIn Id → Prop
  | .world op, p => opPosts op p
  | .launchDue c, p => p.campaignId = c
  | _, _ => False

/-- **Every request of an operation is a turn of the kinds it may write.** -/
theorem turn_lifecycleCode (n : ℕ) (op : LifecycleOp Id) : (lifecycleCode env id n op).Every
    fun s _ t => WorldTurn env (lifecycleWrites op) (lifecyclePosts op) s t := by
  cases op with
  | world op => exact turn_worldCode n op
  | clone c => exact turn_press turn_cloneCampaign
  | schedule c scheduledFor =>
    exact turn_press (turn_scheduleCampaign scheduledFor (by simp [lifecycleWrites]))
  | edit c body => exact turn_press (turn_editCampaign body (by simp [lifecycleWrites]))
  | addStage c templateId => exact turn_press (turn_addStage templateId)
  | updateStage c stageId templateId => exact turn_press (turn_updateStage stageId templateId)
  | deleteStage c stageId => exact turn_press (turn_deleteStage stageId)
  | confirmElapsedLocks lastPullOkAt =>
    exact turn_press (turn_confirmElapsedLocks lastPullOkAt (by simp [lifecycleWrites]))
  | drainBatches => exact turn_press (turn_drainBatches (by simp [lifecycleWrites]))
  | launchDue c =>
    apply turn_press
    apply turn_launchDue
    · simp [lifecycleWrites]
    · constructor <;> simp [lifecycleWrites, lifecyclePosts]
  | refuseUnreadable c => exact turn_press (turn_refuseUnreadable (by simp [lifecycleWrites]))
  | failStage stageId => exact turn_press (turn_failStage stageId)
  | cancelClosedStage stageId => exact turn_press (turn_cancelClosedStage stageId)

end Mailman.Analysis
