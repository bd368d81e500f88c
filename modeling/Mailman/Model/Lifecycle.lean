import Mailman.Model.Presses

/-!
# The rest of a campaign's life

What writes a campaign, its batches or its stages beside the presses: the routes that schedule,
edit and clone it, those of its stages, and the parts of a scheduler pass. A pass starts its
parts one after the other; here each may start at any moment. Stage numbers, notes and audit
rows are left out, and `add_contacts_to_campaign` writes what `add_recipients` writes.
-/

set_option autoImplicit false

namespace Mailman.Model

open Mailman.Library

variable {Id : Type} [LinearOrder Id]

/-! ## Routes -/

/-- The time is at most `now`. -/
def ScheduledFor.due (now : Stamp) : ScheduledFor → Bool
  | .time t => t ≤ now
  | .empty | .unreadable _ => false

/-- `parse_utc_naive` reads the text. -/
def ScheduledFor.readable : ScheduledFor → Bool
  | .time _ => true
  | .empty | .unreadable _ => false

/-- `schedule_campaign`. What it checks is read before the transaction that writes begins, and
the `UPDATE` looks again. SOURCE: terminal/routes_admin.py:535-577 -/
def scheduleCampaign (campaignId : ℕ) (scheduledFor : ScheduledFor) : LaunchProc Id Unit := do
  Fallible.require (scheduledFor.readable = true)
    ⟨.other, "Enter a valid date and time to launch."⟩
  let now ← Fallible.act fun w i => (w, .ok i.now)
  Fallible.require (scheduledFor.due now = false)
    ⟨.other, "Pick a time in the future. To send now, press Launch."⟩
  let row ← query fun t => (t.campaign? campaignId).map fun camp =>
    (camp, (t.template? camp.templateId).map (·.templateHash),
      camp.relaunchOpen || t.batches.any fun b =>
        b.campaignId = campaignId && b.dispatchStartedAt.isSome)
  match row with
  | none => throw ⟨.other, "no such campaign"⟩
  | some (camp, curHash, unfinished) => do
    Fallible.require (camp.status = .tested ∧ camp.testSentAt ≠ none)
      ⟨.other, "Only a tested campaign can be scheduled"⟩
    Fallible.require (curHash = camp.templateHashAtTest)
      ⟨.other, "The template was edited after the last test."⟩
    Fallible.require (unfinished = false) ⟨.other, "This campaign has an unfinished send."⟩
    let same : Campaign → Bool := fun c =>
      c.status = .tested && c.templateHashAtTest = camp.templateHashAtTest
    let moved ← session fun t _ =>
      (t.updateCampaign campaignId same fun c =>
        { c with status := .scheduled, scheduledFor := scheduledFor },
        (t.campaign? campaignId).any same)
    Fallible.require (moved = true)
      ⟨.other, "The campaign changed while it was being scheduled."⟩

/-- `CampaignEditIn`, the columns that are followed. SOURCE: terminal/routes_admin.py:1314-1323 -/
structure CampaignEdit where
  entityId : Option ℕ := none
  humanSend : Option Bool := none
  humanSendCount : Option ℤ := none
  scheduledFor : Option ScheduledFor := none
  deriving DecidableEq, Repr

/-- `edit_campaign`. It does not write the status. SOURCE: terminal/routes_admin.py:1326-1368 -/
def editCampaign (campaignId : ℕ) (body : CampaignEdit) : LaunchProc Id Unit := do
  Fallible.require (body.scheduledFor.all (·.readable) = true)
    ⟨.other, "scheduled_for must be an ISO 8601 date and time"⟩
  let row ← query (·.campaign? campaignId)
  Fallible.require (row ≠ none) ⟨.other, "no such campaign"⟩
  -- whether there is such a company
  checked
  commit fun t _ => t.updateCampaign campaignId (fun _ => true) fun c =>
    { c with
      entityId := body.entityId.or c.entityId
      humanSend := body.humanSend.getD c.humanSend
      humanSendCount := body.humanSendCount.getD c.humanSendCount
      scheduledFor := body.scheduledFor.getD c.scheduledFor }

/-- `clone_campaign`. SOURCE: terminal/routes_admin.py:819-841 -/
def cloneCampaign (campaignId : ℕ) : LaunchProc Id Unit := do
  let done ← session fun t i =>
    match t.campaign? campaignId with
    | none => (t, false)
    | some src =>
      let row : Campaign :=
        { id := (t.campaigns.map (·.id)).foldl max 0 + 1, createdAt := i.nowText
          templateId := src.templateId, kind := src.kind, entityId := src.entityId
          humanSend := src.humanSend, humanSendCount := src.humanSendCount }
      ({ t with campaigns := t.campaigns ++ [row] }, true)
  Fallible.require (done = true) ⟨.other, "no such campaign"⟩

/-- `add_stage`. The new id is past every id there ever was (AUTOINCREMENT); how far past those
that are left is drawn. SOURCE: terminal/routes_admin.py:1135-1155 -/
def addStage (campaignId templateId : ℕ) : LaunchProc Id Unit := do
  let done ← session fun t i =>
    if (t.campaign? campaignId).isSome ∧ (t.template? templateId).isSome then
      let row : CampaignStage :=
        { id := (t.stages.map (·.id)).foldl max 0 + 1 + i.draw 0, campaignId, templateId }
      ({ t with stages := t.stages ++ [row] }, true)
    else (t, false)
  Fallible.require (done = true) ⟨.other, "no such campaign or template"⟩

/-- The stage is one of the campaign's. -/
def Terminal.hasStage (t : Terminal Id) (campaignId stageId : ℕ) : Bool :=
  t.stages.any fun s => s.id = stageId && s.campaignId = campaignId

/-- `update_stage`. SOURCE: terminal/routes_admin.py:1158-1171 -/
def updateStage (campaignId stageId templateId : ℕ) : LaunchProc Id Unit := do
  let found ← query fun t => t.hasStage campaignId stageId
  Fallible.require (found = true) ⟨.other, "no such stage"⟩
  commit fun t _ => { t with stages := updateRows t.stages (·.id = stageId) fun s =>
    { s with templateId } }

/-- `delete_stage`. SOURCE: terminal/routes_admin.py:1174-1194 -/
def deleteStage (campaignId stageId : ℕ) : LaunchProc Id Unit := do
  let found ← query fun t => t.hasStage campaignId stageId
  Fallible.require (found = true) ⟨.other, "no such stage"⟩
  commit fun t _ => { t with stages := t.stages.filter (·.id ≠ stageId) }

/-! ## The scheduler -/

/-- `confirm_elapsed_locks`, for what `last_pull_ok_at` says. The rows are selected before the
transaction that writes begins. SOURCE: terminal/campaign_lock.py:73-101 -/
def confirmElapsedLocks (lastPullOkAt : Option Stamp) : LaunchProc Id Unit := do
  let elapsed ← session fun t i => (t, (t.campaigns.filter fun c =>
    c.unsubsConfirmedAt = none && c.lockUntil.any (· ≤ i.now) &&
      c.dispatchedAt.any fun at_ => lastPullOkAt.any (at_ < ·)).map (·.id))
  Fallible.onlyIf (elapsed ≠ []) <| commit fun t i =>
    { t with campaigns := updateRows t.campaigns (elapsed.contains ·.id) fun c =>
      { c with unsubsConfirmedAt := some i.nowText } }

/-- `_drain_batches`; when the next send window opens is drawn.
SOURCE: terminal/sync_client.py:638-666 -/
def drainBatches : LaunchProc Id Unit := do
  let ended ← session fun t i => (t, (t.batches.filter fun b =>
    b.status = .sending && b.windowEnd.any (· < i.now)).map fun b => (b.campaignId, b.batchNo))
  Fallible.onlyIf (ended ≠ []) <| commit fun t i =>
    let batches := updateRows t.batches (fun b => ended.contains (b.campaignId, b.batchNo)) fun b =>
      { b with status := .drained, drainedAt := some i.nowText, approveUnlockAt := some (i.draw 0) }
    { t with batches }

/-- `_refuse_campaign`: a campaign that is still scheduled, and still for the time it was
selected for, fails. With `since`, an edit made since the streak began wins; whether there was
one is drawn. SOURCE: terminal/sync_client.py:726-753 -/
def refuseCampaign (campaignId : ℕ) (selected : Stamp → ScheduledFor → Bool) (since : Bool) :
    LaunchProc Id Unit :=
  commit fun t i => t.updateCampaign campaignId
    (fun c => c.status = .scheduled && selected i.now c.scheduledFor && (!since || i.draw 0 = 0))
    fun c => { c with status := .failed }

/-- One due campaign of `scheduler_tick`. An unexpected error is tried again for a day; whether
the day is over is drawn. SOURCE: terminal/sync_client.py:829-872 -/
def launchDue (env : Setup Id) (turn : LaunchProc Id Unit → LaunchProc Id Unit) (campaignId : ℕ) :
    LaunchProc Id Unit := do
  let due ← session fun t i => (t, (t.campaign? campaignId).any fun c =>
    c.status = .scheduled && c.scheduledFor.due i.now)
  Fallible.onlyIf (due = true) do
    let result ← (launchCampaign env turn campaignId none none false none).attempt
    match result with
    | .ok _ => pure ()
    | .error e => do
      let still ← query fun t => (t.campaign? campaignId).any (·.status = .scheduled)
      if [.retryable, .closed, .other].contains e.kind && still then do
        let giveUp ← Fallible.act fun w i => (w, .ok (e.kind = .other && i.draw 0 = 0))
        Fallible.onlyIf (giveUp = true) (refuseCampaign campaignId ScheduledFor.due true)
      else refuseCampaign campaignId ScheduledFor.due false

/-- A scheduled campaign whose time cannot be read. SOURCE: terminal/sync_client.py:919-939 -/
def refuseUnreadable (campaignId : ℕ) : LaunchProc Id Unit := do
  let row ← query (·.campaign? campaignId)
  match row with
  | some { status := .scheduled, scheduledFor := .unreadable text, .. } =>
    refuseCampaign campaignId (fun _ s => s = .unreadable text) false
  | _ => pure ()

/-- `_fail_stage` of a stage whose time cannot be read. SOURCE: terminal/sync_client.py:756-774 -/
def failStage (stageId : ℕ) : LaunchProc Id Unit := do
  let row ← query (·.dueStage? stageId)
  Fallible.onlyIf (row ≠ none) <| commit fun t _ =>
    let stages := updateRows t.stages (fun s => s.id = stageId ∧ s.status = .pending)
      fun s => { s with status := .failed }
    { t with stages }

/-- `_cancel_archived_stage` of a stage whose campaign is archived or cancelled.
SOURCE: terminal/sync_client.py:789-808, 873-887 -/
def cancelClosedStage (stageId : ℕ) : LaunchProc Id Unit := do
  let closed ← query fun t => (t.stages.find? fun s => s.id = stageId ∧ s.status = .pending).bind
    fun s => (t.campaign? s.campaignId).bind fun c =>
      if closedToStages.contains c.status then some (s.campaignId, c.status) else none
  match closed with
  | none => pure ()
  | some (campaignId, status) => commit fun t _ =>
    let stages := updateRows t.stages
      (fun s => s.id = stageId ∧ s.status = .pending ∧
        (t.campaign? campaignId).any (·.status = status))
      fun s => { s with status := .cancelled }
    { t with stages }

/-! ## Everything that may run -/

/-- What may be started. -/
inductive LifecycleOp (Id : Type) where
  | world (op : WorldOp Id)
  | clone (campaignId : ℕ)
  | schedule (campaignId : ℕ) (scheduledFor : ScheduledFor)
  | edit (campaignId : ℕ) (body : CampaignEdit)
  | addStage (campaignId templateId : ℕ)
  | updateStage (campaignId stageId templateId : ℕ)
  | deleteStage (campaignId stageId : ℕ)
  | confirmElapsedLocks (lastPullOkAt : Option Stamp)
  | drainBatches
  | launchDue (campaignId : ℕ)
  | refuseUnreadable (campaignId : ℕ)
  | failStage (stageId : ℕ)
  | cancelClosedStage (stageId : ℕ)

/-- The program of each operation, run under number `n`. -/
def lifecycleCode (env : Setup Id) (turn : LaunchProc Id Unit → LaunchProc Id Unit) (n : ℕ) :
    LifecycleOp Id → WorldProc Id Unit
  | .world op => worldCode env turn n op
  | .clone c => press (cloneCampaign c)
  | .schedule c scheduledFor => press (scheduleCampaign c scheduledFor)
  | .edit c body => press (editCampaign c body)
  | .addStage c templateId => press (addStage c templateId)
  | .updateStage c stageId templateId => press (updateStage c stageId templateId)
  | .deleteStage c stageId => press (deleteStage c stageId)
  | .confirmElapsedLocks lastPullOkAt => press (confirmElapsedLocks lastPullOkAt)
  | .drainBatches => press drainBatches
  | .launchDue c => press (launchDue env turn c)
  | .refuseUnreadable c => press (refuseUnreadable c)
  | .failStage stageId => press (failStage stageId)
  | .cancelClosedStage stageId => press (cancelClosedStage stageId)

/-- The world after a run of any of these operations, on a terminal that has not sent yet. Other
threads may commit between any two commits of a program. -/
def lifecycleRun (env : Setup Id) (t : Terminal Id)
    (es : List (Event (LifecycleOp Id) (WorldInput Id))) : World Id :=
  ((Pool.idle (World.start t)).run (lifecycleCode env id) es).state

end Mailman.Model
