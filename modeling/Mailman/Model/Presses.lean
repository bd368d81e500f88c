import Mailman.Model.Inbox
import Mailman.Model.Launch

/-!
# The presses and the loops

What an operator, a loop of the terminal or the cloud may start at any moment, and the pool
they all run in. The routes are those of `terminal/routes_admin.py`; the scheduler's part in
a launch is to start it, and to mark a refused stage.
-/

set_option autoImplicit false

namespace Mailman.Model

open Mailman.Library

variable {Id : Type} [LinearOrder Id]

/-- `approve_batch`. SOURCE: terminal/routes_admin.py:1753-1796 -/
def approveBatch (env : Setup Id) (turn : LaunchProc Id Unit → LaunchProc Id Unit)
    (campaignId batchNo : ℕ) : LaunchProc Id (BatchResult Id) := do
  let (row, prev, now) ← session fun t i =>
    (t, t.batch? campaignId batchNo, t.batch? campaignId (batchNo - 1), i.now)
  Fallible.require (row.any (·.status = .pending) = true) ⟨.other, "no such pending batch"⟩
  -- the previous batch must be drained and its cooldown over
  Fallible.require (prev.all fun p => [.drained, .cooldown, .done].contains p.status)
    ⟨.other, "previous batch not drained yet"⟩
  Fallible.require (prev.all fun p => p.approveUnlockAt.all (· ≤ now)) ⟨.other, "cooldown active"⟩
  let result ← dispatchBatch env turn campaignId batchNo none
  commit fun t i =>
    let t := t.updateBatches campaignId (·.batchNo = batchNo) fun b =>
      { b with approvedAt := some i.nowText }
    if prev.isSome then
      t.updateBatches campaignId (·.batchNo = batchNo - 1) fun b => { b with status := .done }
    else t
  pure result

/-- `retry_failed`. SOURCE: terminal/routes_admin.py:880-901 -/
def retryFailed (campaignId : ℕ) : LaunchProc Id Unit := do
  let found ← session fun t _ =>
    if (t.campaign? campaignId).isSome then
      let failed := t.recipients.any fun r => r.campaignId = campaignId ∧ r.status = .failed
      let t := t.updateRecipients campaignId (·.status = .failed) fun r =>
        { r with status := .queued, failureReason := none }
      (if failed then t.updateCampaign campaignId (fun _ => true) fun c =>
        { c with status := .tested } else t, true)
    else (t, false)
  Fallible.require (found = true) ⟨.other, "no such campaign"⟩

/-- The `UPDATE` of a pause or a resume: it does not look at the status it overwrites.
SOURCE: terminal/routes_admin.py:853-856, 871-874 -/
def setStatus (campaignId : ℕ) (status : CampaignStatus) : LaunchProc Id Unit :=
  commit fun t _ => t.updateCampaign campaignId (fun _ => true) fun c => { c with status }

/-- A route that changes the status of a campaign in one of the given statuses. The row it checks
is read before the transaction that writes begins. -/
def changeStatus (campaignId : ℕ) (allowed : Campaign → Bool) (status : Campaign → CampaignStatus) :
    LaunchProc Id Unit := do
  let row ← query (·.campaign? campaignId)
  match row with
  | none => throw ⟨.other, "no such campaign"⟩
  | some camp => do
    Fallible.require (allowed camp = true) ⟨.other, "the campaign's status does not allow this"⟩
    setStatus campaignId (status camp)

/-- `pause_campaign`. SOURCE: terminal/routes_admin.py:845-858 -/
def pauseCampaign (campaignId : ℕ) : LaunchProc Id Unit :=
  changeStatus campaignId (fun c => [.scheduled, .dispatched, .tested].contains c.status)
    fun _ => .paused

/-- `resume_campaign`. SOURCE: terminal/routes_admin.py:862-876 -/
def resumeCampaign (campaignId : ℕ) : LaunchProc Id Unit :=
  changeStatus campaignId (fun c => c.status = .paused)
    fun c => if c.testSentAt.isSome then .tested else .draft

/-- The transaction of `cancel_campaign`, once it knows whether the cloud has cancelled. The
markers are cleared only after a confirmed cancel and with no push under way.
SOURCE: terminal/routes_admin.py:1718-1732 -/
def cancelCommit (campaignId : ℕ) (cloudOk : Bool) : LaunchProc Id Unit :=
  commit fun t _ =>
    let clear := cloudOk && t.pushing campaignId = 0
    let t := t.updateCampaign campaignId (fun _ => true) fun c =>
      { c with status := .cancelled, relaunchOpen := !clear && c.relaunchOpen }
    let t := t.updateBatches campaignId
      (fun b => [.pending, .scheduled, .sending].contains b.status)
      fun b => { b with status := .cancelled }
    if clear then
      t.updateBatches campaignId (fun _ => true) fun b => { b with dispatchStartedAt := none }
    else t

/-- `cancel_campaign`. SOURCE: terminal/routes_admin.py:1692-1735 -/
def cancelCampaign (campaignId : ℕ) : LaunchProc Id Unit := do
  let bearer ← query (·.bearer)
  let cloudOk ← match bearer with
    | none => pure false
    | some _ => do
      let r ← Fallible.attempt do
        checked
        let _ ← Fallible.lift (onCloud (cancelPendingForCampaign campaignId))
        checked
      pure (match r with | .ok _ => true | .error _ => false)
  cancelCommit campaignId cloudOk

/-- The `UPDATE` of `archive_campaign`. SOURCE: terminal/routes_admin.py:1431-1437 -/
def archiveCommit (campaignId : ℕ) : LaunchProc Id Unit :=
  commit fun t _ => t.updateCampaign campaignId (fun _ => true) fun c =>
    { c with status := .archived }

/-- `archive_campaign`. SOURCE: terminal/routes_admin.py:1416-1442 -/
def archiveCampaign (campaignId : ℕ) : LaunchProc Id Unit := do
  let camp ← query (·.campaign? campaignId)
  match camp with
  | none => throw ⟨.other, "no such campaign"⟩
  | some camp => do
    let live ← query fun t => camp.relaunchOpen || t.batches.any fun b =>
      b.campaignId = campaignId &&
        ([.pending, .scheduled, .sending].contains b.status || b.dispatchStartedAt.isSome)
    Fallible.onlyIf live (cancelCampaign campaignId)
    archiveCommit campaignId

/-- `mark_tested`. SOURCE: terminal/routes_admin.py:482-501 -/
def markTested (campaignId : ℕ) : LaunchProc Id Unit := do
  let done ← session fun t i =>
    match (t.campaign? campaignId).bind fun c => t.template? c.templateId with
    | none => (t, false)
    | some tmpl =>
      (t.updateCampaign campaignId (fun _ => true) fun c =>
        { c with
          status := if c.status = .scheduled then .scheduled else .tested
          testSentAt := some i.nowText
          templateHashAtTest := some tmpl.templateHash }, true)
  Fallible.require (done = true) ⟨.other, "no such campaign or template"⟩

/-- The row `create_campaign` inserts: its id is past every id there is.
SOURCE: terminal/routes_admin.py:405-429 -/
def createCampaign (templateId : ℕ) (kind : SendKind) (entityId : Option ℕ)
    (scheduledFor : ScheduledFor) : LaunchProc Id Unit := do
  let done ← session fun t i =>
    if (t.template? templateId).isSome then
      let row : Campaign :=
        { id := (t.campaigns.map (·.id)).foldl max 0 + 1, createdAt := i.nowText, templateId, kind
          entityId, scheduledFor
          status := if scheduledFor = .empty then .draft else .scheduled }
      ({ t with campaigns := t.campaigns ++ [row] }, true)
    else (t, false)
  Fallible.require (done = true) ⟨.other, "no such template"⟩

/-- `add_recipients` for a list of contacts. SOURCE: terminal/routes_admin.py:438-473 -/
def addRecipients (campaignId : ℕ) (contactIds : List ℕ) : LaunchProc Id Unit := do
  let done ← session fun t _ =>
    if (t.campaign? campaignId).isSome ∧ contactIds.all fun c => t.contacts.any (·.id = c) then
      (contactIds.foldl (fun t contactId =>
        if t.recipients.any fun r => r.campaignId = campaignId ∧ r.contactId = contactId then t
        else
          let row : Recipient :=
            { id := (t.recipients.map (·.id)).foldl max 0 + 1, campaignId, contactId }
          { t with recipients := t.recipients ++ [row] }) t, true)
    else (t, false)
  Fallible.require (done = true) ⟨.other, "no such campaign or contact"⟩

/-- A due stage, as the scheduler selects and re-reads it.
SOURCE: terminal/sync_client.py:777-785, 877-896 -/
def Terminal.dueStage? (t : Terminal Id) (stageId : ℕ) : Option CampaignStage :=
  t.stages.find? fun s => s.id = stageId && s.status = .pending &&
    (t.campaign? s.campaignId).any fun c =>
      c.testSentAt.isSome &&
        !([CampaignStatus.paused, .draft, .archived, .cancelled].contains c.status)

/-- The scheduler's launch of one due stage; a refusal that does not clear by itself marks the
stage failed. SOURCE: terminal/sync_client.py:756-774, 894-916 -/
def launchStage (env : Setup Id) (turn : LaunchProc Id Unit → LaunchProc Id Unit)
    (stageId : ℕ) : LaunchProc Id Unit := do
  let row ← query (·.dueStage? stageId)
  match row with
  | none => pure ()
  | some row => do
    let stillDue ← query fun t => (t.dueStage? stageId).isSome
    Fallible.onlyIf stillDue do
      let result ← (launchCampaign env turn row.campaignId (some row.templateId) (some stageId)
        false none).attempt
      match result with
      | .ok _ => pure ()
      | .error e =>
        Fallible.onlyIf (e.kind ≠ .retryable ∧ e.kind ≠ .closed) <| commit fun t _ =>
          let stages := updateRows t.stages (fun s => s.id = stageId ∧ s.status = .pending)
            fun s => { s with status := .failed }
          { t with stages := stages }

/-! ## The outcomes loop -/

/-- `for p in packs: _apply_pack_outcome(p)`; it stops at the first that raises. -/
def applyOutcomes : List (Pack Id) → LaunchProc Id Unit
  | [] => pure ()
  | p :: packs => do
    applyOutcome p.outcome
    applyOutcomes packs

/-- `GET /packs/status`: what `list_resolved_packs` answers past the cursor.
SOURCE: cloud/packs.py:109-118, terminal/sync_client.py:441-445 -/
def fetchOutcomes (since : OutcomeCursor Id) (limit : ℕ) : LaunchProc Id (List (Pack Id)) :=
  Fallible.act fun w i => match i.refused with
    | some e => (w, .error e)
    | none =>
      let now := w.clock + i.tick
      ({ w with clock := now },
        .ok (listResolvedPacks since limit (some (isoAgo now resolvedSettleS))
          (w.cloud.queryStatus { i.read with now := now })))

/-- `_set_outcome_cursor`, and the rows of the poll to the history.
SOURCE: terminal/sync_client.py:335-345 -/
def storeCursor (since : OutcomeCursor Id) (rows : List (Pack Id)) : LaunchProc Id Unit :=
  Fallible.act fun w i =>
    if i.fails then (w, .error ⟨.other, "OperationalError"⟩)
    else
      ({ w with
          terminal := { w.terminal with outcomeCursor := maxId since rows }
          polled := rows ++ w.polled }, .ok ())

/-- One round of `outcomes_loop`. Applying the answer is one turn of the event loop.
SOURCE: terminal/sync_client.py:435-456 -/
def outcomesRound (turn : LaunchProc Id Unit → LaunchProc Id Unit) : LaunchProc Id Unit := do
  let since ← query (·.outcomeCursor)
  let rows ← fetchOutcomes since 200
  Fallible.onlyIf (rows ≠ []) <| turn do
    applyOutcomes rows
    storeCursor since rows

/-! ## Everything that may run -/

/-- What may be started. -/
inductive WorldOp (Id : Type) where
  | launch (campaignId : ℕ)
  | relaunch (campaignId : ℕ) (expectedSeq : Option ℕ)
  | approve (campaignId batchNo : ℕ)
  | stage (stageId : ℕ)
  | retryFailed (campaignId : ℕ)
  | pause (campaignId : ℕ)
  | resume (campaignId : ℕ)
  | cancel (campaignId : ℕ)
  | archive (campaignId : ℕ)
  | markTested (campaignId : ℕ)
  | createCampaign (templateId : ℕ) (kind : SendKind) (entityId : Option ℕ)
      (scheduledFor : ScheduledFor)
  | addRecipients (campaignId : ℕ) (contactIds : List ℕ)
  | pollOutcomes
  | webhook (payload : InboxPayload)
  | servePush (request : ℕ)
  | deliver (id : Id)
  | cancelPack (id : Id)
  | expireStaleClaims (olderThanS limit : ℕ)
  | revokeKey

/-- A press: its result or its error is shown, and the program is over. -/
def press {α : Type} (p : LaunchProc Id α) : WorldProc Id Unit := p.run.bind fun _ => .ret ()

/-- The program of each operation, run under number `n`. -/
def worldCode (env : Setup Id) (turn : LaunchProc Id Unit → LaunchProc Id Unit) (n : ℕ) :
    WorldOp Id → WorldProc Id Unit
  | .launch c => press (launchCampaign env turn c none none false none)
  | .relaunch c expectedSeq => press (launchCampaign env turn c none none true expectedSeq)
  | .approve c b => press (approveBatch env turn c b)
  | .stage stageId => press (launchStage env turn stageId)
  | .retryFailed c => press (retryFailed c)
  | .pause c => press (pauseCampaign c)
  | .resume c => press (resumeCampaign c)
  | .cancel c => press (cancelCampaign c)
  | .archive c => press (archiveCampaign c)
  | .markTested c => press (markTested c)
  | .createCampaign templateId kind entityId scheduledFor =>
    press (createCampaign templateId kind entityId scheduledFor)
  | .addRecipients c contactIds => press (addRecipients c contactIds)
  | .pollOutcomes => press (outcomesRound turn)
  | .webhook payload => press <| commit fun t i =>
      { t with toDb := applyWebhookEvent env.emailHash i.nowText t.toDb payload }
  | .servePush request => servePush request
  | .deliver id => onCloud (cloudCode n (.deliver id))
  | .cancelPack id => onCloud (cloudCode n (.cancelPack id))
  | .expireStaleClaims olderThanS limit => onCloud (cloudCode n (.expireStaleClaims olderThanS limit))
  | .revokeKey => onKeys wipeKTemp

end Mailman.Model
