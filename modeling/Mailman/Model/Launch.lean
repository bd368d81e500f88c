import Mailman.Model.World

/-!
# Launching a campaign

`terminal/launch.py`, session by session and exchange by exchange. Between two steps
anything else may run. What the checks say about rendered texts, credentials and settings
is the environment's choice (`checked`, `preflight`), as are the times `compute_send_ats`
answers with; the notes of a summary, the audit rows and the log lines are left out.
-/

set_option autoImplicit false

namespace Mailman.Model

open Mailman.Library

variable {Id : Type} [LinearOrder Id]

/-- A recipient as the launch selects it. -/
structure Candidate where
  contactId : ℕ
  status : RecipientStatus
  email : String
  name : String
  deriving DecidableEq, Repr

/-- The recipients of a campaign that pass the filter, with their contacts, by contact id.
SOURCE: terminal/launch.py:324-334, 925-931 -/
def Terminal.candidates (t : Terminal Id) (campaignId : ℕ) (p : Recipient → Bool) :
    List Candidate :=
  orderBy (·.contactId) <|
    (t.recipients.filter fun r => r.campaignId = campaignId ∧ p r).filterMap fun r =>
      (t.contacts.find? (·.id = r.contactId)).map fun c => ⟨r.contactId, r.status, c.email, c.name⟩

/-! ## Planning the sends -/

/-- `_RETRYABLE_JOB`. SOURCE: terminal/launch.py:499 -/
def JobStatus.retryable (st : JobStatus) : Bool := st = .failed ∨ st = .cancelled

/-- `_SendPlan`; a send is kept as the arguments its pack id is computed from.
SOURCE: terminal/launch.py:530-534 -/
structure SendPlan where
  sends : List (Candidate × SendId) := []
  recorded : ℕ := 0
  suppressed : List (ℕ × SuppressionReason) := []

/-- The ordinal loop of `_plan_sends`: the first ordinal from `a` on whose id is not recorded.
It gives up after `left` more steps. SOURCE: terminal/launch.py:557-562 -/
def nextOrdinal (recorded : ℕ → Bool) : ℕ → ℕ → Option ℕ
  | 0, a => if recorded a then none else some a
  | left + 1, a => if recorded a then nextOrdinal recorded left (a + 1) else some a

/-- The job of a pack among the campaign's jobs. -/
def jobOf (jobs : List (Job Id)) (id : Id) : Option (Job Id) := jobs.find? (·.jobId = id)

/-- One round of the loop of `_plan_sends`. SOURCE: terminal/launch.py:552-567 -/
def planSend (env : Setup Id) (campaignId : ℕ) (createdAt : String) (sendKey : SendKey)
    (blocked : String → Option SuppressionReason) (jobs : List (Job Id)) (plan : SendPlan)
    (r : Candidate) : Except LaunchError SendPlan :=
  match blocked (env.emailHash r.email) with
  | some reason => .ok { plan with suppressed := plan.suppressed ++ [(r.contactId, reason)] }
  | none =>
    let send (a : ℕ) : SendId := ⟨campaignId, createdAt, sendKey, r.contactId, a⟩
    let job (a : ℕ) : Option (Job Id) := jobOf jobs (env.ids.packId (send a))
    match nextOrdinal (fun a => (job a).isSome) jobs.length 0 with
    | none => .error ⟨.launch, s!"campaign {campaignId}: pack ids for contact {r.contactId} kept colliding, so nothing more was sent on this press; this is a bug, report it"⟩
    | some a =>
      if a ≠ 0 ∧ ¬ (r.status = .queued ∧ (job (a - 1)).any (·.status.retryable)) then
        .ok { plan with recorded := plan.recorded + 1 }
      else .ok { plan with sends := plan.sends ++ [(r, send a)] }

/-- `_plan_sends`. The session that reads the jobs also leaves the chosen sends in the history.
SOURCE: terminal/launch.py:541-568 -/
def planSends (env : Setup Id) (campaignId : ℕ) (createdAt : String) (kind : SendKind)
    (sendKey : SendKey) (candidates : List Candidate) : LaunchProc Id SendPlan := do
  let blocked ← query fun t => suppressedMap kind t.suppressions
  Fallible.act fun w i =>
    if i.fails then (w, .error ⟨.other, "OperationalError"⟩)
    else
      let jobs := w.terminal.jobs.filter (·.campaignId = campaignId)
      match candidates.foldlM (planSend env campaignId createdAt sendKey blocked jobs) {} with
      | .error e => (w, .error e)
      | .ok plan => ({ w with chosen := plan.sends.map (·.2) ++ w.chosen }, .ok plan)

/-! ## The context of a send -/

/-- `_SendCtx`. SOURCE: terminal/launch.py:467-479 -/
structure SendCtx where
  camp : Campaign
  tmpl : Template
  sender : Sender
  publicHost : String
  companyName : Option String
  kTemp : KTemp
  keyId : String
  bearer : Actor

/-- `_build_pack` at a drawn number; without a pack id (a seed) it draws one.
SOURCE: terminal/launch.py:696-736 -/
def buildPack (env : Setup Id) (ctx : SendCtx) (r : SendRow) (sendAt : Stamp) (isSeed : Bool)
    (packId : Option Id) (draw : ℕ) : PackIn Id × JobIn Id :=
  let mail := env.compose ctx.camp ctx.tmpl ctx.sender ctx.publicHost ctx.companyName r draw
  let id := packId.getD (env.ids.uuid4 draw)
  let plain : PlainPack :=
    { resendApiKey := some ctx.sender.resendKey, mail := some mail, campaignId := some ctx.camp.id
      humanSendCount := if ctx.camp.humanSendCount = 0 then 1 else ctx.camp.humanSendCount }
  ({ packId := id
     campaignId := ctx.camp.id
     recipientHash := env.emailHash r.email
     contentHash := env.contentHash mail
     sendAt := sendAt
     keyId := ctx.keyId
     encryptedBlob := .sealed ctx.kTemp (.ok plain) },
   { packId := id
     contactId := r.contactId
     recipientHash := env.emailHash r.email
     contentHash := env.contentHash mail
     sendAt := sendAt
     isSeed := isSeed })

/-- A planned send as a row of `_build_pack`. -/
def Candidate.row (r : Candidate) : SendRow := ⟨some r.contactId, r.status, r.email, r.name⟩

/-- One pack to build: the row, its send (`none` for a seed), and when. -/
structure Target where
  row : SendRow
  send : Option SendId
  sendAt : Stamp

/-- The packs and jobs of a press, in order; each draws its own number. -/
def buildPacks (env : Setup Id) (ctx : SendCtx) (targets : List Target) (draw : ℕ → ℕ) :
    List (PackIn Id × JobIn Id) :=
  targets.mapIdx fun n t =>
    buildPack env ctx t.row t.sendAt t.send.isNone (t.send.map env.ids.packId) (draw n)

/-- `_SEND_NOW` and `_pack_send_at`: an empty or unreadable time means now.
SOURCE: terminal/launch.py:679-693 -/
def packSendAt : ScheduledFor → Stamp
  | .time t => t
  | .empty | .unreadable _ => 0

/-- The status exchange of `_ensure_k_temp`; an answer that is not 200 counts as no key. -/
def keyStatus : LaunchProc Id (Option KTempReport) := do
  let ok ← Fallible.act fun w i => match i.refused with
    | some e => (w, .error e)
    | none => (w, .ok !i.fails)
  if ok then do
    let report ← Fallible.lift (onKeys kTempStatus)
    Fallible.lift <| Proc.modify fun w _ => { w with reports := report.toList ++ w.reports }
    pure report
  else pure none

/-- The minting half of `_ensure_k_temp`. SOURCE: terminal/launch.py:248-261 -/
def mintKTemp (env : Setup Id) (bearer : Actor) : LaunchProc Id KTemp := do
  let ttl ← query (·.settings.defaultKTempTtlS)
  let k ← Fallible.act fun w i => (w, .ok (⟨i.draw 0⟩ : KTemp))
  checked
  let set ← Fallible.lift (onKeys (setKTemp env.kTempId k ttl bearer))
  match set with
  | none => throw ⟨.other, "HTTPStatusError"⟩
  | some item => do
    Fallible.lift <| Proc.modify fun w _ =>
      { w with reports := item.report item.setAt :: w.reports }
    checked
    commit fun t _ => { t with kTempFile := some k }
    pure k

/-- `_ensure_k_temp`: the cached key, if the cloud reports that key present, else a new one.
SOURCE: terminal/launch.py:233-261 -/
def ensureKTemp (env : Setup Id) (bearer : Actor) : LaunchProc Id KTemp := do
  let cached ← query (·.kTempFile)
  match cached with
  | none => mintKTemp env bearer
  | some k => do
    let report ← keyStatus
    if report.any (·.keyId = env.kTempId k) then pure k
    else do
      commit fun t _ => { t with kTempFile := none }
      mintKTemp env bearer

/-- The sender of a campaign: its company's credentials, or the settings.
SOURCE: terminal/launch.py:349-372, 1010-1024 -/
def resolveSender (camp : Campaign) : LaunchProc Id Sender := do
  let sender ← Fallible.act fun w i =>
    match camp.entityId with
    | some _ => match i.sender with
      | some sender => (w, .ok sender)
      | none => (w, .error ⟨.launch, "company credentials"⟩)
    | none =>
      let set := w.terminal.settings
      (w, .ok ⟨set.resendApiKey, set.emailFrom.getD s!"noreply@{set.publicHost}", set.fromName⟩)
  Fallible.require (sender.resendKey ≠ "") ⟨.launch, "resend_api_key not configured"⟩
  pure sender

/-- `_preflight`: the company name for the mail, or a refusal.
SOURCE: terminal/launch.py:162-168 -/
def preflight : LaunchProc Id (Option String) := do
  checked
  Fallible.act fun w i => (w, .ok i.company)

/-- `_refuse_closed`. A missing campaign passes here. SOURCE: terminal/launch.py:582-588 -/
def refuseClosed (campaignId : ℕ) (closed : List CampaignStatus) : LaunchProc Id Unit := do
  let status ← query fun t => (t.campaign? campaignId).map (·.status)
  Fallible.require (¬ status.any closed.contains) ⟨.closed, s!"campaign {campaignId} is closed"⟩

/-- `_CLOSED_TO_ALL` and `_CLOSED_TO_STAGES`. SOURCE: terminal/launch.py:578-579 -/
def closedToAll : List CampaignStatus := [.archived]

def closedToStages : List CampaignStatus := [.archived, .cancelled]

/-- The bearer file. SOURCE: terminal/launch.py:274-277, 998-1001 -/
def readBearer (kind : LaunchErrorKind) : LaunchProc Id Actor := do
  let bearer ← query (·.bearer)
  match bearer with
  | some actor => pure actor
  | none => throw ⟨kind, "cloud bearer missing"⟩

/-- `_load_send_ctx`. SOURCE: terminal/launch.py:996-1028 -/
def loadSendCtx (env : Setup Id) (campaignId : ℕ) : LaunchProc Id SendCtx := do
  let bearer ← readBearer .launch
  let row ← query fun t => (t.campaign? campaignId).map fun camp => (camp, t.template? camp.templateId)
  match row with
  | none => throw ⟨.launch, s!"campaign {campaignId} not found"⟩
  | some (_, none) => throw ⟨.other, "TypeError"⟩
  | some (camp, some tmpl) => do
    let publicHost ← query (·.settings.publicHost)
    let sender ← resolveSender camp
    let companyName ← preflight
    let kTemp ← ensureKTemp env bearer
    pure { camp, tmpl, sender, publicHost, companyName, kTemp, bearer
           keyId := "K_temp_" ++ env.kTempId kTemp }

/-! ## One batch -/

/-- What `dispatch_batch` returns. -/
structure BatchResult (Id : Type) where
  batchNo : ℕ
  recipients : ℕ := 0
  suppressed : ℕ := 0
  seeds : ℕ := 0
  packs : ℕ := 0
  windowStart : Option Stamp := none
  windowEnd : Option Stamp := none
  cloudAck : Option (PushAck Id) := none
  recorded : Option ℕ := none

/-- `_active_seed_emails`. SOURCE: terminal/launch.py:482-486 -/
def Terminal.activeSeedEmails (t : Terminal Id) : List String :=
  (orderBy (·.id) (t.seeds.filter (·.active))).map (·.email)

/-- `_mark_suppressed`. SOURCE: terminal/launch.py:631-640 -/
def markSuppressed (campaignId : ℕ) (rows : List (ℕ × SuppressionReason)) : LaunchProc Id Unit :=
  commit fun t _ => rows.foldl (fun t row =>
    t.updateRecipients campaignId (·.contactId = row.1) fun r =>
      { r with status := .cancelled, failureReason := some ("suppressed: " ++ row.2.text) }) t

/-- `_mark_batch_loaded`. SOURCE: terminal/launch.py:643-649 -/
def markBatchLoaded (campaignId batchNo : ℕ) (winStart winEnd : Option Stamp) :
    LaunchProc Id Unit :=
  commit fun t i => t.updateBatches campaignId (·.batchNo = batchNo) fun b =>
    { b with status := .sending, windowStart := winStart, windowEnd := winEnd
             loadedAt := some i.nowText, dispatchStartedAt := none }

/-- `_close_empty_batch`. SOURCE: terminal/launch.py:652-669 -/
def closeEmptyBatch (campaignId batchNo : ℕ) (handedOver : Bool) (suppressed : ℕ) :
    LaunchProc Id (BatchResult Id) :=
  session fun t i =>
    if handedOver then
      (t.updateBatches campaignId (·.batchNo = batchNo) fun b =>
        { b with status := .sending, windowStart := some i.now, windowEnd := some i.now
                 loadedAt := some i.nowText, dispatchStartedAt := none },
        { batchNo, suppressed, windowStart := some i.now, windowEnd := some i.now })
    else
      (t.updateBatches campaignId (·.batchNo = batchNo) fun b =>
        { b with status := .drained, drainedAt := some i.nowText, approveUnlockAt := none
                 windowStart := none, windowEnd := none, dispatchStartedAt := none },
        { batchNo, suppressed })

/-- The seeds spread over a batch: `targets.insert(min(i * (step + 1), len(targets)), seed)` for
every seed in turn. SOURCE: terminal/launch.py:970-974 -/
def insertSeeds (step : ℕ) : ℕ → List String → List (SendRow × Option SendId) →
    List (SendRow × Option SendId)
  | _, [], targets => targets
  | i, email :: seeds, targets =>
    insertSeeds step (i + 1) seeds
      (targets.insertIdx (min (i * (step + 1)) targets.length) (⟨none, .queued, email, ""⟩, none))

/-- The targets of a batch, each with its time; there are as many as there are times. -/
def batchTargets (sends : List (Candidate × SendId)) (seeds : List String)
    (sendAts : List Stamp) : List Target :=
  let rows := sends.map fun s => (s.1.row, some s.2)
  let rows := insertSeeds (max (rows.length / seeds.length) 1) 0 seeds rows
  (rows.zip sendAts).map fun ((row, send), sendAt) => { row, send, sendAt }

/-- `compute_send_ats`, and the random draws of the packs. -/
def drawSendAts : LaunchProc Id (List Stamp × (ℕ → ℕ)) :=
  Fallible.act fun w i => match i.refused with
    | some e => (w, .error e)
    | none => (w, .ok (i.sendAts, i.draw))

/-- `dispatch_batch` once there is something to push. SOURCE: terminal/launch.py:948-993 -/
def pushBatch (env : Setup Id) (turn : LaunchProc Id Unit → LaunchProc Id Unit) (ctx : SendCtx)
    (campaignId batchNo : ℕ) (batchRow : Option CampaignBatch) (plan : SendPlan)
    (seeds : List String) : LaunchProc Id (BatchResult Id) := do
  let (sendAts, draw) ← drawSendAts
  let built := buildPacks env ctx (batchTargets plan.sends seeds sendAts) draw
  checked
  Fallible.require (batchRow ≠ none) ⟨.other, "TypeError"⟩
  -- after every check before the push: an interrupted push leaves this set
  commit fun t i => t.updateBatches campaignId (·.batchNo = batchNo) fun b =>
    { b with dispatchStartedAt := some i.nowText }
  let ack ← pushAndRecord env turn ctx.bearer campaignId (built.map (·.1)) (built.map (·.2))
  markBatchLoaded campaignId batchNo sendAts.head? sendAts.getLast?
  pure { batchNo, recipients := plan.sends.length, suppressed := plan.suppressed.length
         seeds := seeds.length, packs := built.length, windowStart := sendAts.head?
         windowEnd := sendAts.getLast?, cloudAck := some ack }

/-- `dispatch_batch` from the selection of its recipients on. SOURCE: terminal/launch.py:924-993 -/
def dispatchSelected (env : Setup Id) (turn : LaunchProc Id Unit → LaunchProc Id Unit)
    (ctx : SendCtx) (campaignId batchNo : ℕ) : LaunchProc Id (BatchResult Id) := do
  let (recips, batchRow) ← query fun t =>
    (t.candidates campaignId fun r => r.batchNo = some batchNo && r.status = .queued,
      t.batch? campaignId batchNo)
  let marker := batchRow.bind (·.dispatchStartedAt)
  Fallible.require (recips ≠ [] ∨ marker ≠ none)
    ⟨.launch, s!"batch {batchNo}: no queued recipients"⟩
  let gen ← query fun t => (t.campaign? campaignId).map (·.relaunchGen)
  match gen with
  | none => throw ⟨.other, "NoResultFound"⟩
  | some gen => do
    let plan ← planSends env campaignId ctx.camp.createdAt ctx.camp.kind (genKeyFor gen) recips
    let seeds ← query (·.activeSeedEmails)
    checked
    Fallible.onlyIf (plan.suppressed ≠ []) (markSuppressed campaignId plan.suppressed)
    if plan.sends = [] then do
      Fallible.require (batchRow ≠ none) ⟨.other, "TypeError"⟩
      let out ← closeEmptyBatch campaignId batchNo (plan.recorded ≠ 0 ∨ marker ≠ none)
        plan.suppressed.length
      pure { out with recorded := some plan.recorded }
    else pushBatch env turn ctx campaignId batchNo batchRow plan seeds

/-- `dispatch_batch`. SOURCE: terminal/launch.py:916-993 -/
def dispatchBatch (env : Setup Id) (turn : LaunchProc Id Unit → LaunchProc Id Unit)
    (campaignId batchNo : ℕ) (ctx : Option SendCtx) : LaunchProc Id (BatchResult Id) := do
  refuseClosed campaignId closedToAll
  match ctx with
  | some ctx => dispatchSelected env turn ctx campaignId batchNo
  | none => do
    let ctx ← loadSendCtx env campaignId
    dispatchSelected env turn ctx campaignId batchNo

/-- `_finish_interrupted_batch`. SOURCE: terminal/launch.py:885-912 -/
def finishInterruptedBatch (env : Setup Id) (turn : LaunchProc Id Unit → LaunchProc Id Unit)
    (campaignId batchNo : ℕ) : LaunchProc Id (BatchResult Id) := do
  let res ← dispatchBatch env turn campaignId batchNo none
  if 1 < batchNo then do
    commit fun t i =>
      (t.updateBatches campaignId (·.batchNo = batchNo) fun b =>
        { b with approvedAt := some i.nowText }).updateBatches campaignId
        (·.batchNo = batchNo - 1) fun b => { b with status := .done }
    pure res
  else pure res

/-! ## A whole launch -/

/-- The statuses a stage or a Re-launch sends to. SOURCE: terminal/launch.py:326-328 -/
def RecipientStatus.sendable (st : RecipientStatus) : Bool :=
  [.queued, .sent, .opened, .clicked, .bounced, .complained, .failed].contains st

/-- `locked_contacts`. SOURCE: terminal/campaign_lock.py:29-58 -/
def Terminal.lockedContacts (t : Terminal Id) (exclude : ℕ) (now : Stamp) : List ℕ :=
  (t.recipients.filter fun r =>
    r.clickedAt = none && r.campaignId ≠ exclude && (t.campaign? r.campaignId).any fun c =>
      c.dispatchedAt ≠ none && c.unsubsConfirmedAt = none && c.lockUntil.any (now < ·)).map
    (·.contactId)

/-- The session in which `launch_campaign` reads the campaign, the template and the recipients,
and passes the gates. SOURCE: terminal/launch.py:295-334 -/
def Terminal.loadLaunch (t : Terminal Id) (campaignId : ℕ) (templateIdOverride : Option ℕ)
    (isStage relaunch : Bool) : Except LaunchError (Campaign × Template × List Candidate) :=
  match t.campaign? campaignId with
  | none => .error ⟨.launch, s!"campaign {campaignId} not found"⟩
  | some camp =>
    let gated := !isStage && !relaunch
    if gated && camp.status ≠ .tested && camp.status ≠ .scheduled then
      .error ⟨.launch, "campaign status must be tested or scheduled"⟩
    else if gated && camp.testSentAt = none then
      .error ⟨.launch, "test send required before launch"⟩
    else match t.template? (templateIdOverride.getD camp.templateId) with
    | none => .error ⟨.launch, "template not found"⟩
    | some tmpl =>
      if gated && camp.templateHashAtTest ≠ some tmpl.templateHash then
        .error ⟨.launch, "template edited since last test; re-test required"⟩
      else if camp.kind = .promotional && t.settings.emailFooterAddress = "" then
        .error ⟨.launch, "promotional needs email_footer_address setting (CAN-SPAM)"⟩
      else
        .ok (camp, tmpl, t.candidates campaignId fun r =>
          if gated then r.status = .queued else r.status.sendable)

/-- `_claim_relaunch`. SOURCE: terminal/launch.py:591-604 -/
def claimRelaunch (campaignId : ℕ) (expectedSeq : Option ℕ) : LaunchProc Id Unit := do
  let stale ← session fun t _ =>
    (t.updateCampaign campaignId (fun c => expectedSeq.all (· = c.relaunchSeq)) fun c =>
        { c with relaunchSeq := c.relaunchSeq + 1 },
      (t.campaign? campaignId).any fun c => !expectedSeq.all (· = c.relaunchSeq))
  Fallible.require (stale = false)
    ⟨.conflict, "Re-launch was pressed for this campaign after this page was loaded"⟩

/-- `_open_relaunch`: the generation, and whether it was open already.
SOURCE: terminal/launch.py:607-616 -/
def openRelaunch (campaignId : ℕ) : LaunchProc Id (ℕ × Bool) := do
  let row ← session fun t _ =>
    let t' := t.updateCampaign campaignId (fun c => !c.relaunchOpen) fun c =>
      { c with relaunchGen := c.relaunchGen + 1, relaunchOpen := true }
    (t', (t'.campaign? campaignId).map fun c =>
      (c.relaunchGen, (t.campaign? campaignId).any (·.relaunchOpen)))
  match row with
  | none => throw ⟨.other, "NoResultFound"⟩
  | some row => pure row

/-- `mode` of a summary. -/
inductive SendMode where
  | stage
  | relaunch
  | finishRelaunch
  | finishBatch
  | batched
  deriving DecidableEq, Repr

/-- What `launch_campaign` returns. -/
structure LaunchSummary (Id : Type) where
  mode : SendMode
  dispatched : ℕ := 0
  suppressed : ℕ := 0
  totalRecipients : ℕ := 0
  generation : Option ℕ := none
  batches : ℕ := 0
  cloudAck : Option (PushAck Id) := none

/-- The single-shot path: a stage, or a Re-launch of generation `gen`.
SOURCE: terminal/launch.py:395-423 -/
def launchPlanned (env : Setup Id) (turn : LaunchProc Id Unit → LaunchProc Id Unit)
    (ctx : SendCtx) (campaignId : ℕ) (recipients : List Candidate) (sendKey : SendKey)
    (mode : SendMode) (generation : Option ℕ) (close : Terminal Id → WorldInput Id → Terminal Id) :
    LaunchProc Id (LaunchSummary Id) := do
  let plan ← planSends env campaignId ctx.camp.createdAt ctx.camp.kind sendKey recipients
  let draw ← Fallible.act fun w i => (w, .ok i.draw)
  let built := buildPacks env ctx
    (plan.sends.map fun s => ⟨s.1.row, some s.2, packSendAt ctx.camp.scheduledFor⟩) draw
  checked
  let ack ← pushAndRecord env turn ctx.bearer campaignId (built.map (·.1)) (built.map (·.2))
  commit close
  pure { mode, generation, dispatched := built.length, suppressed := plan.suppressed.length
         totalRecipients := recipients.length, cloudAck := some ack }

/-- `batches = [deliver[i:i + batch_size] for i in range(0, len(deliver), batch_size)]`; a step
of zero raises. SOURCE: terminal/launch.py:425-426 -/
def makeBatches (batchSize : ℤ) (deliver : List Candidate) :
    Except LaunchError (List (List Candidate)) :=
  if batchSize = 0 then .error ⟨.other, "ValueError"⟩
  else if batchSize < 0 then .ok []
  else .ok (sliceBy batchSize.toNat deliver.length deliver)

/-- One batch of the transaction that creates them. -/
def Terminal.createBatch (campaignId : ℕ) (t : Terminal Id) (batch : List Candidate × ℕ) :
    Terminal Id :=
  let row : CampaignBatch :=
    { campaignId := campaignId, batchNo := batch.2 + 1, size := batch.1.length }
  let t := if (t.batch? campaignId (batch.2 + 1)).isSome then t
    else { t with batches := t.batches ++ [row] }
  t.updateRecipients campaignId (fun r => batch.1.any (·.contactId = r.contactId)) fun r =>
    { r with batchNo := some (batch.2 + 1) }

/-- The batched path of a normal launch. SOURCE: terminal/launch.py:430-462 -/
def launchBatched (env : Setup Id) (turn : LaunchProc Id Unit → LaunchProc Id Unit)
    (ctx : SendCtx) (campaignId : ℕ) (recipients deliver : List Candidate) :
    LaunchProc Id (LaunchSummary Id) := do
  Fallible.require (deliver ≠ []) ⟨.launch, "all recipients suppressed - nothing to send"⟩
  checked
  let batchSize ← query (·.settings.sendBatchSize)
  match makeBatches batchSize deliver with
  | .error e => throw e
  | .ok batches => do
    commit fun t i =>
      (batches.zipIdx.foldl (Terminal.createBatch campaignId) t).updateCampaign campaignId
        (fun _ => true) fun c =>
          { c with status := .dispatched, dispatchedAt := some i.now
                   lockUntil := some (i.now + c.lockDurationS), unsubsConfirmedAt := none }
    let batch1 ← dispatchBatch env turn campaignId 1 (some ctx)
    pure { mode := .batched, batches := batches.length, dispatched := batch1.packs
           suppressed := recipients.length - deliver.length, totalRecipients := recipients.length
           cloudAck := batch1.cloudAck }

/-- `launch_campaign` after the Re-launch claim. SOURCE: terminal/launch.py:287-462 -/
def launchLoaded (env : Setup Id) (turn : LaunchProc Id Unit → LaunchProc Id Unit)
    (campaignId : ℕ) (templateIdOverride stageId : Option ℕ) (relaunch : Bool) (bearer : Actor) :
    LaunchProc Id (LaunchSummary Id) := do
  let isStage := stageId.isSome
  let (camp, tmpl, recipients) ← Fallible.act fun w i =>
    if i.fails then (w, .error ⟨.other, "OperationalError"⟩)
    else (w, w.terminal.loadLaunch campaignId templateIdOverride isStage relaunch)
  let suppressed ← query fun t => suppressedMap camp.kind t.suppressions
  Fallible.require (recipients ≠ [] ∨ relaunch && camp.relaunchOpen)
    ⟨.launch, "no queued recipients"⟩
  let conflicts ← session fun t i =>
    (t, !isStage && recipients.any fun r => (t.lockedContacts campaignId i.now).contains r.contactId)
  Fallible.require (conflicts = false)
    ⟨.retryable, "contact(s) are locked by another running campaign"⟩
  let publicHost ← query (·.settings.publicHost)
  let sender ← resolveSender camp
  let companyName ← preflight
  let kTemp ← ensureKTemp env bearer
  let ctx : SendCtx :=
    { camp, tmpl, sender, publicHost, companyName, kTemp, bearer
      keyId := "K_temp_" ++ env.kTempId kTemp }
  match stageId with
  | some stageId => do
    checked
    launchPlanned env turn ctx campaignId recipients (.stage stageId) .stage none fun t i =>
      { t with stages := updateRows t.stages (·.id = stageId) fun s =>
        { s with status := .dispatched, dispatchedAt := some i.nowText } }
  | none =>
    if relaunch then do
      checked
      let (gen, finishing) ← openRelaunch campaignId
      launchPlanned env turn ctx campaignId recipients (genKeyFor gen)
        (if finishing then .finishRelaunch else .relaunch) (some gen) fun t _ =>
          t.updateCampaign campaignId (·.relaunchGen = gen) fun c => { c with relaunchOpen := false }
    else
      launchBatched env turn ctx campaignId recipients
        (recipients.filter fun r => (suppressed (env.emailHash r.email)).isNone)

/-- `launch_campaign`. SOURCE: terminal/launch.py:266-462 -/
def launchCampaign (env : Setup Id) (turn : LaunchProc Id Unit → LaunchProc Id Unit)
    (campaignId : ℕ) (templateIdOverride stageId : Option ℕ) (relaunch : Bool)
    (expectedSeq : Option ℕ) : LaunchProc Id (LaunchSummary Id) := do
  Fallible.onlyIf relaunch (refuseClosed campaignId closedToAll)
  Fallible.onlyIf (!relaunch && stageId.isSome) (refuseClosed campaignId closedToStages)
  let bearer ← readBearer .retryable
  if relaunch then do
    claimRelaunch campaignId expectedSeq
    let interrupted ← query (·.interrupted? campaignId)
    match interrupted with
    | some batchNo => do
      let res ← finishInterruptedBatch env turn campaignId batchNo
      pure { mode := .finishBatch, dispatched := res.recipients, suppressed := res.suppressed
             totalRecipients := res.recipients, cloudAck := res.cloudAck }
    | none => launchLoaded env turn campaignId templateIdOverride stageId relaunch bearer
  else launchLoaded env turn campaignId templateIdOverride stageId relaunch bearer

end Mailman.Model
