import Mailman.Library.Refusals
import Mailman.Model.Presses
import Mailman.Model.Rendering
import Mailman.Model.SendSchedule

/-!
# A press up to its first push

A normal launch, an approval and a Re-launch with every one of their checks and with nothing in
between, up to the first request of `_push_packs`: what each check reads, and what is committed
between two of them. What a press reads beside the tables and the settings of its terminal is its
`PressInput`. The envelope, the hashes and the audit rows of a pack refuse nothing and are left
out, and the pace of the schedule is taken to be of natural numbers.
-/

set_option autoImplicit false

namespace Mailman.Model

open Mailman.Library Mailman.Library.Text

variable {Id : Type} [LinearOrder Id]

/-- A row of `entities`; an empty text stands for NULL as well. SOURCE: terminal/models.py:323-337 -/
structure Entity where
  id : ℕ
  name : String
  domain : String
  fromName : String := ""
  fromEmail : String := ""
  resendKeyEnc : String := ""
  deriving DecidableEq, Repr

/-- What a press reads beside its terminal: the companies, the settings of the send window and of
its pace, the clock, the random draws, and how its exchange with the key server ends. -/
structure PressInput where
  entities : List Entity := []
  /-- `settings._decrypt` -/
  decrypt : String → Except LaunchError String
  /-- how `_ensure_k_temp` ends -/
  key : Except LaunchError KTemp
  now : Stamp
  nowText : String
  /-- the point in time from which the sends are scheduled -/
  startAfter : ℤ
  /-- `send_window_tz`, `none` where `ZoneInfo` knows none of that name -/
  zone : Option Zone
  startHour : ℤ := 9
  windowHours : ℤ := 4
  pace : Pace
  draws : Draws
  /-- the two tokens minted for the `n`-th pack -/
  tokens : ℕ → String × String
  /-- a display name as `formataddr` writes it -/
  displayName : String → String

/-- `or`, of two texts. -/
def orElse (s s' : String) : String := if s = "" then s' else s

/-! ## The checks -/

/-- `get_entity_credentials`, whose refusals a launch raises as its own.
SOURCE: terminal/routes_admin.py:970-983 -/
def entityCredentials (x : PressInput) (entityId : ℕ) : Except LaunchError Sender :=
  match x.entities.find? (·.id = entityId) with
  | none => .error ⟨.launch, s!"company {entityId} not found"⟩
  | some row =>
    if row.resendKeyEnc = "" then
      .error ⟨.launch, s!"company '{row.name}' has no Resend API key configured"⟩
    else (x.decrypt row.resendKeyEnc).map fun resendKey =>
      { resendKey
        emailFrom := orElse row.fromEmail s!"hello@{row.domain}"
        emailFromName := orElse row.fromName row.name }

/-- The sender of a campaign; `unset` is the refusal where there is no provider key.
SOURCE: terminal/launch.py:353-373, 1008-1024 -/
def senderOf (x : PressInput) (set : Settings) (camp : Campaign) (unset : String) :
    Except LaunchError Sender := do
  let sender ← match camp.entityId.filter (· ≠ 0) with
    | some entityId => entityCredentials x entityId
    | none =>
      .ok ⟨set.resendApiKey, set.emailFrom.getD s!"noreply@{set.publicHost}", set.fromName⟩
  if sender.resendKey = "" then .error ⟨.launch, unset⟩ else .ok sender

/-- `resolve_company_name`. SOURCE: terminal/launch.py:146-159 -/
def resolveCompanyName (x : PressInput) (entityId : Option ℕ) (tmpl : Template) :
    Except LaunchError (Option String) :=
  match entityId.filter (· ≠ 0) with
  | some entityId => match x.entities.find? (·.id = entityId) with
    | none => .error ⟨.launch, s!"company {entityId} not found"⟩
    | some row =>
      if strip row.name = "" then
        .error ⟨.launch, s!"company {entityId} has no name - set one on the Entities page before sending"⟩
      else .ok (some (strip row.name))
  | none =>
    if [tmpl.subject, tmpl.htmlBody, tmpl.textBody.getD ""].any (contains (token "companyName")) then
      .error ⟨.launch, "this template uses \x7b\x7bcompanyName\x7d\x7d but the campaign has no company - choose a company for the campaign before sending"⟩
    else .ok none

/-- A rendered mail with the links that the checks put into it. -/
def withExampleLinks (ctx : MailCtx) (mail : MailText) : MailText :=
  let parts := injectCompliance ctx.footerAddr mail.html mail.text "https://example.com/u/x"
    "https://example.com/e/x" ctx.kind
  { mail with html := parts.1, text := parts.2 }

/-- `_preflight`. SOURCE: terminal/launch.py:162-168 -/
def preflightCheck (x : PressInput) (set : Settings) (camp : Campaign) (tmpl : Template) :
    Except LaunchError (Option String) := do
  let companyName ← resolveCompanyName x camp.entityId tmpl
  let ctx : MailCtx :=
    { template := tmpl, companyName, kind := camp.kind, publicHost := set.publicHost
      footerAddr := set.emailFooterAddress }
  match render tmpl ⟨none, .queued, "preflight@example.com", "Preflight Person"⟩ companyName with
  | none => .error ⟨.other, "IndexError"⟩
  | some mail => match assertSendable (withExampleLinks ctx mail) with
    | .error text => .error ⟨.launch, text⟩
    | .ok () => .ok companyName

/-- One round of `_assert_recipients_sendable`: the entry of a recipient that cannot be sent to. -/
def unsendable (ctx : MailCtx) (r : SendRow) : Except LaunchError (Option String) :=
  match render ctx.template r ctx.companyName with
  | none => .error ⟨.other, "IndexError"⟩
  | some mail =>
    let mail := withExampleLinks ctx mail
    let parts := [mail.subject, mail.html, mail.text]
    let found := sortedSet (parts.flatMap leftTokens)
    .ok <| if found ≠ [] ∨ parts.any (contains "\x7b\x7b") then
      some (r.email ++ " (" ++ orElse (", ".intercalate found) "\x7b\x7b" ++ ")") else none

/-- `_assert_recipients_sendable`. SOURCE: terminal/launch.py:130-143 -/
def assertRecipientsSendable (ctx : MailCtx) (rows : List SendRow) : Except LaunchError Unit := do
  let bad := (← rows.mapM (unsendable ctx)).reduceOption
  if bad = [] then .ok ()
  else
    let more := if 10 < bad.length then s!"; and {bad.length - 10} more" else ""
    .error ⟨.launch, s!"{bad.length} contact(s) cannot be sent - their data leaves template variables in the mail: " ++
      "; ".intercalate (bad.take 10) ++ more ++
      " - fix those contacts or remove them from the campaign"⟩

/-- `_from_header`; `formataddr` takes only an address of ASCII beside a name.
SOURCE: terminal/launch.py:672-676 -/
def fromHeader (x : PressInput) (sender : Sender) : Except LaunchError String :=
  let words := (sender.emailFromName.toList.splitOnP isSpace).filter (· ≠ [])
  let name := " ".intercalate (words.map .ofList)
  if name = "" then .ok sender.emailFrom
  else if isAscii sender.emailFrom then .ok (x.displayName name ++ " <" ++ sender.emailFrom ++ ">")
  else .error ⟨.other, "UnicodeEncodeError"⟩

/-! ## The packs -/

/-- What a mail is made of in a send. -/
def SendCtx.mailCtx (ctx : SendCtx) (set : Settings) : MailCtx where
  template := ctx.tmpl
  companyName := ctx.companyName
  kind := ctx.camp.kind
  publicHost := ctx.publicHost
  footerAddr := set.emailFooterAddress

/-- A pack before it is sealed: its id (`none` is drawn), its time, its mail and its sender. -/
structure MailPack where
  send : Option SendId
  email : String
  sendAt : Stamp
  mail : MailText
  sender : String
  deriving DecidableEq

/-- A pack that goes on to be pushed, under the `key_id` of its context. -/
structure KeyedPack where
  keyId : String
  pack : MailPack
  deriving DecidableEq

/-- The packs of a context, with its `key_id`. -/
def SendCtx.keyed (ctx : SendCtx) (packs : List MailPack) : List KeyedPack :=
  packs.map fun pack => { keyId := ctx.keyId, pack }

/-- `_build_pack`, for the `n`-th pack. SOURCE: terminal/launch.py:696-736 -/
def mailPack (x : PressInput) (set : Settings) (ctx : SendCtx) (t : Target) (n : ℕ) :
    Except LaunchError MailPack :=
  match mailText (ctx.mailCtx set) t.row (x.tokens n).1 (x.tokens n).2 with
  | .error text => .error ⟨if text = "IndexError" then .other else .launch, text⟩
  | .ok mail => (fromHeader x ctx.sender).map fun sender =>
    { send := t.send, email := t.row.email, sendAt := t.sendAt, mail, sender }

/-- The packs of a press. -/
def mailPacks (x : PressInput) (set : Settings) (ctx : SendCtx) (targets : List Target) :
    Except LaunchError (List MailPack) :=
  targets.zipIdx.mapM fun t => mailPack x set ctx t.1 t.2

/-- What `compute_send_ats` raises, as a press sees it. -/
def ScheduleError.raised : ScheduleError → LaunchError
  | .noSuchZone => ⟨.other, "ZoneInfoNotFoundError"⟩
  | .badHour => ⟨.other, "ValueError"⟩
  | .noWindow => ⟨.other, "RuntimeError"⟩
  | .overflow => ⟨.other, "OverflowError"⟩

/-- The packs of a batch, each with its time. SOURCE: terminal/launch.py:950-980 -/
def batchPacks (x : PressInput) (set : Settings) (ctx : SendCtx)
    (sends : List (Candidate × SendId)) (seeds : List String) :
    Except LaunchError (List MailPack) :=
  match computeSendAts (sends.length + seeds.length) x.startAfter x.zone x.startHour x.windowHours
      x.pace x.draws with
  | .error e => .error e.raised
  | .ok sendAts => mailPacks x set ctx (batchTargets sends seeds (sendAts.map Int.toNat))

/-! ## The presses -/

/-- A part of a press, alone on the terminal and before its first push. -/
abbrev BeforePush (Id α : Type) := Procedure (World Id) LaunchError α

/-- A check that reads the terminal. -/
def checkTerminal {α : Type} (f : Terminal Id → Except LaunchError α) : BeforePush Id α :=
  Procedure.check fun w => f w.terminal

/-- What is read of the terminal. -/
def readTerminal {α : Type} (f : Terminal Id → α) : BeforePush Id α :=
  checkTerminal fun t => .ok (f t)

/-- A committed transaction. -/
def commitTerminal (f : Terminal Id → Terminal Id) : BeforePush Id Unit :=
  Procedure.write fun w => { w with terminal := f w.terminal }

/-- `_refuse_closed`. SOURCE: terminal/launch.py:582-588 -/
def closedCheck (campaignId : ℕ) (t : Terminal Id) : Except LaunchError Unit :=
  if (t.campaign? campaignId).any (closedToAll.contains ·.status) then
    .error ⟨.closed, s!"campaign {campaignId} is archived, and an archived campaign sends no mail. Clone it to send it again."⟩
  else .ok ()

/-- The bearer file. SOURCE: terminal/launch.py:280-283, 998-1001 -/
def bearerCheck (kind : LaunchErrorKind) (t : Terminal Id) : Except LaunchError Actor :=
  match t.bearer with
  | some actor => .ok actor
  | none => .error ⟨kind, "cloud bearer missing"⟩

/-- The context of a send of this campaign by this template.
SOURCE: terminal/launch.py:349-381, 1008-1028 -/
def sendCtx (env : Setup Id) (x : PressInput) (set : Settings) (bearer : Actor) (camp : Campaign)
    (tmpl : Template) (unset : String) : Except LaunchError SendCtx := do
  let sender ← senderOf x set camp unset
  let companyName ← preflightCheck x set camp tmpl
  let kTemp ← x.key
  .ok { camp, tmpl, sender, publicHost := set.publicHost, companyName, kTemp, bearer
        keyId := "K_temp_" ++ env.kTempId kTemp }

/-- `_load_send_ctx`. SOURCE: terminal/launch.py:996-1028 -/
def loadCtxCheck (env : Setup Id) (x : PressInput) (campaignId : ℕ) (t : Terminal Id) :
    Except LaunchError SendCtx := do
  let bearer ← bearerCheck .launch t
  match t.campaign? campaignId with
  | none => .error ⟨.launch, s!"campaign {campaignId} not found"⟩
  | some camp => match t.template? camp.templateId with
    | none => .error ⟨.other, "TypeError"⟩
    | some tmpl => sendCtx env x t.settings bearer camp tmpl "resend_api_key not configured"

/-- The loop of `_plan_sends` on this terminal. SOURCE: terminal/launch.py:541-568 -/
def planCheck (env : Setup Id) (camp : Campaign) (sendKey : SendKey) (rows : List Candidate)
    (t : Terminal Id) : Except LaunchError SendPlan :=
  rows.foldlM (planSend env camp.id camp.createdAt sendKey
    (suppressedMap camp.kind t.suppressions) (t.jobs.filter (·.campaignId = camp.id))) {}

/-- What `dispatch_batch` has chosen once its checks have passed. -/
structure ChosenBatch where
  row : Option CampaignBatch
  plan : SendPlan
  seeds : List String

/-- The rows of the seeds. -/
def seedRows (seeds : List String) : List SendRow := seeds.map fun email => ⟨none, .queued, email, ""⟩

/-- The checks of `dispatch_batch` on the recipients of a batch. SOURCE: terminal/launch.py:924-942 -/
def chooseBatch (env : Setup Id) (ctx : SendCtx) (batchNo : ℕ) (t : Terminal Id) :
    Except LaunchError ChosenBatch := do
  let recips := t.candidates ctx.camp.id fun r => r.batchNo = some batchNo && r.status = .queued
  let row := t.batch? ctx.camp.id batchNo
  if recips = [] ∧ row.bind (·.dispatchStartedAt) = none then
    .error ⟨.launch, s!"batch {batchNo}: no queued recipients"⟩
  else match t.campaign? ctx.camp.id with
    | none => .error ⟨.other, "NoResultFound"⟩
    | some camp => do
      let plan ← planCheck env ctx.camp (genKeyFor camp.relaunchGen) recips t
      let seeds := t.activeSeedEmails
      assertRecipientsSendable (ctx.mailCtx t.settings)
        (plan.sends.map (·.1.row) ++ seedRows seeds)
      .ok { row, plan, seeds }

/-- `_mark_suppressed`. SOURCE: terminal/launch.py:631-640 -/
def Terminal.markSuppressed (campaignId : ℕ) (rows : List (ℕ × SuppressionReason))
    (t : Terminal Id) : Terminal Id :=
  rows.foldl (fun t row => t.updateRecipients campaignId (·.contactId = row.1) fun r =>
    { r with status := .cancelled, failureReason := some ("suppressed: " ++ row.2.text) }) t

/-- `_close_empty_batch`. SOURCE: terminal/launch.py:652-669 -/
def Terminal.closeEmpty (x : PressInput) (campaignId batchNo : ℕ) (handedOver : Bool)
    (t : Terminal Id) : Terminal Id :=
  t.updateBatches campaignId (·.batchNo = batchNo) fun b =>
    if handedOver then
      { b with status := .sending, windowStart := some x.now, windowEnd := some x.now
               loadedAt := some x.nowText, dispatchStartedAt := none }
    else
      { b with status := .drained, drainedAt := some x.nowText, approveUnlockAt := none
               windowStart := none, windowEnd := none, dispatchStartedAt := none }

/-- `batch_row["id"]`. -/
def batchRowCheck (row : Option CampaignBatch) : Except LaunchError Unit :=
  if row = none then .error ⟨.other, "TypeError"⟩ else .ok ()

/-- `dispatch_batch` with a context, up to its push: the packs that it goes on to push.
SOURCE: terminal/launch.py:924-980 -/
def dispatchUpToPush (env : Setup Id) (x : PressInput) (ctx : SendCtx) (batchNo : ℕ) :
    BeforePush Id (List KeyedPack) := do
  let chosen ← checkTerminal (chooseBatch env ctx batchNo)
  commitTerminal (·.markSuppressed ctx.camp.id chosen.plan.suppressed)
  if chosen.plan.sends = [] then do
    checkTerminal fun _ => batchRowCheck chosen.row
    commitTerminal (·.closeEmpty x ctx.camp.id batchNo (chosen.plan.recorded ≠ 0 ∨
      chosen.row.bind (·.dispatchStartedAt) ≠ none))
    pure []
  else do
    let packs ← checkTerminal fun t => batchPacks x t.settings ctx chosen.plan.sends chosen.seeds
    checkTerminal fun _ => batchRowCheck chosen.row
    commitTerminal (·.updateBatches ctx.camp.id (·.batchNo = batchNo) fun b =>
      { b with dispatchStartedAt := some x.nowText })
    pure (ctx.keyed packs)

/-- `dispatch_batch` without a context. SOURCE: terminal/launch.py:916-985 -/
def dispatchLoaded (env : Setup Id) (x : PressInput) (campaignId batchNo : ℕ) :
    BeforePush Id (List KeyedPack) := do
  checkTerminal (closedCheck campaignId)
  let ctx ← checkTerminal (loadCtxCheck env x campaignId)
  dispatchUpToPush env x ctx batchNo

/-- The checks of `launch_campaign` that a normal launch and a Re-launch share: the context and the
recipients. SOURCE: terminal/launch.py:295-381 -/
def launchChecks (env : Setup Id) (x : PressInput) (campaignId : ℕ) (relaunch : Bool)
    (bearer : Actor) (t : Terminal Id) : Except LaunchError (SendCtx × List Candidate) := do
  let (camp, tmpl, recipients) ← t.loadLaunch campaignId none false relaunch
  if recipients = [] ∧ ¬(relaunch = true ∧ camp.relaunchOpen = true) then
    .error ⟨.launch, "no queued recipients"⟩
  else if recipients.any fun r => (t.lockedContacts campaignId x.now).contains r.contactId then
    .error ⟨.retryable, "contact(s) are locked by another running campaign"⟩
  else do
    let ctx ← sendCtx env x t.settings bearer camp tmpl
      "resend_api_key not configured - set via admin UI or on the company"
    .ok (ctx, recipients)

/-- The recipients that are not suppressed. SOURCE: terminal/launch.py:386-387, 423-424 -/
def deliverable (env : Setup Id) (ctx : SendCtx) (recipients : List Candidate) (t : Terminal Id) :
    List Candidate :=
  recipients.filter fun r =>
    (suppressedMap ctx.camp.kind t.suppressions (env.emailHash r.email)).isNone

/-- The last checks of a normal launch: its batches. SOURCE: terminal/launch.py:423-431 -/
def batchesCheck (env : Setup Id) (ctx : SendCtx) (recipients : List Candidate) (t : Terminal Id) :
    Except LaunchError (List (List Candidate)) := do
  let deliver := deliverable env ctx recipients t
  if deliver = [] then .error ⟨.launch, "all recipients suppressed - nothing to send"⟩
  else do
    assertRecipientsSendable (ctx.mailCtx t.settings)
      (deliver.map (·.row) ++ seedRows t.activeSeedEmails)
    makeBatches t.settings.sendBatchSize deliver

/-- The transaction of a normal launch. SOURCE: terminal/launch.py:433-450 -/
def Terminal.openBatches (x : PressInput) (campaignId : ℕ) (batches : List (List Candidate))
    (t : Terminal Id) : Terminal Id :=
  (batches.zipIdx.foldl (Terminal.createBatch campaignId) t).updateCampaign campaignId
    (fun _ => true) fun c =>
      { c with status := .dispatched, dispatchedAt := some x.now
               lockUntil := some (x.now + c.lockDurationS), unsubsConfirmedAt := none }

/-- A normal launch up to its push. SOURCE: terminal/launch.py:266-453 -/
def launchUpToPush (env : Setup Id) (x : PressInput) (campaignId : ℕ) :
    BeforePush Id (List KeyedPack) := do
  let bearer ← checkTerminal (bearerCheck .retryable)
  let (ctx, recipients) ← checkTerminal (launchChecks env x campaignId false bearer)
  let batches ← checkTerminal (batchesCheck env ctx recipients)
  commitTerminal (·.openBatches x campaignId batches)
  checkTerminal (closedCheck campaignId)
  dispatchUpToPush env x ctx 1

/-- The gate of `approve_batch`. SOURCE: terminal/routes_admin.py:1753-1777 -/
def approveCheck (x : PressInput) (campaignId batchNo : ℕ) (t : Terminal Id) :
    Except LaunchError Unit :=
  match t.batch? campaignId batchNo with
  | none => .error ⟨.other, "no such batch"⟩
  | some b =>
    let prev := t.batch? campaignId (batchNo - 1)
    if b.status ≠ .pending then .error ⟨.other, s!"batch {batchNo} is not pending"⟩
    else if prev.any fun p => !([BatchStatus.drained, .cooldown, .done].contains p.status) then
      .error ⟨.other, s!"previous batch {batchNo - 1} not drained yet"⟩
    else if prev.any fun p => p.approveUnlockAt.any (x.now < ·) then
      .error ⟨.other, "cooldown active"⟩
    else .ok ()

/-- `approve_batch` up to its push. SOURCE: terminal/routes_admin.py:1753-1778 -/
def approveUpToPush (env : Setup Id) (x : PressInput) (campaignId batchNo : ℕ) :
    BeforePush Id (List KeyedPack) := do
  checkTerminal (approveCheck x campaignId batchNo)
  dispatchLoaded env x campaignId batchNo

/-- The claim of a Re-launch. SOURCE: terminal/launch.py:591-604 -/
def Terminal.claimPress (campaignId : ℕ) (expectedSeq : Option ℕ) (t : Terminal Id) : Terminal Id :=
  t.updateCampaign campaignId (fun c => expectedSeq.all (· = c.relaunchSeq)) fun c =>
    { c with relaunchSeq := c.relaunchSeq + 1 }

/-- The claim is on another sequence number than the campaign's. -/
def staleClaim (campaignId : ℕ) (expectedSeq : Option ℕ) (t : Terminal Id) : Bool :=
  (t.campaign? campaignId).any fun c => !expectedSeq.all (· = c.relaunchSeq)

/-- The transaction of `_open_relaunch`. SOURCE: terminal/launch.py:607-616 -/
def Terminal.openGeneration (campaignId : ℕ) (t : Terminal Id) : Terminal Id :=
  t.updateCampaign campaignId (fun c => !c.relaunchOpen) fun c =>
    { c with relaunchGen := c.relaunchGen + 1, relaunchOpen := true }

/-- The plan of a Re-launch, in the generation that is open, and its packs.
SOURCE: terminal/launch.py:393-399 -/
def relaunchPacks (env : Setup Id) (x : PressInput) (ctx : SendCtx) (recipients : List Candidate)
    (t : Terminal Id) : Except LaunchError (List MailPack) :=
  match t.campaign? ctx.camp.id with
  | none => .error ⟨.other, "NoResultFound"⟩
  | some camp => do
    let plan ← planCheck env ctx.camp (genKeyFor camp.relaunchGen) recipients t
    mailPacks x t.settings ctx
      (plan.sends.map fun s => ⟨s.1.row, some s.2, packSendAt ctx.camp.scheduledFor⟩)

/-- A Re-launch up to its push. SOURCE: terminal/launch.py:266-399 -/
def relaunchUpToPush (env : Setup Id) (x : PressInput) (campaignId : ℕ) (expectedSeq : Option ℕ) :
    BeforePush Id (List KeyedPack) := do
  checkTerminal (closedCheck campaignId)
  let bearer ← checkTerminal (bearerCheck .retryable)
  let stale ← readTerminal (staleClaim campaignId expectedSeq)
  commitTerminal (·.claimPress campaignId expectedSeq)
  checkTerminal fun _ => if stale then .error ⟨.conflict, "Re-launch was pressed for this campaign after this page was loaded"⟩ else .ok ()
  let interrupted ← readTerminal (·.interrupted? campaignId)
  match interrupted with
  | some batchNo => dispatchLoaded env x campaignId batchNo
  | none => do
    let (ctx, recipients) ← checkTerminal (launchChecks env x campaignId true bearer)
    checkTerminal fun t => assertRecipientsSendable (ctx.mailCtx t.settings)
      ((deliverable env ctx recipients t).map (·.row))
    commitTerminal (·.openGeneration campaignId)
    let packs ← checkTerminal (relaunchPacks env x ctx recipients)
    pure (ctx.keyed packs)

/-- The presses that send a campaign. -/
inductive SendPress where
  | launch (campaignId : ℕ)
  | approve (campaignId batchNo : ℕ)
  | relaunch (campaignId : ℕ) (expectedSeq : Option ℕ)
  deriving DecidableEq, Repr

/-- What a press does before it sends a request of `/packs`. -/
def SendPress.upToPush (env : Setup Id) (x : PressInput) :
    SendPress → BeforePush Id (List KeyedPack)
  | .launch campaignId => launchUpToPush env x campaignId
  | .approve campaignId batchNo => approveUpToPush env x campaignId batchNo
  | .relaunch campaignId expectedSeq => relaunchUpToPush env x campaignId expectedSeq

end Mailman.Model
