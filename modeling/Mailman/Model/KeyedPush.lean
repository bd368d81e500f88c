import Mailman.Model.BeforePush

/-!
# A press and its pack key

`_ensure_k_temp` of a press that is alone with the cloud's key table, and the press of a stage up
to its first push. The exchanges themselves get through; a status answer that is not 200 counts as
no key, as it does where the table has none.
-/

set_option autoImplicit false

namespace Mailman.Model

open Mailman.Library

variable {Id : Type} [LinearOrder Id]

/-- What `_ensure_k_temp` meets: the key that it would mint, who asks, and the cloud's clock at the
status query and at the provisioning. -/
structure KeyExchange where
  minted : KTemp
  actor : Actor
  statusAt : Stamp
  setAt : Stamp

/-- The minting half of `_ensure_k_temp`; a refused lifetime is an `HTTPStatusError`.
SOURCE: terminal/launch.py:248-261 -/
def mintAlone (kTempId : KTemp → String) (e : KeyExchange) (w : World Id) :
    Except LaunchError KTemp × KeyTable :=
  match (setKTemp kTempId e.minted w.terminal.settings.defaultKTempTtlS e.actor).alone w.keys
      [e.setAt, e.setAt] with
  | (keys, .ret (some _)) => (.ok e.minted, keys)
  | (keys, _) => (.error ⟨.other, "HTTPStatusError"⟩, keys)

/-- `_ensure_k_temp`: the key, and the key table that it leaves.
SOURCE: terminal/launch.py:233-261 -/
def ensureAlone (kTempId : KTemp → String) (e : KeyExchange) (w : World Id) :
    Except LaunchError KTemp × KeyTable :=
  match w.terminal.kTempFile with
  | none => mintAlone kTempId e w
  | some k => match kTempStatus.alone w.keys [e.statusAt, e.statusAt] with
    | (_, .ret (some report)) =>
      if report.keyId = kTempId k then (.ok k, w.keys) else mintAlone kTempId e w
    | _ => mintAlone kTempId e w

/-- A press whose key comes of this exchange. -/
def PressInput.withKey (x : PressInput) (env : Setup Id) (e : KeyExchange) (w : World Id) :
    PressInput := { x with key := (ensureAlone env.kTempId e w).1 }

/-- `_refuse_closed` of a stage. SOURCE: terminal/launch.py:576-588 -/
def stageClosedCheck (campaignId : ℕ) (t : Terminal Id) : Except LaunchError Unit := do
  closedCheck campaignId t
  if (t.campaign? campaignId).any (·.status = .cancelled) then
    .error ⟨.closed, s!"campaign {campaignId} is cancelled, and a cancelled campaign's stages send no mail"⟩
  else .ok ()

/-- The checks of `launch_campaign` for a stage: it sends to all, and asks for no lock.
SOURCE: terminal/launch.py:295-381 -/
def stageChecks (env : Setup Id) (x : PressInput) (campaignId : ℕ) (templateId : Option ℕ)
    (bearer : Actor) (t : Terminal Id) : Except LaunchError (SendCtx × List Candidate) := do
  let (camp, tmpl, recipients) ← t.loadLaunch campaignId templateId true false
  if recipients = [] then .error ⟨.launch, "no queued recipients"⟩
  else do
    let ctx ← sendCtx env x t.settings bearer camp tmpl
      "resend_api_key not configured - set via admin UI or on the company"
    .ok (ctx, recipients)

/-- The plan of a stage and its packs. SOURCE: terminal/launch.py:386-399 -/
def stagePacks (env : Setup Id) (x : PressInput) (ctx : SendCtx) (recipients : List Candidate)
    (stageId : ℕ) (t : Terminal Id) : Except LaunchError (List MailPack) := do
  let plan ← planCheck env ctx.camp (.stage stageId) recipients t
  mailPacks x t.settings ctx
    (plan.sends.map fun s => ⟨s.1.row, some s.2, packSendAt ctx.camp.scheduledFor⟩)

/-- A stage up to its push. SOURCE: terminal/launch.py:266-399 -/
def stageUpToPush (env : Setup Id) (x : PressInput) (campaignId : ℕ) (templateId : Option ℕ)
    (stageId : ℕ) : BeforePush Id (List KeyedPack) := do
  checkTerminal (stageClosedCheck campaignId)
  let bearer ← checkTerminal (bearerCheck .retryable)
  let (ctx, recipients) ← checkTerminal (stageChecks env x campaignId templateId bearer)
  checkTerminal fun t => assertRecipientsSendable (ctx.mailCtx t.settings)
    ((deliverable env ctx recipients t).map (·.row))
  let packs ← checkTerminal (stagePacks env x ctx recipients stageId)
  pure (ctx.keyed packs)

/-- The presses that push packs, a stage of the scheduler among them. -/
inductive KeyedPress where
  | send (p : SendPress)
  | stage (campaignId : ℕ) (templateId : Option ℕ) (stageId : ℕ)
  deriving DecidableEq, Repr

/-- What a press does before it sends a request of `/packs`. -/
def KeyedPress.upToPush (env : Setup Id) (x : PressInput) :
    KeyedPress → BeforePush Id (List KeyedPack)
  | .send p => p.upToPush env x
  | .stage campaignId templateId stageId => stageUpToPush env x campaignId templateId stageId

end Mailman.Model
