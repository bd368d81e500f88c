import Mailman.Model.Inbox

/-!
# Webhooks, the event log and the pull

The way of a webhook event: the cloud's receiver encrypts it for the two public keys that
are registered at that moment and appends it to the event log, `pull_loop` stores what
`/sync/pull` serves in the inbox, and the materialiser applies the inbox. Every DynamoDB
request and every commit on the terminal is one step, and any number of receivers, pulls
and materialiser batches may run side by side or stop anywhere.
-/

set_option autoImplicit false

namespace Mailman.Model

open Mailman.Library

/-- The cloud's event log and public keys, and the terminal that pulls from it. `served` is
history: the events the pull loop has gone through. -/
structure SyncWorld (Id : Type) where
  pubkeys : Actor → List KemKey := fun _ => []
  webhookRaw : List String := []
  seq : ℕ := 0
  log : List SyncEvent := []
  db : Db Id := {}
  cursor : ℕ := 0
  served : List SyncEvent := []

/-- What the environment decides for one request. -/
structure SyncInput where
  /-- the text of the clock -/
  nowIso : String := ""
  /-- how many versions behind an eventually consistent read is -/
  lag : ℕ := 0
  /-- whether an eventually consistent read misses the item -/
  stale : Bool := false
  /-- the events a query does not see yet -/
  hidden : List ℕ := []

/-- One atomic request or transaction. -/
abbrev SyncProc (Id α : Type) := Proc (SyncWorld Id) SyncInput α

/-- `type` of a webhook body. SOURCE: cloud/webhook_receiver.py:36-38 -/
def WebhookType.text : WebhookType → String
  | .opened => "email.opened"
  | .clicked => "email.clicked"
  | .bounced => "email.bounced"
  | .complained => "email.complained"
  | .unsubscribed => "email.unsubscribed"
  | .other name => name

/-- The reason under which a webhook suppresses its recipient.
SOURCE: cloud/webhook_receiver.py:160-167 -/
def WebhookType.suppressionReason : WebhookType → Option String
  | .bounced => some "bounce_hard"
  | .complained => some "complaint"
  | .unsubscribed => some "unsubscribe"
  | _ => none

/-- A webhook whose signature and timestamp have been verified, as far as it is read.
SOURCE: cloud/webhook_receiver.py:121-125 -/
structure WebhookRequest where
  svixId : String
  eventType : WebhookType
  messageId : Option String
  recipient : Option String
  deriving DecidableEq, Repr

variable {Id : Type}

/-- `_next_id`, an atomic increment. SOURCE: cloud/dynamo.py:128-136 -/
def nextId : SyncProc Id ℕ :=
  .act fun s _ => ({ s with seq := s.seq + 1 }, s.seq + 1)

/-- `put_event`: the id first, then the item.
SOURCE: cloud/dynamo.py:141-172 -/
def putEvent (table : SyncTable) (rowId : String) (payload : BothEnvelope) : SyncProc Id ℕ := do
  let eventId ← nextId
  Proc.modify fun s _ =>
    { s with log := { eventId, table, rowId, payload := some payload } :: s.log }
  pure eventId

/-- `put_webhook_raw`. SOURCE: cloud/dynamo.py:601-616 -/
def putWebhookRaw (svixId : String) : SyncProc Id Unit :=
  .modify fun s _ => { s with webhookRaw := svixId :: s.webhookRaw }

/-- `get_pubkey`. SOURCE: cloud/dynamo.py:378-386 -/
def getPubkey (actor : Actor) : SyncProc Id (Option KemKey) :=
  .get fun s i => (s.pubkeys actor)[i.lag]?

/-- The payload of the suppression event of a webhook.
SOURCE: cloud/webhook_receiver.py:168-173 -/
def suppressionPayload (h : String) (t : WebhookType) (reason nowIso : String) : InboxPayload where
  emailHash := some h
  reason := some (some reason)
  source := some (some s!"webhook:{t.text}")
  addedAt := some (some nowIso)

/-- `resend_webhook`, from the idempotency check on.
SOURCE: cloud/webhook_receiver.py:127-182 -/
def resendWebhook (emailHash : String → String) (req : WebhookRequest) : SyncProc Id Unit := do
  let existing ← Proc.get fun s i => s.webhookRaw.contains req.svixId && !i.stale
  if existing then pure ()
  else
    let op ← getPubkey .operator
    let cl ← getPubkey .client
    match op, cl with
    | some op, some cl =>
      let _ ← putEvent .webhookEvent req.svixId
        (.sealed op cl (some { eventType := req.eventType, messageId := req.messageId }))
      match req.eventType.suppressionReason with
      | none => pure ()
      | some reason =>
        let recipient := req.recipient.getD ""
        if recipient = "" then pure ()
        else
          let h := emailHash recipient
          let now ← Proc.get fun _ i => i.nowIso
          let _ ← putEvent .suppression h
            (.sealed op cl (some (suppressionPayload h req.eventType reason now)))
          pure ()
      putWebhookRaw req.svixId
    | _, _ => putWebhookRaw req.svixId

/-- `query_events_since`: up to `limit` events past the cursor, in order of their ids.
SOURCE: cloud/dynamo.py:175-185 -/
def queryEventsSince (since limit : ℕ) : SyncProc Id (List SyncEvent) :=
  .get fun s i => page (·.eventId) limit
    (s.log.filter fun e => since < e.eventId && !i.hidden.contains e.eventId)

/-- The loop of `pull_loop` over the served events; it stops at an event that raises. -/
def applyEvents : List SyncEvent → SyncProc Id Bool
  | [] => pure true
  | event :: events => do
    let applied ← Proc.act fun s _ =>
      match applyEvent s.db event with
      | some db => ({ s with db := db, served := event :: s.served }, true)
      | none => (s, false)
    if applied then applyEvents events else pure false

/-- One round of `pull_loop`, as far as events are concerned.
SOURCE: terminal/sync_client.py:216-239, cloud/sync.py:59-69 -/
def pullEvents : SyncProc Id Unit := do
  let since ← Proc.get fun s _ => s.cursor
  let events ← queryEventsSince since 500
  let applied ← applyEvents events
  match applied, events.getLast? with
  | true, some last => Proc.modify fun s _ => { s with cursor := last.eventId }
  | _, _ => pure ()

/-- The loop of `_materialise_inbox_batch`. -/
def materialiseRows (emailHash : String → String) (bundle : KeyBundle) (nowIso : String) :
    List InboxRow → ℕ → SyncProc Id ℕ
  | [], applied => pure applied
  | row :: rows, applied => do
    let done ← Proc.act fun s _ =>
      match applyRow emailHash bundle nowIso s.db row with
      | some db => ({ s with db := db }, true)
      | none => (s, false)
    if done then
      Proc.modify fun s _ => { s with db := markMaterialised nowIso s.db row.eventId }
      materialiseRows emailHash bundle nowIso rows (applied + 1)
    else materialiseRows emailHash bundle nowIso rows applied

/-- `_materialise_inbox_batch`, commit by commit.
SOURCE: terminal/sync_client.py:472-513 -/
def materialiseBatch (emailHash : String → String) (bundle : KeyBundle) : SyncProc Id ℕ := do
  let (rows, nowIso) ← Proc.get fun s i => (s.db.inboxBatch, i.nowIso)
  materialiseRows emailHash bundle nowIso rows 0

/-- What may run between the webhooks and the suppression table. -/
inductive SyncOp where
  | registerPubkey (actor : Actor) (key : KemKey)
  | webhook (req : WebhookRequest)
  | pull
  | materialise

/-- The program of each operation, on a terminal with the keys `bundle`. -/
def syncCode (emailHash : String → String) (bundle : KeyBundle) (_ : ℕ) : SyncOp → SyncProc Id Unit
  | .registerPubkey actor key => Proc.modify fun s _ =>
      { s with pubkeys := Function.update s.pubkeys actor (key :: s.pubkeys actor) }
  | .webhook req => resendWebhook emailHash req
  | .pull => pullEvents
  | .materialise => do let _ ← materialiseBatch emailHash bundle; pure ()

/-- A run from a cloud with an empty log and a terminal with an empty inbox. -/
def syncRun (emailHash : String → String) (bundle : KeyBundle) (db : Db Id)
    (es : List (Event SyncOp SyncInput)) : Pool (SyncWorld Id) SyncInput :=
  (Pool.idle { db := { db with inbox := [] } }).run (syncCode emailHash bundle) es

end Mailman.Model
