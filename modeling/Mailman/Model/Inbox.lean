import Mailman.Library.Keyset
import Mailman.Model.Outcomes

/-!
# The inbox and its materialiser

The terminal stores every pulled event in `inbox`, one row for each (table, row id,
revision), and the materialiser decrypts the rows in event order, fifty at a time, and
applies them. Applying a row and marking it are two transactions. A row that cannot be
decrypted is left for the next batch.
-/

set_option autoImplicit false

namespace Mailman.Model

open Mailman.Library

variable {Id : Type} [DecidableEq Id]

/-- The keys of one terminal, as far as opening an envelope needs them.
SOURCE: terminal/encryption.py:37-67 -/
structure KeyBundle where
  ownRole : Actor
  ownKemPriv : KemKey
  deriving DecidableEq, Repr

/-- `decrypt_for_both` and `json.loads`, both of which run inside one `try`.
SOURCE: terminal/encryption.py:94-104, terminal/sync_client.py:499-500 -/
def decryptForBoth (envelope : BothEnvelope) (bundle : KeyBundle) : Option InboxPayload :=
  match envelope with
  | .sealed op cl plain =>
    if (if bundle.ownRole = .operator then op else cl) = bundle.ownKemPriv then plain else none
  | .garbage => none

/-- The recipient a message id belongs to. -/
def Db.byMessage? (db : Db Id) (messageId : String) : Option Recipient :=
  db.recipients.find? (·.messageId = some messageId)

/-- `UPDATE campaign_recipients SET f WHERE id = i`. -/
def Db.setRecipient (db : Db Id) (i : ℕ) (f : Recipient → Recipient) : Db Id :=
  { db with recipients := updateRows db.recipients (·.id = i) f }

/-- The hash of the address behind a recipient row, if its contact is there. -/
def Db.recipientHash (emailHash : String → String) (db : Db Id) (r : Recipient) : Option String :=
  (db.contacts.find? (·.id = r.contactId)).map fun c => emailHash c.email

/-- `_apply_webhook_event`.
SOURCE: terminal/sync_client.py:525-575 -/
def applyWebhookEvent (emailHash : String → String) (nowIso : String) (db : Db Id)
    (payload : InboxPayload) : Db Id :=
  let messageId := payload.messageId.getD ""
  if messageId = "" then db
  else
    match db.byMessage? messageId with
    | none => db
    | some row =>
      -- don't downgrade from terminal states
      if (row.status = .bounced ∨ row.status = .complained) ∧
          payload.eventType ≠ .bounced ∧ payload.eventType ≠ .complained then db
      else
        match payload.eventType with
        | .clicked =>
          db.setRecipient row.id fun r => { r with status := .clicked, clickedAt := some nowIso }
        | .bounced =>
          let db' := db.setRecipient row.id fun r =>
            { r with status := .bounced, bouncedAt := some nowIso }
          match db.recipientHash emailHash row with
          | none => db'
          | some h => { db' with suppressions := suppressHardBounce nowIso db'.suppressions h }
        | .complained =>
          db.setRecipient row.id fun r =>
            { r with status := .complained, complainedAt := some nowIso }
        | _ => db

/-- `_mark_materialised`. SOURCE: terminal/sync_client.py:516-522 -/
def markMaterialised (nowIso : String) (db : Db Id) (eventId : ℕ) : Db Id :=
  { db with inbox := updateRows db.inbox (·.eventId = eventId) fun r =>
      { r with materialisedAt := some nowIso } }

/-- What the materialiser makes of one row before it marks it; `none` when it raises. A row
without a payload is only marked.
SOURCE: terminal/sync_client.py:492-507 -/
def applyRow (emailHash : String → String) (bundle : KeyBundle) (nowIso : String) (db : Db Id)
    (row : InboxRow) : Option (Db Id) :=
  match row.payload with
  | none => some db
  | some envelope =>
    (decryptForBoth envelope bundle).map fun payload =>
      match row.table with
      | .webhookEvent => applyWebhookEvent emailHash nowIso db payload
      | .suppression => { db with
          suppressions := applySuppressionEvent nowIso db.suppressions
            payload.toSuppressionPayload }

/-- One row of a batch, applied and marked; `none` when it raises. -/
def materialiseRow (emailHash : String → String) (bundle : KeyBundle) (nowIso : String)
    (db : Db Id) (row : InboxRow) : Option (Db Id) :=
  (applyRow emailHash bundle nowIso db row).map fun db' => markMaterialised nowIso db' row.eventId

/-- The rows of the next batch: the first fifty that are not marked, in event order.
SOURCE: terminal/sync_client.py:478-483 -/
def Db.inboxBatch (db : Db Id) : List InboxRow :=
  page (·.eventId) 50 (db.inbox.filter (·.materialisedAt = none))

/-- A batch in one go, with the count of rows applied; a row that raises is passed over. -/
def materialiseRowsCounted (emailHash : String → String) (bundle : KeyBundle) (nowIso : String) :
    List InboxRow → Db Id × ℕ → Db Id × ℕ
  | [], acc => acc
  | row :: rows, (db, applied) =>
    match materialiseRow emailHash bundle nowIso db row with
    | none => materialiseRowsCounted emailHash bundle nowIso rows (db, applied)
    | some db' => materialiseRowsCounted emailHash bundle nowIso rows (db', applied + 1)

/-- `_materialise_inbox_batch`.
SOURCE: terminal/sync_client.py:472-513 -/
def materialiseInboxBatch (emailHash : String → String) (bundle : KeyBundle) (nowIso : String)
    (db : Db Id) : Db Id × ℕ :=
  materialiseRowsCounted emailHash bundle nowIso db.inboxBatch (db, 0)

/-- An event of the cloud's log. `_write_event_log` gives every event revision 0.
SOURCE: cloud/dynamo.py:141-172, cloud/webhook_receiver.py:74-88 -/
structure SyncEvent where
  eventId : ℕ
  table : SyncTable
  rowId : String
  revision : ℤ := 0
  payload : Option BothEnvelope
  deriving DecidableEq, Repr

/-- The inbox row that stands for the same (table, row id, revision). -/
def InboxRow.sameRevision (r : InboxRow) (event : SyncEvent) : Bool :=
  r.table = event.table ∧ r.rowId = event.rowId ∧ r.revision = event.revision

/-- `_apply_event`: an event whose (table, row id, revision) is in the inbox already is
skipped; a second row with one event id is an integrity error.
SOURCE: terminal/sync_client.py:177-203 -/
def applyEvent (db : Db Id) (event : SyncEvent) : Option (Db Id) :=
  if db.inbox.any (·.sameRevision event) then some db
  else if db.inbox.any (·.eventId = event.eventId) then none
  else some { db with
    inbox := db.inbox ++ [
      { eventId := event.eventId, table := event.table, rowId := event.rowId,
        revision := event.revision, payload := event.payload }] }

end Mailman.Model
