import Mailman.Model.PackTable
import Mailman.Model.Suppression

/-!
# The terminal's tables

The rows of the terminal's SQLite database, as far as the sending paths and the sync loops
read or write them. A table is the list of its rows in rowid order, an `UPDATE` maps over
it and a `SELECT ... first()` takes the first row that matches. Times the code only stores
are kept as the texts it stores.
-/

set_option autoImplicit false

namespace Mailman.Model

/-- A row of `contacts`; a NULL name is the empty one. SOURCE: terminal/models.py:27-37 -/
structure Contact where
  id : ℕ
  email : String
  name : String := ""
  tags : Option String := none
  consentTs : String := ""
  consentSource : String := ""
  externalId : Option String := none
  deriving DecidableEq, Repr

/-- `status` of a campaign recipient. SOURCE: terminal/models.py:133-137 -/
inductive RecipientStatus where
  | queued
  | sent
  | delivered
  | opened
  | clicked
  | bounced
  | complained
  | failed
  | cancelled
  deriving DecidableEq, Repr

/-- A row of `campaign_recipients`. SOURCE: terminal/models.py:119-146 -/
structure Recipient where
  id : ℕ
  campaignId : ℕ
  contactId : ℕ
  messageId : Option String := none
  status : RecipientStatus := .queued
  sentAt : Option String := none
  clickedAt : Option String := none
  bouncedAt : Option String := none
  complainedAt : Option String := none
  failureReason : Option String := none
  batchNo : Option ℕ := none
  deriving DecidableEq, Repr

/-- `status` of a dispatched job. SOURCE: terminal/models.py:196-199 -/
inductive JobStatus where
  | dispatched
  | acked
  | completed
  | failed
  | cancelled
  deriving DecidableEq, Repr

/-- A row of `dispatched_job`; its key is the pack id. SOURCE: terminal/models.py:184-203 -/
structure Job (Id : Type) where
  jobId : Id
  campaignId : ℕ
  recipientId : ℕ
  recipientHash : String := ""
  contentHash : String := ""
  status : JobStatus := .dispatched
  completedAt : Option String := none
  resendMessageId : Option String := none
  deriving DecidableEq, Repr

/-- The two tables of sync events that the materialiser applies. -/
inductive SyncTable where
  | webhookEvent
  | suppression
  deriving DecidableEq, Repr

/-- A key pair of one terminal, known by its public half. -/
structure KemKey where
  bytes : ℕ
  deriving DecidableEq, Repr

/-- `event_type` of a webhook payload. -/
inductive WebhookType where
  | opened
  | clicked
  | bounced
  | complained
  | unsubscribed
  | other (name : String)
  deriving DecidableEq, Repr

/-- A decrypted payload: a JSON object with the keys that either kind of event reads. -/
structure InboxPayload extends SuppressionPayload where
  emailHash := none
  eventType : WebhookType := .other ""
  messageId : Option String := none
  deriving DecidableEq, Repr

/-- An envelope wrapped for two public keys, or bytes that nobody opens; its text may fail to
be a JSON object. -/
inductive BothEnvelope where
  | sealed (op cl : KemKey) (plain : Option InboxPayload)
  | garbage
  deriving DecidableEq, Repr

/-- A row of `inbox`. SOURCE: terminal/models.py:248-266 -/
structure InboxRow where
  eventId : ℕ
  table : SyncTable
  rowId : String
  revision : ℤ
  payload : Option BothEnvelope
  materialisedAt : Option String := none
  deriving DecidableEq, Repr

/-- The terminal's database. -/
structure Db (Id : Type) where
  contacts : List Contact := []
  recipients : List Recipient := []
  jobs : List (Job Id) := []
  suppressions : Suppressions := fun _ => none
  inbox : List InboxRow := []

/-- `UPDATE table SET f WHERE p`. -/
def updateRows {α : Type} (rows : List α) (p : α → Bool) (f : α → α) : List α :=
  rows.map fun r => if p r then f r else r

section updateRows

variable {α : Type} {rows : List α} {p : α → Bool} {f : α → α}

/-- The rows after an update. -/
theorem mem_updateRows {r : α} :
    r ∈ updateRows rows p f ↔ ∃ r' ∈ rows, (if p r' then f r' else r') = r := by
  simp [updateRows]

/-- A search by a key that the update does not touch finds the same row, updated. -/
theorem find?_updateRows {q : α → Bool} (hq : ∀ r ∈ rows, p r = true → q (f r) = q r) :
    (updateRows rows p f).find? q = (rows.find? q).map fun r => if p r then f r else r := by
  induction rows with
  | nil => rfl
  | cons r rows ih =>
    have hr : q (if p r then f r else r) = q r := by
      split
      · next hp => exact hq r (List.mem_cons_self ..) hp
      · rfl
    have ih := ih fun r' hr' => hq r' (List.mem_cons_of_mem _ hr')
    unfold updateRows at ih ⊢
    rw [List.map_cons, List.find?_cons, List.find?_cons, hr]
    cases q r with
    | true => rfl
    | false => exact ih

end updateRows

end Mailman.Model
