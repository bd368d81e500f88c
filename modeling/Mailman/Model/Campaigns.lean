import Mailman.Model.OutcomeCursor
import Mailman.Model.Tables

/-!
# Campaigns on the terminal

The rows that the sending paths read and write beside contacts, recipients and jobs, and the
terminal as a whole. Columns that only pages and statistics read are left out. A time the
code compares is the second it names; a time it only stores is kept as `some` text.
-/

set_option autoImplicit false

namespace Mailman.Model

/-- `status` of a campaign. SOURCE: terminal/models.py:83-87 -/
inductive CampaignStatus where
  | draft
  | tested
  | scheduled
  | dispatched
  | sending
  | sent
  | cancelled
  | paused
  | failed
  | archived
  deriving DecidableEq, Repr

/-- A stored `scheduled_for`: empty, a time, or a text that is not one. -/
inductive ScheduledFor where
  | empty
  | time (t : Stamp)
  | unreadable (text : String)
  deriving DecidableEq, Repr

/-- A row of `campaigns`. SOURCE: terminal/models.py:67-105 -/
structure Campaign where
  id : ℕ
  createdAt : String
  templateId : ℕ
  kind : SendKind
  entityId : Option ℕ := none
  status : CampaignStatus := .draft
  testSentAt : Option String := none
  templateHashAtTest : Option String := none
  scheduledFor : ScheduledFor := .empty
  dispatchedAt : Option Stamp := none
  humanSend : Bool := false
  humanSendCount : ℤ := 1
  lockUntil : Option Stamp := none
  unsubsConfirmedAt : Option String := none
  lockDurationS : ℕ := 86400
  relaunchGen : ℕ := 0
  relaunchOpen : Bool := false
  relaunchSeq : ℕ := 0
  deriving DecidableEq, Repr

/-- A row of `templates`. SOURCE: terminal/models.py:46-59 -/
structure Template where
  id : ℕ
  name : String := ""
  subject : String
  fromName : String := ""
  htmlBody : String
  textBody : Option String := none
  templateHash : String
  deriving DecidableEq, Repr

/-- `status` of a campaign batch. SOURCE: terminal/models.py:394-397 -/
inductive BatchStatus where
  | pending
  | scheduled
  | sending
  | drained
  | cooldown
  | approved
  | done
  | cancelled
  deriving DecidableEq, Repr

/-- A row of `campaign_batches`; the row is known by its campaign and number, which are unique.
SOURCE: terminal/models.py:382-410 -/
structure CampaignBatch where
  campaignId : ℕ
  batchNo : ℕ
  size : ℕ := 0
  status : BatchStatus := .pending
  windowStart : Option Stamp := none
  windowEnd : Option Stamp := none
  loadedAt : Option String := none
  drainedAt : Option String := none
  approveUnlockAt : Option Stamp := none
  approvedAt : Option String := none
  dispatchStartedAt : Option String := none
  deriving DecidableEq, Repr

/-- `status` of a campaign stage. -/
inductive StageStatus where
  | pending
  | dispatched
  | failed
  | cancelled
  deriving DecidableEq, Repr

/-- A row of `campaign_stages`. SOURCE: terminal/models.py:357-374 -/
structure CampaignStage where
  id : ℕ
  campaignId : ℕ
  templateId : ℕ
  status : StageStatus := .pending
  dispatchedAt : Option String := none
  deriving DecidableEq, Repr

/-- A row of `seed_addresses`. SOURCE: terminal/models.py:415-423 -/
structure SeedAddress where
  id : ℕ
  email : String
  active : Bool := true
  deriving DecidableEq, Repr

/-- The settings the sending paths read, with the defaults they are read with.
SOURCE: terminal/launch.py:248, 353-370, 425 -/
structure Settings where
  publicHost : String := "mail.example.com"
  emailFooterAddress : String := ""
  resendApiKey : String := ""
  emailFrom : Option String := none
  fromName : String := ""
  sendBatchSize : ℤ := 1000
  defaultKTempTtlS : ℤ := 86400
  deriving DecidableEq, Repr

/-- The terminal: its database, the K_temp it has cached in a file, the bearer its handshake
left, and `_PUSHING`, the number of pushes in flight for each campaign. -/
structure Terminal (Id : Type) extends Db Id where
  campaigns : List Campaign := []
  templates : List Template := []
  batches : List CampaignBatch := []
  stages : List CampaignStage := []
  seeds : List SeedAddress := []
  settings : Settings := {}
  outcomeCursor : OutcomeCursor Id := .start
  kTempFile : Option KTemp := none
  bearer : Option Actor := none
  pushing : ℕ → ℕ := fun _ => 0

namespace Terminal

variable {Id : Type}

/-- `select(Campaign).where(Campaign.id == campaign_id)`. -/
def campaign? (t : Terminal Id) (campaignId : ℕ) : Option Campaign :=
  t.campaigns.find? (·.id = campaignId)

def template? (t : Terminal Id) (templateId : ℕ) : Option Template :=
  t.templates.find? (·.id = templateId)

def batch? (t : Terminal Id) (campaignId batchNo : ℕ) : Option CampaignBatch :=
  t.batches.find? fun b => b.campaignId = campaignId ∧ b.batchNo = batchNo

/-- `update(Campaign).where(Campaign.id == campaign_id, ...)`. -/
def updateCampaign (t : Terminal Id) (campaignId : ℕ) (p : Campaign → Bool)
    (f : Campaign → Campaign) : Terminal Id :=
  { t with campaigns := updateRows t.campaigns (fun c => c.id = campaignId ∧ p c) f }

/-- `update(CampaignBatch).where(CampaignBatch.campaign_id == campaign_id, ...)`. -/
def updateBatches (t : Terminal Id) (campaignId : ℕ) (p : CampaignBatch → Bool)
    (f : CampaignBatch → CampaignBatch) : Terminal Id :=
  { t with batches := updateRows t.batches (fun b => b.campaignId = campaignId ∧ p b) f }

/-- `update(CampaignRecipient).where(CampaignRecipient.campaign_id == campaign_id, ...)`. -/
def updateRecipients (t : Terminal Id) (campaignId : ℕ) (p : Recipient → Bool)
    (f : Recipient → Recipient) : Terminal Id :=
  { t with recipients := updateRows t.recipients (fun r => r.campaignId = campaignId ∧ p r) f }

/-- The batch of the campaign with the smallest number whose dispatch was interrupted.
SOURCE: terminal/launch.py:287-291, 620-623 -/
def interrupted? (t : Terminal Id) (campaignId : ℕ) : Option ℕ :=
  ((t.batches.filter fun b => b.campaignId = campaignId ∧ b.dispatchStartedAt ≠ none).map
    (·.batchNo)).min?

end Terminal

end Mailman.Model
