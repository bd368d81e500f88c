import Mailman.Model.Tables

/-!
# Applying pack outcomes on the terminal

`_apply_pack_outcome` and `_apply_unknown_outcome`: what a resolved pack, reported by a poll
or held by the cloud when a push is retried, does to the job and the recipient. Each is one
transaction. The audit rows they write afterwards are not modelled.
-/

set_option autoImplicit false

namespace Mailman.Model

/-- A pack as a poll or a push acknowledgement reports it. -/
structure PackOutcome (Id : Type) where
  packId : Id
  status : PackStatus
  resendMessageId : Option String := none
  failureReason : Option String := none
  deriving DecidableEq

/-- The statuses an outcome does not overwrite.
SOURCE: terminal/sync_client.py:383 -/
def RecipientStatus.engaged (st : RecipientStatus) : Bool :=
  [.delivered, .opened, .clicked, .bounced, .complained].contains st

/-- `UNKNOWN_PREFIX`. SOURCE: terminal/sync_client.py:402 -/
def unknownPrefix : String := "Delivery unknown: "

variable {Id : Type} [DecidableEq Id]

/-- The job recorded for a pack. -/
def Db.job? (db : Db Id) (id : Id) : Option (Job Id) := db.jobs.find? (·.jobId = id)

/-- The recipient row of a job. -/
def Job.isRecipient (job : Job Id) (r : Recipient) : Bool :=
  r.campaignId = job.campaignId ∧ r.contactId = job.recipientId

/-- `_apply_unknown_outcome`: the job stays as it is.
SOURCE: terminal/sync_client.py:405-425 -/
def applyUnknownOutcome (db : Db Id) (packId : Id) (reason : String) : Db Id :=
  match db.job? packId with
  | none => db
  | some job =>
    let text := unknownPrefix ++ if reason = "" then "no reason recorded" else reason
    { db with
      recipients := updateRows db.recipients (fun r => job.isRecipient r && r.status = .sent)
        fun r => { r with failureReason := some text } }

/-- `_apply_pack_outcome`.
SOURCE: terminal/sync_client.py:348-395 -/
def applyPackOutcome (nowIso : String) (db : Db Id) (pack : PackOutcome Id) : Db Id :=
  let resendId := pack.resendMessageId.getD ""
  let failureReason := pack.failureReason.getD ""
  if pack.status = .unknown then applyUnknownOutcome db pack.packId failureReason
  else
    match db.job? pack.packId with
    | none => db
    | some job =>
      { db with
        jobs := updateRows db.jobs (fun j => j.jobId = pack.packId) fun j =>
          if pack.status = .sent then
            { j with status := .completed, completedAt := some nowIso
                     resendMessageId := some resendId }
          else { j with status := .failed, resendMessageId := some resendId }
        recipients := updateRows db.recipients
          (fun r => job.isRecipient r && !r.status.engaged)
          fun r => { r with
            status := if pack.status = .sent then .sent else .failed
            messageId := some resendId
            failureReason := if failureReason = "" then none else some failureReason
            sentAt := if pack.status = .sent then some nowIso else none } }

end Mailman.Model
