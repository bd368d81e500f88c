import Mathlib.Data.Int.Notation
import Mailman.Library.IsoTime
import Mailman.Library.Process

/-!
# The cloud's pack table

The pack items of the DynamoDB table and the requests `cloud/dynamo.py` makes on them.
One item is kept as the list of its versions, newest first: a conditional write looks at
the newest one, while a read or an index page may still see an older one, by a lag the
environment chooses. Times are the whole seconds the cloud clock writes; their texts
`YYYY-MM-DDTHH:MM:SSZ` have a fixed width, so they compare as the seconds do.

`owner`, `posts`, `answers` and `landed` are history: no request reads them. They say
which dispatcher's claim succeeded, which packs were POSTed to the provider, what the
provider answered, and for which of them the finalizing write landed.
-/

set_option autoImplicit false

namespace Mailman.Model

open Mailman.Library

/-- A second of the cloud clock. -/
abbrev Stamp := ℕ

/-- The two terminals that hold bearer tokens. -/
inductive Actor where
  | operator
  | client
  deriving DecidableEq, Repr

/-- The `status` of a pack item.
SOURCE: cloud/dynamo.py:422-459, 782 -/
inductive PackStatus where
  | pending
  | claimed
  | sent
  | failed
  | stuckNoKey
  | cancelled
  | unknown
  deriving DecidableEq, Repr

/-- `RESOLVED_PACK_STATUSES`, in the order the outcome query reads the partitions.
SOURCE: cloud/dynamo.py:782 -/
def resolvedPackStatuses : List PackStatus :=
  [.sent, .failed, .stuckNoKey, .cancelled, .unknown]

/-- `status in RESOLVED_PACK_STATUSES`. -/
def PackStatus.resolved (st : PackStatus) : Bool := resolvedPackStatuses.contains st

/-- A symmetric pack key: 32 random bytes, of which only the identity matters. -/
structure KTemp where
  bytes : ℕ
  deriving DecidableEq, Repr

/-- The fields the dispatcher needs to build the provider's request.
SOURCE: cloud/dispatcher_lambda.py:215-227 -/
structure MailBody where
  sender : String
  recipient : String
  subject : String
  html : String
  text : String
  deriving DecidableEq, Repr

/-- The JSON object inside a pack, as far as the dispatcher reads it. `mail` is `none` when
one of the fields the request body indexes is missing.
SOURCE: cloud/dispatcher_lambda.py:153-163, 211-227 -/
structure PlainPack where
  resendApiKey : Option String := none
  mail : Option MailBody := none
  campaignId : Option ℕ := none
  humanSendCount : ℤ := 1
  deriving DecidableEq, Repr

/-- A stored envelope: sealed under one key, or bytes that no key opens. Where the sealed text is no
such object, or the bytes are no such envelope, the text of what is raised stands in its place. -/
inductive Envelope where
  | sealed (key : KTemp) (plain : Except String PlainPack)
  | garbage (error : String)
  deriving DecidableEq

/-- `decrypt_with_temp` followed by `json.loads` and the field reads, all of which run
inside one `try`; a missing payload raises there too. The exception for another key has no text.
SOURCE: cloud/encryption_cloud.py:40-49, cloud/dispatcher_lambda.py:152-168 -/
def decryptWithTemp (payload : Option Envelope) (k : KTemp) : Except String PlainPack :=
  let opened : Except String PlainPack := match payload with
    | none => .error "the JSON object must be str, bytes or bytearray, not NoneType"
    | some (.garbage error) => .error error
    | some (.sealed k' plain) => if k' = k then plain else .error ""
  opened.mapError ("decrypt failed: " ++ ·)

/-- One version of a pack item.
SOURCE: cloud/dynamo.py:434-452 -/
structure Pack (Id : Type) where
  packId : Id
  campaignId : ℕ
  recipientHash : String
  contentHash : String
  sendAt : Stamp
  keyId : String
  encryptedPayload : Option Envelope
  status : PackStatus
  enqueuedAt : Stamp
  pushedBy : Actor
  claimedAt : Option Stamp := none
  sentAt : Option Stamp := none
  resendMessageId : Option String := none
  failureReason : Option String := none
  resolvedAt : Option Stamp := none
  deriving DecidableEq

/-- A pack as a terminal posts it.
SOURCE: cloud/packs.py:52-59 -/
structure PackIn (Id : Type) where
  packId : Id
  campaignId : ℕ
  recipientHash : String
  contentHash : String
  sendAt : Stamp
  keyId : String
  encryptedBlob : Envelope
  deriving DecidableEq

/-- The body of a provider answer. -/
inductive AnswerBody where
  | notJson
  | object (id message : Option String)
  | notObject
  deriving DecidableEq, Repr

/-- What the provider call of `_send_sync` ends in. -/
inductive HttpAnswer where
  | raised (error : String)
  | response (code : ℕ) (body : AnswerBody)
  deriving DecidableEq, Repr

/-- The pack part of the cloud table, with its history. -/
structure Cloud (Id : Type) where
  packs : Id → List (Pack Id)
  events : List Id := []
  owner : Id → Option ℕ := fun _ => none
  posts : List Id := []
  answers : List (Id × HttpAnswer) := []
  landed : List Id := []

/-- What the environment decides for one request. -/
structure CloudInput (Id : Type) where
  /-- what `_now()` returns -/
  now : Stamp := 0
  /-- how many versions behind an eventually consistent read is -/
  lag : ℕ := 0
  /-- what the key table answers -/
  key : Option KTemp := none
  /-- what the provider answers -/
  answer : HttpAnswer := .raised "ConnectError"
  /-- an index page: pack ids, each with the lag of the version the index still shows -/
  listed : List (Id × ℕ) := []
  /-- how many pages the index query will be cut into -/
  pages : ℕ := 0

variable {Id : Type} [DecidableEq Id]

namespace Cloud

/-- A table without packs. -/
def empty : Cloud Id := { packs := fun _ => [] }

/-- The newest version of an item. -/
def lookup (s : Cloud Id) (id : Id) : Option (Pack Id) := (s.packs id).head?

/-- The newest status of an item, if it is stored. -/
def status (s : Cloud Id) (id : Id) : Option PackStatus := (s.lookup id).map (·.status)

/-- Write a new version of an item. -/
def store (s : Cloud Id) (id : Id) (p : Pack Id) : Cloud Id :=
  { s with packs := Function.update s.packs id (p :: s.packs id) }

end Cloud

/-- One atomic DynamoDB request or one half of an HTTP exchange. -/
abbrev CloudProc (Id α : Type) := Proc (Cloud Id) (CloudInput Id) α

/-- The item `put_pack` writes.
SOURCE: cloud/dynamo.py:434-452 -/
def PackIn.item (p : PackIn Id) (pushedBy : Actor) (now : Stamp) : Pack Id where
  packId := p.packId
  campaignId := p.campaignId
  recipientHash := p.recipientHash
  contentHash := p.contentHash
  sendAt := p.sendAt
  keyId := p.keyId
  encryptedPayload := some p.encryptedBlob
  status := .pending
  enqueuedAt := now
  pushedBy := pushedBy

/-- `put_pack`: true when the item was new, false for `PackAlreadyExists`.
SOURCE: cloud/dynamo.py:422-459 -/
def putPack (p : PackIn Id) (pushedBy : Actor) : CloudProc Id Bool :=
  .act fun s i =>
    match s.lookup p.packId with
    | some _ => (s, false)
    | none => (s.store p.packId (p.item pushedBy i.now), true)

/-- `get_pack`, an eventually consistent read.
SOURCE: cloud/dynamo.py:462-465 -/
def getPack (id : Id) : CloudProc Id (Option (Pack Id)) :=
  .get fun s i => (s.packs id)[i.lag]?

/-- `claim_pack` by dispatcher `n`: pending becomes claimed, in one conditional write.
SOURCE: cloud/dynamo.py:468-483 -/
def claimPack (n : ℕ) (id : Id) : CloudProc Id Bool :=
  .act fun s i =>
    match s.lookup id with
    | some p =>
      if p.status = .pending then
        ({ s.store id { p with status := .claimed, claimedAt := some i.now } with
            owner := Function.update s.owner id (some n) }, true)
      else (s, false)
    | none => (s, false)

/-- The keyword arguments of `update_pack`; a field that is not passed stays as it is. -/
structure PackFields where
  status : Option PackStatus := none
  sentAt : Option (Option Stamp) := none
  resendMessageId : Option (Option String) := none
  failureReason : Option (Option String) := none
  encryptedPayload : Option (Option Envelope) := none
  resolvedAt : Option (Option Stamp) := none

/-- `_stamp_resolved`: a write that resolves a pack also stamps `resolved_at`, unless the
caller set it.
SOURCE: cloud/dynamo.py:791-795 -/
def stampResolved (fields : PackFields) (now : Stamp) : PackFields :=
  match fields.status, fields.resolvedAt with
  | some st, none =>
    if st.resolved then { fields with resolvedAt := some (some now) } else fields
  | _, _ => fields

/-- The item after a `SET` of the given fields. -/
def PackFields.apply (fields : PackFields) (p : Pack Id) : Pack Id :=
  { p with
    status := fields.status.getD p.status
    sentAt := fields.sentAt.getD p.sentAt
    resendMessageId := fields.resendMessageId.getD p.resendMessageId
    failureReason := fields.failureReason.getD p.failureReason
    encryptedPayload := fields.encryptedPayload.getD p.encryptedPayload
    resolvedAt := fields.resolvedAt.getD p.resolvedAt }

/-- The effect of `update_pack`: no condition on the stored version. Its callers have read
the item before and no item is ever deleted, so the missing item is never met.
SOURCE: cloud/dynamo.py:486-498 -/
def Cloud.updatePack (s : Cloud Id) (id : Id) (fields : PackFields) (now : Stamp) : Cloud Id :=
  match s.lookup id with
  | some p => s.store id ((stampResolved fields now).apply p)
  | none => s

/-- `update_pack`. SOURCE: cloud/dynamo.py:486-498 -/
def updatePack (id : Id) (fields : PackFields) : CloudProc Id Unit :=
  .modify fun s i => s.updatePack id fields i.now

/-- `cancel_pack`: pending becomes cancelled and the payload is dropped, in one conditional
write.
SOURCE: cloud/dynamo.py:761-777 -/
def cancelPack (id : Id) : CloudProc Id Bool :=
  .act fun s i =>
    match s.lookup id with
    | some p =>
      if p.status = .pending then
        (s.store id { p with
          status := .cancelled, encryptedPayload := none, resolvedAt := some i.now }, true)
      else (s, false)
    | none => (s, false)

/-- The items of one index page that pass the filter, each as the version the index shows. -/
def Cloud.page (s : Cloud Id) (i : CloudInput Id) (f : Pack Id → Bool) : List (Pack Id) :=
  (i.listed.filterMap fun (id, lag) => (s.packs id)[lag]?).filter f

/-- The cancel loop over one page. -/
def cancelListed : List (Pack Id) → ℕ → CloudProc Id ℕ
  | [], cancelled => pure cancelled
  | p :: ps, cancelled => do
    let won ← cancelPack p.packId
    cancelListed ps (if won then cancelled + 1 else cancelled)

/-- The page loop of `cancel_pending_for_campaign`. -/
def cancelPages (campaignId : ℕ) : ℕ → ℕ → CloudProc Id ℕ
  | 0, cancelled => pure cancelled
  | pages + 1, cancelled => do
    let items ← Proc.get fun s i =>
      s.page i fun p => p.status = .pending ∧ p.campaignId = campaignId
    let cancelled ← cancelListed items cancelled
    cancelPages campaignId pages cancelled

/-- `cancel_pending_for_campaign`. The query ends when the index has no further page; how
many pages that takes is the environment's choice.
SOURCE: cloud/dynamo.py:515-542 -/
def cancelPendingForCampaign (campaignId : ℕ) : CloudProc Id ℕ := do
  let pages ← Proc.get fun _ i => i.pages
  cancelPages campaignId pages 0

/-- The text that the cloud's clock writes for a second; there is none past the year 9999. -/
def stampText (s : Stamp) : String :=
  match (Date.ofFields 1970 1 1).bind (Date.shift (s / 86400 : ℕ)) with
  | none => ""
  | some date =>
    let time : LocalTime :=
      { date, micros := s % 86400 * 1000000, hmicros := by unfold dayMicros; omega }
    .ofList (isoText 'T' time ++ ['Z'])

/-- `STALE_CLAIM_REASON.format(...)` for a listed claim. SOURCE: cloud/dynamo.py:784, 844 -/
def staleClaimReason (claimedAt : Option Stamp) : String :=
  "dispatcher stopped after claiming it at " ++ (claimedAt.map stampText).getD ""

/-- The conditional write of `expire_stale_claims` for one listed claim: the same claim
becomes unknown.
SOURCE: cloud/dynamo.py:838-850 -/
def expireClaim (id : Id) (claimedAt : Option Stamp) : CloudProc Id Bool :=
  .act fun s i =>
    match s.lookup id with
    | some p =>
      if p.status = .claimed ∧ p.claimedAt = claimedAt then
        (s.store id { p with
          status := .unknown, failureReason := some (staleClaimReason claimedAt)
          encryptedPayload := none, resolvedAt := some i.now }, true)
      else (s, false)
    | none => (s, false)

/-- The loop over one page of stale claims; it stops at the limit. -/
def expireListed (limit : ℕ) : List (Pack Id) → ℕ → CloudProc Id ℕ
  | [], changed => pure changed
  | p :: ps, changed =>
    if limit ≤ changed then pure changed
    else do
      let won ← expireClaim p.packId p.claimedAt
      expireListed limit ps (if won then changed + 1 else changed)

/-- The page loop of `expire_stale_claims`; `upper` is `_iso_ago(older_than_s)`. -/
def expirePages (upper : Stamp) (limit : ℕ) : ℕ → ℕ → CloudProc Id ℕ
  | 0, changed => pure changed
  | pages + 1, changed =>
    if limit ≤ changed then pure changed
    else do
      let items ← Proc.get fun s i =>
        s.page i fun p => p.status = .claimed ∧ p.claimedAt.any (· ≤ upper)
      let changed ← expireListed limit items changed
      expirePages upper limit pages changed

/-- `expire_stale_claims`. SOURCE: cloud/dynamo.py:820-855 -/
def expireStaleClaims (olderThanS limit : ℕ) : CloudProc Id ℕ := do
  let (upper, pages) ← Proc.get fun _ i => (i.now - olderThanS, i.pages)
  expirePages upper limit pages 0

end Mailman.Model
