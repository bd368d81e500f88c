import Mailman.Model.Inbox
import Mailman.Model.PackBytes

/-!
# The bytes of a webhook event

The events that the webhook writes, sealed for both terminals, and how a terminal opens and reads
one. The sealed boxes are a parameter, as the cipher is. The type, the message id and the recipient
of an event are taken to be texts or null, and a terminal takes any other value for null.
-/

set_option autoImplicit false

namespace Mailman.Model.EventBytes

open Mailman.Library Mailman.Model.PackBytes

/-- What comes from outside the source. -/
structure Runtime extends toCipher : PackBytes.Runtime where
  /-- `SealedBox(PublicKey(pub)).encrypt(data)` at a random draw -/
  boxEncrypt : Bytes → Bytes → Bytes → Bytes
  /-- `SealedBox(PrivateKey(priv)).decrypt(data)`, or its exception -/
  boxDecrypt : Bytes → Bytes → Option Bytes
  /-- `PrivateKey(priv).public_key` -/
  publicKey : Bytes → Bytes
  /-- `hashlib.sha256(email.lower().encode()).hexdigest()` -/
  emailHash : String → String

/-! ## The cloud -/

/-- What is drawn for one envelope: the key, the nonce and the draws of the two boxes. -/
structure Draws where
  key : Bytes
  nonce : Bytes
  opSeed : Bytes
  clSeed : Bytes

/-- The envelope of a ciphertext and of its key in two boxes.
SOURCE: cloud/encryption_cloud.py:78-84, terminal/encryption.py:84-90 -/
def bothEnvelope (nonce ct wrapOp wrapCl : Bytes) : List (String × Json.Data) :=
  [("v", .int 1), ("mode", .str "K_op+K_cl"), ("nonce", .str (b64encode nonce)),
    ("ct", .str (b64encode ct)), ("wrap_op", .str (b64encode wrapOp)),
    ("wrap_cl", .str (b64encode wrapCl))]

/-- The public keys of the operator and of the client. -/
structure Pubkeys where
  operator : Bytes
  client : Bytes

/-- `load_pubkeys`, or its `RuntimeError`. SOURCE: cloud/encryption_cloud.py:52-60 -/
def loadPubkeys (table : Actor → Option Bytes) : Option Pubkeys :=
  (table .operator).bind fun operator => (table .client).map fun client => { operator, client }

/-- `encrypt_for_both`. SOURCE: cloud/encryption_cloud.py:63-85 -/
def encryptForBoth (rt : Runtime) (pubkeys : Pubkeys) (d : Draws) (plaintext : Bytes) :
    Option Bytes :=
  let ct := rt.encrypt d.key d.nonce plaintext
  let wrapOp := rt.boxEncrypt pubkeys.operator d.opSeed d.key
  let wrapCl := rt.boxEncrypt pubkeys.client d.clSeed d.key
  (Json.dumpsWith .compact (.obj (bothEnvelope d.nonce ct wrapOp wrapCl))).map encode

/-- What the webhook reads of a verified request. SOURCE: cloud/webhook_receiver.py:115-125 -/
structure WebhookIn where
  svixId : String
  eventType : String
  messageId : Option String
  recipient : Option String
  raw : String
  receivedAt : String

/-- A text or null. -/
def orNull (value : Option String) : Json.Data := value.elim .null .str

/-- `event_payload`. SOURCE: cloud/webhook_receiver.py:142-149 -/
def eventPayload (e : WebhookIn) : List (String × Json.Data) :=
  [("svix_id", .str e.svixId), ("event_type", .str e.eventType), ("message_id", orNull e.messageId),
    ("recipient", orNull e.recipient), ("raw", .str e.raw), ("received_at", .str e.receivedAt)]

/-- The reason of the suppression that an event brings, if it brings one.
SOURCE: cloud/webhook_receiver.py:36-38, 159-165 -/
def suppressionReason (eventType : String) : Option String :=
  if eventType = "email.bounced" then some "bounce_hard"
  else if eventType = "email.complained" then some "complaint"
  else if eventType = "email.unsubscribed" then some "unsubscribe"
  else none

/-- `suppression_payload`. SOURCE: cloud/webhook_receiver.py:166-171 -/
def suppressionPayload (h reason eventType addedAt : String) : List (String × Json.Data) :=
  [("email_hash", .str h), ("reason", .str reason), ("source", .str ("webhook:" ++ eventType)),
    ("added_at", .str addedAt)]

/-- The hash and the reason of the suppression that is written beside an event. -/
def suppressed (rt : Runtime) (e : WebhookIn) : Option (String × String) :=
  (e.recipient.filter (· ≠ "")).bind fun recipient =>
    (suppressionReason e.eventType).map fun reason => (rt.emailHash recipient, reason)

/-- An event of the log that the webhook writes: its table, its row and its payload. -/
structure Written where
  table : SyncTable
  rowId : String
  payload : Bytes

/-- The events that the webhook writes for a new delivery; `none` is where it writes none.
SOURCE: cloud/webhook_receiver.py:132-177 -/
def writeEvents (rt : Runtime) (table : Actor → Option Bytes) (d d' : Draws) (e : WebhookIn)
    (addedAt : String) : Option (List Written) := do
  let pubkeys ← loadPubkeys table
  let sealed (d : Draws) (payload : List (String × Json.Data)) : Option Bytes :=
    (Json.dumpsWith .spaced (.obj payload)).bind fun t => encryptForBoth rt pubkeys d (encode t)
  let event ← sealed d (eventPayload e)
  let written : Written := ⟨.webhookEvent, e.svixId, event⟩
  match suppressed rt e with
  | none => some [written]
  | some (h, reason) => do
    let suppression ← sealed d' (suppressionPayload h reason e.eventType addedAt)
    some [written, ⟨.suppression, h, suppression⟩]

/-! ## The terminal -/

/-- `KeyBundle`, as far as opening needs it. SOURCE: terminal/encryption.py:37-54 -/
structure KeyBundle where
  ownRole : Actor
  ownKemPriv : Bytes

/-- `decrypt_for_both`, or its exception. SOURCE: terminal/encryption.py:94-104 -/
def decryptForBoth (rt : Runtime) (envelope : Bytes) (bundle : KeyBundle) : Option Bytes :=
  match rt.toCipher.loads envelope with
  | some (.obj members) =>
    if hasMode "K_op+K_cl" members then do
      let wrap ← bytesField (if bundle.ownRole = .operator then "wrap_op" else "wrap_cl") members
      let k ← rt.boxDecrypt bundle.ownKemPriv wrap
      let nonce ← bytesField "nonce" members
      let ct ← bytesField "ct" members
      rt.decrypt k nonce ct
    else none
  | _ => none

/-- A text of a payload. -/
def textField (name : String) (members : List (Json.Text × Json.Value)) : Option String :=
  match Json.lookup name members with
  | some (.str s) => some (.ofList (s.map Char.ofNat))
  | _ => none

/-- A text or a null of a payload; the outer `none` is a missing name. -/
def nullField (name : String) (members : List (Json.Text × Json.Value)) : Option (Option String) :=
  (Json.lookup name members).map fun _ => textField name members

/-- The event types that `_apply_webhook_event` tells apart.
SOURCE: terminal/sync_client.py:540-573 -/
def webhookType (name : String) : WebhookType :=
  if name = "email.opened" then .opened
  else if name = "email.clicked" then .clicked
  else if name = "email.bounced" then .bounced
  else if name = "email.complained" then .complained
  else if name = "email.unsubscribed" then .unsubscribed
  else .other name

/-- What the two appliers read of a payload.
SOURCE: terminal/sync_client.py:526-528, 579-581, 587-588 -/
def readPayload (members : List (Json.Text × Json.Value)) : InboxPayload where
  emailHash := textField "email_hash" members
  reason := nullField "reason" members
  source := nullField "source" members
  addedAt := nullField "added_at" members
  eventType := webhookType ((textField "event_type" members).getD "")
  messageId := textField "message_id" members

/-- The payload of an inbox row, or an exception. SOURCE: terminal/sync_client.py:499-505 -/
def openEvent (rt : Runtime) (bundle : KeyBundle) (payload : Bytes) : Option InboxPayload :=
  (decryptForBoth rt payload bundle).bind fun plain =>
    match rt.toCipher.loads plain with
    | some (.obj members) => some (readPayload members)
    | _ => none

end Mailman.Model.EventBytes
