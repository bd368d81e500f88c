import Mailman.Model.PackTable

/-!
# The dispatcher

`_process` of `cloud/dispatcher_lambda.py`, one request at a time, and the operations that
run beside it on the same table. A delivery may name any pack id at any moment: that
covers duplicated, lost, delayed and reordered queue messages, and the sweep's feed. An
exception ends the program where it is; so does an instance that is killed, which is a
`stop` event of the pool.
-/

set_option autoImplicit false

namespace Mailman.Model

open Mailman.Library

variable {Id : Type} [DecidableEq Id]

/-- What `_process` returns to the handler, or that it raised. -/
inductive Processed where
  | skipped
  | processed (senderCount : ℤ)
  | raised
  deriving DecidableEq, Repr

/-- What `_send_sync` makes of a provider answer: status, message id and failure reason, or
`none` when reading a body that is not a JSON object raises.
SOURCE: cloud/dispatcher_lambda.py:229-247 -/
def readAnswer : HttpAnswer → Option (PackStatus × Option String × Option String)
  | .raised error => some (.unknown, none, some s!"network error during send ({error})")
  | .response code body =>
    if 500 ≤ code then some (.unknown, none, some s!"resend {code} during send")
    else match body with
      | .notObject => none
      | .notJson =>
        if 400 ≤ code then some (.failed, none, some s!"resend {code}") else some (.sent, none, none)
      | .object id message =>
        if 400 ≤ code then some (.failed, none, some (message.getD s!"resend {code}"))
        else some (.sent, id, none)

/-- The POST leaves the dispatcher. -/
def postSend (id : Id) : CloudProc Id Unit :=
  .modify fun s _ => { s with posts := id :: s.posts }

/-- The POST is answered, or the client gives up on it. -/
def postAnswer (id : Id) : CloudProc Id HttpAnswer :=
  .act fun s i => ({ s with answers := (id, i.answer) :: s.answers }, i.answer)

/-- `_send_sync`: a pack without a provider key fails without a POST, and a pack without the
fields of the request body raises before it.
SOURCE: cloud/dispatcher_lambda.py:209-247 -/
def sendSync (id : Id) (plain : PlainPack) :
    CloudProc Id (Option (PackStatus × Option String × Option String)) :=
  if plain.resendApiKey.getD "" = "" then
    pure (some (.failed, none, some "pack missing resend_api_key"))
  else match plain.mail with
    | none => pure none
    | some _ => do
      postSend id
      let answer ← postAnswer id
      pure (readAnswer answer)

/-- The finalizing write of `_finalize`, unconditional.
SOURCE: cloud/dispatcher_lambda.py:253-263 -/
def finalizeWrite (id : Id) (status : PackStatus) (msgId failure : Option String) :
    CloudProc Id Unit :=
  .modify fun s i =>
    let s' := s.updatePack id
      { status := some status
        sentAt := some (if status = .sent then some i.now else none)
        resendMessageId := some msgId
        failureReason := some failure
        encryptedPayload := some none } i.now
    { s' with landed := id :: s'.landed }

/-- `_finalize`: the write, and for a sent pack the sync event.
SOURCE: cloud/dispatcher_lambda.py:253-270 -/
def finalize (id : Id) (status : PackStatus) (msgId failure : Option String) :
    CloudProc Id Unit := do
  finalizeWrite id status msgId failure
  if status = .sent then
    Proc.modify fun s _ => { s with events := id :: s.events }
  else pure ()

/-- `get_active_k_temp`, as far as this file depends on it: some key or none.
SOURCE: cloud/keys_dynamo.py:30-56 -/
def getActiveKTemp : CloudProc Id (Option KTemp) :=
  .get fun _ i => i.key

/-- The part of `_process` after the claim.
SOURCE: cloud/dispatcher_lambda.py:136-176 -/
def processClaimed (id : Id) : CloudProc Id Processed := do
  let pack ← getPack id
  let kTemp ← getActiveKTemp
  match kTemp with
  | none =>
    updatePack id { status := some .stuckNoKey
                    failureReason := some (some "no active K_temp at dispatch time") }
    pure (.processed 1)
  | some k =>
    match decryptWithTemp (pack.bind (·.encryptedPayload)) k with
    | .error e =>
      updatePack id { status := some .failed, failureReason := some (some e)
                      encryptedPayload := some none }
      pure (.processed 1)
    | .ok plain =>
      let result ← sendSync id plain
      match result with
      | none => pure .raised
      | some (status, msgId, failure) =>
        finalize id status msgId failure
        if status = .unknown then pure .raised else pure (.processed plain.humanSendCount)

/-- `_process` by dispatcher `n`.
SOURCE: cloud/dispatcher_lambda.py:120-176 -/
def process (n : ℕ) (id : Id) : CloudProc Id Processed := do
  let pack ← getPack id
  match pack with
  | none => pure .skipped
  | some pack =>
    if pack.status ≠ .pending then pure .skipped
    else do
      let claimed ← claimPack n id
      if claimed then processClaimed id else pure .skipped

/-- What may run on the pack table. -/
inductive CloudOp (Id : Type) where
  | putPack (p : PackIn Id) (pushedBy : Actor)
  | deliver (id : Id)
  | cancelPack (id : Id)
  | cancelCampaign (campaignId : ℕ)
  | expireStaleClaims (olderThanS limit : ℕ)

/-- The program of each operation, run under number `n`. -/
def cloudCode (n : ℕ) : CloudOp Id → CloudProc Id Unit
  | .putPack p pushedBy => do let _ ← putPack p pushedBy; pure ()
  | .deliver id => do let _ ← process n id; pure ()
  | .cancelPack id => do let _ ← cancelPack id; pure ()
  | .cancelCampaign c => do let _ ← cancelPendingForCampaign c; pure ()
  | .expireStaleClaims o l => do let _ ← expireStaleClaims o l; pure ()

/-- The table after a run of any of these operations from a table without packs. -/
def cloudRun (es : List (Event (CloudOp Id) (CloudInput Id))) : Cloud Id :=
  ((Pool.idle Cloud.empty).run cloudCode es).state

end Mailman.Model
