import Mailman.Model.PackTable

/-!
# The pack key in the cloud

`cloud/keys_dynamo.py`: the item of a K_temp with its expiry, and the pointer to the active
one. Every DynamoDB request is one step. Key ids are the texts `_key_id` computes, given
here as a function of the key.
-/

set_option autoImplicit false

namespace Mailman.Model

open Mailman.Library

/-- `VALID_TTLS`: an hour, a day, a week. SOURCE: cloud/keys_dynamo.py:19 -/
def validTtls : List ℤ := [3600, 86400, 604800]

/-- The item `set_k_temp` writes. SOURCE: cloud/keys_dynamo.py:75-85 -/
structure KTempItem where
  keyId : String
  keyBytes : KTemp
  expiresAt : ℤ
  setAt : Stamp
  setBy : Actor
  ttlSeconds : ℤ
  deriving DecidableEq, Repr

/-- The key items of the table and the `key_id` of the active pointer. -/
structure KeyTable where
  active : Option String := none
  items : String → Option KTempItem := fun _ => none

/-- One atomic request; its input is the cloud clock in whole seconds. -/
abbrev KeyProc (α : Type) := Proc KeyTable Stamp α

/-- `wipe_k_temp`. SOURCE: cloud/keys_dynamo.py:106-123 -/
def wipeKTemp : KeyProc Unit := do
  let ptr ← Proc.get fun s _ => s.active
  match ptr with
  | none => pure ()
  | some kid => Proc.modify fun s _ => { s with items := Function.update s.items kid none }
  Proc.modify fun s _ => { s with active := none }

/-- `get_active_k_temp` with `_fetch_ktemp`: an expired key is wiped and not returned.
SOURCE: cloud/keys_dynamo.py:30-56 -/
def getActiveKTempItem : KeyProc (Option KTemp) := do
  let ptr ← Proc.get fun s _ => s.active
  match ptr with
  | none => pure none
  | some kid => do
    let (item, now) ← Proc.get fun s now => (s.items kid, now)
    match item with
    | none => pure none
    | some item =>
      if item.expiresAt < now then do
        wipeKTemp
        pure none
      else pure (some item.keyBytes)

/-- `set_k_temp`: the item first, then the pointer. `none` is a `TTLViolation`.
SOURCE: cloud/keys_dynamo.py:59-103 -/
def setKTemp (kTempId : KTemp → String) (k : KTemp) (ttlSeconds : ℤ) (setBy : Actor) :
    KeyProc (Option KTempItem) :=
  if ttlSeconds ∈ validTtls then do
    let item ← Proc.act fun s now =>
      let item : KTempItem :=
        { keyId := kTempId k, keyBytes := k, expiresAt := now + ttlSeconds, setAt := now, setBy
          ttlSeconds }
      ({ s with items := Function.update s.items (kTempId k) (some item) }, item)
    Proc.modify fun s _ => { s with active := some (kTempId k) }
    pure (some item)
  else pure none

/-- What `k_temp_status` and `set_k_temp` report of a key, and when.
SOURCE: cloud/keys_dynamo.py:96-103, 142-150 -/
structure KTempReport where
  keyId : String
  expiresAt : ℤ
  setAt : Stamp
  setBy : Actor
  ttlSeconds : ℤ
  reportedAt : Stamp
  deriving DecidableEq, Repr

/-- The metadata of a key item. -/
def KTempItem.report (item : KTempItem) (now : Stamp) : KTempReport where
  keyId := item.keyId
  expiresAt := item.expiresAt
  setAt := item.setAt
  setBy := item.setBy
  ttlSeconds := item.ttlSeconds
  reportedAt := now

/-- `k_temp_status`; `none` is `{"present": False}`.
SOURCE: cloud/keys_dynamo.py:126-150 -/
def kTempStatus : KeyProc (Option KTempReport) := do
  let ptr ← Proc.get fun s _ => s.active
  match ptr with
  | none => pure none
  | some kid => do
    let (item, now) ← Proc.get fun s now => (s.items kid, now)
    match item with
    | none => pure none
    | some item => if item.expiresAt < now then pure none else pure (some (item.report now))

/-! ## Any number of calls -/

/-- The key table and the cloud clock, which never goes back. -/
structure KeyClock where
  now : Stamp := 0
  keys : KeyTable := {}

/-- A call on the key table some seconds after the request before it. -/
def onKeyClock {α : Type} (p : KeyProc α) : Proc KeyClock ℕ α :=
  p.zoom KeyClock.keys (fun w elapsed => w.now + elapsed) fun w elapsed keys =>
    { now := w.now + elapsed, keys }

/-- A call: a lookup, a provisioning, a status query, or `DELETE /key/temp`.
SOURCE: cloud/keys_dynamo.py:30-150, cloud/sync.py:163-188 -/
inductive KeyOp where
  | get
  | set (k : KTemp) (ttlSeconds : ℤ) (setBy : Actor)
  | status
  | wipe
  deriving DecidableEq, Repr

/-- The program of a call. -/
def keyCode (kTempId : KTemp → String) (_n : ℕ) : KeyOp → Proc KeyClock ℕ Unit
  | .get => (onKeyClock getActiveKTempItem).bind fun _ => .ret ()
  | .set k ttlSeconds setBy =>
    (onKeyClock (setKTemp kTempId k ttlSeconds setBy)).bind fun _ => .ret ()
  | .status => (onKeyClock kTempStatus).bind fun _ => .ret ()
  | .wipe => (onKeyClock wipeKTemp).bind fun _ => .ret ()

end Mailman.Model
