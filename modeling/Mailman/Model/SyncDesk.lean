import Mailman.Model.SendTimes
import Mailman.Model.Tables

/-!
# One push after another, and the conflicts it reports

`POST /sync/push` with the loose events the wire may carry, the near-conflict rows it writes and
the review of these rows. A call is served as a whole here; what two calls may do to each other
is not this module's matter. Both logs are kept newest first. Sort keys are compared as the
numbers they are, which is how their ten digits compare below 10^10.

Not every item can be put: boto3 raises for a number of more than 38 digits, and DynamoDB for a
row key of more than 2048 bytes or an item over 400 KB. `takes` stands for which events they
accept. A database that is out of reach is no matter of this module either.

`origin` is history: the place of an event in the list it was posted with.
-/

set_option autoImplicit false

namespace Mailman.Model

open Mailman.Library

/-- A field of a wire event as `int` or `b64decode` takes it; an empty payload counts as absent. -/
inductive WireField (α : Type) where
  | absent
  | unreadable
  | value (a : α)
  deriving DecidableEq, Repr

/-- An event on the wire. A text is `none` where the key is missing; a null is the empty text. -/
structure WireEvent where
  table : Option String := none
  tableName : Option String := none
  id : Option String := none
  rowId : Option String := none
  revision : WireField ℤ := .absent
  actor : Option String := none
  modifiedAt : Option String := none
  keyId : Option String := none
  encryptedPayload : WireField String := .absent
  deleted : Bool := false
  deriving DecidableEq, Repr

/-- An event as it is stored, apart from its id. -/
structure SyncBody where
  tableName : String
  rowId : String
  revision : ℤ
  actor : String
  modifiedAt : String
  keyId : String
  encryptedPayload : Option String
  deleted : Bool
  deriving DecidableEq, Repr

/-- An item of the event log. SOURCE: cloud/dynamo.py:155-170 -/
structure LoggedEvent extends SyncBody where
  eventId : ℕ
  receivedAt : String
  origin : ℕ
  deriving DecidableEq, Repr

/-- An item of the near-conflict log. SOURCE: cloud/dynamo.py:227-250 -/
structure NearConflict where
  conflictId : ℕ
  tableName : String
  rowId : String
  eventIdA : ℕ
  eventIdB : ℕ
  actorA : String
  actorB : String
  modifiedAtA : String
  modifiedAtB : String
  deltaMicros : ℕ
  detectedAt : String
  acknowledgedAt : Option String := none
  acknowledgedBy : Option String := none
  deriving DecidableEq, Repr

/-- Both logs and their counters. -/
structure SyncTables where
  eventSeq : ℕ := 0
  events : List LoggedEvent := []
  conflictSeq : ℕ := 0
  conflicts : List NearConflict := []
  deriving DecidableEq, Repr

/-- The texts of the clock during a call. -/
structure PushClock where
  /-- `datetime.now(timezone.utc).isoformat()` -/
  iso : String := ""
  /-- `_now()` -/
  now : String := ""
  deriving DecidableEq, Repr

/-! ## Storing an event -/

/-- `row_key` -/
def SyncBody.rowKey (b : SyncBody) : String := b.tableName ++ "#" ++ b.rowId

/-- The id is taken, then the item is put, which may raise. SOURCE: cloud/dynamo.py:141-172 -/
def SyncTables.putEvent (takes : SyncBody → Bool) (clock : PushClock) (origin : ℕ)
    (body : SyncBody) (t : SyncTables) : Bool × SyncTables :=
  let t := { t with eventSeq := t.eventSeq + 1 }
  if takes body then
    let event : LoggedEvent :=
      { toSyncBody := body, eventId := t.eventSeq, receivedAt := clock.now, origin }
    (true, { t with events := event :: t.events })
  else (false, t)

/-- SOURCE: cloud/dynamo.py:188-201 -/
def SyncTables.queryLatestEventForRow (t : SyncTables) (rowKey : String) (beforeId : ℕ) :
    Option LoggedEvent :=
  t.events.find? fun e => e.rowKey = rowKey ∧ e.eventId < beforeId

/-- `datetime.fromisoformat(text.replace("Z", "+00:00"))` -/
def readModifiedAt (text : String) : Option (LocalTime × Option Offset) :=
  fromIsoFormat (text.toList.flatMap fun c => if c = 'Z' then "+00:00".toList else [c])

/-- The microseconds between two times. Python does not subtract a time without a zone from one
with a zone: it raises, as it does for a text it cannot read, and the code then goes on with a
difference of 9999 seconds. SOURCE: cloud/sync.py:133-138 -/
def modifiedDelta (new old : String) : Option ℕ :=
  match readModifiedAt new, readModifiedAt old with
  | some (t, none), some (u, none) => some (t.instant - u.instant).natAbs
  | some (t, some o), some (u, some p) =>
    some ((t.instant - o.micros) - (u.instant - p.micros)).natAbs
  | _, _ => none

/-- `delta < 60 and prior["actor"] != act` -/
def nearConflict? (prior : LoggedEvent) (body : SyncBody) : Option ℕ :=
  match modifiedDelta body.modifiedAt prior.modifiedAt with
  | some delta => if delta < 60000000 ∧ prior.actor ≠ body.actor then some delta else none
  | none => none

/-- SOURCE: cloud/dynamo.py:222-250 -/
def SyncTables.putNearConflict (clock : PushClock) (prior : LoggedEvent) (eventId : ℕ)
    (body : SyncBody) (delta : ℕ) (t : SyncTables) : SyncTables :=
  let conflict : NearConflict :=
    { conflictId := t.conflictSeq + 1, tableName := body.tableName, rowId := body.rowId
      eventIdA := prior.eventId, eventIdB := eventId, actorA := prior.actor, actorB := body.actor
      modifiedAtA := prior.modifiedAt, modifiedAtB := body.modifiedAt, deltaMicros := delta
      detectedAt := clock.now }
  { t with conflictSeq := t.conflictSeq + 1, conflicts := conflict :: t.conflicts }

/-- What a push answers. -/
structure PushReply where
  acceptedIds : List ℕ := []
  nearConflicts : List (String × String × ℕ) := []
  deriving DecidableEq, Repr

/-- Why a push fails: an exception of `int` or `b64decode`, a 400 or a 403, or an exception of
`put_event`. -/
inductive PushRefusal where
  | badRevision
  | badPayload
  | missingField
  | actorMismatch
  | notStored
  deriving DecidableEq, Repr

/-- What is done with a stored event: it is compared with the latest earlier one of its row.
SOURCE: cloud/sync.py:127-148 -/
def SyncTables.compare (clock : PushClock) (body : SyncBody) (reply : PushReply) (t : SyncTables) :
    PushReply × SyncTables :=
  let eventId := t.eventSeq
  let reply := { reply with acceptedIds := reply.acceptedIds ++ [eventId] }
  match t.queryLatestEventForRow body.rowKey eventId with
  | none => (reply, t)
  | some prior =>
    match nearConflict? prior body with
    | none => (reply, t)
    | some delta =>
      ({ reply with nearConflicts := reply.nearConflicts ++ [(body.tableName, body.rowId, delta)] },
        t.putNearConflict clock prior eventId body delta)

/-- An event is stored, then compared. SOURCE: cloud/sync.py:121-148 -/
def SyncTables.store (takes : SyncBody → Bool) (clock : PushClock) (origin : ℕ) (body : SyncBody)
    (reply : PushReply) (t : SyncTables) : Except PushRefusal PushReply × SyncTables :=
  match t.putEvent takes clock origin body with
  | (false, t) => (.error .notStored, t)
  | (true, t) => ((t.compare clock body reply).map .ok id)

/-! ## A push -/

/-- `a or b or ""` of two fields -/
def firstText (a b : Option String) : String :=
  if a.getD "" ≠ "" then a.getD "" else b.getD ""

/-- SOURCE: cloud/sync.py:104-119 -/
def WireEvent.normalise (actor : String) (clock : PushClock) (raw : WireEvent) :
    Except PushRefusal SyncBody :=
  let table := firstText raw.table raw.tableName
  let rowId := firstText raw.id raw.rowId
  let act := raw.actor.getD actor
  match raw.revision with
  | .unreadable => .error .badRevision
  | .absent => checked table rowId act 0
  | .value n => checked table rowId act n
where
  checked (table rowId act : String) (revision : ℤ) : Except PushRefusal SyncBody :=
    match raw.encryptedPayload with
    | .unreadable => .error .badPayload
    | .absent => fields table rowId act revision none
    | .value p => fields table rowId act revision (some p)
  fields (table rowId act : String) (revision : ℤ) (encryptedPayload : Option String) :
      Except PushRefusal SyncBody :=
    if table = "" ∨ rowId = "" ∨ act = "" then .error .missingField
    else if act ≠ actor then .error .actorMismatch
    else
      .ok { tableName := table, rowId, revision, actor := act, encryptedPayload
            modifiedAt := raw.modifiedAt.getD clock.iso, keyId := raw.keyId.getD "K_op+K_cl"
            deleted := raw.deleted }

/-- The loop of `sync_push`, from the event at a place of the list on. -/
def pushFrom (takes : SyncBody → Bool) (actor : String) (clock : PushClock) :
    ℕ → List WireEvent → PushReply → SyncTables → Except PushRefusal PushReply × SyncTables
  | _, [], reply, t => (.ok reply, t)
  | i, raw :: events, reply, t =>
    match raw.normalise actor clock with
    | .error e => (.error e, t)
    | .ok body =>
      match t.store takes clock i body reply with
      | (.error e, t) => (.error e, t)
      | (.ok reply, t) => pushFrom takes actor clock (i + 1) events reply t

/-- The answer of a push by the bearer of `actor`, and the tables after it.
SOURCE: cloud/sync.py:91-153 -/
def pushEvents (takes : SyncBody → Bool) (actor : String) (clock : PushClock)
    (events : List WireEvent) (t : SyncTables) : Except PushRefusal PushReply × SyncTables :=
  pushFrom takes actor clock 0 events {} t

/-! ## The push loop -/

/-- One attempt of `push_loop`: whether the request reaches the cloud, and whether its answer
arrives. -/
structure Attempt where
  clock : PushClock
  reaches : Bool
  answered : Bool
  deriving DecidableEq, Repr

/-- The outbox rows not yet marked as pushed, the cloud's tables, and how many of the attempts the
cloud has answered with success. -/
structure PushLoop where
  unpushed : List WireEvent
  tables : SyncTables
  succeeded : ℕ := 0

/-- One round. The rows are marked when an answer of success arrives; after any other end of the
attempt the next round posts all of them again. SOURCE: terminal/sync_client.py:270-319 -/
def PushLoop.round (takes : SyncBody → Bool) (actor : String) (s : PushLoop) (a : Attempt) :
    PushLoop :=
  if s.unpushed = [] ∨ a.reaches = false then s
  else
    match pushEvents takes actor a.clock s.unpushed s.tables with
    | (.error _, t) => { s with tables := t }
    | (.ok _, t) =>
      { unpushed := if a.answered then [] else s.unpushed, tables := t
        succeeded := s.succeeded + 1 }

def PushLoop.rounds (takes : SyncBody → Bool) (actor : String) (s : PushLoop)
    (attempts : List Attempt) : PushLoop :=
  attempts.foldl (PushLoop.round takes actor) s

/-! ## The review of near-conflicts -/

/-- `not i.get("acknowledged_at")` -/
def NearConflict.unacked (c : NearConflict) : Bool := c.acknowledgedAt.getD "" = ""

/-- The newest `limit` items, as far as the response has room for them.
SOURCE: cloud/dynamo.py:253-262 -/
def listNearConflicts (conflicts : List NearConflict) (room : ℕ) (unackedOnly : Bool)
    (limit : ℕ) : List NearConflict :=
  let items := conflicts.take (min limit room)
  if unackedOnly then items.filter (·.unacked) else items

/-- SOURCE: cloud/dynamo.py:265-278 -/
def ackNearConflict (conflictId : ℕ) (actor : String) (now : ClockTime)
    (conflicts : List NearConflict) :
    Bool × List NearConflict :=
  (conflicts.any (·.conflictId = conflictId),
    updateRows conflicts (·.conflictId = conflictId) fun c =>
      { c with acknowledgedAt := some now.nowIso, acknowledgedBy := some actor })

end Mailman.Model
