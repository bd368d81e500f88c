import Mailman.Library.Keyset
import Mailman.Library.Process
import Mailman.Model.Tables

/-!
# The event log between two terminals

Each terminal ships the rows of its `outbox` to `POST /sync/push` and stores what
`/sync/pull` serves in its `inbox`; webhooks and dispatchers append to the same log.
`put_event` takes an id from the atomic counter and writes the item in a second request. A
request that a terminal has sent may be served at any time, and its answer may be lost.
Ids are compared as the numbers they are, which is how their ten-digit sort keys compare
below 10^10. Near-conflict rows, which nothing here reads, are left out. A `put_event` that
raises leaves an id without an item, as one that stops after its first request does.

`owner`, `seen` and `passed` are history: which program took an id, the pages that a
terminal's queries have returned, newest first, and the items that `_apply_event` has gone
through.
-/

set_option autoImplicit false

namespace Mailman.Model

open Mailman.Library

/-- A table or row id as it may be posted: a text, or an array or object in its JSON text. A number
stands for its text, which is how a `TEXT` column compares it. -/
inductive RowRef where
  | text (s : String)
  | structured (json : String)
  deriving DecidableEq, Repr

/-- A sync event, apart from the id the cloud gives it. What is posted may have a null for the last
change and for the key, or an array or object, which `inbox` takes as little.
SOURCE: terminal/models.py:272-283, cloud/sync.py:104-112 -/
structure EventBody where
  tableName : RowRef
  rowId : RowRef
  revision : ℤ
  actor : Actor
  modifiedAt : Option String
  keyId : Option String
  encryptedPayload : Option String
  deleted : Bool
  deriving DecidableEq, Repr

/-- SQLite takes a text for a table or row id, and a revision as the 64 bits of an `INTEGER`. -/
def EventBody.bindable (b : EventBody) : Bool :=
  match b.tableName, b.rowId with
  | .text _, .text _ => -2 ^ 63 ≤ b.revision ∧ b.revision < 2 ^ 63
  | _, _ => false

/-- No `NOT NULL` column of `inbox` and `outbox` gets a null.
SOURCE: terminal/migrations/0002_sync.sql:7-36 -/
def EventBody.complete (b : EventBody) : Bool := b.modifiedAt ≠ none ∧ b.keyId ≠ none

/-- A row with this content can be inserted. -/
def EventBody.storable (b : EventBody) : Bool := b.bindable && b.complete

/-- An item of the event log. SOURCE: cloud/dynamo.py:155-170 -/
structure EventItem extends EventBody where
  eventId : ℕ
  deriving DecidableEq, Repr

/-- A row of `outbox`. SOURCE: terminal/models.py:269-287 -/
structure OutboxRow extends EventBody where
  outboxId : ℕ
  pushedAt : Option String := none
  assignedEventId : Option ℕ := none
  deriving DecidableEq, Repr

/-- A row of `inbox`. SOURCE: terminal/models.py:248-266 -/
structure PulledRow extends EventBody where
  eventId : ℕ
  materialisedAt : Option String := none
  deriving DecidableEq, Repr

/-- An event as `push_loop` posts it. SOURCE: terminal/sync_client.py:282-294 -/
structure SyncEventIn where
  table : RowRef
  rowId : RowRef
  revision : ℤ
  actor : Actor
  modifiedAt : Option String
  keyId : Option String
  encryptedPayload : String
  deleted : Bool
  deriving DecidableEq, Repr

/-- The tables of one terminal that take part, and its history. -/
structure SyncSide where
  outbox : List OutboxRow := []
  inbox : List PulledRow := []
  cursor : ℕ := 0
  seen : List (List EventItem) := []
  passed : List EventItem := []

/-- The cloud's log and both terminals. -/
structure SyncHub where
  seq : ℕ := 0
  owner : ℕ → Option ℕ := fun _ => none
  log : List EventItem := []
  requests : List (Actor × List SyncEventIn) := []
  replies : ℕ → Option (List ℕ) := fun _ => none
  side : Actor → SyncSide := fun _ => {}

/-- What the environment decides for one request. -/
structure HubInput where
  /-- the text of the clock -/
  nowText : String := ""
  /-- the answer does not arrive -/
  lost : Bool := false
  /-- the items a query does not see yet -/
  hidden : List ℕ := []
  /-- how many items the response has room for; one always fits -/
  room : ℕ := 500

/-- One atomic request or transaction. -/
abbrev HubProc (α : Type) := Proc SyncHub HubInput α

/-- A transaction of one terminal. -/
def SyncHub.setSide (s : SyncHub) (a : Actor) (f : SyncSide → SyncSide) : SyncHub :=
  { s with side := Function.update s.side a (f (s.side a)) }

/-! ## The log -/

/-- `_next_id` by program `n`. SOURCE: cloud/dynamo.py:128-136 -/
def takeId (n : ℕ) : HubProc ℕ :=
  .act fun s _ =>
    ({ s with seq := s.seq + 1, owner := Function.update s.owner (s.seq + 1) (some n) }, s.seq + 1)

/-- `put_event` by program `n`: the id first, then the item. SOURCE: cloud/dynamo.py:141-172 -/
def appendEvent (n : ℕ) (body : EventBody) : HubProc ℕ := do
  let eventId ← takeId n
  Proc.modify fun s _ => { s with log := { toEventBody := body, eventId } :: s.log }
  pure eventId

/-- The body that `sync_push` stores; an empty payload text is none.
SOURCE: cloud/sync.py:104-127 -/
def SyncEventIn.body (e : SyncEventIn) : EventBody where
  tableName := e.table
  rowId := e.rowId
  revision := e.revision
  actor := e.actor
  modifiedAt := e.modifiedAt
  keyId := e.keyId
  encryptedPayload := if e.encryptedPayload = "" then none else some e.encryptedPayload
  deleted := e.deleted

/-- The checks of `sync_push` on one event. SOURCE: cloud/sync.py:115-119 -/
def SyncEventIn.accepted (e : SyncEventIn) (actor : Actor) : Bool :=
  e.table ≠ .text "" ∧ e.rowId ≠ .text "" ∧ e.actor = actor

/-- The loop of `sync_push`: the ids assigned so far, or `none` at an event that is refused.
SOURCE: cloud/sync.py:103-127 -/
def syncPushLoop (n : ℕ) (actor : Actor) : List SyncEventIn → List ℕ → HubProc (Option (List ℕ))
  | [], acceptedIds => pure (some acceptedIds)
  | e :: events, acceptedIds =>
    if e.accepted actor then do
      let eventId ← appendEvent n e.body
      syncPushLoop n actor events (acceptedIds ++ [eventId])
    else pure none

/-- The cloud serves a `POST /sync/push` it has received. SOURCE: cloud/sync.py:91-153 -/
def syncPush (n request : ℕ) : HubProc Unit := do
  let body ← Proc.get fun s _ => s.requests[request]?
  match body with
  | none => pure ()
  | some (actor, events) => do
    let assigned ← syncPushLoop n actor events []
    match assigned with
    | none => pure ()
    | some ids => Proc.modify fun s _ =>
        { s with replies := Function.update s.replies request (some ids) }

/-! ## The outbox -/

/-- `enqueue_local_write`, which raises where the row cannot be inserted; no row is ever deleted,
so the autoincremented id is the next number. SOURCE: terminal/sync_client.py:961-974 -/
def enqueueLocalWrite (a : Actor) (body : EventBody) : HubProc Unit :=
  .modify fun s _ =>
    if body.storable then s.setSide a fun d =>
      { d with outbox := d.outbox ++ [{ toEventBody := body, outboxId := d.outbox.length + 1 }] }
    else s

/-- `_drain_outbox`. SOURCE: terminal/sync_client.py:152-161 -/
def SyncSide.drainOutbox (d : SyncSide) : List OutboxRow :=
  page (·.outboxId) 200 (d.outbox.filter (·.pushedAt = none))

/-- A row as it is posted. SOURCE: terminal/sync_client.py:282-294 -/
def OutboxRow.wire (r : OutboxRow) : SyncEventIn where
  table := r.tableName
  rowId := r.rowId
  revision := r.revision
  actor := r.actor
  modifiedAt := r.modifiedAt
  keyId := r.keyId
  encryptedPayload := r.encryptedPayload.getD ""
  deleted := r.deleted

/-- `_mark_outbox_pushed`. SOURCE: terminal/sync_client.py:164-175 -/
def SyncSide.markOutboxPushed (nowText : String) (d : SyncSide) (marks : List (ℕ × ℕ)) : SyncSide :=
  { d with outbox := marks.foldl (fun rows mark => updateRows rows (·.outboxId = mark.1) fun r =>
      { r with pushedAt := some nowText, assignedEventId := some mark.2 }) d.outbox }

/-- One round of `push_loop` of terminal `a`. SOURCE: terminal/sync_client.py:275-319 -/
def pushRound (a : Actor) : HubProc Unit := do
  let outbox ← Proc.get fun s _ => (s.side a).drainOutbox
  if outbox = [] then pure ()
  else do
    let request ← Proc.act fun s _ =>
      ({ s with requests := s.requests ++ [(a, outbox.map (·.wire))] }, s.requests.length)
    let reply ← Proc.get fun s i => if i.lost then none else s.replies request
    match reply with
    | none => pure ()
    | some assigned => Proc.modify fun s i => s.setSide a fun d =>
        d.markOutboxPushed i.nowText ((outbox.map (·.outboxId)).zip assigned)

/-! ## The inbox -/

/-- The row of the inbox that an event is a duplicate of. -/
def PulledRow.sameKey (r : PulledRow) (e : EventItem) : Bool :=
  r.tableName = e.tableName ∧ r.rowId = e.rowId ∧ r.revision = e.revision

/-- The row `_apply_event` inserts; an empty payload is stored as none.
SOURCE: terminal/sync_client.py:183-201 -/
def EventItem.row (e : EventItem) : PulledRow where
  toEventBody := { e.toEventBody with encryptedPayload := e.encryptedPayload.filter (· ≠ "") }
  eventId := e.eventId

/-- `_apply_event`, or `none` where it raises: the query for a duplicate binds the revision, and a
null in a `NOT NULL` column or a second row with one event id is an integrity error.
SOURCE: terminal/sync_client.py:177-203 -/
def storeEvent (inbox : List PulledRow) (e : EventItem) : Option (List PulledRow) :=
  if !e.bindable then none
  else if inbox.any (·.sameKey e) then some inbox
  else if !e.complete || inbox.any (·.eventId = e.eventId) then none
  else some (inbox ++ [e.row])

/-- `query_events_since` for terminal `a`. SOURCE: cloud/dynamo.py:175-185, cloud/sync.py:59 -/
def SyncHub.queryEvents (s : SyncHub) (since : ℕ) (i : HubInput) : List EventItem :=
  page (·.eventId) (min 500 (max 1 i.room))
    (s.log.filter fun e => since < e.eventId && !i.hidden.contains e.eventId)

/-- The loop of `pull_loop` over the served events; it stops at an event that raises. -/
def storeEvents (a : Actor) : List EventItem → HubProc Bool
  | [] => pure true
  | e :: events => do
    let stored ← Proc.act fun s _ =>
      match storeEvent (s.side a).inbox e with
      | some inbox => (s.setSide a fun d => { d with inbox := inbox, passed := e :: d.passed }, true)
      | none => (s, false)
    if stored then storeEvents a events else pure false

/-- One round of `pull_loop` of terminal `a`, as far as events are concerned.
SOURCE: terminal/sync_client.py:216-239, cloud/sync.py:41-70 -/
def pullRoundOf (a : Actor) : HubProc Unit := do
  let since ← Proc.get fun s _ => (s.side a).cursor
  let events ← Proc.act fun s i =>
    let events := s.queryEvents since i
    (s.setSide a fun d => { d with seen := events :: d.seen }, events)
  let stored ← storeEvents a events
  match stored, events.getLast? with
  | true, some last => Proc.modify fun s _ => s.setSide a fun d => { d with cursor := last.eventId }
  | _, _ => pure ()

/-- The mark the materialiser sets on a row. SOURCE: terminal/sync_client.py:516-522 -/
def markPulled (a : Actor) (eventId : ℕ) : HubProc Unit :=
  .modify fun s i => s.setSide a fun d =>
    { d with inbox := updateRows d.inbox (·.eventId = eventId) fun r =>
        { r with materialisedAt := some i.nowText } }

/-! ## Everything that may run -/

/-- What may be started. `put` is a `put_event` of a webhook, a dispatcher or a push by hand. -/
inductive HubOp where
  | enqueue (a : Actor) (body : EventBody)
  | push (a : Actor)
  | servePush (request : ℕ)
  | put (body : EventBody)
  | pull (a : Actor)
  | mark (a : Actor) (eventId : ℕ)

/-- The number that runs the one pull loop of a terminal. -/
def pullNumber : Actor → ℕ
  | .operator => 0
  | .client => 1

/-- The program of each operation, run under number `n`. -/
def hubCode (n : ℕ) : HubOp → HubProc Unit
  | .enqueue a body => enqueueLocalWrite a body
  | .push a => pushRound a
  | .servePush request => syncPush n request
  | .put body => do let _ ← appendEvent n body; pure ()
  | .pull a => if n = pullNumber a then pullRoundOf a else pure ()
  | .mark a eventId => markPulled a eventId

/-- The pool after a run from empty tables. -/
def hubRun (es : List (Event HubOp HubInput)) : Pool SyncHub HubInput :=
  (Pool.idle {}).run hubCode es

end Mailman.Model
