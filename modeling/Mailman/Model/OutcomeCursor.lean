import Mathlib.Data.Prod.Lex
import Mailman.Library.Keyset
import Mailman.Model.PackTable

/-!
# The outcome cursor

`packs_status` serves the resolved packs past a cursor in the order of their outcome key,
and a terminal passes the cursor of one poll to the next. A poll reads one index partition
for each resolved status, page by page; while it reads, the table may change, and the index
may still show an older version of an item than the table holds.

The run below alternates single requests on the table with whole polls. A poll stands at
the moment its last read ends, and the versions its earlier reads returned are the
environment's choice: `lag st id` says how many versions behind the partition of `st` was
for `id`. A query does not visit an item twice, since the sort key of the index never
changes.
-/

set_option autoImplicit false

namespace Mailman.Model

open Mailman.Library

variable {Id : Type} [LinearOrder Id]

/-- The outcome time: `resolved_at`, or `enqueued_at` where there is none. -/
def outcomeTime (row : Pack Id) : ℕ := row.resolvedAt.getD row.enqueuedAt

/-- `_outcome_key`: the texts of a stamp have a fixed width, so the pairs compare by the
second and then by the pack id. SOURCE: cloud/dynamo.py:798-800 -/
def outcomeKey (row : Pack Id) : Stamp ×ₗ Id := toLex (outcomeTime row, row.packId)

/-- The cursor: empty, a bare time from before the cursor change, or `"<time>#<pack_id>"`.
SOURCE: cloud/dynamo.py:548-553 -/
inductive OutcomeCursor (Id : Type) where
  | start
  | time (t : Stamp)
  | after (t : Stamp) (pid : Id)
  deriving DecidableEq, Repr

/-- `outcome_cursor`. SOURCE: cloud/dynamo.py:803-805 -/
def outcomeCursor (row : Pack Id) : OutcomeCursor Id := .after (outcomeTime row) row.packId

/-- `_iso_ago`. SOURCE: cloud/dynamo.py:787-788 -/
def isoAgo (now seconds : ℕ) : ℤ := (now : ℤ) - seconds

/-- An outcome key is past the cursor. -/
def OutcomeCursor.before (since : OutcomeCursor Id) (key : Stamp ×ₗ Id) : Bool :=
  match since with
  | .start => true
  | .time t => t < (ofLex key).1
  | .after t pid => toLex (t, pid) < key

/-- `_after_cursor`. SOURCE: cloud/dynamo.py:808-817 -/
def afterCursor (key : Stamp ×ₗ Id) (since : OutcomeCursor Id) (upper : Option ℤ) : Bool :=
  if upper.any (fun u => decide (u < ((ofLex key).1 : ℤ))) = true then false else since.before key

/-- The filter expression of the query, which looks at both time fields.
SOURCE: cloud/dynamo.py:564-565 -/
def filterExpression (since : OutcomeCursor Id) (row : Pack Id) : Bool :=
  match since with
  | .start => true
  | .time t | .after t _ => row.resolvedAt.any (t ≤ ·) || decide (t ≤ row.enqueuedAt)

/-- `work_cap`. SOURCE: cloud/dynamo.py:557 -/
def workCap (limit : ℕ) : ℕ := max (limit * 4) 2000

/-- The page loop over one partition. What counts against the cap is the number of items
scanned, filtered out or not. SOURCE: cloud/dynamo.py:566-573 -/
def scanPages (cap : ℕ) (keep : Pack Id → Bool) : ℕ → List (List (Pack Id)) → List (Pack Id)
  | _, [] => []
  | scanned, items :: rest =>
    items.filter keep ++
      if cap ≤ scanned + items.length then [] else scanPages cap keep (scanned + items.length) rest

/-- `list_resolved_packs`; `query st` are the pages of the partition of `st`.
SOURCE: cloud/dynamo.py:545-576 -/
def listResolvedPacks (since : OutcomeCursor Id) (limit : ℕ) (upper : Option ℤ)
    (query : PackStatus → List (List (Pack Id))) : List (Pack Id) :=
  let rows := resolvedPackStatuses.flatMap fun st =>
    scanPages (workCap limit) (filterExpression since) 0 (query st)
  page outcomeKey limit (rows.filter fun r => afterCursor (outcomeKey r) since upper)

/-- `RESOLVED_SETTLE_S`. SOURCE: cloud/dynamo.py:783 -/
def resolvedSettleS : ℕ := 10

/-- The `max_id` of an answer. SOURCE: cloud/packs.py:117-118 -/
def maxId (since : OutcomeCursor Id) (rows : List (Pack Id)) : OutcomeCursor Id :=
  match rows.getLast? with
  | some row => outcomeCursor row
  | none => since

/-! ## Runs of requests and polls -/

/-- The requests that write pack items. -/
inductive CloudWrite (Id : Type) where
  | put (p : PackIn Id) (pushedBy : Actor)
  | claim (n : ℕ) (id : Id)
  | update (id : Id) (fields : PackFields)
  | cancel (id : Id)
  | expire (id : Id) (claimedAt : Option Stamp)

/-- The request itself. -/
def CloudWrite.request : CloudWrite Id → CloudProc Id Unit
  | .put p pushedBy => do let _ ← putPack p pushedBy; pure ()
  | .claim n id => do let _ ← claimPack n id; pure ()
  | .update id fields => updatePack id fields
  | .cancel id => do let _ ← cancelPack id; pure ()
  | .expire id claimedAt => do let _ ← expireClaim id claimedAt; pure ()

/-- The reads of one poll. -/
structure PollRead (Id : Type) where
  /-- what `_iso_ago` takes for the present -/
  now : ℕ
  /-- how many versions behind each partition is for each item -/
  lag : PackStatus → Id → ℕ
  /-- the items each query visits, page by page -/
  visited : PackStatus → List (List Id)

/-- The pages the partition of `st` answers with. -/
def Cloud.queryStatus (s : Cloud Id) (r : PollRead Id) (st : PackStatus) : List (List (Pack Id)) :=
  (r.visited st).map fun ids =>
    (ids.filterMap fun id => (s.packs id)[r.lag st id]?).filter (·.status = st)

/-- The table, the terminal's cursor and what the polls have returned so far, page by page.
`polledAt` is the time of the last poll. -/
structure OutcomeWorld (Id : Type) where
  cloud : Cloud Id
  cursor : OutcomeCursor Id := .start
  pages : List (List (Pack Id)) := []
  polledAt : ℕ := 0

/-- A table that holds one version of each of the given items, among them possibly items
resolved before there was a `resolved_at`. -/
def OutcomeWorld.start (rows : List (Pack Id)) : OutcomeWorld Id where
  cloud := { packs := fun id => (rows.find? (·.packId = id)).toList }

/-- `packs_status`, and the cursor stored from its answer.
SOURCE: cloud/packs.py:109-118, terminal/sync_client.py:436-456 -/
def OutcomeWorld.poll (w : OutcomeWorld Id) (limit : ℕ) (r : PollRead Id) : OutcomeWorld Id :=
  let rows := listResolvedPacks w.cursor limit (some (isoAgo r.now resolvedSettleS))
    (w.cloud.queryStatus r)
  { w with
    cursor := maxId w.cursor rows
    pages := w.pages ++ [rows]
    polledAt := r.now }

/-- What may happen. -/
inductive OutcomeEvent (Id : Type) where
  | write (req : CloudWrite Id) (i : CloudInput Id)
  | poll (limit : ℕ) (r : PollRead Id)

/-- One event. -/
def OutcomeWorld.exec (w : OutcomeWorld Id) : OutcomeEvent Id → OutcomeWorld Id
  | .write req i => { w with cloud := (req.request.alone w.cloud [i]).1 }
  | .poll limit r => w.poll limit r

/-- A whole run. -/
def OutcomeWorld.run (w : OutcomeWorld Id) (es : List (OutcomeEvent Id)) : OutcomeWorld Id :=
  es.foldl OutcomeWorld.exec w

/-! ## The assumptions on a run -/

/-- A write stamped with second `S` is visible to every read made at or after
`S + RESOLVED_SETTLE_S`, so no poll that has passed it over was that late. Every call of
`update_pack` passes a resolved status and leaves the stamp to it.
SOURCE: cloud/dispatcher_lambda.py:142, 162, 253 -/
def OutcomeWorld.WriteOk (w : OutcomeWorld Id) (i : CloudInput Id) : CloudWrite Id → Prop
  | .put _ _ | .claim _ _ => True
  | .update _ fields => fields.status.any (·.resolved) = true ∧ fields.resolvedAt = none ∧
      w.polledAt < i.now + resolvedSettleS
  | .cancel _ | .expire _ _ => w.polledAt < i.now + resolvedSettleS

/-- What is assumed of a poll. -/
structure OutcomeWorld.PollOk (w : OutcomeWorld Id) (limit : ℕ) (r : PollRead Id) : Prop where
  limit_pos : 1 ≤ limit
  now_mono : w.polledAt ≤ r.now
  /-- a query visits no item twice -/
  nodup : ∀ st ∈ resolvedPackStatuses, (r.visited st).flatten.Nodup
  /-- a query visits every stored item -/
  complete : ∀ st ∈ resolvedPackStatuses, ∀ id, w.cloud.packs id ≠ [] →
    id ∈ (r.visited st).flatten
  /-- a resolved version that a read does not see yet has been stamped, not long ago -/
  visible : ∀ st ∈ resolvedPackStatuses, ∀ id, ∀ j < r.lag st id, ∀ v,
    (w.cloud.packs id)[j]? = some v → v.status.resolved = true →
    ∃ S : ℕ, v.resolvedAt = some S ∧ r.now < S + resolvedSettleS
  /-- a partition holds fewer rows than the scan cap -/
  below_cap : ∀ st ∈ resolvedPackStatuses, (w.cloud.queryStatus r st).flatten.length < workCap limit

/-- Every event of the run is as assumed. -/
def OutcomeWorld.Legal (w : OutcomeWorld Id) : List (OutcomeEvent Id) → Prop
  | [] => True
  | .write req i :: es => w.WriteOk i req ∧ (w.exec (.write req i)).Legal es
  | .poll limit r :: es => w.PollOk limit r ∧ (w.exec (.poll limit r)).Legal es

end Mailman.Model
