import Mathlib.Data.Prod.Lex
import Mathlib.Data.String.Basic
import Mailman.Library.Keyset
import Mailman.Library.Process
import Mailman.Model.Suppression

/-!
# The unsubscribe log

`put_unsub` keeps one cache item for each hash and appends to a log that is ordered by the
second and the hash; `/sync/pull` serves the log past a cursor, and the terminal merges what
it gets and then stores the cursor. Every DynamoDB request and every commit on the terminal
is one step. A second log item under one key replaces the first.
-/

set_option autoImplicit false

namespace Mailman.Model

open Mailman.Library

/-- The sort key of a log item, `"{now}#{email_hash}"`: the times have a fixed width, so it
orders by the second and then by the hash. SOURCE: cloud/dynamo.py:713 -/
abbrev UnsubKey := ℕ ×ₗ String

/-- An item of the `UNSUB_LOG` partition. SOURCE: cloud/dynamo.py:711-717 -/
structure UnsubLogRow where
  addedAt : ℕ
  emailHash : String
  scope : UnsubScope
  deriving DecidableEq, Repr

/-- `sk` of a log item, and the `cursor` a pull returns for it. -/
def UnsubLogRow.key (r : UnsubLogRow) : UnsubKey := toLex (r.addedAt, r.emailHash)

/-- The cloud's unsubscribe items and the terminal that pulls them. `done`, `served` and
`missed` are history: the calls that have returned, the rows that queries have returned, and
the rows that a query did not see although it returned one past them. -/
structure UnsubWorld where
  clock : ℕ := 0
  cache : String → Option UnsubScope := fun _ => none
  log : List UnsubLogRow := []
  table : Suppressions := fun _ => none
  cursor : Option UnsubKey := none
  done : List (String × UnsubScope) := []
  served : List UnsubLogRow := []
  missed : List UnsubLogRow := []

/-- What the environment decides for one request. -/
structure UnsubInput where
  /-- the seconds that pass before a clock is read -/
  tick : ℕ := 0
  /-- the text of the terminal's clock -/
  nowText : String := ""
  /-- the text of an `added_at` -/
  stampText : ℕ → String := fun _ => ""
  /-- the items that an eventually consistent query does not see yet -/
  hidden : List UnsubLogRow := []

/-- One atomic request or transaction. -/
abbrev UnsubProc (α : Type) := Proc UnsubWorld UnsubInput α

/-- `_now`, on a clock that never goes back. -/
def readClock : UnsubProc ℕ :=
  .act fun s i => ({ s with clock := s.clock + i.tick }, s.clock + i.tick)

/-- `put_item` of a log row: it replaces an item of the same key. -/
def UnsubWorld.putLog (s : UnsubWorld) (row : UnsubLogRow) : UnsubWorld :=
  { s with log := row :: s.log.filter fun r => r.key ≠ row.key }

/-- `put_unsub`. The call returns right after its last write.
SOURCE: cloud/dynamo.py:673-718 -/
def putUnsub (h : String) (scope : UnsubScope) : UnsubProc Bool := do
  let now ← readClock
  let isNew ← Proc.act fun s _ =>
    match s.cache h with
    | none => ({ s with cache := Function.update s.cache h (some scope) }, true)
    | some _ =>
      (if scope = .all then s else { s with done := (h, scope) :: s.done }, false)
  if isNew = false ∧ scope = .all then
    Proc.modify fun s _ => { s with cache := Function.update s.cache h (some .all) }
  else pure ()
  if isNew ∨ scope = .all then
    Proc.modify fun s _ =>
      { s.putLog ⟨now, h, scope⟩ with done := (h, scope) :: s.done }
  else pure ()
  pure isNew

/-- The rows past a cursor; the empty cursor is before every row.
SOURCE: cloud/dynamo.py:741-743 -/
def pastCursor (cursor : Option UnsubKey) (r : UnsubLogRow) : Bool :=
  match cursor with
  | none => true
  | some c => c < r.key

/-- `list_unsubs`. SOURCE: cloud/dynamo.py:732-756 -/
def UnsubWorld.listUnsubs (s : UnsubWorld) (since : Option UnsubKey) (limit : ℕ)
    (hidden : List UnsubLogRow) : List UnsubLogRow :=
  page UnsubLogRow.key limit (s.log.filter fun r => pastCursor since r && !hidden.contains r)

/-- The unsubscribe half of `sync_pull`, with what it did not see.
SOURCE: cloud/sync.py:62-70 -/
def syncPull (since : Option UnsubKey) : UnsubProc (List UnsubLogRow) :=
  .act fun s i =>
    let unsubs := s.listUnsubs since 1000 i.hidden
    let passed := s.log.filter fun r =>
      pastCursor since r && !unsubs.contains r && unsubs.any (r.key < ·.key)
    ({ s with served := unsubs ++ s.served, missed := passed ++ s.missed }, unsubs)

/-- A served row as `_merge_unsubs` reads it. -/
def UnsubLogRow.toIn (stampText : ℕ → String) (r : UnsubLogRow) : UnsubIn where
  emailHash := some r.emailHash
  scope := some (if r.scope = .all then "all" else "promotional")
  addedAt := some (stampText r.addedAt)

/-- The unsubscribe half of one round of `pull_loop`: the merge is one transaction and the
cursor another.
SOURCE: terminal/sync_client.py:218-245 -/
def pullUnsubs : UnsubProc Unit := do
  let since ← Proc.get fun s _ => s.cursor
  let unsubs ← syncPull since
  match unsubs.getLast? with
  | none => pure ()
  | some last =>
    Proc.modify fun s i =>
      { s with table := (mergeUnsubs i.nowText s.table (unsubs.map (·.toIn i.stampText))).1 }
    Proc.modify fun s _ => { s with cursor := some last.key }

/-- What may run on the unsubscribe log. -/
inductive UnsubOp where
  | put (h : String) (scope : UnsubScope)
  | pull

/-- The program of each operation. -/
def unsubCode (_ : ℕ) : UnsubOp → UnsubProc Unit
  | .put h scope => do let _ ← putUnsub h scope; pure ()
  | .pull => pullUnsubs

/-! ## The endpoint -/

/-- A `POST /u/{token}` with a good token: it gets as far as its requests go, and `answered` is
false where DynamoDB has raised at the last of them, whether that took effect or not. -/
structure UnsubCall where
  hash : String
  scope : UnsubScope
  requests : List UnsubInput
  answered : Bool

/-- The items after a call, and whether it answered ok. SOURCE: cloud/compliance_public.py:142-150 -/
def UnsubWorld.post (s : UnsubWorld) (c : UnsubCall) : UnsubWorld × Bool :=
  let (s, left) := (putUnsub c.hash c.scope).alone s c.requests
  match left with
  | .ret _ => (s, c.answered)
  | .atom _ _ => (s, false)

/-- A condition on every call of a sequence and the items before it. -/
def UnsubWorld.Along (P : UnsubWorld → UnsubCall → Prop) : UnsubWorld → List UnsubCall → Prop
  | _, [] => True
  | s, c :: calls => P s c ∧ (s.post c).1.Along P calls

end Mailman.Model
