import Mailman.Model.Launch

/-!
# The contact lock

`campaign_lock` and what the other loops write for it: the row that a launch dispatches, the time
of the last pull and the click on a link. Of what `locked_contacts` says of a contact, the name
of the campaign is left out.
-/

set_option autoImplicit false

namespace Mailman.Model

variable {Id : Type}

/-- What `locked_contacts` says of a contact. -/
structure LockEntry where
  campaignId : ℕ
  freeAt : Stamp
  deriving DecidableEq, Repr

/-- The row that the query of `locked_contacts` has for a recipient, if there is one. -/
def Terminal.lockRow (t : Terminal Id) (now : Stamp) (r : Recipient) : Option (ℕ × LockEntry) :=
  match t.campaign? r.campaignId with
  | none => none
  | some c =>
    match c.lockUntil with
    | none => none
    | some lockUntil =>
      if c.dispatchedAt ≠ none ∧ c.unsubsConfirmedAt = none ∧ now < lockUntil ∧
          r.clickedAt = none then some (r.contactId, ⟨c.id, lockUntil⟩)
      else none

/-- `out.setdefault` -/
def setDefault (out : List (ℕ × LockEntry)) (row : ℕ × LockEntry) : List (ℕ × LockEntry) :=
  if out.any (·.1 = row.1) then out else out ++ [row]

/-- `locked_contacts`, as the pairs of its dictionary. SOURCE: terminal/campaign_lock.py:29-58 -/
def Terminal.lockTable (t : Terminal Id) (exclude : Option ℕ) (now : Stamp) :
    List (ℕ × LockEntry) :=
  ((t.recipients.filterMap (t.lockRow now)).filter fun row =>
    exclude ≠ some row.2.campaignId).foldl setDefault []

/-- `find_conflicts`. SOURCE: terminal/campaign_lock.py:61-70 -/
def Terminal.findConflicts (t : Terminal Id) (campaignId : ℕ) (contactIds : List ℕ) (now : Stamp) :
    List (ℕ × LockEntry) :=
  if contactIds = [] then []
  else
    let locked := t.lockTable (some campaignId) now
    contactIds.filterMap fun cid => locked.find? (·.1 = cid)

/-- The terminal, what `sync_state` holds under `last_pull_ok_at`, and the clock. -/
structure LockDesk (Id : Type) where
  terminal : Terminal Id
  lastPullOkAt : Option Stamp := none
  now : Stamp := 0

namespace LockDesk

/-- The row that a normal launch writes. SOURCE: terminal/launch.py:444-449 -/
def dispatch (d : LockDesk Id) (campaignId : ℕ) : LockDesk Id :=
  { d with terminal := d.terminal.updateCampaign campaignId (fun _ => true) fun c =>
    { c with status := .dispatched, dispatchedAt := some d.now
             lockUntil := some (d.now + c.lockDurationS), unsubsConfirmedAt := none } }

/-- The end of a pull that succeeds. SOURCE: terminal/sync_client.py:246-256 -/
def pullDone (d : LockDesk Id) : LockDesk Id := { d with lastPullOkAt := some d.now }

/-- The click of a recipient. SOURCE: terminal/sync_client.py:550-554 -/
def click (d : LockDesk Id) (recipientId : ℕ) (nowIso : String) : LockDesk Id :=
  let recipients := updateRows d.terminal.recipients (·.id = recipientId) fun r =>
    { r with status := .clicked, clickedAt := some nowIso }
  { d with terminal := { d.terminal with recipients } }

/-- A campaign that `confirm_elapsed_locks` confirms. -/
def elapsed (d : LockDesk Id) (c : Campaign) : Bool :=
  c.unsubsConfirmedAt = none && c.lockUntil.any (· ≤ d.now) &&
    c.dispatchedAt.any fun at_ => d.lastPullOkAt.any (at_ < ·)

/-- `confirm_elapsed_locks`. SOURCE: terminal/campaign_lock.py:73-101 -/
def confirmElapsedLocks (d : LockDesk Id) (nowText : String) : LockDesk Id × ℕ :=
  let campaigns := updateRows d.terminal.campaigns d.elapsed fun c =>
    { c with unsubsConfirmedAt := some nowText }
  ({ d with terminal := { d.terminal with campaigns } }, d.terminal.campaigns.countP d.elapsed)

end LockDesk

/-- What may happen to the locks. -/
inductive LockEvent where
  | dispatch (campaignId : ℕ)
  | pull
  | click (recipientId : ℕ) (nowIso : String)
  | confirm (nowText : String)
  | wait (seconds : ℕ)

def LockDesk.step (d : LockDesk Id) : LockEvent → LockDesk Id
  | .dispatch campaignId => d.dispatch campaignId
  | .pull => d.pullDone
  | .click recipientId nowIso => d.click recipientId nowIso
  | .confirm nowText => (d.confirmElapsedLocks nowText).1
  | .wait seconds => { d with now := d.now + seconds }

end Mailman.Model
