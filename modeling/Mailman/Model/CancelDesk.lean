import Mathlib.Data.Prod.Lex
import Mailman.Model.Dispatcher

/-!
# The two cancel requests

`DELETE /packs/{pack_id}` and `POST /packs/cancel-campaign` as one bearer sends them, beside
everything else that runs on the pack table. The campaign cancel follows the pages of the status
index: a query goes upward from its start key, evaluates entries that may show an older version
than the table holds, and returns the key of the last of them when it stops before the end.

`listed` and `replies` are history: the packs that the index reads of a call listed, and what the
call answered.
-/

set_option autoImplicit false

namespace Mailman.Model

open Mailman.Library

/-- The answer to one of the two requests. -/
inductive CancelReply where
  | missingCampaignId
  | campaign (cancelled campaignId : ℕ)
  | pack (cancelled : Bool) (reason : String)
  | noSuchPack
  deriving DecidableEq, Repr

/-- The pack table, and the history of the calls by their number. -/
structure CancelDesk (Id : Type) where
  cloud : Cloud Id
  listed : ℕ → List (Pack Id) := fun _ => []
  replies : ℕ → Option CancelReply := fun _ => none

/-- What the environment decides for one request. -/
structure DeskInput (Id : Type) where
  table : CloudInput Id := {}
  /-- the query stops before the end of the index -/
  more : Bool := false

/-- One request on the desk. -/
abbrev DeskProc (Id α : Type) := Proc (CancelDesk Id) (DeskInput Id) α

variable {Id : Type} [LinearOrder Id]

/-- A program of the pack table. -/
def atTable {α : Type} (p : CloudProc Id α) : DeskProc Id α :=
  p.zoom (·.cloud) (fun _ i => i.table) fun w _ c => { w with cloud := c }

/-- The key of an entry of the status index. SOURCE: cloud/dynamo.py:506-512, 528-541 -/
def indexKey (p : Pack Id) : Stamp ×ₗ Id := toLex (p.sendAt, p.packId)

/-- The entries a query evaluates go upward from its start key. -/
def upward : Option (Stamp ×ₗ Id) → List (Pack Id) → List (Pack Id)
  | _, [] => []
  | start, p :: ps =>
    if start.all (· < indexKey p) then p :: upward (some (indexKey p)) ps else upward start ps

/-- The entries of the pending partition that one query evaluates. -/
def evaluated (w : CancelDesk Id) (i : DeskInput Id) (start : Option (Stamp ×ₗ Id)) :
    List (Pack Id) :=
  upward start (w.cloud.page i.table fun p => p.status = .pending)

/-- One query of call `n`: the items that pass the filter, and `LastEvaluatedKey`.
SOURCE: cloud/dynamo.py:528-541 -/
def queryPending (n c : ℕ) (start : Option (Stamp ×ₗ Id)) :
    DeskProc Id (List (Pack Id) × Option (Stamp ×ₗ Id)) :=
  .act fun w i =>
    let entries := evaluated w i start
    let items := entries.filter fun p => p.campaignId = c
    ({ w with listed := Function.update w.listed n (w.listed n ++ items) },
      (items, if i.more then entries.getLast?.map indexKey else none))

/-- The cancel loop over one page. SOURCE: cloud/dynamo.py:534-537 -/
def cancelItems : List (Pack Id) → ℕ → DeskProc Id ℕ
  | [], cancelled => pure cancelled
  | p :: ps, cancelled => do
    let won ← atTable (cancelPack p.packId)
    cancelItems ps (if won then cancelled + 1 else cancelled)

/-- The loop of `cancel_pending_for_campaign` from one start key; `none` when it was cut off after
`fuel` pages. SOURCE: cloud/dynamo.py:532-541 -/
def cancelFrom (n c : ℕ) : ℕ → Option (Stamp ×ₗ Id) → ℕ → DeskProc Id (Option ℕ)
  | 0, _, _ => pure none
  | fuel + 1, start, cancelled => do
    let (items, lastEvaluatedKey) ← queryPending n c start
    let cancelled ← cancelItems items cancelled
    match lastEvaluatedKey with
    | none => pure (some cancelled)
    | some key => cancelFrom n c fuel (some key) cancelled

/-- The answer goes out. -/
def reply (n : ℕ) (r : CancelReply) : DeskProc Id Unit :=
  .modify fun w _ => { w with replies := Function.update w.replies n (some r) }

/-- `packs_cancel_campaign`. SOURCE: cloud/packs.py:141-149, cloud/dynamo.py:515-542 -/
def packsCancelCampaignReq (n fuel : ℕ) : Option ℕ → DeskProc Id Unit
  | none => reply n .missingCampaignId
  | some c => do
    let cancelled ← cancelFrom n c fuel none 0
    match cancelled with
    | none => pure ()
    | some k => reply n (.campaign k c)

/-- `status` as its text. -/
def PackStatus.text : PackStatus → String
  | .pending => "pending"
  | .claimed => "claimed"
  | .sent => "sent"
  | .failed => "failed"
  | .stuckNoKey => "stuck_no_key"
  | .cancelled => "cancelled"
  | .unknown => "unknown"

/-- What `packs_cancel` decides. SOURCE: cloud/packs.py:121-138 -/
def packsCancel (id : Id) : CloudProc Id CancelReply := do
  let won ← cancelPack id
  if won then pure (.pack true "") else
  let pack ← getPack id
  match pack with
  | none => pure .noSuchPack
  | some pack =>
    if pack.status = .pending then do
      let won ← cancelPack id
      if won then pure (.pack true "") else
      let pack ← getPack id
      match pack with
      | none => pure .noSuchPack
      | some pack =>
        if pack.status = .pending then pure (.pack false "cancel not confirmed")
        else pure (.pack false ("already " ++ pack.status.text))
    else pure (.pack false ("already " ++ pack.status.text))

/-- What may be started: anything of the pack table, and the two requests. -/
inductive DeskOp (Id : Type) where
  | table (op : CloudOp Id)
  | cancelCampaign (fuel : ℕ) (campaignId : Option ℕ)
  | cancelPack (id : Id)

/-- The program of each operation, run under number `n`. -/
def deskCode (n : ℕ) : DeskOp Id → DeskProc Id Unit
  | .table op => atTable (cloudCode n op)
  | .cancelCampaign fuel c => packsCancelCampaignReq n fuel c
  | .cancelPack id => do
    let r ← atTable (packsCancel id)
    reply n r

/-- The pool after a run from an empty table. -/
def deskRun (es : List (Event (DeskOp Id) (DeskInput Id))) : Pool (CancelDesk Id) (DeskInput Id) :=
  (Pool.idle { cloud := .empty }).run deskCode es

end Mailman.Model
