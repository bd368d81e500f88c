import Mailman.Model.World

/-!
# Two terminals on one cloud

The operator's and the client's terminal each number their campaigns in their own database,
and both push to and cancel on the one pack table. Of a terminal only its campaign ids are
followed here: a terminal pushes packs of campaigns it has.
-/

set_option autoImplicit false

namespace Mailman.Model

open Mailman.Library

/-- The cloud's pack table, and the campaign ids in each terminal's database. -/
structure SharedCloud (Id : Type) where
  cloud : Cloud Id
  campaigns : Actor → List ℕ := fun _ => []

/-- One request on the cloud, or one transaction of a terminal. -/
abbrev SharedProc (Id α : Type) := Proc (SharedCloud Id) (CloudInput Id) α

variable {Id : Type} [LinearOrder Id]

/-- A program of the pack table. -/
def onTable {α : Type} (p : CloudProc Id α) : SharedProc Id α :=
  p.zoom (·.cloud) (fun _ i => i) fun s _ c => { s with cloud := c }

/-- `packs_cancel_campaign`. The actor that the bearer names is not used.
SOURCE: cloud/packs.py:141-149 -/
def packsCancelCampaign (_actor : Actor) (campaignId : ℕ) : CloudProc Id Unit := do
  let _ ← cancelPendingForCampaign campaignId
  pure ()

/-- What may be started: a campaign of one terminal, a push and a cancel of one, and what the
cloud does besides. -/
inductive SharedOp (Id : Type) where
  | createCampaign (actor : Actor)
  | push (actor : Actor) (packs : List (PackIn Id))
  | cancelCampaign (actor : Actor) (campaignId : ℕ)
  | deliver (id : Id)
  | cancelPack (id : Id)
  | expireStaleClaims (olderThanS limit : ℕ)

/-- The program of each operation, run under number `n`. A new campaign is numbered past every
campaign of its own database. -/
def sharedCode (n : ℕ) : SharedOp Id → SharedProc Id Unit
  | .createCampaign a => .modify fun s _ =>
      let campaigns := ((s.campaigns a).foldl max 0 + 1) :: s.campaigns a
      { s with campaigns := Function.update s.campaigns a campaigns }
  | .push a packs => do
    let own ← Proc.get fun s _ => packs.all fun p => (s.campaigns a).contains p.campaignId
    if own then onTable do
      let _ ← packsPush a packs
      pure ()
    else pure ()
  | .cancelCampaign a c => onTable (packsCancelCampaign a c)
  | .deliver id => onTable (cloudCode n (.deliver id))
  | .cancelPack id => onTable (cloudCode n (.cancelPack id))
  | .expireStaleClaims olderThanS limit => onTable (cloudCode n (.expireStaleClaims olderThanS limit))

/-- The pool after a run from an empty table and two databases without campaigns. -/
def sharedRun (es : List (Event (SharedOp Id) (CloudInput Id))) :
    Pool (SharedCloud Id) (CloudInput Id) :=
  (Pool.idle { cloud := .empty }).run sharedCode es

end Mailman.Model
