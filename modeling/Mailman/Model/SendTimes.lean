import Mailman.Library.IsoTime
import Mailman.Library.Keyset
import Mailman.Library.Text
import Mailman.Model.PackTable
import Mathlib.Data.String.Basic

/-!
# The times of a send, as texts

A posted time is stored as the text of its UTC second, a pack carries that second in the form
the cloud's clock writes, and the cloud compares the two texts: `packs_push` when the pack
arrives and `list_pending_packs` whenever it looks for due packs. The other fields of a pack are
stored as they come and decide nothing here.
-/

set_option autoImplicit false

namespace Mailman.Model

open Mailman.Library

/-- SOURCE: terminal/routes_admin.py:504-513 -/
def parseUtcNaive (value : String) : Option LocalTime := do
  let (time, offset) ← fromIsoFormat (Text.strip value).toList
  match offset with
  | none => some time
  | some o => time.toUtc o

/-- SOURCE: terminal/routes_admin.py:516-518 -/
def utcText (time : LocalTime) : String := .ofList (isoText ' ' time)

/-- `_SEND_NOW` -/
def sendNow : String := "1970-01-01T00:00:00Z"

/-- The form `YYYY-MM-DDTHH:MM:SSZ`. -/
def zuluText (time : LocalTime) : String := .ofList (isoText 'T' time ++ ['Z'])

/-- `_pack_send_at`. SOURCE: terminal/launch.py:682-693 -/
def packSendAtText (scheduledFor : Option String) : String :=
  if Text.strip (scheduledFor.getD "") = "" then sendNow
  else
    match parseUtcNaive (scheduledFor.getD "") with
    | none => sendNow
    | some time => zuluText time

/-! ## The cloud -/

/-- A time of the cloud's clock; it starts in 1970, so that `%Y` writes four digits. -/
structure ClockTime extends LocalTime where
  epoch : 1970 ≤ toLocalTime.date.year

/-- `_now_iso` and `_now`. SOURCE: cloud/packs.py:62-64, cloud/dynamo.py:52-53 -/
def ClockTime.nowIso (now : ClockTime) : String := zuluText now.toLocalTime

/-- A pack as it is pushed. SOURCE: cloud/packs.py:52-59 -/
structure TimedPackIn (Id : Type) where
  packId : Id
  sendAt : String
  deriving DecidableEq, Repr

/-- A stored pack. -/
structure TimedPack (Id : Type) extends TimedPackIn Id where
  status : PackStatus
  deriving DecidableEq, Repr

/-- The pack table and what one push has done. -/
structure PackPush (Id : Type) where
  packs : List (TimedPack Id)
  enqueued : List Id := []
  deferred : ℕ := 0
  inserted : ℕ := 0
  held : List (Id × PackStatus) := []

variable {Id : Type} [DecidableEq Id]

/-- `get_pack` -/
def getTimedPack (packs : List (TimedPack Id)) (packId : Id) : Option (TimedPack Id) :=
  packs.find? (·.packId = packId)

/-- One turn of the loop of `packs_push`; a pack id that is stored already is held.
SOURCE: cloud/packs.py:83-105 -/
def PackPush.pushOne (now : ClockTime) (r : PackPush Id) (p : TimedPackIn Id) : PackPush Id :=
  match getTimedPack r.packs p.packId with
  | some cur => { r with held := r.held ++ [(p.packId, cur.status)] }
  | none =>
    let stored : TimedPack Id := { toTimedPackIn := p, status := .pending }
    let r := { r with packs := r.packs ++ [stored], inserted := r.inserted + 1 }
    if p.sendAt ≤ now.nowIso then { r with enqueued := r.enqueued ++ [p.packId] }
    else { r with deferred := r.deferred + 1 }

/-- `packs_push`. SOURCE: cloud/packs.py:67-106 -/
def packsPushTimed (now : ClockTime) (packs : List (TimedPackIn Id)) (table : List (TimedPack Id)) :
    PackPush Id :=
  packs.foldl (PackPush.pushOne now) { packs := table }

/-- The key condition of `list_pending_packs`. -/
def TimedPack.due (now : ClockTime) (p : TimedPack Id) : Bool :=
  p.status = .pending ∧ p.sendAt ≤ now.nowIso

/-- SOURCE: cloud/dynamo.py:501-512 -/
def listPendingPacks (now : ClockTime) (limit : ℕ) (table : List (TimedPack Id)) :
    List (TimedPack Id) :=
  page (·.sendAt) limit (table.filter (·.due now))

end Mailman.Model
