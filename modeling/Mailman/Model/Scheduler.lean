import Mathlib.Data.List.Sort
import Mailman.Model.Lifecycle

/-!
# The scheduler's refusals

The part of `scheduler_tick` that launches the due campaigns, with the rule that refuses one. What
`Lifecycle` draws, whether a day of unexpected errors is over, is computed here from the audit
rows. Each access to the database is a step of its own, and operators write between any two. A
launch is what it raises; what it writes to a campaign is a write like an operator's. Of a
campaign the columns are kept that the rule reads.
-/

set_option autoImplicit false

namespace Mailman.Model

/-- The class of what a launch raises, as far as the scheduler tells them apart. -/
inductive LaunchClass where
  /-- `LaunchRetryable` -/
  | retryable
  /-- any other `LaunchError` -/
  | refused
  /-- any other exception -/
  | unexpected
  deriving DecidableEq, Repr

/-- What a launch raises: its class, `str(exc)` and `type(exc).__name__`. -/
structure LaunchFailure where
  cls : LaunchClass
  text : String
  typeName : String
  deriving DecidableEq, Repr

/-- `str(exc) or type(exc).__name__` -/
def LaunchFailure.reason (exc : LaunchFailure) : String :=
  if exc.text = "" then exc.typeName else exc.text

/-- A row of `campaigns`, the columns that the rule reads. -/
structure ScheduledRow where
  id : ℕ
  status : CampaignStatus
  scheduledFor : ScheduledFor
  updatedAt : Stamp
  deriving DecidableEq, Repr

/-- Scheduled and due. -/
def ScheduledRow.selected (now : Stamp) (r : ScheduledRow) : Bool :=
  r.status = .scheduled && r.scheduledFor.due now

/-- The details of a retry. They are compared and read as JSON; `streak_start` is left out for a
`LaunchRetryable`. -/
structure RetryDetails where
  error : String
  streakStart : Option Stamp
  updatedAt : Option Stamp
  deriving DecidableEq, Repr

/-- An audit row of the action `campaign.scheduled_launch_retrying`. -/
structure RetryRow where
  campaignId : ℕ
  details : RetryDetails
  occurredAt : Stamp
  deriving DecidableEq, Repr

/-- The details of a refusal, those of its audit row and of its drift row. -/
structure RefusalRow where
  campaignId : ℕ
  error : String
  markedFailed : Bool
  deriving DecidableEq, Repr

/-- The tables that the rule reads and writes, in the order of their ids, and the clock. -/
structure SchedulerDb where
  rows : List ScheduledRow := []
  retries : List RetryRow := []
  refusals : List RefusalRow := []
  drift : List RefusalRow := []
  now : Stamp := 0

/-- `_RETRY_GIVE_UP_S` -/
def retryGiveUpS : ℕ := 24 * 60 * 60

/-- `_RETRY_NOTE_WINDOW` -/
def retryNoteWindow : ℕ := 86400

namespace SchedulerDb

def row? (db : SchedulerDb) (campaignId : ℕ) : Option ScheduledRow :=
  db.rows.find? (·.id = campaignId)

/-- The campaigns that a tick selects. SOURCE: terminal/sync_client.py:829-835 -/
def dueCampaigns (db : SchedulerDb) : List ℕ :=
  ((db.rows.filter (·.selected db.now)).map (·.id)).insertionSort (· ≤ ·)

/-- `_still_scheduled`. SOURCE: terminal/sync_client.py:681-683 -/
def stillScheduled (db : SchedulerDb) (campaignId : ℕ) : Bool :=
  (db.row? campaignId).any (·.status = .scheduled)

/-- The newest retry row of a campaign that has a `streak_start`. -/
def streakRow (db : SchedulerDb) (campaignId : ℕ) : Option RetryRow :=
  db.retries.reverse.find? fun r => r.campaignId = campaignId && r.details.streakStart.isSome

/-- `_streak`. SOURCE: terminal/sync_client.py:705-723 -/
def streak (db : SchedulerDb) (campaignId : ℕ) (now : Stamp) : Stamp × Option Stamp :=
  let since := (db.row? campaignId).map (·.updatedAt)
  match db.streakRow campaignId with
  | some ⟨_, ⟨_, some begun, updatedAt⟩, _⟩ => (if updatedAt = since then begun else now, since)
  | _ => (now, since)

/-- What `_note_retry` looks for before it writes. SOURCE: terminal/sync_client.py:693-696 -/
def retrySeen (db : SchedulerDb) (campaignId : ℕ) (details : RetryDetails) : Bool :=
  db.retries.any fun r => r.campaignId = campaignId && r.details = details &&
    db.now ≤ r.occurredAt + retryNoteWindow

/-- `db.audit` of a retry. -/
def auditRetry (db : SchedulerDb) (campaignId : ℕ) (details : RetryDetails) : SchedulerDb :=
  { db with retries := db.retries ++ [⟨campaignId, details, db.now⟩] }

/-- The rows that `_refuse_campaign` moves. -/
def refusable (db : SchedulerDb) (campaignId : ℕ) (since : Option Stamp) (r : ScheduledRow) : Bool :=
  r.id = campaignId && r.selected db.now && since.all (r.updatedAt = ·)

/-- `_refuse_campaign` of a campaign that was selected as due.
SOURCE: terminal/sync_client.py:726-753 -/
def refuseCampaign (db : SchedulerDb) (campaignId : ℕ) (error : String) (since : Option Stamp) :
    SchedulerDb × Bool :=
  let moved := db.rows.countP (db.refusable campaignId since) = 1
  let rows := updateRows db.rows (db.refusable campaignId since) fun r =>
    { r with status := .failed, updatedAt := db.now }
  let row : RefusalRow := ⟨campaignId, error, moved⟩
  ({ db with rows, refusals := db.refusals ++ [row], drift := db.drift ++ [row] }, moved)

end SchedulerDb

/-! ## The tick -/

/-- Where the scheduler is: between ticks, before the launch of the first of some campaigns, or
in the `except` branch of one, with the campaigns after it. -/
inductive SchedulerPc where
  | idle
  | attempting (todo : List ℕ)
  /-- a launch has raised -/
  | raised (campaignId : ℕ) (exc : LaunchFailure) (todo : List ℕ)
  /-- the clock has been read -/
  | clocked (campaignId : ℕ) (exc : LaunchFailure) (at_ : Stamp) (todo : List ℕ)
  /-- before the query of `_note_retry` -/
  | noting (campaignId : ℕ) (exc : LaunchFailure) (at_ : Stamp) (details : RetryDetails)
      (todo : List ℕ)
  /-- before its write -/
  | auditing (campaignId : ℕ) (exc : LaunchFailure) (at_ : Stamp) (details : RetryDetails)
      (todo : List ℕ)
  /-- before `_refuse_campaign`, with the streak that was weighed -/
  | refusing (campaignId : ℕ) (exc : LaunchFailure) (weighed : Option (Stamp × Option Stamp))
      (todo : List ℕ)

/-- What the `except` branch came to. -/
inductive Handling where
  | noted
  | refused
  /-- an exception while recording -/
  | unrecorded
  deriving DecidableEq, Repr

/-- A launch that raised: what it raised, the time and the `updated_at` that its streak was
weighed by, what came of it, and the campaign's row before and after the last step. -/
structure Handled where
  campaignId : ℕ
  exc : LaunchFailure
  weighed : Option (Stamp × Option Stamp)
  handling : Handling
  now : Stamp
  before : Option ScheduledRow
  after : Option ScheduledRow

structure SchedulerState where
  db : SchedulerDb := {}
  pc : SchedulerPc := .idle
  /-- the campaigns the tick selected -/
  selected : List ℕ := []
  /-- those it has tried to launch -/
  attempted : List ℕ := []
  /-- every launch that raised -/
  log : List Handled := []

namespace SchedulerState

/-- The `except` branch of a campaign ends. -/
def handled (s : SchedulerState) (campaignId : ℕ) (exc : LaunchFailure)
    (weighed : Option (Stamp × Option Stamp)) (handling : Handling) (db : SchedulerDb)
    (todo : List ℕ) : SchedulerState :=
  let entry : Handled :=
    { campaignId, exc, weighed, handling, now := s.db.now, before := s.db.row? campaignId
      after := db.row? campaignId }
  { s with db, pc := .attempting todo, log := s.log ++ [entry] }

/-- A step of the scheduler: what the launch raises, if it is one, and whether the access to the
database fails. SOURCE: terminal/sync_client.py:828-867 -/
def advance (s : SchedulerState) (raises : Option LaunchFailure) (fails : Bool) : SchedulerState :=
  match s.pc with
  | .idle =>
    if fails then s
    else
      let due := s.db.dueCampaigns
      { s with pc := .attempting due, selected := due, attempted := [] }
  | .attempting [] => { s with pc := .idle }
  | .attempting (c :: todo) =>
    let attempted := s.attempted ++ [c]
    match raises with
    | none => { s with pc := .attempting todo, attempted }
    | some exc => { s with pc := .raised c exc todo, attempted }
  | .raised c exc todo =>
    if exc.cls = .refused then { s with pc := .refusing c exc none todo }
    else if fails then s.handled c exc none .unrecorded s.db todo
    else if s.db.stillScheduled c then { s with pc := .clocked c exc s.db.now todo }
    else { s with pc := .refusing c exc none todo }
  | .clocked c exc at_ todo =>
    if fails then s.handled c exc none .unrecorded s.db todo
    else
      let (begun, since) := s.db.streak c at_
      if exc.cls = .retryable then
        { s with pc := .noting c exc at_ ⟨exc.reason, none, since⟩ todo }
      else if begun + retryGiveUpS ≤ at_ then
        { s with pc := .refusing c exc (some (at_, since)) todo }
      else { s with pc := .noting c exc at_ ⟨exc.reason, some begun, since⟩ todo }
  | .noting c exc at_ details todo =>
    let weighed := some (at_, details.updatedAt)
    if fails then s.handled c exc weighed .unrecorded s.db todo
    else if s.db.retrySeen c details then s.handled c exc weighed .noted s.db todo
    else { s with pc := .auditing c exc at_ details todo }
  | .auditing c exc at_ details todo =>
    let weighed := some (at_, details.updatedAt)
    if fails then s.handled c exc weighed .unrecorded s.db todo
    else s.handled c exc weighed .noted (s.db.auditRetry c details) todo
  | .refusing c exc weighed todo =>
    if fails then s.handled c exc weighed .unrecorded s.db todo
    else
      let since := weighed.bind (·.2)
      s.handled c exc weighed .refused (s.db.refuseCampaign c exc.reason since).1 todo

end SchedulerState

/-- What may happen: a step of the scheduler, a write to a campaign by an operator or a launch, a
new campaign, and time that passes. Every write sets `updated_at`. -/
inductive SchedulerEvent where
  | scheduler (raises : Option LaunchFailure) (fails : Bool)
  | write (campaignId : ℕ) (status : CampaignStatus) (scheduledFor : ScheduledFor)
  | create (campaignId : ℕ) (status : CampaignStatus) (scheduledFor : ScheduledFor)
  | wait (seconds : ℕ)

def SchedulerState.step (s : SchedulerState) : SchedulerEvent → SchedulerState
  | .scheduler raises fails => s.advance raises fails
  | .write campaignId status scheduledFor =>
    let rows := updateRows s.db.rows (·.id = campaignId) fun r =>
      { r with status, scheduledFor, updatedAt := s.db.now }
    { s with db := { s.db with rows } }
  | .create campaignId status scheduledFor =>
    if (s.db.row? campaignId).isSome then s
    else
      let row : ScheduledRow := ⟨campaignId, status, scheduledFor, s.db.now⟩
      { s with db := { s.db with rows := s.db.rows ++ [row] } }
  | .wait seconds => { s with db := { s.db with now := s.db.now + seconds } }

/-- The state after the first events of a run. -/
def SchedulerState.after (s : SchedulerState) (events : List SchedulerEvent) (k : ℕ) :
    SchedulerState :=
  (events.take k).foldl SchedulerState.step s

end Mailman.Model
