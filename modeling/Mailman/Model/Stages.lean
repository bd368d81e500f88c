import Mailman.Library.Keyset
import Mailman.Model.Campaigns

/-!
# The stages of a campaign

`add_stage`, `update_stage` and `delete_stage` of `terminal/routes_admin.py`, one call after
another. A statement that a constraint of the table refuses is an `IntegrityError`: the call
answers 500 and its session closes without a commit. What a posted time is stored as
(`_scheduled_for_or_400`) is a parameter; it reads no table. Audit rows are left out.
-/

set_option autoImplicit false

namespace Mailman.Model

open Mailman.Library

/-- A row of `campaign_stages`. SOURCE: terminal/models.py:357-374 -/
structure StageRow where
  id : ℕ
  campaignId : ℕ
  stageNumber : ℕ
  templateId : ℕ
  scheduledFor : String
  status : StageStatus := .pending
  dispatchedAt : Option String := none
  note : Option String
  deriving DecidableEq, Repr

/-- SOURCE: terminal/routes_admin.py:1115-1118 -/
structure StageIn where
  templateId : ℕ
  scheduledFor : String
  note : Option String := none
  deriving DecidableEq, Repr

/-- The three tables the calls read, by their ids where only these count; `nextId` is the
AUTOINCREMENT counter of `campaign_stages`. -/
structure StageTables where
  campaigns : List ℕ
  templates : List ℕ
  stages : List StageRow := []
  nextId : ℕ := 1
  deriving DecidableEq, Repr

/-- Why a call is refused. -/
inductive StageError where
  | badTime
  | noSuchCampaign
  | noSuchTemplate
  | noSuchStage
  | foreignKey
  | sameNumber
  deriving DecidableEq, Repr

inductive StageAnswer where
  | added (id stageNumber : ℕ)
  | updated
  | deleted
  deriving DecidableEq, Repr

/-- `UNIQUE(campaign_id, stage_number)`. -/
def UniqueNumbers (rows : List StageRow) : Prop :=
  (rows.map fun r => (r.campaignId, r.stageNumber)).Nodup

instance (rows : List StageRow) : Decidable (UniqueNumbers rows) :=
  inferInstanceAs (Decidable (List.Nodup _))

/-- A statement leaves these rows, unless the constraint on the numbers refuses it. -/
def checkNumbers (rows : List StageRow) : Except StageError (List StageRow) :=
  if UniqueNumbers rows then .ok rows else .error .sameNumber

/-- `coalesce(max(stage_number), 0) + 1` -/
def nextNumber (campaignId : ℕ) (rows : List StageRow) : ℕ :=
  ((rows.filter (·.campaignId = campaignId)).map (·.stageNumber)).foldl max 0 + 1

/-- The stages of a campaign `ORDER BY stage_number`. -/
def stagesOf (campaignId : ℕ) (rows : List StageRow) : List StageRow :=
  orderBy (·.stageNumber) (rows.filter (·.campaignId = campaignId))

variable (scheduledForOr400 : String → Option String)

/-- SOURCE: terminal/routes_admin.py:1135-1155 -/
def addNumberedStage (campaignId : ℕ) (body : StageIn) (t : StageTables) :
    Except StageError (StageAnswer × StageTables) := do
  let some sf := scheduledForOr400 body.scheduledFor | throw .badTime
  if campaignId ∉ t.campaigns then throw .noSuchCampaign
  if body.templateId ∉ t.templates then throw .noSuchTemplate
  let nextNum := nextNumber campaignId t.stages
  let row : StageRow :=
    { id := t.nextId, campaignId, stageNumber := nextNum, templateId := body.templateId,
      scheduledFor := sf, note := body.note }
  let stages ← checkNumbers (t.stages ++ [row])
  return (.added t.nextId nextNum, { t with stages, nextId := t.nextId + 1 })

/-- The stage is looked up in its campaign. -/
def StageTables.holds (t : StageTables) (campaignId stageId : ℕ) : Bool :=
  t.stages.any fun r => r.id = stageId ∧ r.campaignId = campaignId

/-- The template is not looked up, so that the foreign key decides.
SOURCE: terminal/routes_admin.py:1158-1171 -/
def updateNumberedStage (campaignId stageId : ℕ) (body : StageIn) (t : StageTables) :
    Except StageError (StageAnswer × StageTables) := do
  let some sf := scheduledForOr400 body.scheduledFor | throw .badTime
  if ¬t.holds campaignId stageId then throw .noSuchStage
  if body.templateId ∉ t.templates then throw .foreignKey
  let stages := updateRows t.stages (·.id = stageId) fun r =>
    { r with templateId := body.templateId, scheduledFor := sf, note := body.note }
  return (.updated, { t with stages })

/-- `UPDATE campaign_stages SET stage_number = i WHERE id = ?` for the ids in turn, `i` counting
up: one statement a row, and the first refused one ends the call. -/
def renumber : List ℕ → ℕ → List StageRow → Except StageError (List StageRow)
  | [], _, rows => .ok rows
  | id :: ids, i, rows => do
    let rows ← checkNumbers (updateRows rows (·.id = id) fun r => { r with stageNumber := i })
    renumber ids (i + 1) rows

/-- SOURCE: terminal/routes_admin.py:1174-1191 -/
def deleteNumberedStage (campaignId stageId : ℕ) (t : StageTables) :
    Except StageError (StageAnswer × StageTables) := do
  if ¬t.holds campaignId stageId then throw .noSuchStage
  let kept := t.stages.filter (·.id ≠ stageId)
  let remaining := (stagesOf campaignId kept).map (·.id)
  let stages ← renumber remaining 1 kept
  return (.deleted, { t with stages })

/-! ## Calls one after another -/

inductive StageCall where
  | add (campaignId : ℕ) (body : StageIn)
  | update (campaignId stageId : ℕ) (body : StageIn)
  | delete (campaignId stageId : ℕ)
  deriving DecidableEq, Repr

/-- The campaign a call is about. -/
def StageCall.campaignId : StageCall → ℕ
  | .add c _ => c
  | .update c _ _ => c
  | .delete c _ => c

def StageCall.run : StageCall → StageTables → Except StageError (StageAnswer × StageTables)
  | .add c body => addNumberedStage scheduledForOr400 c body
  | .update c id body => updateNumberedStage scheduledForOr400 c id body
  | .delete c id => deleteNumberedStage c id

/-- The tables after some calls, and what each call answered. -/
structure StageDesk where
  tables : StageTables
  log : List (StageCall × Except StageError StageAnswer) := []

/-- A refused call leaves the tables as they were. -/
def StageDesk.call (d : StageDesk) (c : StageCall) : StageDesk :=
  match c.run scheduledForOr400 d.tables with
  | .ok (answer, tables) => { tables, log := d.log ++ [(c, .ok answer)] }
  | .error e => { d with log := d.log ++ [(c, .error e)] }

def StageDesk.calls (d : StageDesk) (cs : List StageCall) : StageDesk :=
  cs.foldl (StageDesk.call scheduledForOr400) d

end Mailman.Model
