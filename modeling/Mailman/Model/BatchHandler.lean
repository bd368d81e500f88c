import Mailman.Model.Dispatcher

/-!
# A batch of queue records

`handler` of `cloud/dispatcher_lambda.py` for an event with records: two nested loops over one
index. What `_process` does with a pack is a parameter; the sleeps between groups change nothing
and are left out. The records a call has looked at are kept as history.
-/

set_option autoImplicit false

namespace Mailman.Model

open Mailman.Library

/-- A record of an event. `json.loads(record["body"])["pack_id"]` raises for the first two; the
handler of the outer loop then asks the record for its body once more, which raises when the
record is no object. -/
inductive SqsRecord (Id : Type) where
  | notObject
  | badBody
  | pack (id : Id)
  deriving DecidableEq, Repr

/-- The counters of a batch. -/
structure BatchResults where
  processed : ℕ := 0
  skipped : ℕ := 0
  failed : ℕ := 0
  deriving DecidableEq, Repr

/-- Where a batch stands; `examined` is history. -/
structure Batch where
  i : ℕ := 0
  results : BatchResults := {}
  examined : List ℕ := []
  deriving DecidableEq, Repr

/-- How a call ends; `exhausted` is the end of the fuel. -/
inductive HandlerEnd where
  | done (b : Batch)
  | raised (b : Batch)
  | exhausted
  deriving DecidableEq, Repr

/-- The record at the index is looked at. -/
def Batch.examine (b : Batch) : Batch := { b with examined := b.examined ++ [b.i] }

/-- `results[outcome] += 1; i += 1` -/
def Batch.count (b : Batch) (bump : BatchResults → BatchResults) : Batch :=
  { b.examine with i := b.i + 1, results := bump b.results }

def BatchResults.fail (r : BatchResults) : BatchResults := { r with failed := r.failed + 1 }

/-- The counter that an outcome of `_process` adds to. -/
def Processed.bump (out : Processed) (r : BatchResults) : BatchResults :=
  match out with
  | .skipped => { r with skipped := r.skipped + 1 }
  | .processed _ => { r with processed := r.processed + 1 }
  | .raised => r

/-- The `sender_count` of an outcome. -/
def Processed.senderCount : Processed → ℤ
  | .processed n => n
  | _ => 1

variable {Id σ ι : Type}

/-- The rest of a group, at most so many records; `none` is an exception.
SOURCE: cloud/dispatcher_lambda.py:96-108 -/
def drainGroup (process : Id → Proc σ ι Processed) (records : List (SqsRecord Id)) :
    ℕ → Batch → Proc σ ι (Bool × Batch)
  | 0, b => pure (true, b)
  | k + 1, b =>
    match records[b.i]? with
    | none => pure (true, b)
    | some .notObject | some .badBody => drainGroup process records k (b.count .fail)
    | some (.pack id) => do
      let out ← process id
      if out = .raised then pure (false, b.examine)
      else drainGroup process records k (b.count out.bump)

/-- The outer loop. SOURCE: cloud/dispatcher_lambda.py:80-113 -/
def drainBatch (process : Id → Proc σ ι Processed) (records : List (SqsRecord Id)) :
    ℕ → Batch → Proc σ ι HandlerEnd
  | 0, b => pure (if records.length ≤ b.i then .done b else .exhausted)
  | fuel + 1, b =>
    match records[b.i]? with
    | none => pure (.done b)
    | some .notObject => pure (.raised b.examine)
    | some .badBody => drainBatch process records fuel (b.count .fail)
    | some (.pack id) => do
      let out ← process id
      if out = .raised then pure (.raised b.examine)
      else do
        let (finished, b) ←
          drainGroup process records (out.senderCount - 1).toNat (b.count out.bump)
        if finished then drainBatch process records fuel b else pure (.raised b)

/-- `handler`, for an event that is no sweep. SOURCE: cloud/dispatcher_lambda.py:66-117 -/
def handler (process : Id → Proc σ ι Processed) (records : List (SqsRecord Id)) :
    Proc σ ι HandlerEnd :=
  drainBatch process records records.length {}

end Mailman.Model
