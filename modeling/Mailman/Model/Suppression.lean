import Mathlib.Data.Nat.Notation
import Mathlib.Logic.Function.Basic

/-!
# The terminal's suppression table

`suppression_hashes`, its four writers and its reader. The table holds one row for each
email hash (the primary key), and its `reason` column is checked against a fixed list, so a
row is looked up by its hash and a row with another reason does not exist. `INSERT OR
IGNORE` drops a row that meets an existing hash, a failing check or a missing value.
-/

set_option autoImplicit false

namespace Mailman.Model

/-- `kind` of a campaign's template, which decides who may be mailed.
SOURCE: terminal/models.py:77-78 -/
inductive SendKind where
  | transactional
  | promotional
  deriving DecidableEq, Repr

/-- The `reason` values the table accepts. SOURCE: terminal/models.py:175-178 -/
inductive SuppressionReason where
  | unsubscribe
  | complaint
  | bounceHard
  | manual
  | erasureRequest
  deriving DecidableEq, Repr

/-- The column's check constraint, and the list `add_suppression` compares with. -/
def SuppressionReason.ofText : String → Option SuppressionReason
  | "unsubscribe" => some .unsubscribe
  | "complaint" => some .complaint
  | "bounce_hard" => some .bounceHard
  | "manual" => some .manual
  | "erasure_request" => some .erasureRequest
  | _ => none

/-- The column's text. -/
def SuppressionReason.text : SuppressionReason → String
  | .unsubscribe => "unsubscribe"
  | .complaint => "complaint"
  | .bounceHard => "bounce_hard"
  | .manual => "manual"
  | .erasureRequest => "erasure_request"

/-- What an unsubscribe covers. -/
inductive UnsubScope where
  | promotional
  | all
  deriving DecidableEq, Repr

/-- `_merge_unsubs` takes a missing or unknown scope for `all`.
SOURCE: terminal/sync_client.py:128-129 -/
def UnsubScope.ofText : Option String → UnsubScope
  | some "promotional" => .promotional
  | _ => .all

/-- A row of `suppression_hashes`; the hash is its key. -/
structure SuppressionRow where
  reason : SuppressionReason
  scope : UnsubScope := .all
  source : Option String
  addedAt : String
  deriving DecidableEq, Repr

/-- The table `suppression_hashes`. -/
abbrev Suppressions := String → Option SuppressionRow

/-- `INSERT OR IGNORE` of a row that meets every constraint but perhaps the key. -/
def Suppressions.insertOrIgnore (t : Suppressions) (h : String) (row : SuppressionRow) :
    Suppressions :=
  match t h with
  | some _ => t
  | none => Function.update t h (some row)

/-- No insert takes a hash off the table. -/
theorem insertOrIgnore_mono (t : Suppressions) (k : String) (row : SuppressionRow) {h : String}
    (hs : (t h).isSome) : ((t.insertOrIgnore k row) h).isSome := by
  unfold Suppressions.insertOrIgnore
  cases hk : t k with
  | some r => exact hs
  | none =>
    rcases eq_or_ne h k with rfl | hne
    · simp
    · simpa [Function.update_of_ne hne] using hs

/-- After an insert the hash is there. -/
theorem insertOrIgnore_self (t : Suppressions) (h : String) (row : SuppressionRow) :
    ((t.insertOrIgnore h row) h).isSome := by
  unfold Suppressions.insertOrIgnore
  cases hk : t h <;> simp [hk]

/-- A pulled row of the unsubscribe cache. -/
structure UnsubIn where
  emailHash : Option String
  scope : Option String := none
  addedAt : Option String := none
  deriving DecidableEq, Repr

/-- One row of `_merge_unsubs`, with the count of rows applied.
SOURCE: terminal/sync_client.py:123-147 -/
def mergeUnsub (now : String) : Suppressions × ℕ → UnsubIn → Suppressions × ℕ
  | (t, applied), u =>
    let h := u.emailHash.getD ""
    if h = "" then (t, applied)
    else
      let scope := UnsubScope.ofText u.scope
      match t h with
      | none =>
        let addedAt := if u.addedAt.getD "" = "" then now else u.addedAt.getD ""
        (Function.update t h (some
          { reason := .unsubscribe, scope := scope, source := some "sync:unsub_pull",
            addedAt := addedAt }), applied + 1)
      | some existing =>
        -- upgrade promotional -> all
        if scope = .all ∧ existing.scope ≠ .all then
          (Function.update t h (some { existing with scope := .all }), applied + 1)
        else (t, applied)

/-- `_merge_unsubs`, one transaction.
SOURCE: terminal/sync_client.py:113-149 -/
def mergeUnsubs (now : String) (t : Suppressions) (unsubs : List UnsubIn) : Suppressions × ℕ :=
  unsubs.foldl (mergeUnsub now) (t, 0)

/-- A decrypted suppression payload. An outer `none` is a missing key, an inner one a JSON
null. -/
structure SuppressionPayload where
  emailHash : Option String
  reason : Option (Option String) := none
  source : Option (Option String) := none
  addedAt : Option (Option String) := none
  deriving DecidableEq, Repr

/-- `_apply_suppression_event`: a reason outside the list and an explicit null fail a
constraint, and the insert ignores the row.
SOURCE: terminal/sync_client.py:578-591 -/
def applySuppressionEvent (nowIso : String) (t : Suppressions) (payload : SuppressionPayload) :
    Suppressions :=
  let h := payload.emailHash.getD ""
  if h = "" then t
  else
    match (payload.reason.getD (some "unsubscribe")).bind SuppressionReason.ofText,
      payload.addedAt.getD (some nowIso) with
    | some reason, some addedAt =>
      t.insertOrIgnore h
        { reason := reason, source := payload.source.getD (some "sync"), addedAt := addedAt }
    | _, _ => t

/-- The suppression part of a bounce in `_apply_webhook_event`; `h` is the hash of the bounced
recipient's address.
SOURCE: terminal/sync_client.py:560-569 -/
def suppressHardBounce (now : String) (t : Suppressions) (h : String) : Suppressions :=
  t.insertOrIgnore h { reason := .bounceHard, source := some "auto:materialiser", addedAt := now }

/-- `add_suppression`: the table after it and the answer, or the 400 for a bad reason.
`emailHash` is the SHA-256 text of the lower-cased address.
SOURCE: terminal/routes_admin.py:584-598 -/
def addSuppression (emailHash : String → String) (now : String) (t : Suppressions)
    (email reason : String) : Except String (Suppressions × String × String) :=
  match SuppressionReason.ofText reason with
  | none => .error "bad reason"
  | some r =>
    let h := emailHash email
    .ok (t.insertOrIgnore h { reason := r, source := some "manual:admin", addedAt := now }, h, reason)

/-- `_suppressed_map`: the reason for every hash that blocks a send of this kind.
SOURCE: terminal/launch.py:507-516 -/
def suppressedMap (kind : SendKind) (t : Suppressions) (h : String) : Option SuppressionReason :=
  ((t h).filter fun r =>
    r.reason ≠ .unsubscribe || r.scope = .all || kind = .promotional).map (·.reason)

/-- What may record a suppression on the terminal; each is given the time it runs at. -/
inductive SuppressionOp where
  | mergeUnsubs (now : String) (unsubs : List UnsubIn)
  | suppressionEvent (now : String) (payload : SuppressionPayload)
  | hardBounce (now : String) (h : String)
  | addSuppression (now : String) (email reason : String)

/-- The table after one operation; a refused one leaves it alone. -/
def SuppressionOp.exec (emailHash : String → String) (t : Suppressions) :
    SuppressionOp → Suppressions
  | .mergeUnsubs now unsubs => (Model.mergeUnsubs now t unsubs).1
  | .suppressionEvent now payload => applySuppressionEvent now t payload
  | .hardBounce now h => suppressHardBounce now t h
  | .addSuppression now email reason =>
    match Model.addSuppression emailHash now t email reason with
    | .ok (t', _) => t'
    | .error _ => t

/-- The table after a run of operations on an empty one. -/
def suppressionRun (emailHash : String → String) (ops : List SuppressionOp) : Suppressions :=
  ops.foldl (SuppressionOp.exec emailHash) fun _ => none

end Mailman.Model
