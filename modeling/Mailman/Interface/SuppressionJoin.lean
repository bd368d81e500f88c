import Mailman.Model.Suppression

/-!
# What suppression is for

A suppression signal blocks either promotional mail or everything, and what is on record
for an address is meant to be the strongest signal there was: a join, whatever the order
and the repetitions. `Signal.join` says that; `Signal.keep` is the rule by which the
terminal's writers really combine a signal with what is on record, which only the merge of
pulled unsubscribes does as a join.
-/

set_option autoImplicit false

namespace Mailman.Interface

open Mailman.Model

/-- How much a suppression signal blocks. -/
inductive Strength where
  | promotional
  | everything
  deriving DecidableEq, Repr

/-- A signal for one hash; `merged` when `_merge_unsubs` records it. -/
structure Signal where
  hash : String
  strength : Strength
  merged : Bool
  deriving DecidableEq, Repr

/-- A row blocks promotional mail only when it is an unsubscribe of that scope. -/
def rowStrength (reason : SuppressionReason) (scope : UnsubScope) : Strength :=
  if reason = .unsubscribe ∧ scope = .promotional then .promotional else .everything

/-- The signal of one pulled unsubscribe; a row without a hash carries none. -/
def unsubSignal (u : UnsubIn) : Option Signal :=
  if u.emailHash.getD "" = "" then none
  else some ⟨u.emailHash.getD "", rowStrength .unsubscribe (.ofText u.scope), true⟩

/-- The signal of a suppression payload. A payload without a hash, with a reason the schema
does not know or with a null time carries none. -/
def payloadSignal (payload : SuppressionPayload) : Option Signal :=
  if payload.emailHash.getD "" = "" then none
  else match (payload.reason.getD (some "unsubscribe")).bind SuppressionReason.ofText,
      payload.addedAt with
    | some _, none | some _, some (some _) => some ⟨payload.emailHash.getD "", .everything, false⟩
    | _, _ => none

/-- The signals an operation records. An operation that records an unsubscribe without a
scope records one of scope `all`, the column's default. -/
def signals (emailHash : String → String) : SuppressionOp → List Signal
  | .mergeUnsubs _ unsubs => unsubs.filterMap unsubSignal
  | .suppressionEvent _ payload => (payloadSignal payload).toList
  | .hardBounce _ h => [⟨h, .everything, false⟩]
  | .addSuppression _ email reason =>
    if (SuppressionReason.ofText reason).isSome then [⟨emailHash email, .everything, false⟩]
    else []

/-- The signals for one hash, in the order they were recorded. -/
def signalsFor (emailHash : String → String) (ops : List SuppressionOp) (h : String) :
    List Signal :=
  (ops.flatMap (signals emailHash)).filter (·.hash = h)

/-- The join of what is on record and one more signal. -/
def Signal.join (b : Option Strength) (s : Signal) : Option Strength :=
  if b = some .everything ∨ s.strength = .everything then some .everything
  else some .promotional

/-- What the code keeps on record: the first signal, raised only by a merged one. -/
def Signal.keep (b : Option Strength) (s : Signal) : Option Strength :=
  match b with
  | none => some s.strength
  | some b => if s.merged then Signal.join (some b) s else some b

/-- A merged signal is kept as it is joined. -/
theorem join_of_merged {s : Signal} (h : s.merged = true) (b : Option Strength) :
    s.keep b = s.join b := by
  cases b with
  | some b => simp [Signal.keep, h]
  | none => cases hs : s.strength <;> simp [Signal.keep, Signal.join, hs]

/-- The join is `everything` exactly when some signal is. -/
theorem foldl_join_eq_everything (l : List Signal) (b : Option Strength) :
    l.foldl Signal.join b = some .everything ↔
      b = some .everything ∨ ∃ s ∈ l, s.strength = .everything := by
  induction l generalizing b with
  | nil => simp
  | cons s l ih =>
    rw [List.foldl_cons, ih]
    by_cases hb : b = some .everything ∨ s.strength = .everything
    · have : s.join b = some .everything := if_pos hb
      rcases hb with rfl | hb
      · simp [this]
      · simp [this, hb]
    · have : s.join b = some .promotional := if_neg hb
      rw [not_or] at hb
      simp [this, hb.1, hb.2]

/-- Something is on record as soon as there was a signal. -/
theorem foldl_join_isSome (l : List Signal) (b : Option Strength) :
    (l.foldl Signal.join b).isSome ↔ b.isSome ∨ l ≠ [] := by
  induction l generalizing b with
  | nil => simp
  | cons s l ih =>
    rw [List.foldl_cons, ih]
    simp [Signal.join, apply_ite Option.isSome]

/-- What is on record is known from whether it is there and whether it blocks everything. -/
theorem strength_ext (b b' : Option Strength) :
    b = b' ↔ (b.isSome ↔ b'.isSome) ∧ (b = some .everything ↔ b' = some .everything) := by
  rcases b with - | - | - <;> rcases b' with - | - | - <;> simp

/-- Nothing on record is lost: the code keeps something as soon as there was a signal. -/
theorem foldl_keep_isSome (l : List Signal) (b : Option Strength) :
    (l.foldl Signal.keep b).isSome ↔ b.isSome ∨ l ≠ [] := by
  induction l generalizing b with
  | nil => simp
  | cons s l ih =>
    rw [List.foldl_cons, ih]
    cases b <;> simp [Signal.keep, Signal.join, apply_ite Option.isSome]

/-- What blocks everything stays. -/
theorem foldl_keep_everything (l : List Signal) :
    l.foldl Signal.keep (some .everything) = some .everything := by
  induction l with
  | nil => rfl
  | cons s l ih => simpa [Signal.keep, Signal.join] using ih

/-- From a promotional row only a merged signal reaches `everything`. -/
theorem foldl_keep_promotional (l : List Signal) :
    l.foldl Signal.keep (some .promotional) = some .everything ↔
      ∃ s ∈ l, s.strength = .everything ∧ s.merged = true := by
  induction l with
  | nil => simp
  | cons s l ih =>
    by_cases hs : s.strength = .everything ∧ s.merged = true
    · have : s.keep (some .promotional) = some .everything := by
        simp [Signal.keep, Signal.join, hs]
      simp [this, foldl_keep_everything, hs]
    · have : s.keep (some .promotional) = some .promotional := by
        simp only [Signal.keep, Signal.join]
        grind
      simp [this, ih]
      grind

end Mailman.Interface
