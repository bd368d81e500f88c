import Mailman.Interface.SuppressionJoin

/-!
# When the suppression table is the join of its signals

Every writer of the table combines its signals with what is on record by `Signal.keep`, so
what the table says of a hash is the fold of that rule over the signals for it. The fold is
the join unless the first signal was promotional only and every stronger one came through
`INSERT OR IGNORE`.
-/

set_option autoImplicit false

namespace Mailman.Analysis

open Mailman.Model Mailman.Interface

/-- How much the table blocks for a hash. -/
def blocked (t : Suppressions) (h : String) : Option Strength :=
  (t h).map fun r => rowStrength r.reason r.scope

/-- An insert that may be ignored blocks as the code keeps. -/
theorem blocked_insertOrIgnore (t : Suppressions) (h : String) (row : SuppressionRow)
    (hrow : rowStrength row.reason row.scope = .everything) (h' : String) :
    blocked (t.insertOrIgnore h row) h' =
      ([⟨h, .everything, false⟩].filter (·.hash = h')).foldl Signal.keep (blocked t h') := by
  unfold Suppressions.insertOrIgnore blocked
  rcases eq_or_ne h h' with rfl | hne
  · cases ht : t h <;> simp [ht, Signal.keep, hrow]
  · cases ht : t h <;> simp [hne, Function.update_of_ne hne.symm]

/-- A pulled row leaves every other hash alone. -/
theorem mergeUnsub_ne (now : String) (t : Suppressions) (n : ℕ) (u : UnsubIn) {h : String}
    (hne : u.emailHash.getD "" ≠ h) : (mergeUnsub now (t, n) u).1 h = t h := by
  unfold mergeUnsub
  dsimp only
  split
  · rfl
  · split
    · simp [Function.update_of_ne hne.symm]
    · split <;> simp [Function.update_of_ne hne.symm]

/-- What a pulled row makes of the row its hash had. -/
theorem mergeUnsub_self (now : String) (t : Suppressions) (n : ℕ) (u : UnsubIn)
    (h0 : u.emailHash.getD "" ≠ "") :
    blocked (mergeUnsub now (t, n) u).1 (u.emailHash.getD "") =
      Signal.join (blocked t (u.emailHash.getD ""))
        ⟨u.emailHash.getD "", rowStrength .unsubscribe (.ofText u.scope), true⟩ := by
  unfold mergeUnsub blocked Signal.join
  dsimp only
  rw [if_neg h0]
  generalize u.emailHash.getD "" = k
  cases ht : t k with
  | none => cases UnsubScope.ofText u.scope <;> simp [rowStrength]
  | some row =>
    obtain ⟨reason, scope, source, addedAt⟩ := row
    cases UnsubScope.ofText u.scope <;> cases scope <;> by_cases hr : reason = .unsubscribe <;>
      simp [ht, rowStrength, hr]

/-- One pulled row is kept as its signal. -/
theorem blocked_mergeUnsub (now : String) (t : Suppressions) (n : ℕ) (u : UnsubIn) (h : String) :
    blocked (mergeUnsub now (t, n) u).1 h =
      ((unsubSignal u).toList.filter (·.hash = h)).foldl Signal.keep (blocked t h) := by
  unfold unsubSignal
  by_cases h0 : u.emailHash.getD "" = ""
  · simp [h0, mergeUnsub]
  · rw [if_neg h0, Option.toList_some]
    rcases eq_or_ne (u.emailHash.getD "") h with rfl | hne
    · simp [mergeUnsub_self now t n u h0, join_of_merged]
    · have hother := mergeUnsub_ne now t n u hne
      simp [blocked, hother, hne]

/-- Merged unsubscribes block as they are joined. -/
theorem blocked_mergeUnsubs (now : String) (unsubs : List UnsubIn) (t : Suppressions) (n : ℕ)
    (h : String) :
    blocked (unsubs.foldl (mergeUnsub now) (t, n)).1 h =
      ((unsubs.filterMap unsubSignal).filter (·.hash = h)).foldl Signal.keep (blocked t h) := by
  induction unsubs generalizing t n with
  | nil => rfl
  | cons u unsubs ih =>
    have hu := blocked_mergeUnsub now t n u h
    rw [List.foldl_cons, ih, hu]
    cases hs : unsubSignal u with
    | none => simp [hs]
    | some s => by_cases hk : s.hash = h <;> simp [hs, hk]

/-- An event of the inbox blocks as the code keeps. -/
theorem blocked_applySuppressionEvent (now : String) (t : Suppressions) (p : SuppressionPayload)
    (h : String) :
    blocked (applySuppressionEvent now t p) h =
      ((payloadSignal p).toList.filter (·.hash = h)).foldl Signal.keep (blocked t h) := by
  unfold applySuppressionEvent payloadSignal
  dsimp only
  by_cases h0 : p.emailHash.getD "" = ""
  · simp [h0]
  · rw [if_neg h0, if_neg h0]
    cases (p.reason.getD (some "unsubscribe")).bind SuppressionReason.ofText with
    | none => simp
    | some reason =>
      rcases p.addedAt with - | - | addedAt
      · exact blocked_insertOrIgnore t _ _ (by simp [rowStrength]) h
      · simp
      · exact blocked_insertOrIgnore t _ _ (by simp [rowStrength]) h

variable (emailHash : String → String)

/-- Every operation keeps its signals. -/
theorem blocked_exec (t : Suppressions) (op : SuppressionOp) (h : String) :
    blocked (op.exec emailHash t) h =
      ((signals emailHash op).filter (·.hash = h)).foldl Signal.keep (blocked t h) := by
  cases op with
  | mergeUnsubs now unsubs => exact blocked_mergeUnsubs now unsubs t 0 h
  | suppressionEvent now p => exact blocked_applySuppressionEvent now t p h
  | hardBounce now k => exact blocked_insertOrIgnore t k _ (by simp [rowStrength]) h
  | addSuppression now email reason =>
    unfold SuppressionOp.exec signals addSuppression
    dsimp only
    cases SuppressionReason.ofText reason with
    | none => simp
    | some r => exact blocked_insertOrIgnore t (emailHash email) _ (by simp [rowStrength]) h

/-- What is on record after a run: its signals, kept one after the other. -/
theorem blocked_suppressionRun (ops : List SuppressionOp) (h : String) :
    blocked (suppressionRun emailHash ops) h =
      (signalsFor emailHash ops h).foldl Signal.keep none := by
  have hrun : ∀ (ops : List SuppressionOp) (t : Suppressions),
      blocked (ops.foldl (SuppressionOp.exec emailHash) t) h =
        (signalsFor emailHash ops h).foldl Signal.keep (blocked t h) := by
    intro ops
    induction ops with
    | nil => intro t; rfl
    | cons op ops ih =>
      intro t
      rw [List.foldl_cons, ih, blocked_exec]
      simp [signalsFor, List.foldl_append]
  exact hrun ops _

/-- A promotional mail is suppressed by anything that blocks. -/
theorem suppressedMap_promotional (t : Suppressions) (h : String) :
    (suppressedMap .promotional t h).isSome ↔ (blocked t h).isSome := by
  unfold suppressedMap blocked
  cases t h <;> simp

/-- A transactional mail is suppressed by what blocks everything. -/
theorem suppressedMap_transactional (t : Suppressions) (h : String) :
    (suppressedMap .transactional t h).isSome ↔ blocked t h = some .everything := by
  unfold suppressedMap blocked
  cases ht : t h with
  | none => simp
  | some row =>
    obtain ⟨reason, scope, source, addedAt⟩ := row
    cases reason <;> cases scope <;> simp [rowStrength, Option.filter]

/-- What the reader is asked to say after a run: it blocks promotional mail for every hash a
signal was recorded for, and transactional mail when some signal blocks everything. -/
def BlocksAsRecorded (ops : List SuppressionOp) (h : String) : Prop :=
  ((suppressedMap .promotional (suppressionRun emailHash ops) h).isSome ↔
    signalsFor emailHash ops h ≠ []) ∧
  ((suppressedMap .transactional (suppressionRun emailHash ops) h).isSome ↔
    ∃ s ∈ signalsFor emailHash ops h, s.strength = .everything)

/-- The signals of one hash do not depend on a raise that nobody makes: the first one blocks
everything, or none does, or one that does is merged. -/
def RaisedByMerge (l : List Signal) : Prop :=
  ∀ s ∈ l.head?, s.strength = .promotional → (∃ s ∈ l, s.strength = .everything) →
    ∃ s ∈ l, s.strength = .everything ∧ s.merged = true

/-- The code's rule is the join exactly on such lists. -/
theorem foldl_keep_eq_join_iff (l : List Signal) :
    l.foldl Signal.keep none = l.foldl Signal.join none ↔ RaisedByMerge l := by
  rw [strength_ext, foldl_keep_isSome, foldl_join_isSome, foldl_join_eq_everything]
  cases l with
  | nil => simp [RaisedByMerge]
  | cons s l =>
    have hfirst : (s :: l).foldl Signal.keep none = l.foldl Signal.keep (some s.strength) := rfl
    rw [hfirst]
    cases hs : s.strength with
    | everything => simp [foldl_keep_everything, RaisedByMerge, hs]
    | promotional =>
      rw [foldl_keep_promotional]
      simp only [RaisedByMerge, List.head?_cons, Option.mem_some_iff, forall_eq', hs, true_imp_iff,
        List.mem_cons, exists_eq_or_imp, reduceCtorEq, false_and, false_or, true_and]
      constructor
      · intro h he
        exact h.mpr he
      · intro h
        exact ⟨fun ⟨s, hm, he, _⟩ => ⟨s, hm, he⟩, h⟩

/-- The reader says what was recorded when the table holds the join of the signals. -/
theorem blocksAsRecorded_iff_join (ops : List SuppressionOp) (h : String) :
    BlocksAsRecorded emailHash ops h ↔
      blocked (suppressionRun emailHash ops) h =
        (signalsFor emailHash ops h).foldl Signal.join none := by
  unfold BlocksAsRecorded
  rw [suppressedMap_promotional, suppressedMap_transactional,
    strength_ext (blocked _ _) (List.foldl _ _ _), foldl_join_isSome, foldl_join_eq_everything]
  simp

/-- **When suppression is a join**: after a run of the four writers the reader blocks exactly
what was recorded if and only if, for every hash, a promotional unsubscribe on record first is
never followed by stronger signals that all came through `INSERT OR IGNORE`.
SOURCE: terminal/launch.py:507-516, terminal/sync_client.py:113-149, 555-591,
terminal/routes_admin.py:584-598 -/
theorem blocksAsRecorded_iff (ops : List SuppressionOp) :
    (∀ h, BlocksAsRecorded emailHash ops h) ↔
      ∀ h, RaisedByMerge (signalsFor emailHash ops h) := by
  refine forall_congr' fun h => ?_
  rw [blocksAsRecorded_iff_join, blocked_suppressionRun, foldl_keep_eq_join_iff]

/-- A complaint about an address whose promotional unsubscribe was pulled before is dropped,
and a transactional mail still goes there. -/
theorem not_blocksAsRecorded_complaint :
    ¬ ∀ h, BlocksAsRecorded id
      [.mergeUnsubs "t0" [{ emailHash := some "h", scope := some "promotional" }],
       .suppressionEvent "t1" { emailHash := some "h", reason := some (some "complaint") }] h := by
  intro hall
  have h := (hall "h").2
  revert h
  decide

end Mailman.Analysis
