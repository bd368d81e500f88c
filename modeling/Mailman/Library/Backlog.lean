import Mathlib.Data.List.Basic

/-!
# A backlog that is read from the front

Every round takes the first `w` items; those that fail stay in their place and are taken again.
`reach` says how far the rounds get: each goes on by what the failing items leave of `w`.
-/

set_option autoImplicit false

namespace Mailman.Library.Backlog

variable {α : Type} (fails : α → Bool) (w : ℕ)

/-- What one round leaves. -/
def round (l : List α) : List α := (l.take w).filter fails ++ l.drop w

/-- What a number of rounds leave. -/
def rounds : ℕ → List α → List α
  | 0, l => l
  | k + 1, l => round fails w (rounds k l)

/-- How many items of the start a number of rounds have taken. -/
def reach (l : List α) : ℕ → ℕ
  | 0 => 0
  | k + 1 => reach l k + (w - (l.take (reach l k)).countP fails)

variable {fails w} {l : List α}

/-- More rounds reach at least as far. -/
theorem reach_mono {j k : ℕ} (h : j ≤ k) : reach fails w l j ≤ reach fails w l k := by
  induction k with
  | zero => exact Nat.le_of_eq (congrArg _ (Nat.le_zero.mp h))
  | succ k ih =>
    by_cases hjk : j = k + 1
    · exact Nat.le_of_eq (congrArg _ hjk)
    · exact Nat.le_trans (ih (by omega)) (Nat.le_add_right _ _)

/-- A round on items that fail and items that were not taken yet. -/
theorem round_append {a b : List α} (ha : ∀ x ∈ a, fails x = true) :
    round fails w (a ++ b) =
      a ++ (b.take (w - a.length)).filter fails ++ b.drop (w - a.length) := by
  have hkept : ∀ c : List α, (∀ x ∈ c, fails x = true) → c.filter fails = c :=
    fun c hc => List.filter_eq_self.mpr hc
  unfold round
  rw [List.take_append, List.drop_append, List.filter_append,
    hkept (a.take w) fun x hx => ha x (List.mem_of_mem_take hx)]
  by_cases hw : a.length ≤ w
  · rw [List.take_of_length_le hw, List.drop_of_length_le hw, List.nil_append]
  · have hzero : w - a.length = 0 := by omega
    rw [hzero, List.take_zero, List.drop_zero, List.filter_nil, List.append_nil, List.append_nil,
      ← List.append_assoc, List.take_append_drop]

/-- After some rounds: the failing items among those that were taken, and the others. -/
theorem rounds_eq (k : ℕ) :
    rounds fails w k l =
      (l.take (reach fails w l k)).filter fails ++ l.drop (reach fails w l k) := by
  induction k with
  | zero => simp [rounds, reach]
  | succ k ih =>
    rw [rounds, ih, round_append fun x hx => (List.mem_filter.mp hx).2, ← List.countP_eq_length_filter,
      ← List.filter_append, List.drop_drop, reach]
    congr 2
    rw [List.take_add]

/-- Nothing but failing items is left exactly when there is nothing else past the reach. -/
theorem all_rounds_iff (k : ℕ) :
    (∀ x ∈ rounds fails w k l, fails x = true) ↔
      ∀ x ∈ l.drop (reach fails w l k), fails x = true := by
  rw [rounds_eq]
  constructor
  · intro h x hx
    exact h x (List.mem_append_right _ hx)
  · intro h x hx
    cases List.mem_append.mp hx with
    | inl htaken => exact (List.mem_filter.mp htaken).2
    | inr hleft => exact h x hleft

end Mailman.Library.Backlog
