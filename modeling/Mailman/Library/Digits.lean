import Mathlib.Algebra.Order.Ring.Nat
import Mathlib.Data.Nat.Notation
import Mathlib.Order.Defs.LinearOrder
import Mathlib.Data.List.Basic
import Mathlib.Tactic.SplitIfs

/-!
# Numbers of a fixed width

`fixed w n` is `n` in `w` decimal digits with leading zeros. Texts that start with such numbers
compare as the numbers do, and where these agree as what follows does (`fixed_append_lt_iff`);
`readNumber` reads the number back.
-/

set_option autoImplicit false

namespace Mailman.Library

/-- The last `w` decimal digits of a number. -/
def fixed : ℕ → ℕ → List Char
  | 0, _ => []
  | w + 1, n => fixed w (n / 10) ++ [Nat.digitChar (n % 10)]

def isDecimal (c : Char) : Bool := 48 ≤ c.toNat ∧ c.toNat ≤ 57

/-- The number that a text of digits is; nothing else is read. -/
def readNumber (cs : List Char) : Option ℕ :=
  if cs ≠ [] ∧ cs.all isDecimal then some (cs.foldl (fun n c => n * 10 + (c.toNat - 48)) 0)
  else none

variable {w n m : ℕ} {s t : List Char}

/-- A number in a fixed width has it. -/
@[simp] theorem length_fixed (w n : ℕ) : (fixed w n).length = w := by
  induction w generalizing n with
  | zero => rfl
  | succ w ih => simp [fixed, ih]

/-- The code of a digit. -/
theorem toNat_digitChar {v : ℕ} (hv : v < 10) : (Nat.digitChar v).toNat = 48 + v :=
  Nat.toNat_digitChar_of_lt_ten hv

/-- A digit is decimal. -/
theorem isDecimal_digitChar {v : ℕ} (hv : v < 10) : isDecimal (Nat.digitChar v) = true := by
  unfold isDecimal
  rw [toNat_digitChar hv]
  apply decide_eq_true
  omega

/-- A number in a fixed width is of digits. -/
theorem isDecimal_fixed (w n : ℕ) : (fixed w n).all isDecimal = true := by
  induction w generalizing n with
  | zero => rfl
  | succ w ih =>
    rw [fixed, List.all_append, ih, List.all_cons, isDecimal_digitChar (Nat.mod_lt _ (by omega))]
    rfl

/-- Reading the digits gives the number. -/
theorem foldl_fixed (h : n < 10 ^ w) (start : ℕ) :
    (fixed w n).foldl (fun n c => n * 10 + (c.toNat - 48)) start = start * 10 ^ w + n := by
  induction w generalizing n with
  | zero =>
    have hzero : n = 0 := by simpa using h
    simp [fixed, hzero]
  | succ w ih =>
    have hdiv : n / 10 < 10 ^ w := by
      rw [Nat.pow_succ] at h
      omega
    have hmod : n % 10 < 10 := Nat.mod_lt _ (by omega)
    rw [fixed, List.foldl_append, ih hdiv, List.foldl_cons, List.foldl_nil, toNat_digitChar hmod,
      Nat.pow_succ]
    have hsplit : n = n / 10 * 10 + n % 10 := by omega
    calc (start * 10 ^ w + n / 10) * 10 + (48 + n % 10 - 48)
        = start * 10 ^ w * 10 + (n / 10 * 10 + n % 10) := by
          rw [Nat.add_mul, Nat.add_sub_cancel_left, Nat.add_assoc]
      _ = start * (10 ^ w * 10) + n := by rw [← hsplit, Nat.mul_assoc]

/-- A number is read back. -/
theorem readNumber_fixed (hw : 0 < w) (h : n < 10 ^ w) : readNumber (fixed w n) = some n := by
  have hne : fixed w n ≠ [] := by
    intro hnil
    have hlen := length_fixed w n
    rw [hnil, List.length_nil] at hlen
    omega
  unfold readNumber
  rw [if_pos ⟨hne, isDecimal_fixed w n⟩, foldl_fixed h]
  simp

/-! ## Order -/

/-- After beginnings of one length, texts compare by what follows only where these agree. -/
theorem append_lt_append_iff {a b : List Char} (h : a.length = b.length) :
    a ++ s < b ++ t ↔ a < b ∨ a = b ∧ s < t := by
  induction a generalizing b with
  | nil =>
    have hb : b = [] := List.length_eq_zero_iff.mp h.symm
    simp [hb]
  | cons c a ih =>
    cases b with
    | nil => simp at h
    | cons d b =>
      have hlen : a.length = b.length := by simpa using h
      rw [List.cons_append, List.cons_append, List.cons_lt_cons_iff, List.cons_lt_cons_iff, ih hlen,
        List.cons.injEq]
      tauto

/-- Digits are in the order of their values. -/
theorem digitChar_lt_iff {u v : ℕ} (hu : u < 10) (hv : v < 10) :
    Nat.digitChar u < Nat.digitChar v ↔ u < v := by
  have hlt : Nat.digitChar u < Nat.digitChar v ↔
      (Nat.digitChar u).toNat < (Nat.digitChar v).toNat := Iff.rfl
  rw [hlt, toNat_digitChar hu, toNat_digitChar hv]
  omega

/-- In one width the digits determine the number. -/
theorem fixed_inj (hn : n < 10 ^ w) (hm : m < 10 ^ w) : fixed w n = fixed w m ↔ n = m := by
  constructor
  · intro h
    have hread := foldl_fixed hn 0
    rw [h, foldl_fixed hm 0] at hread
    omega
  · exact fun h => congrArg (fixed w) h

/-- In one width the digits are in the order of the numbers. -/
theorem fixed_lt_iff (hn : n < 10 ^ w) (hm : m < 10 ^ w) : fixed w n < fixed w m ↔ n < m := by
  induction w generalizing n m with
  | zero =>
    have hzero : n = 0 ∧ m = 0 := by simp at hn hm; exact ⟨hn, hm⟩
    simp [fixed, hzero.1, hzero.2]
  | succ w ih =>
    rw [Nat.pow_succ] at hn hm
    have hn' : n / 10 < 10 ^ w := by omega
    have hm' : m / 10 < 10 ^ w := by omega
    have hlen : (fixed w (n / 10)).length = (fixed w (m / 10)).length := by simp
    have hlast : [Nat.digitChar (n % 10)] < [Nat.digitChar (m % 10)] ↔ n % 10 < m % 10 := by
      rw [List.cons_lt_cons_iff, digitChar_lt_iff (Nat.mod_lt _ (by omega)) (Nat.mod_lt _ (by omega))]
      simp
    rw [fixed, fixed, append_lt_append_iff hlen, ih hn' hm', fixed_inj hn' hm', hlast]
    omega

/-- What follows the digits decides between equal numbers. -/
theorem fixed_append_lt_iff (hn : n < 10 ^ w) (hm : m < 10 ^ w) (c : Char) :
    fixed w n ++ c :: s < fixed w m ++ c :: t ↔ n < m ∨ n = m ∧ s < t := by
  have hlen : (fixed w n).length = (fixed w m).length := by simp
  have hrest : c :: s < c :: t ↔ s < t := by
    rw [List.cons_lt_cons_iff]
    simp
  rw [append_lt_append_iff hlen, fixed_lt_iff hn hm, fixed_inj hn hm, hrest]

end Mailman.Library
