import Mathlib.Data.List.Basic
import Mathlib.Data.UInt

/-!
# Base64 with a lenient reader

The writer puts three bytes into four characters. The reader is the lenient one: it skips
characters outside the alphabet, and it stops as soon as a group of four is complete with its
padding, whatever comes after. What is written, padded, is read back (`decode_encode_pad`).
-/

set_option autoImplicit false

namespace Mailman.Library.Base64

/-- The 64 digits in the order of their values. -/
def digits : List Char :=
  "ABCDEFGHIJKLMNOPQRSTUVWXYZabcdefghijklmnopqrstuvwxyz0123456789+/".toList

/-- The digit of a value below 64. -/
def digit (v : ℕ) : Char := digits.getD v 'A'

/-- The value of a digit. -/
def sextet (c : Char) : Option ℕ := digits.idxOf? c

/-- The digits of a text of bytes, without padding. -/
def encode : List UInt8 → List Char
  | [] => []
  | [a] => [digit (a.toNat / 4), digit (a.toNat % 4 * 16)]
  | [a, b] =>
    [digit (a.toNat / 4), digit (a.toNat % 4 * 16 + b.toNat / 16), digit (b.toNat % 16 * 4)]
  | a :: b :: c :: bs =>
    digit (a.toNat / 4) :: digit (a.toNat % 4 * 16 + b.toNat / 16) ::
      digit (b.toNat % 16 * 4 + c.toNat / 64) :: digit (c.toNat % 64) :: encode bs

/-- The padding that makes a length a multiple of four. -/
def padding (n : ℕ) : List Char := List.replicate ((4 - n % 4) % 4) '='

/-- How much of a group of four the reader has seen: the bits it has not used yet, and after two
digits whether a padding character followed them. -/
inductive Group where
  | none
  | one (left : ℕ)
  | two (left : ℕ) (padded : Bool)
  | three (left : ℕ)
  deriving DecidableEq, Repr

/-- The byte of a number below 256. -/
def byte (n : ℕ) : UInt8 := UInt8.ofNat n

/-- The next digit: the group after it and the byte it completes. -/
def Group.take : Group → ℕ → Group × Option UInt8
  | .none, v => (.one v, Option.none)
  | .one left, v => (.two (v % 16) false, some (byte (left * 4 + v / 16)))
  | .two left _, v => (.three (v % 4), some (byte (left * 16 + v / 4)))
  | .three left, v => (.none, some (byte (left * 64 + v)))

/-- A padding character: the group after it, or `none` where the group is complete. -/
def Group.pad : Group → Option Group
  | .two left false => some (.two left true)
  | .two _ true => Option.none
  | .three _ => Option.none
  | g => some g

/-- What the reader makes of the rest; `none` is an incomplete last group. -/
def decodeFrom : Group → List Char → Option (List UInt8)
  | g, [] => if g = .none then some [] else Option.none
  | g, c :: cs =>
    if c = '=' then
      match g.pad with
      | Option.none => some []
      | some g => decodeFrom g cs
    else
      match sextet c with
      | Option.none => decodeFrom g cs
      | some v => (decodeFrom (g.take v).1 cs).map ((g.take v).2.toList ++ ·)

/-- The lenient reader. -/
def decode (cs : List Char) : Option (List UInt8) := decodeFrom .none cs

/-! ## What is written is read back -/

/-- A digit is no padding and is read back. -/
theorem digit_spec {v : ℕ} (hv : v < 64) : digit v ≠ '=' ∧ sextet (digit v) = some v := by
  have hall : ∀ w : Fin 64, digit w ≠ '=' ∧ sextet (digit w) = some w.val := by decide +kernel
  exact hall ⟨v, hv⟩

/-- A digit is taken into the group. -/
theorem decodeFrom_digit {v : ℕ} (hv : v < 64) (g : Group) (cs : List Char) :
    decodeFrom g (digit v :: cs) =
      (decodeFrom (g.take v).1 cs).map ((g.take v).2.toList ++ ·) := by
  obtain ⟨hpad, hval⟩ := digit_spec hv
  rw [decodeFrom, if_neg hpad, hval]

/-- A byte is read from its value. -/
theorem byte_of_eq {n : ℕ} {a : UInt8} (h : n = a.toNat) : byte n = a := by
  rw [byte, h, UInt8.ofNat_toNat]

/-- A full group of four digits is the three bytes it was written from. -/
theorem decodeFrom_group (a b c : UInt8) (cs : List Char) :
    decodeFrom .none (digit (a.toNat / 4) :: digit (a.toNat % 4 * 16 + b.toNat / 16) ::
      digit (b.toNat % 16 * 4 + c.toNat / 64) :: digit (c.toNat % 64) :: cs) =
        (decodeFrom .none cs).map (a :: b :: c :: ·) := by
  have ha := a.toNat_lt
  have hb := b.toNat_lt
  have hc := c.toNat_lt
  rw [decodeFrom_digit (by omega), decodeFrom_digit (by omega), decodeFrom_digit (by omega),
    decodeFrom_digit (by omega)]
  have hfirst : byte (a.toNat / 4 * 4 + (a.toNat % 4 * 16 + b.toNat / 16) / 16) = a :=
    byte_of_eq (by omega)
  have hsecond : byte ((a.toNat % 4 * 16 + b.toNat / 16) % 16 * 16 +
      (b.toNat % 16 * 4 + c.toNat / 64) / 4) = b := byte_of_eq (by omega)
  have hthird : byte ((b.toNat % 16 * 4 + c.toNat / 64) % 4 * 64 + c.toNat % 64) = c :=
    byte_of_eq (by omega)
  simp only [Group.take, hfirst, hsecond, hthird, Option.toList, Option.map_map]
  rfl

/-- Encoded bytes are decoded with more padding. -/
theorem decode_encode_pad (bs : List UInt8) :
    decode (encode bs ++ padding (encode bs).length) = some bs := by
  unfold decode
  induction bs using encode.induct with
  | case1 => rfl
  | case2 a =>
    have ha := a.toNat_lt
    simp only [encode, List.cons_append, List.nil_append]
    rw [decodeFrom_digit (by omega), decodeFrom_digit (by omega)]
    have hbyte : byte (a.toNat / 4 * 4 + a.toNat % 4 * 16 / 16) = a := byte_of_eq (by omega)
    simp only [Group.take, hbyte]
    rfl
  | case3 a b =>
    have ha := a.toNat_lt
    have hb := b.toNat_lt
    simp only [encode, List.cons_append, List.nil_append]
    rw [decodeFrom_digit (by omega), decodeFrom_digit (by omega), decodeFrom_digit (by omega)]
    have hfirst : byte (a.toNat / 4 * 4 + (a.toNat % 4 * 16 + b.toNat / 16) / 16) = a :=
      byte_of_eq (by omega)
    have hsecond : byte ((a.toNat % 4 * 16 + b.toNat / 16) % 16 * 16 + b.toNat % 16 * 4 / 4) = b :=
      byte_of_eq (by omega)
    simp only [Group.take, hfirst, hsecond]
    rfl
  | case4 a b c bs ih =>
    have hpad : padding (encode (a :: b :: c :: bs)).length = padding (encode bs).length := by
      simp only [encode, List.length_cons, padding]
      congr 1
      omega
    rw [hpad]
    simp only [encode, List.cons_append]
    rw [decodeFrom_group, ih, Option.map_some]

/-- Only digits are written. -/
theorem mem_encode {bs : List UInt8} {c : Char} (h : c ∈ encode bs) : ∃ v < 64, c = digit v := by
  induction bs using encode.induct with
  | case1 => cases h
  | case2 a =>
    have ha := a.toNat_lt
    simp only [encode, List.mem_cons, List.not_mem_nil, or_false] at h
    rcases h with rfl | rfl
    · exact ⟨_, by omega, rfl⟩
    · exact ⟨_, by omega, rfl⟩
  | case3 a b =>
    have ha := a.toNat_lt
    have hb := b.toNat_lt
    simp only [encode, List.mem_cons, List.not_mem_nil, or_false] at h
    rcases h with rfl | rfl | rfl
    · exact ⟨_, by omega, rfl⟩
    · exact ⟨_, by omega, rfl⟩
    · exact ⟨_, by omega, rfl⟩
  | case4 a b c bs ih =>
    have ha := a.toNat_lt
    have hb := b.toNat_lt
    have hc := c.toNat_lt
    simp only [encode, List.mem_cons] at h
    rcases h with rfl | rfl | rfl | rfl | h
    · exact ⟨_, by omega, rfl⟩
    · exact ⟨_, by omega, rfl⟩
    · exact ⟨_, by omega, rfl⟩
    · exact ⟨_, by omega, rfl⟩
    · exact ih h

end Mailman.Library.Base64
