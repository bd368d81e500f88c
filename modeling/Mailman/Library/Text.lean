import Mathlib.Data.List.DropRight

/-!
# Strings the way Python handles them

`str.strip` with and without an argument, `str.isspace`, the part of a string after a prefix,
and strings joined with a separator. Strings are worked on as the list of their characters.
-/

set_option autoImplicit false

namespace Mailman.Library.Text

/-- `str.isspace` of one character. -/
def isSpace (c : Char) : Bool :=
  let n := c.toNat
  (9 ≤ n && n ≤ 13) || (28 ≤ n && n ≤ 32) || n = 0x85 || n = 0xA0 || n = 0x1680 ||
    (0x2000 ≤ n && n ≤ 0x200A) || n = 0x2028 || n = 0x2029 || n = 0x202F || n = 0x205F || n = 0x3000

/-- Both ends without the characters that meet `p`. -/
def stripBy (p : Char → Bool) (s : String) : String :=
  .ofList ((s.toList.dropWhile p).rdropWhile p)

/-- `str.strip()`. -/
def strip (s : String) : String := stripBy isSpace s

/-- What follows a prefix, if the string has it. -/
def afterPrefix (pre s : String) : Option String :=
  (pre.toList.isPrefixOf? s.toList).map .ofList

/-- `str.isascii`. -/
def isAscii (s : String) : Bool := s.toList.all fun c => c.toNat < 128

/-- `str.count` of a character. -/
def count (c : Char) (s : String) : ℕ := s.toList.count c

variable {p : Char → Bool} {s : String}

/-- A text without such characters is stripped of nothing. -/
theorem stripBy_eq_self (h : ∀ c ∈ s.toList, p c = false) : stripBy p s = s := by
  have hleft : s.toList.dropWhile p = s.toList := by
    apply List.dropWhile_eq_self_iff.mpr
    intro hl
    simp [h _ (List.getElem_mem hl)]
  have hright : s.toList.rdropWhile p = s.toList := by
    apply List.rdropWhile_eq_self_iff.mpr
    intro hl
    simp [h _ (List.getLast_mem hl)]
  rw [stripBy, hleft, hright, String.ofList_toList]

/-- A prefix is taken off. -/
theorem isPrefixOf?_append (l t : List Char) : l.isPrefixOf? (l ++ t) = some t := by
  induction l with
  | nil => rfl
  | cons c l ih => simp [List.isPrefixOf?, ih]

/-- A prefix is taken off a text. -/
@[simp] theorem afterPrefix_append (pre s : String) : afterPrefix pre (pre ++ s) = some s := by
  rw [afterPrefix, String.toList_append, isPrefixOf?_append, Option.map_some, String.ofList_toList]

/-! ## Joined strings -/

/-- Where a list is cut at an `x`, its front is known by how many `x` it holds. -/
theorem append_cons_inj {α : Type} [DecidableEq α] {x : α} {a b l m : List α}
    (hcount : a.count x = b.count x) (h : a ++ x :: l = b ++ x :: m) : a = b ∧ l = m := by
  induction a generalizing b with
  | nil =>
    cases b with
    | nil => exact ⟨rfl, (List.cons.inj h).2⟩
    | cons y b =>
      obtain ⟨rfl, -⟩ := List.cons.inj h
      simp at hcount
  | cons y a ih =>
    cases b with
    | nil =>
      obtain ⟨rfl, -⟩ := List.cons.inj h
      simp at hcount
    | cons z b =>
      obtain ⟨rfl, htail⟩ := List.cons.inj h
      have hcount' : a.count x = b.count x := by
        rw [List.count_cons, List.count_cons] at hcount
        omega
      obtain ⟨rfl, rfl⟩ := ih hcount' htail
      exact ⟨rfl, rfl⟩

/-- Two strings that are joined with a separator are told apart by how often the first holds it. -/
theorem join_inj {c : Char} {a b u v : String} (hcount : count c a = count c b)
    (h : a ++ String.singleton c ++ u = b ++ String.singleton c ++ v) : a = b ∧ u = v := by
  have hlist : a.toList ++ c :: u.toList = b.toList ++ c :: v.toList := by
    simpa using congrArg String.toList h
  obtain ⟨hfront, hback⟩ := append_cons_inj hcount hlist
  exact ⟨String.toList_inj.mp hfront, String.toList_inj.mp hback⟩

end Mailman.Library.Text
