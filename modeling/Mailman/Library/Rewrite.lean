import Mathlib.Data.List.Infix

/-!
# A text rewritten from left to right

What `str.replace` and `re.sub` have in common: at each place a rule either takes some symbols and
says what stands for them, or leaves the symbol there. What is written is never read again.
-/

set_option autoImplicit false

namespace Mailman.Library

variable {α β : Type}

/-- What a rule finds at the front of a text: how many symbols it takes, and what they become. -/
abbrev Rule (α β : Type) := List α → Option (ℕ × List β)

/-- The rewriting, with so many symbols still to be passed over. -/
def scan (rule : Rule α β) (keep : α → List β) : ℕ → List α → List β
  | _, [] => []
  | skip + 1, _ :: s => scan rule keep skip s
  | 0, c :: s =>
    match rule (c :: s) with
    | some (n, out) => out ++ scan rule keep (n - 1) s
    | none => keep c ++ scan rule keep 0 s

/-- A text with every match of a rule rewritten. -/
def rewrite (rule : Rule α β) (keep : α → List β) (s : List α) : List β := scan rule keep 0 s

variable {rule : Rule α β} {keep : α → List β} {s r : List α}

/-- The empty text has nothing to rewrite. -/
@[simp] theorem rewrite_nil : rewrite rule keep [] = [] := rfl

/-- A scan skips what was taken. -/
theorem scan_eq (n : ℕ) (s : List α) : scan rule keep n s = rewrite rule keep (s.drop n) := by
  induction n generalizing s with
  | zero => rfl
  | succ n ih =>
    cases s with
    | nil => rfl
    | cons c s => exact ih s

/-- A character where the rule takes nothing is kept. -/
theorem rewrite_keep {c : α} (h : rule (c :: s) = none) :
    rewrite rule keep (c :: s) = keep c ++ rewrite rule keep s := by
  simp only [rewrite, scan, h]

/-- What the rule takes is replaced. -/
theorem rewrite_take {n : ℕ} {out : List β} (hn : 0 < n) (h : rule s = some (n, out)) (hs : s ≠ []) :
    rewrite rule keep s = out ++ rewrite rule keep (s.drop n) := by
  cases s with
  | nil => exact absurd rfl hs
  | cons c s =>
    obtain ⟨n, rfl⟩ := Nat.exists_eq_succ_of_ne_zero hn.ne'
    simp only [rewrite, scan, h, Nat.succ_sub_one, List.drop_succ_cons]
    rw [scan_eq]
    rfl

/-- A match that takes a whole word. -/
theorem rewrite_word {w : List α} {out : List β} (hw : w ≠ [])
    (h : rule (w ++ r) = some (w.length, out)) :
    rewrite rule keep (w ++ r) = out ++ rewrite rule keep r := by
  have hs : w ++ r ≠ [] := by simp [hw]
  rw [rewrite_take (List.length_pos_iff.mpr hw) h hs, List.drop_left]

/-- Two rules that find the same at every place of a text rewrite it alike. -/
theorem rewrite_congr {rule' : Rule α β} (h : ∀ t, t <:+ s → rule t = rule' t) :
    rewrite rule keep s = rewrite rule' keep s := by
  suffices hscan : ∀ n, scan rule keep n s = scan rule' keep n s from hscan 0
  induction s with
  | nil =>
    intro n
    cases n <;> rfl
  | cons c s ih =>
    have hlater := ih fun t ht => h t (ht.trans (List.suffix_cons c s))
    intro n
    cases n with
    | succ n => exact hlater n
    | zero =>
      simp only [scan, h _ List.suffix_rfl]
      split
      · next n out _ => rw [hlater (n - 1)]
      · rw [hlater 0]

end Mailman.Library
