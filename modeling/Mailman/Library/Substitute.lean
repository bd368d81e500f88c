import Mathlib.Data.List.Find
import Mathlib.Data.List.Nodup
import Mailman.Library.Rewrite
import Mailman.Library.Text

/-!
# Tokens filled one after another, and all at once

A table gives each token its value. `substitute` fills a template in one pass; `inTurn` replaces
the tokens of the table one after another in the whole text, so that a later replacement also
reads what an earlier one wrote. For tokens that never overlap, the two agree on every template
exactly when the table is `Table.Settled` (`inTurn_eq_substitute_iff`).
-/

set_option autoImplicit false

namespace Mailman.Library

variable {α : Type}

/-- The tokens of a template and the text that stands for each. -/
abbrev Table (α : Type) := List (List α × List α)

/-- The tokens of a table. -/
def Table.tokens (table : Table α) : List (List α) := table.map Prod.fst

/-- No end of one of these tokens is a beginning of one of them, or goes past it. -/
def OverlapFree (tokens : List (List α)) : Prop :=
  ∀ x ∈ tokens, x ≠ [] ∧ ∀ y ∈ tokens, ∀ t ∈ x.tails, t ≠ [] → t <+: y ∨ y <+: t → t = x ∧ x = y

/-- A word can be made of a part of a value and of what stands beside it. -/
def Straddles (v w : List α) : Prop :=
  ∃ x ∈ w.inits, ∃ y ∈ w.tails, x ≠ [] ∧ y ≠ [] ∧
    (w = x ++ y ∧ (x <:+ v ∨ y <+: v) ∨ w = x ++ v ++ y)

/-- A word stands in a value, or can be made of a part of it and of what stands beside it. -/
def Touches (v w : List α) : Prop := w <:+: v ∨ Straddles v w

section filling

variable [DecidableEq α]

/-- The first token of a table that stands at the front of a text. -/
def Table.atFront (table : Table α) : Rule α α := fun s =>
  (table.find? fun e => e.1.isPrefixOf s).map fun e => (e.1.length, e.2)

/-- A template filled in one pass. -/
def substitute (table : Table α) (s : List α) : List α := rewrite table.atFront (fun c => [c]) s

/-- Every place where one token stands, left to right. -/
def replaceAll (token value s : List α) : List α := substitute [(token, value)] s

/-- The tokens of a table replaced one after another. -/
def inTurn (table : Table α) (s : List α) : List α :=
  table.foldl (fun s e => replaceAll e.1 e.2 s) s

instance (tokens : List (List α)) : Decidable (OverlapFree tokens) := by
  unfold OverlapFree
  infer_instance

instance (v w : List α) : Decidable (Straddles v w) := by
  unfold Straddles
  infer_instance

instance (v w : List α) : Decidable (Touches v w) := by
  unfold Touches
  infer_instance

/-- No value changes when the tokens after its own are filled in it, and none of these tokens can
be made of a part of it and of what stands beside it. -/
def Table.Settled : Table α → Prop
  | [] => True
  | (_, v) :: rest => substitute rest v = v ∧ (∀ e ∈ rest, ¬ Straddles v e.1) ∧ Table.Settled rest

instance decidableSettled : (table : Table α) → Decidable (Table.Settled table)
  | [] => .isTrue trivial
  | (_, v) :: rest =>
    have := decidableSettled rest
    inferInstanceAs (Decidable
      (substitute rest v = v ∧ (∀ e ∈ rest, ¬ Straddles v e.1) ∧ Table.Settled rest))

/-- A table without the tokens that stand for themselves. -/
def Table.active (table : Table α) : Table α := table.filter fun e => e.1 ≠ e.2

end filling

/-! ## Words and overlaps -/

section words

variable {tokens : List (List α)} {u v w x y t l r : List α}

/-- A value straddles a word that it has an end of, or that it lies within. -/
theorem straddles_iff : Straddles v w ↔
    ∃ x y, x ≠ [] ∧ y ≠ [] ∧ (w = x ++ y ∧ (x <:+ v ∨ y <+: v) ∨ w = x ++ v ++ y) := by
  constructor
  · rintro ⟨x, -, y, -, h⟩
    exact ⟨x, y, h⟩
  · rintro ⟨x, y, hx, hy, h⟩
    refine ⟨x, ?_, y, ?_, hx, hy, h⟩
    · rw [List.mem_inits]
      rcases h with ⟨rfl, -⟩ | rfl
      · exact List.prefix_append x y
      · rw [List.append_assoc]
        exact List.prefix_append x _
    · rw [List.mem_tails]
      rcases h with ⟨rfl, -⟩ | rfl
      · exact List.suffix_append x y
      · exact List.suffix_append _ y

/-- A value that ends in the word's first part straddles it. -/
theorem straddles_left (hx : x ≠ []) (hy : y ≠ []) (h : x <:+ v) : Straddles v (x ++ y) :=
  straddles_iff.mpr ⟨x, y, hx, hy, .inl ⟨rfl, .inl h⟩⟩

/-- A value that starts with the word's second part straddles it. -/
theorem straddles_right (hx : x ≠ []) (hy : y ≠ []) (h : y <+: v) : Straddles v (x ++ y) :=
  straddles_iff.mpr ⟨x, y, hx, hy, .inl ⟨rfl, .inr h⟩⟩

/-- A value inside a word straddles it. -/
theorem straddles_around (hx : x ≠ []) (hy : y ≠ []) : Straddles v (x ++ v ++ y) :=
  straddles_iff.mpr ⟨x, y, hx, hy, .inr rfl⟩

/-- A value that a word can take something of makes the word, between two parts of it. -/
theorem Touches.exists_parts (h : Touches v w) : ∃ x y, w <:+: x ++ v ++ y ∧
    (x = [] ∨ ∃ b, b ≠ [] ∧ w = x ++ b) ∧ (y = [] ∨ ∃ a, a ≠ [] ∧ w = a ++ y) := by
  rcases h with hin | hstraddles
  · exact ⟨[], [], by simpa using hin, .inl rfl, .inl rfl⟩
  · obtain ⟨x, y, hx, hy, ⟨rfl, ⟨u, rfl⟩ | ⟨u, rfl⟩⟩ | rfl⟩ := straddles_iff.mp hstraddles
    · refine ⟨[], y, ?_, .inl rfl, .inr ⟨x, hx, rfl⟩⟩
      exact ⟨u, [], by simp⟩
    · refine ⟨x, [], ?_, .inr ⟨y, hy, rfl⟩, .inl rfl⟩
      exact ⟨[], u, by simp⟩
    · refine ⟨x, y, List.infix_rfl, .inr ⟨v ++ y, by simp [hy], by simp⟩, .inr ⟨x ++ v, by simp [hx], rfl⟩⟩

/-- A word that nothing of a value can belong to stands wholly before the value or after it. -/
theorem infix_around_iff (h : ¬ Touches v w) (hw : w ≠ []) :
    w <:+: l ++ v ++ r ↔ w <:+: l ∨ w <:+: r := by
  have hinside : ¬ w <:+: v := fun hin => h (.inl hin)
  have hacross : ¬ Straddles v w := fun hacross => h (.inr hacross)
  constructor
  · intro hin
    rw [List.append_assoc, List.infix_append_iff_ne_nil] at hin
    rcases hin with hl | hvr | ⟨x, y, hx, hy, rfl, hxl, hyvr⟩
    · exact .inl hl
    · rw [List.infix_append_iff_ne_nil] at hvr
      rcases hvr with hv | hr | ⟨x, y, hx, hy, rfl, hxv, -⟩
      · exact absurd hv hinside
      · exact .inr hr
      · exact absurd (straddles_left hx hy hxv) hacross
    · rcases List.prefix_or_prefix_of_prefix hyvr (List.prefix_append v r) with hyv | ⟨z, rfl⟩
      · exact absurd (straddles_right hx hy hyv) hacross
      · by_cases hz : z = []
        · rw [hz, List.append_nil] at hy hacross
          exact absurd (straddles_right hx hy List.prefix_rfl) hacross
        · rw [← List.append_assoc] at hacross
          exact absurd (straddles_around hx hz) hacross
  · rintro (hl | hr)
    · exact (hl.trans List.infix_append_left).trans List.infix_append_left
    · exact hr.trans List.infix_append_right

/-- A token is not empty. -/
theorem OverlapFree.ne_nil (h : OverlapFree tokens) (hx : x ∈ tokens) : x ≠ [] := (h x hx).1

/-- No token is empty. -/
theorem OverlapFree.all_ne_nil (h : OverlapFree tokens) : ∀ x ∈ tokens, x ≠ [] :=
  fun _ => h.ne_nil

/-- Where one token ends in or past the beginning of another, both are one. -/
theorem OverlapFree.eq (h : OverlapFree tokens) (hx : x ∈ tokens) (hy : y ∈ tokens)
    (hsuffix : t <:+ x) (ht : t ≠ []) (hpre : t <+: y ∨ y <+: t) : t = x ∧ x = y :=
  (h x hx).2 y hy t ((List.mem_tails t x).mpr hsuffix) ht hpre

/-- Fewer tokens do not overlap either. -/
theorem OverlapFree.mono {tokens' : List (List α)} (h : OverlapFree tokens)
    (hsub : tokens' ⊆ tokens) : OverlapFree tokens' :=
  fun x hx => ⟨h.ne_nil (hsub hx), fun y hy => (h x (hsub hx)).2 y (hsub hy)⟩

/-- A token stands in no other token. -/
theorem OverlapFree.eq_of_within (h : OverlapFree tokens) (hx : x ∈ tokens) (hy : y ∈ tokens)
    (hin : x <:+: y) : x = y := by
  obtain ⟨a, b, rfl⟩ := hin
  have hne : x ++ b ≠ [] := by simp [h.ne_nil hx]
  have hsuffix : x ++ b <:+ a ++ x ++ b := by
    rw [List.append_assoc]
    exact List.suffix_append a _
  exact (h.eq hy hx hsuffix hne (.inr (List.prefix_append x b))).2.symm

/-- A part of a token holds no token. -/
theorem OverlapFree.not_infix_part {z : List α} (h : OverlapFree tokens)
    (hz : z ∈ tokens) (hxy : x ++ y ∈ tokens) (hx : x ≠ []) (hy : y ≠ []) :
    ¬ z <:+: x ∧ ¬ z <:+: y := by
  have hxpos := List.length_pos_iff.mpr hx
  have hypos := List.length_pos_iff.mpr hy
  constructor
  · intro hin
    have hlen := congrArg List.length (h.eq_of_within hz hxy (hin.trans List.infix_append_left))
    have hle := hin.length_le
    rw [List.length_append] at hlen
    omega
  · intro hin
    have hlen := congrArg List.length (h.eq_of_within hz hxy (hin.trans List.infix_append_right))
    have hle := hin.length_le
    rw [List.length_append] at hlen
    omega

end words

/-! ## One pass -/

section pass

variable [DecidableEq α] {table rest : Table α} {T v w l r s : List α}

/-- The empty text has nothing to substitute. -/
@[simp] theorem substitute_nil (table : Table α) : substitute table [] = [] := rfl

/-- No entry is in front where no token is. -/
theorem atFront_eq_none_iff : table.atFront s = none ↔ ∀ x ∈ table.tokens, ¬ x <+: s := by
  simp [Table.atFront, Table.tokens]

/-- A character in front of which no token starts stays. -/
theorem substitute_cons {c : α} (h : ∀ x ∈ table.tokens, ¬ x <+: c :: s) :
    substitute table (c :: s) = c :: substitute table s :=
  rewrite_keep (atFront_eq_none_iff.mpr h)

/-- No token has its front at the end of one text and its back at the start of the next. -/
def NoneAcross (tokens : List (List α)) (l r : List α) : Prop :=
  ∀ x ∈ tokens, ∀ a b, a ≠ [] → b ≠ [] → x = a ++ b → a <:+ l → ¬ b <+: r

/-- The front of a text decides which token stands there, as long as no token reaches past it. -/
theorem atFront_append (hl : l ≠ []) (h : NoneAcross table.tokens l r) :
    table.atFront (l ++ r) = table.atFront l := by
  have hfront : ∀ e ∈ table, e.1.isPrefixOf (l ++ r) = e.1.isPrefixOf l := by
    intro e he
    have hmem : e.1 ∈ table.tokens := List.mem_map_of_mem he
    rw [Bool.eq_iff_iff, List.isPrefixOf_iff_prefix, List.isPrefixOf_iff_prefix]
    constructor
    · intro hpre
      rcases List.prefix_or_prefix_of_prefix hpre (List.prefix_append l r) with hin | ⟨b, hb⟩
      · exact hin
      · by_cases hnil : b = []
        · rw [hnil, List.append_nil] at hb
          rw [hb]
        · rw [← hb, List.prefix_append_right_inj] at hpre
          exact absurd hpre (h e.1 hmem l b hl hnil hb.symm List.suffix_rfl)
    · exact fun hpre => hpre.trans (List.prefix_append l r)
  unfold Table.atFront
  congr 1
  exact List.find?_congr hfront

/-- Two texts that no token crosses are filled one by one. -/
theorem substitute_append (hne : ∀ x ∈ table.tokens, x ≠ []) (h : NoneAcross table.tokens l r) :
    substitute table (l ++ r) = substitute table l ++ substitute table r := by
  induction hn : l.length using Nat.strong_induction_on generalizing l with
  | h n ih =>
    cases l with
    | nil => rfl
    | cons c l =>
      have hfront := atFront_append (List.cons_ne_nil c l) h
      have hlater : ∀ k, NoneAcross table.tokens (l.drop k) r := by
        intro k x hx a b ha hb hxab hal
        have hsuffix : a <:+ c :: l := (hal.trans (List.drop_suffix k l)).trans (List.suffix_cons c l)
        exact h x hx a b ha hb hxab hsuffix
      cases hmatch : table.atFront (c :: l) with
      | none =>
        have hrest := ih l.length (by rw [← hn]; exact Nat.lt_succ_self _) (hlater 0) rfl
        rw [hmatch] at hfront
        unfold substitute
        rw [List.cons_append, rewrite_keep hmatch]
        rw [rewrite_keep (s := l ++ r) hfront]
        exact congrArg (c :: ·) hrest
      | some found =>
        obtain ⟨k, out⟩ := found
        have hk := hmatch
        simp only [Table.atFront, Option.map_eq_some_iff, Prod.mk.injEq] at hk
        obtain ⟨e, he, rfl, rfl⟩ := hk
        have hmem : e.1 ∈ table.tokens := List.mem_map_of_mem (List.mem_of_find?_eq_some he)
        have hpos : 0 < e.1.length := List.length_pos_iff.mpr (hne _ hmem)
        have hpre : e.1 <+: c :: l := by simpa using List.find?_some he
        have hle : e.1.length ≤ (c :: l).length := hpre.length_le
        rw [hmatch] at hfront
        unfold substitute
        rw [rewrite_take hpos hmatch (List.cons_ne_nil c l), rewrite_take hpos hfront (by simp)]
        rw [List.drop_append_of_le_length hle, List.append_assoc]
        congr 1
        refine ih _ ?_ ?_ rfl
        · rw [List.length_drop, ← hn]
          omega
        · obtain ⟨m, hm⟩ := Nat.exists_eq_succ_of_ne_zero hpos.ne'
          rw [hm, List.drop_succ_cons]
          exact hlater m

/-- A text that no token stands in is left as it is. -/
theorem substitute_eq_self (h : ∀ x ∈ table.tokens, ¬ x <:+: s) : substitute table s = s := by
  induction s with
  | nil => rfl
  | cons c s ih =>
    rw [substitute_cons fun x hx hpre => h x hx hpre.isInfix]
    congr 1
    exact ih fun x hx hin => h x hx (hin.trans (List.suffix_cons c s).isInfix)

/-- A token at the front is filled, and what follows it is filled on its own. -/
theorem substitute_token (hfree : OverlapFree table.tokens) (hnodup : table.tokens.Nodup)
    (hmem : (T, v) ∈ table) : substitute table (T ++ r) = v ++ substitute table r := by
  have hT : T ∈ table.tokens := List.mem_map_of_mem hmem
  refine rewrite_word (hfree.ne_nil hT) ?_
  cases hfind : table.find? fun e => e.1.isPrefixOf (T ++ r) with
  | none =>
    have hno := List.find?_eq_none.mp hfind (T, v) hmem
    simp at hno
  | some e =>
    have hpre : e.1 <+: T ++ r := by simpa using List.find?_some hfind
    have hemem := List.mem_of_find?_eq_some hfind
    have he : e.1 ∈ table.tokens := List.mem_map_of_mem hemem
    have hcomparable := List.prefix_or_prefix_of_prefix hpre (List.prefix_append T r)
    have heq : e.1 = T := (hfree.eq he hT List.suffix_rfl (hfree.ne_nil he) hcomparable).2
    have hsame : e = (T, v) := List.inj_on_of_nodup_map hnodup hemem hmem heq
    rw [Table.atFront, hfind, hsame]
    rfl

/-- A token that nothing of can belong to a token of the table cuts a template in three. -/
theorem substitute_around (hfree : OverlapFree (T :: table.tokens)) :
    substitute table (l ++ T ++ r) = substitute table l ++ substitute table T ++ substitute table r := by
  have hne : ∀ x ∈ table.tokens, x ≠ [] := fun x hx => hfree.ne_nil (List.mem_cons_of_mem _ hx)
  have hT : T ∈ T :: table.tokens := List.mem_cons_self
  rw [substitute_append hne, substitute_append hne]
  · intro x hx a b ha hb hxab hal hbT
    subst hxab
    have hx' := List.mem_cons_of_mem T hx
    obtain ⟨heq, -⟩ := hfree.eq hx' hT (List.suffix_append a b) hb (.inl hbT)
    exact ha (List.append_left_eq_self.mp heq.symm)
  · intro x hx a b ha hb hxab hal hbr
    subst hxab
    have hx' := List.mem_cons_of_mem T hx
    rcases List.suffix_or_suffix_of_suffix hal (List.suffix_append l T) with haT | hTa
    · obtain ⟨rfl, heq⟩ := hfree.eq hT hx' haT ha (.inl (List.prefix_append a b))
      exact hb (List.append_right_eq_self.mp heq.symm)
    · have hin : T <:+: a ++ b := hTa.isInfix.trans (List.prefix_append a b).isInfix
      have heq := hfree.eq_of_within hT hx' hin
      have hlen := congrArg List.length heq
      have hle := hTa.length_le
      have := List.length_pos_iff.mpr hb
      simp only [List.length_append] at hlen
      omega

/-- Every text is without tokens, or a token between two shorter texts. -/
theorem token_induction {tokens : List (List α)} (hne : ∀ x ∈ tokens, x ≠ [])
    {motive : List α → Prop} (plain : ∀ s, (∀ x ∈ tokens, ¬ x <:+: s) → motive s)
    (around : ∀ l x r, x ∈ tokens → motive l → motive r → motive (l ++ x ++ r)) (s : List α) :
    motive s := by
  induction hn : s.length using Nat.strong_induction_on generalizing s with
  | h n ih =>
    by_cases hin : ∃ x ∈ tokens, x <:+: s
    · obtain ⟨x, hx, l, r, rfl⟩ := hin
      have hpos := List.length_pos_iff.mpr (hne x hx)
      simp only [List.length_append] at hn
      exact around l x r hx (ih l.length (by omega) l rfl) (ih r.length (by omega) r rfl)
    · apply plain
      intro x hx hstands
      exact hin ⟨x, hx, hstands⟩

/-- A token that stands nowhere in a text might as well not be in the table. -/
theorem substitute_cons_of_absent (h : ¬ T <:+: s) :
    substitute ((T, v) :: rest) s = substitute rest s := by
  apply rewrite_congr
  intro t ht
  have hT : T.isPrefixOf t = false := by
    rw [Bool.eq_false_iff, Ne, List.isPrefixOf_iff_prefix]
    exact fun hpre => h (hpre.isInfix.trans ht.isInfix)
  simp [Table.atFront, hT]

end pass

/-! ## One token after another -/

section turns

variable [DecidableEq α] {table rest : Table α} {T v w l r s : List α}

/-- A text without the token stays. -/
theorem replaceAll_of_absent (h : ¬ T <:+: s) : replaceAll T v s = s :=
  substitute_eq_self (by simpa [Table.tokens] using h)

/-- A token is replaced where it stands, whatever is around it. -/
theorem replaceAll_around (hT : OverlapFree [T]) :
    replaceAll T v (l ++ T ++ r) = replaceAll T v l ++ v ++ replaceAll T v r := by
  have htoken : replaceAll T v T = v := by
    have h : substitute [(T, v)] (T ++ []) = v ++ substitute [(T, v)] [] :=
      substitute_token hT (List.nodup_singleton T) List.mem_cons_self
    rwa [List.append_nil, substitute_nil, List.append_nil] at h
  have haround : OverlapFree (T :: Table.tokens [(T, v)]) := by
    refine hT.mono ?_
    simp [Table.tokens]
  rw [replaceAll, substitute_around haround]
  rw [replaceAll] at htoken
  rw [htoken]
  rfl

/-- A token replaced by itself changes nothing. -/
theorem replaceAll_self (hT : OverlapFree [T]) (s : List α) : replaceAll T T s = s := by
  induction s using token_induction hT.all_ne_nil with
  | plain s h => exact replaceAll_of_absent (h T List.mem_cons_self)
  | around l x r hx hl hr =>
    obtain rfl := List.mem_singleton.mp hx
    rw [replaceAll_around hT, hl, hr]

/-- The first entry is replaced first. -/
theorem inTurn_cons (e : List α × List α) (s : List α) :
    inTurn (e :: rest) s = inTurn rest (replaceAll e.1 e.2 s) := rfl

/-- One table after the other. -/
theorem inTurn_append (table rest : Table α) (s : List α) :
    inTurn (table ++ rest) s = inTurn rest (inTurn table s) := List.foldl_append

/-- The empty text has nothing to replace. -/
@[simp] theorem inTurn_nil (table : Table α) : inTurn table [] = [] := by
  induction table with
  | nil => rfl
  | cons e rest ih => exact ih

/-- A value that no token can belong to stays as it is, and its two sides are filled apart. -/
theorem substitute_around_value (hne : ∀ x ∈ table.tokens, x ≠ []) (hv : substitute table v = v)
    (hacross : ∀ e ∈ table, ¬ Straddles v e.1) :
    substitute table (l ++ v ++ r) = substitute table l ++ v ++ substitute table r := by
  have hacross' : ∀ x ∈ table.tokens, ¬ Straddles v x := by
    intro x hx
    obtain ⟨e, he, rfl⟩ := List.mem_map.mp hx
    exact hacross e he
  rw [substitute_append hne, substitute_append hne, hv]
  · intro x hx a b ha hb hxab hal hbv
    subst hxab
    exact hacross' _ hx (straddles_right ha hb hbv)
  · intro x hx a b ha hb hxab hal hbr
    subst hxab
    rcases List.suffix_or_suffix_of_suffix hal (List.suffix_append l v) with hav | ⟨a', rfl⟩
    · exact hacross' _ hx (straddles_left ha hb hav)
    · by_cases ha' : a' = []
      · subst ha'
        exact hacross' _ hx (straddles_left ha hb List.suffix_rfl)
      · exact hacross' _ hx (straddles_around ha' hb)

/-- One token first and the others after it fill a template as all of them at once do. -/
theorem substitute_replaceAll (hfree : OverlapFree (Table.tokens ((T, v) :: rest)))
    (hnodup : (Table.tokens ((T, v) :: rest)).Nodup) (hv : substitute rest v = v)
    (hacross : ∀ e ∈ rest, ¬ Straddles v e.1) (s : List α) :
    substitute rest (replaceAll T v s) = substitute ((T, v) :: rest) s := by
  have hT : OverlapFree [T] := hfree.mono (by simp [Table.tokens])
  induction s using token_induction hT.all_ne_nil with
  | plain s h =>
    have hs := h T List.mem_cons_self
    rw [replaceAll_of_absent hs, substitute_cons_of_absent hs]
  | around l x r hx hl hr =>
    obtain rfl := List.mem_singleton.mp hx
    have hne : ∀ y ∈ rest.tokens, y ≠ [] := fun y hy => hfree.ne_nil (List.mem_cons_of_mem _ hy)
    have hself : substitute ((x, v) :: rest) x = v := by
      simpa using substitute_token (r := []) hfree hnodup List.mem_cons_self
    rw [replaceAll_around hT, substitute_around_value hne hv hacross, hl, hr]
    rw [substitute_around (hfree.mono (by simp [Table.tokens])), hself]

/-- Replacing in turn is substituting where no value is replaced again. -/
theorem inTurn_of_settled (hfree : OverlapFree table.tokens) (hnodup : table.tokens.Nodup)
    (h : Table.Settled table) (s : List α) : inTurn table s = substitute table s := by
  induction table generalizing s with
  | nil => exact (substitute_eq_self (by simp [Table.tokens])).symm
  | cons e rest ih =>
    obtain ⟨hv, hacross, hrest⟩ := h
    have hfree' : OverlapFree (Table.tokens rest) := hfree.mono (List.subset_cons_self _ _)
    rw [inTurn_cons, ih hfree' hnodup.of_cons hrest]
    exact substitute_replaceAll hfree hnodup hv hacross s

/-! ## What the replacements in turn can get wrong -/

/-- A token is substituted where it stands, whatever is around it. -/
theorem substitute_around_token (hfree : OverlapFree table.tokens) (hnodup : table.tokens.Nodup)
    (hmem : (T, v) ∈ table) :
    substitute table (l ++ T ++ r) = substitute table l ++ v ++ substitute table r := by
  have hself : substitute table T = v := by simpa using substitute_token (r := []) hfree hnodup hmem
  have hT : T ∈ table.tokens := List.mem_map_of_mem hmem
  rw [substitute_around (hfree.mono (List.cons_subset.mpr ⟨hT, List.Subset.refl _⟩)), hself]

/-- A token that is not in the table stays, and its two sides are filled apart. -/
theorem substitute_around_other (hfree : OverlapFree (T :: table.tokens)) (hT : T ∉ table.tokens) :
    substitute table (l ++ T ++ r) = substitute table l ++ T ++ substitute table r := by
  have hself : substitute table T = T := by
    apply substitute_eq_self
    intro x hx hin
    have heq := hfree.eq_of_within (List.mem_cons_of_mem T hx) List.mem_cons_self hin
    exact hT (heq ▸ hx)
  rw [substitute_around hfree, hself]

/-- Another token is left where it stands. -/
theorem inTurn_around_other (hfree : OverlapFree (T :: table.tokens)) (hT : T ∉ table.tokens) :
    inTurn table (l ++ T ++ r) = inTurn table l ++ T ++ inTurn table r := by
  induction table generalizing l r with
  | nil => rfl
  | cons e rest ih =>
    have hsub : T :: Table.tokens [e] ⊆ T :: Table.tokens (e :: rest) := by simp [Table.tokens]
    have hrest : T :: Table.tokens rest ⊆ T :: Table.tokens (e :: rest) := by simp [Table.tokens]
    have hne : T ≠ e.1 := fun heq => hT (heq ▸ List.mem_cons_self)
    rw [inTurn_cons, inTurn_cons, inTurn_cons, replaceAll]
    rw [substitute_around_other (hfree.mono hsub) (by simpa [Table.tokens] using hne)]
    exact ih (hfree.mono hrest) fun hin => hT (List.mem_cons_of_mem _ hin)

/-- What is beside a part of a token can be filled apart from it. -/
theorem substitute_append_part (hfree : OverlapFree table.tokens) {x y : List α}
    (hxy : x ++ y ∈ table.tokens) (hx : x ≠ []) (hy : y ≠ []) (s : List α) :
    substitute table (s ++ x) = substitute table s ++ x ∧
      substitute table (y ++ s) = y ++ substitute table s := by
  have hplain : substitute table x = x ∧ substitute table y = y :=
    ⟨substitute_eq_self fun z hz => (hfree.not_infix_part hz hxy hx hy).1,
      substitute_eq_self fun z hz => (hfree.not_infix_part hz hxy hx hy).2⟩
  constructor
  · rw [substitute_append hfree.all_ne_nil, hplain.1]
    intro z hz a b ha hb hzab has hbx
    subst hzab
    have hpre : b <+: x ++ y := hbx.trans (List.prefix_append x y)
    obtain ⟨heq, -⟩ := hfree.eq hz hxy (List.suffix_append a b) hb (.inl hpre)
    exact ha (List.append_left_eq_self.mp heq.symm)
  · rw [substitute_append hfree.all_ne_nil, hplain.2]
    intro z hz a b ha hb hzab hay hbs
    subst hzab
    have hsuffix : a <:+ x ++ y := hay.trans (List.suffix_append x y)
    obtain ⟨rfl, heq⟩ := hfree.eq hxy hz hsuffix ha (.inl (List.prefix_append a b))
    exact hb (List.append_right_eq_self.mp heq.symm)

/-- A value that may stand between any two parts of a token is straddled by no token. -/
theorem not_straddles_of_kept (hfree : OverlapFree table.tokens) (hnodup : table.tokens.Nodup)
    {w v' : List α} (hw : (w, v') ∈ table) (hne : w ≠ v') (hv : substitute table v = v)
    (hkept : ∀ x y, x ≠ [] → y ≠ [] → (w = x ++ y ∨ w = x ++ v ++ y) →
      substitute table (x ++ v) = x ++ v ∧ substitute table (v ++ y) = v ++ y ∧
        substitute table (x ++ v ++ y) = x ++ v ++ y) : ¬ Straddles v w := by
  intro hstraddles
  have hmem : w ∈ table.tokens := List.mem_map_of_mem hw
  obtain ⟨x, y, hx, hy, ⟨rfl, ⟨u, rfl⟩ | ⟨u, rfl⟩⟩ | rfl⟩ := straddles_iff.mp hstraddles
  · have hfill := (hkept x y hx hy (.inl rfl)).2.1
    have hu := (substitute_append_part hfree hmem hx hy u).1
    rw [hv] at hu
    have hfilled := substitute_around_token (l := u) (r := []) hfree hnodup hw
    rw [List.append_nil, ← List.append_assoc, hfill, ← List.append_cancel_right hu,
      substitute_nil, List.append_nil, List.append_assoc] at hfilled
    exact hne (List.append_cancel_left hfilled)
  · have hfill := (hkept x y hx hy (.inl rfl)).1
    have hu := (substitute_append_part hfree hmem hx hy u).2
    rw [hv] at hu
    have hfilled := substitute_around_token (l := []) (r := u) hfree hnodup hw
    rw [List.nil_append, List.append_assoc, hfill, ← List.append_cancel_left hu,
      substitute_nil, List.nil_append, ← List.append_assoc] at hfilled
    exact hne (List.append_cancel_right hfilled)
  · have hfill := (hkept x y hx hy (.inr rfl)).2.2
    have hfilled := substitute_around_token (l := []) (r := []) hfree hnodup hw
    simp only [List.nil_append, List.append_nil, substitute_nil] at hfilled
    exact hne (hfill.symm.trans hfilled)

/-- A table whose tokens, replaced in turn, fill every template as one pass does is settled. -/
theorem settled_of_inTurn (hfree : OverlapFree table.tokens) (hnodup : table.tokens.Nodup)
    (hactive : ∀ e ∈ table, e.1 ≠ e.2) (h : ∀ s, inTurn table s = substitute table s) :
    Table.Settled table := by
  induction table with
  | nil => trivial
  | cons e rest ih =>
    obtain ⟨T, v⟩ := e
    have hT : T ∉ Table.tokens rest := hnodup.notMem
    have hmem : (T, v) ∈ (T, v) :: rest := List.mem_cons_self
    have hfreeRest : OverlapFree (Table.tokens rest) := hfree.mono (List.subset_cons_self _ _)
    have hfreeT : OverlapFree [T] := hfree.mono (by simp [Table.tokens])
    have hrest : ∀ s, inTurn rest s = substitute rest s := by
      intro s
      induction s using token_induction hfreeT.all_ne_nil with
      | plain s hs =>
        have hs' := hs T List.mem_cons_self
        have hall := h s
        rwa [inTurn_cons, replaceAll_of_absent hs', substitute_cons_of_absent hs'] at hall
      | around l x r hx hl hr =>
        obtain rfl := List.mem_singleton.mp hx
        rw [inTurn_around_other hfree hT, substitute_around_other hfree hT, hl, hr]
    have hfill : ∀ l r, substitute rest (replaceAll T v l ++ v ++ replaceAll T v r) =
        substitute ((T, v) :: rest) l ++ v ++ substitute ((T, v) :: rest) r := by
      intro l r
      rw [← hrest, ← replaceAll_around hfreeT, ← substitute_around_token hfree hnodup hmem, ← h]
      rfl
    have hv : substitute rest v = v := by simpa [replaceAll] using hfill [] []
    refine ⟨hv, fun e he hstraddles => ?_, ih hfreeRest hnodup.of_cons ?_ hrest⟩
    · have hw : e.1 ∈ Table.tokens ((T, v) :: rest) :=
        List.mem_map_of_mem (List.mem_cons_of_mem _ he)
      refine not_straddles_of_kept hfreeRest hnodup.of_cons he
        (hactive e (List.mem_cons_of_mem _ he)) hv (fun x y hx hy hxy => ?_) hstraddles
      have hplain : ∀ z ∈ Table.tokens ((T, v) :: rest), ¬ z <:+: x ∧ ¬ z <:+: y := by
        intro z hz
        rcases hxy with hxy | hxy
        · exact hfree.not_infix_part hz (hxy ▸ hw) hx hy
        · have hxvy : x ++ (v ++ y) ∈ Table.tokens ((T, v) :: rest) := by
            rw [← List.append_assoc, ← hxy]
            exact hw
          have hxv : x ++ v ≠ [] := by simp [hx]
          have hvy : v ++ y ≠ [] := by simp [hy]
          exact ⟨(hfree.not_infix_part hz hxvy hx hvy).1,
            (hfree.not_infix_part hz (hxy ▸ hw) hxv hy).2⟩
      have hx' : replaceAll T v x = x ∧ substitute ((T, v) :: rest) x = x :=
        ⟨replaceAll_of_absent (hplain T List.mem_cons_self).1,
          substitute_eq_self fun z hz => (hplain z hz).1⟩
      have hy' : replaceAll T v y = y ∧ substitute ((T, v) :: rest) y = y :=
        ⟨replaceAll_of_absent (hplain T List.mem_cons_self).2,
          substitute_eq_self fun z hz => (hplain z hz).2⟩
      have hleft := hfill x []
      have hright := hfill [] y
      have haround := hfill x y
      rw [hx'.1, hx'.2] at hleft haround
      rw [hy'.1, hy'.2] at hright haround
      exact ⟨by simpa [replaceAll] using hleft, by simpa [replaceAll] using hright, haround⟩
    · exact fun e he => hactive e (List.mem_cons_of_mem _ he)

/-! ## Tokens that stand for themselves -/

/-- The active tokens are tokens. -/
theorem tokens_active_subset (table : Table α) : table.active.tokens ⊆ table.tokens :=
  List.map_subset _ (List.filter_sublist.subset)

/-- The active tokens differ. -/
theorem nodup_active (h : table.tokens.Nodup) : table.active.tokens.Nodup :=
  h.sublist (List.filter_sublist.map _)

/-- Replacing the active entries is replacing all. -/
theorem inTurn_active (hfree : OverlapFree table.tokens) (s : List α) :
    inTurn table.active s = inTurn table s := by
  induction table generalizing s with
  | nil => rfl
  | cons e rest ih =>
    have hrest := ih (hfree.mono (List.subset_cons_self _ _))
    by_cases he : e.1 = e.2
    · have hactive : Table.active (e :: rest) = Table.active rest := by simp [Table.active, he]
      have hself : OverlapFree [e.1] := hfree.mono (by simp [Table.tokens])
      rw [hactive, inTurn_cons, ← he, replaceAll_self hself, hrest]
    · have hactive : Table.active (e :: rest) = e :: Table.active rest := by
        simp [Table.active, he]
      rw [hactive, inTurn_cons, inTurn_cons, hrest]

/-- Substituting the active entries is substituting all. -/
theorem substitute_active (hfree : OverlapFree table.tokens) (hnodup : table.tokens.Nodup)
    (s : List α) : substitute table.active s = substitute table s := by
  have hfree' := hfree.mono (tokens_active_subset table)
  induction s using token_induction hfree.all_ne_nil with
  | plain s hs =>
    rw [substitute_eq_self hs, substitute_eq_self fun x hx => hs x (tokens_active_subset table hx)]
  | around l x r hx hl hr =>
    obtain ⟨⟨T, v⟩, he, rfl⟩ := List.mem_map.mp hx
    rw [substitute_around_token hfree hnodup he]
    by_cases hv : T = v
    · subst hv
      have hother : T ∉ table.active.tokens := by
        intro hin
        obtain ⟨e, he', heT⟩ := List.mem_map.mp hin
        obtain ⟨hmem, hne⟩ := List.mem_filter.mp he'
        have heq : e = (T, T) := List.inj_on_of_nodup_map hnodup hmem he heT
        subst heq
        simp at hne
      have hcons : OverlapFree (T :: table.active.tokens) :=
        hfree.mono (List.cons_subset.mpr ⟨hx, tokens_active_subset table⟩)
      rw [substitute_around_other hcons hother, hl, hr]
    · have he' : (T, v) ∈ table.active := List.mem_filter.mpr ⟨he, by simpa using hv⟩
      rw [substitute_around_token hfree' (nodup_active hnodup) he', hl, hr]

/-- Replaced in turn, the tokens of a table fill every template as one pass does exactly when the
table is settled, the tokens that stand for themselves aside. -/
theorem inTurn_eq_substitute_iff (hfree : OverlapFree table.tokens) (hnodup : table.tokens.Nodup) :
    (∀ s, inTurn table s = substitute table s) ↔ Table.Settled table.active := by
  have hfree' := hfree.mono (tokens_active_subset table)
  constructor
  · intro h
    apply settled_of_inTurn hfree' (nodup_active hnodup)
    · intro e he
      simpa using (List.mem_filter.mp he).2
    · intro s
      rw [inTurn_active hfree, substitute_active hfree hnodup, h]
  · intro h s
    rw [← inTurn_active hfree, ← substitute_active hfree hnodup]
    exact inTurn_of_settled hfree' (nodup_active hnodup) h s

/-- A word that nothing of a token or of a value can belong to stands in a filled template exactly
when it stands in the template. -/
theorem infix_substitute_iff (hfree : OverlapFree table.tokens) (hnodup : table.tokens.Nodup)
    {w : List α} (hw : w ≠ []) (h : ∀ e ∈ table, ¬ Touches e.1 w ∧ ¬ Touches e.2 w) :
    w <:+: substitute table s ↔ w <:+: s := by
  induction s using token_induction hfree.all_ne_nil with
  | plain s hs => rw [substitute_eq_self hs]
  | around l x r hx hl hr =>
    obtain ⟨e, he, rfl⟩ := List.mem_map.mp hx
    rw [substitute_around_token hfree hnodup he, infix_around_iff (h e he).1 hw,
      infix_around_iff (h e he).2 hw, hl, hr]

end turns

/-! ## Tokens in double brackets -/

section brackets

variable {α : Type} {o c : α} {n v w : List α} {names : List (List α)}

/-- A name between two opening and two closing brackets. -/
def bracketed (o c : α) (n : List α) : List α := [o, o] ++ (n ++ [c, c])

/-- A word without brackets that stands in a token stands in its name. -/
theorem infix_bracketed (ho : o ∉ w) (hc : c ∉ w) (h : w <:+: bracketed o c n) : w <:+: n := by
  by_cases hw : w = []
  · exact hw ▸ List.nil_infix
  have hopen : ∀ x : List α, x ≠ [] → x ⊆ w → x ⊆ [o, o] → False := by
    intro x hx hxw hxo
    obtain ⟨a, x, rfl⟩ := List.exists_cons_of_ne_nil hx
    have ha : a = o := by simpa using hxo List.mem_cons_self
    exact ho (ha ▸ hxw List.mem_cons_self)
  have hclose : ∀ x : List α, x ≠ [] → x ⊆ w → x ⊆ [c, c] → False := by
    intro x hx hxw hxc
    obtain ⟨a, x, rfl⟩ := List.exists_cons_of_ne_nil hx
    have ha : a = c := by simpa using hxc List.mem_cons_self
    exact hc (ha ▸ hxw List.mem_cons_self)
  rw [bracketed, List.infix_append_iff_ne_nil] at h
  rcases h with hin | hrest | ⟨x, y, hx, -, rfl, hxo, -⟩
  · exact (hopen w hw (List.Subset.refl w) hin.subset).elim
  · rw [List.infix_append_iff_ne_nil] at hrest
    rcases hrest with hn | hin | ⟨x, y, -, hy, rfl, -, hyc⟩
    · exact hn
    · exact (hclose w hw (List.Subset.refl w) hin.subset).elim
    · exact (hclose y hy (List.subset_append_right x y) hyc.subset).elim
  · exact (hopen x hx (List.subset_append_left x y) hxo.subset).elim

/-- A start of a bracketed name holds the opening bracket. -/
theorem head_mem_of_bracketed {x y : List α} (hx : x ≠ []) (h : bracketed o c n = x ++ y) : o ∈ x := by
  obtain ⟨a, x, rfl⟩ := List.exists_cons_of_ne_nil hx
  obtain ⟨rfl, -⟩ := List.cons.inj h
  exact List.mem_cons_self

/-- An end of a bracketed name holds the closing bracket. -/
theorem last_mem_of_bracketed {x y : List α} (hy : y ≠ []) (h : bracketed o c n = x ++ y) : c ∈ y := by
  have hlast := congrArg List.getLast? h
  rw [List.getLast?_append_of_ne_nil x hy] at hlast
  have hc : (bracketed o c n).getLast? = some c := by
    rw [show bracketed o c n = (o :: o :: n ++ [c]) ++ [c] by simp [bracketed], List.getLast?_concat]
  exact List.mem_of_getLast? (hlast.symm.trans hc)

/-- A value without brackets is straddled only by the tokens it is a part of the name of. -/
theorem infix_of_straddles (ho : o ∉ v) (hc : c ∉ v) (h : Straddles v (bracketed o c n)) :
    v <:+: n := by
  obtain ⟨x, y, hx, hy, ⟨heq, hpart⟩ | heq⟩ := straddles_iff.mp h
  · rcases hpart with hxv | hyv
    · exact absurd (hxv.subset (head_mem_of_bracketed hx heq)) ho
    · exact absurd (hyv.subset (last_mem_of_bracketed hy heq)) hc
  · exact infix_bracketed ho hc (heq ▸ List.infix_append x v y)

/-- A word without brackets takes something of a token only when it stands in its name. -/
theorem infix_of_touches (ho : o ∉ w) (hc : c ∉ w) (h : Touches (bracketed o c n) w) : w <:+: n := by
  rcases h with hin | hstraddles
  · exact infix_bracketed ho hc hin
  · obtain ⟨x, y, hx, hy, ⟨rfl, ⟨u, hu⟩ | ⟨u, hu⟩⟩ | rfl⟩ := straddles_iff.mp hstraddles
    · exact absurd (List.mem_append_left y (last_mem_of_bracketed hx hu.symm)) hc
    · exact absurd (List.mem_append_right x (head_mem_of_bracketed hy hu.symm)) ho
    · exact absurd (by simp [bracketed]) ho

/-- Of two tokens neither goes on where the other ends. -/
theorem eq_of_bracketed_append {m z : List α} (hn : c ∉ n) (hm : c ∉ m)
    (h : bracketed o c n ++ z = bracketed o c m) : n = m := by
  classical
  have hinner : n ++ c :: (c :: z) = m ++ c :: [c] := by simpa [bracketed] using h
  have hcount : n.count c = m.count c := by
    rw [List.count_eq_zero_of_not_mem hn, List.count_eq_zero_of_not_mem hm]
  exact (Text.append_cons_inj hcount hinner).1

/-- Tokens in double brackets never overlap. -/
theorem overlapFree_bracketed (hne : o ≠ c) (h : ∀ n ∈ names, o ∉ n ∧ c ∉ n) :
    OverlapFree (names.map (bracketed o c)) := by
  intro x hx
  obtain ⟨a, ha, rfl⟩ := List.mem_map.mp hx
  refine ⟨by simp [bracketed], fun y hy t ht hnil hcomparable => ?_⟩
  obtain ⟨b, hb, rfl⟩ := List.mem_map.mp hy
  obtain ⟨p, hp⟩ := (List.mem_tails t _).mp ht
  -- the end of the token begins with two brackets, so it is the whole token
  have hfront : ∃ u, t = o :: u ∧ (u = [] ∨ ∃ u', u = o :: u') := by
    rcases hcomparable with ⟨z, hz⟩ | ⟨z, hz⟩
    · match t, hnil with
      | [d], _ =>
        obtain ⟨rfl, -⟩ := List.cons.inj hz
        exact ⟨[], rfl, .inl rfl⟩
      | d :: e :: t, _ =>
        obtain ⟨rfl, hz⟩ := List.cons.inj hz
        obtain ⟨rfl, -⟩ := List.cons.inj hz
        exact ⟨_, rfl, .inr ⟨t, rfl⟩⟩
    · exact ⟨_, hz.symm, .inr ⟨_, rfl⟩⟩
  obtain ⟨u, rfl, hu⟩ := hfront
  have hwhole : o :: u = bracketed o c a := by
    match p, hp with
    | [], hp => exact hp
    | [d], hp =>
      obtain ⟨-, hp⟩ := List.cons.inj hp
      obtain ⟨-, rfl⟩ := List.cons.inj hp
      rcases hu with hu | ⟨u', hu⟩
      · simp at hu
      · have ho : o ∈ a ++ [c, c] := by
          rw [show a ++ [c, c] = o :: u' from hu]
          exact List.mem_cons_self
        simp [(h a ha).1, hne] at ho
    | d :: e :: p, hp =>
      obtain ⟨-, hp⟩ := List.cons.inj hp
      obtain ⟨-, hp⟩ := List.cons.inj hp
      have ho : o ∈ a ++ [c, c] := by
        rw [show a ++ [c, c] = p ++ o :: u from hp.symm]
        simp
      simp [(h a ha).1, hne] at ho
  refine ⟨hwhole, ?_⟩
  rw [hwhole] at hcomparable
  rcases hcomparable with ⟨z, hz⟩ | ⟨z, hz⟩
  · rw [eq_of_bracketed_append (h a ha).2 (h b hb).2 hz]
  · rw [eq_of_bracketed_append (h b hb).2 (h a ha).2 hz]

/-- Values without brackets that stand in no name settle a table. -/
theorem settled_of_no_bracket [DecidableEq α] {table : Table α} (hvalues : ∀ e ∈ table, o ∉ e.2 ∧ c ∉ e.2)
    (htokens : ∀ e ∈ table, ∃ n, e.1 = bracketed o c n ∧ ∀ d ∈ table, ¬ d.2 <:+: n) :
    Table.Settled table := by
  induction table with
  | nil => trivial
  | cons e rest ih =>
    obtain ⟨ho, hc⟩ := hvalues e List.mem_cons_self
    refine ⟨substitute_eq_self fun x hx hin => ?_, fun d hd hstraddles => ?_, ih ?_ ?_⟩
    · obtain ⟨d, hd, rfl⟩ := List.mem_map.mp hx
      obtain ⟨n, hn, -⟩ := htokens d (List.mem_cons_of_mem e hd)
      rw [hn] at hin
      exact ho (hin.subset (by simp [bracketed]))
    · obtain ⟨n, hn, hno⟩ := htokens d (List.mem_cons_of_mem e hd)
      rw [hn] at hstraddles
      exact hno e List.mem_cons_self (infix_of_straddles ho hc hstraddles)
    · exact fun d hd => hvalues d (List.mem_cons_of_mem e hd)
    · intro d hd
      obtain ⟨n, hn, hno⟩ := htokens d (List.mem_cons_of_mem e hd)
      exact ⟨n, hn, fun d' hd' => hno d' (List.mem_cons_of_mem e hd')⟩

end brackets

end Mailman.Library
