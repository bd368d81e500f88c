import Mailman.Library.Substitute

/-!
# Texts that differ in some words

Two texts are alike when they are made of the same symbols and, in the same places, of words that
may differ. A template that is filled with one set of values and with another gives two such
texts (`alike_substitute`), and a rewriting that never looks into the words keeps them alike
(`Alike.rewrite`).
-/

set_option autoImplicit false

namespace Mailman.Library

variable {α ι : Type} {V W : ι → List α} {s t s' t' : List α}

/-- The same text but for its words, which are those of `V` in one and those of `W` in the
other. -/
inductive Alike (V W : ι → List α) : List α → List α → Prop
  | nil : Alike V W [] []
  | symbol (a : α) {s t : List α} (h : Alike V W s t) : Alike V W (a :: s) (a :: t)
  | word (i : ι) {s t : List α} (h : Alike V W s t) : Alike V W (V i ++ s) (W i ++ t)

/-- Words of one symbol or more, none of which meets a condition. -/
def Solid (p : α → Bool) (V : ι → List α) : Prop := ∀ i, V i ≠ [] ∧ ∀ a ∈ V i, p a = false

/-- A text is like itself. -/
theorem Alike.refl (s : List α) : Alike V W s s := by
  induction s with
  | nil => exact .nil
  | cons a s ih => exact .symbol a ih

/-- Likeness goes both ways. -/
theorem Alike.symm (h : Alike V W s t) : Alike W V t s := by
  induction h with
  | nil => exact .nil
  | symbol a h ih => exact .symbol a ih
  | word i h ih => exact .word i ih

/-- Alike texts make alike texts. -/
theorem Alike.append (h : Alike V W s t) (h' : Alike V W s' t') :
    Alike V W (s ++ s') (t ++ t') := by
  induction h with
  | nil => exact h'
  | symbol a h ih => exact .symbol a ih
  | word i h ih =>
    rw [List.append_assoc, List.append_assoc]
    exact .word i ih

/-- Of two alike texts one is empty when the other is. -/
theorem Alike.eq_nil_iff (hV : ∀ i, V i ≠ []) (hW : ∀ i, W i ≠ []) (h : Alike V W s t) :
    s = [] ↔ t = [] := by
  cases h with
  | nil => rfl
  | symbol a h => simp
  | word i h => simp [hV i, hW i]

/-- Alike texts start with the same symbol, or neither starts with a symbol that no word starts
with. -/
theorem Alike.cases_head {p : α → Bool} (hV : ∀ i, ∃ a w, V i = a :: w ∧ p a = false)
    (hW : ∀ i, ∃ a w, W i = a :: w ∧ p a = false) (h : Alike V W s t) :
    (∃ a s' t', s = a :: s' ∧ t = a :: t' ∧ Alike V W s' t') ∨
      ((∀ a ∈ s.head?, p a = false) ∧ ∀ a ∈ t.head?, p a = false) := by
  cases h with
  | nil => simp
  | symbol a h => exact Or.inl ⟨a, _, _, rfl, rfl, h⟩
  | word i h =>
    obtain ⟨a, w, ha, hp⟩ := hV i
    obtain ⟨b, v, hb, hp'⟩ := hW i
    right
    rw [ha, hb]
    simp [hp, hp']

/-! ## Taking and dropping symbols -/

section take

variable {p : α → Bool} {v : List α}

/-- A solid word is not taken. -/
theorem takeWhile_solid (hne : v ≠ []) (hp : ∀ a ∈ v, p a = false) :
    (v ++ s).takeWhile p = [] ∧ (v ++ s).dropWhile p = v ++ s := by
  obtain ⟨a, v, rfl⟩ := List.exists_cons_of_ne_nil hne
  have ha := hp a List.mem_cons_self
  simp [ha]

/-- Dropping as many as are taken. -/
theorem drop_length_takeWhile (p : α → Bool) (s : List α) :
    s.drop (s.takeWhile p).length = s.dropWhile p := by
  conv_lhs => rw [← List.takeWhile_append_dropWhile (p := p) (l := s)]
  rw [List.takeWhile_append_dropWhile, ← @List.drop_left _ (s.takeWhile p) (s.dropWhile p),
    List.takeWhile_append_dropWhile]

/-- A run of symbols that no word has any of is the same in both, and what follows it is alike. -/
theorem Alike.span (hV : Solid p V) (hW : Solid p W) (h : Alike V W s t) :
    s.takeWhile p = t.takeWhile p ∧ Alike V W (s.dropWhile p) (t.dropWhile p) := by
  induction h with
  | nil => exact ⟨rfl, .nil⟩
  | symbol a h ih =>
    by_cases ha : p a = true
    · simp only [List.takeWhile_cons, List.dropWhile_cons, ha, if_true]
      exact ⟨congrArg (a :: ·) ih.1, ih.2⟩
    · rw [List.takeWhile_cons, List.takeWhile_cons, List.dropWhile_cons, List.dropWhile_cons,
        if_neg ha, if_neg ha, if_neg ha, if_neg ha]
      exact ⟨rfl, .symbol a h⟩
  | word i h ih =>
    obtain ⟨htake, hdrop⟩ := takeWhile_solid (hV i).1 (hV i).2
    obtain ⟨htake', hdrop'⟩ := takeWhile_solid (hW i).1 (hW i).2
    rw [htake, htake', hdrop, hdrop']
    exact ⟨rfl, .word i h⟩

/-- A run that goes through all words is alike in both, and so is what follows it. -/
theorem Alike.span_through (hV : ∀ i, ∀ a ∈ V i, p a = true) (hW : ∀ i, ∀ a ∈ W i, p a = true)
    (h : Alike V W s t) : Alike V W (s.takeWhile p) (t.takeWhile p) ∧
      Alike V W (s.dropWhile p) (t.dropWhile p) := by
  induction h with
  | nil => exact ⟨.nil, .nil⟩
  | symbol a h ih =>
    by_cases ha : p a = true
    · simp only [List.takeWhile_cons, List.dropWhile_cons, ha, if_true]
      exact ⟨.symbol a ih.1, ih.2⟩
    · rw [List.takeWhile_cons, List.takeWhile_cons, List.dropWhile_cons, List.dropWhile_cons,
        if_neg ha, if_neg ha, if_neg ha, if_neg ha]
      exact ⟨.nil, .symbol a h⟩
  | word i h ih =>
    rw [List.takeWhile_append_of_pos (hV i), List.takeWhile_append_of_pos (hW i),
      List.dropWhile_append_of_pos (hV i), List.dropWhile_append_of_pos (hW i)]
    exact ⟨.word i ih.1, ih.2⟩

/-- A solid word is not dropped from behind. -/
theorem rdropWhile_solid (hne : v ≠ []) (hp : ∀ a ∈ v, p a = false) :
    (v ++ s).rdropWhile p = v ++ s.rdropWhile p := by
  unfold List.rdropWhile
  rw [List.reverse_append]
  have hrev : ∀ l : List α, (l ++ v.reverse).dropWhile p = l.dropWhile p ++ v.reverse := by
    intro l
    induction l with
    | nil =>
      have hnil := (@takeWhile_solid α [] p v.reverse (by simpa using hne) (by simpa using hp)).2
      simpa using hnil
    | cons a l ih =>
      rw [List.cons_append, List.dropWhile_cons, List.dropWhile_cons, ih]
      split_ifs <;> rfl
  rw [hrev, List.reverse_append, List.reverse_reverse]

/-- Dropping from behind reaches the front only when all is dropped. -/
theorem rdropWhile_cons (a : α) (s : List α) : (a :: s).rdropWhile p =
    if s.rdropWhile p = [] ∧ p a = true then [] else a :: s.rdropWhile p := by
  unfold List.rdropWhile
  rw [List.reverse_cons]
  have hlast : ∀ l : List α, (l ++ [a]).dropWhile p =
      if l.dropWhile p = [] ∧ p a = true then [] else l.dropWhile p ++ [a] := by
    intro l
    induction l with
    | nil =>
      by_cases ha : p a = true
      · simp [ha]
      · simp [ha]
    | cons b l ih =>
      rw [List.cons_append, List.dropWhile_cons, List.dropWhile_cons, ih]
      by_cases hb : p b = true
      · simp [hb]
      · simp [hb]
  rw [hlast]
  simp only [List.reverse_eq_nil_iff]
  split_ifs <;> simp

/-- What is left without the symbols at the end. -/
theorem Alike.rdropWhile (hV : Solid p V) (hW : Solid p W) (h : Alike V W s t) :
    Alike V W (s.rdropWhile p) (t.rdropWhile p) := by
  induction h with
  | nil => exact .nil
  | symbol a h ih =>
    have hnil := ih.eq_nil_iff (fun i => (hV i).1) (fun i => (hW i).1)
    rw [rdropWhile_cons, rdropWhile_cons]
    simp only [hnil]
    split_ifs
    · exact .nil
    · exact .symbol a ih
  | word i h ih =>
    rw [rdropWhile_solid (hV i).1 (hV i).2, rdropWhile_solid (hW i).1 (hW i).2]
    exact .word i ih

end take

/-! ## Rewriting and filling -/

section rewrite

variable {ρ : Rule α α}

/-- A word that a rule takes nothing of stays as it is. -/
theorem rewrite_pass {v : List α} (h : ∀ w t, w ≠ [] → w <:+ v → ρ (w ++ t) = none) :
    rewrite ρ (fun a => [a]) (v ++ s) = v ++ rewrite ρ (fun a => [a]) s := by
  induction v with
  | nil => rfl
  | cons a v ih =>
    have hnone := h (a :: v) s (List.cons_ne_nil a v) List.suffix_rfl
    rw [List.cons_append] at hnone ⊢
    rw [rewrite_keep hnone, ih fun w t hw hsuffix => h w t hw (hsuffix.trans (List.suffix_cons a v))]
    rfl

/-- A rule that takes nothing of a word, and finds the same before alike texts, keeps texts
alike. -/
theorem Alike.rewrite (hV : ∀ i w t, w ≠ [] → w <:+ V i → ρ (w ++ t) = none)
    (hW : ∀ i w t, w ≠ [] → w <:+ W i → ρ (w ++ t) = none) (hne : ∀ i, V i ≠ [])
    (hstep : ∀ a s t, Alike V W s t → (ρ (a :: s) = none ∧ ρ (a :: t) = none) ∨
      ∃ m n out, ρ (a :: s) = some (m + 1, out) ∧ ρ (a :: t) = some (n + 1, out) ∧
        Alike V W (s.drop m) (t.drop n))
    (h : Alike V W s t) :
    Alike V W (Library.rewrite ρ (fun a => [a]) s) (Library.rewrite ρ (fun a => [a]) t) := by
  induction hn : s.length using Nat.strong_induction_on generalizing s t with
  | h n ih =>
    cases h with
    | nil => exact .nil
    | @symbol a s t h =>
      rw [List.length_cons] at hn
      rcases hstep a s t h with ⟨hs, ht⟩ | ⟨m, k, out, hs, ht, hrest⟩
      · rw [rewrite_keep hs, rewrite_keep ht]
        exact .symbol a (ih s.length (by omega) h rfl)
      · rw [rewrite_take (Nat.succ_pos m) hs (List.cons_ne_nil a s),
          rewrite_take (Nat.succ_pos k) ht (List.cons_ne_nil a t)]
        apply (Alike.refl out).append
        apply ih (s.drop m).length _ hrest rfl
        rw [List.length_drop]
        omega
    | @word i s t h =>
      have hpos := List.length_pos_iff.mpr (hne i)
      rw [List.length_append] at hn
      rw [rewrite_pass (hV i), rewrite_pass (hW i)]
      exact .word i (ih s.length (by omega) h rfl)

/-- A template filled with one set of values and with another. -/
theorem alike_substitute [DecidableEq α] {tok : ι → List α} {l : List ι}
    (hfree : OverlapFree (l.map tok)) (hnodup : (l.map tok).Nodup) (s : List α) :
    Alike V W (substitute (l.map fun i => (tok i, V i)) s)
      (substitute (l.map fun i => (tok i, W i)) s) := by
  have htokens : ∀ U : ι → List α, Table.tokens (l.map fun i => (tok i, U i)) = l.map tok := by
    intro U
    simp [Table.tokens]
  induction s using token_induction hfree.all_ne_nil with
  | plain s hplain =>
    rw [substitute_eq_self (by rwa [htokens]), substitute_eq_self (by rwa [htokens])]
    exact .refl s
  | around a x b hx ha hb =>
    obtain ⟨i, hi, rfl⟩ := List.mem_map.mp hx
    have hmem : ∀ U : ι → List α, (tok i, U i) ∈ l.map fun i => (tok i, U i) := fun U =>
      List.mem_map.mpr ⟨i, hi, rfl⟩
    rw [substitute_around_token (by rwa [htokens]) (by rwa [htokens]) (hmem V),
      substitute_around_token (by rwa [htokens]) (by rwa [htokens]) (hmem W), List.append_assoc,
      List.append_assoc]
    exact ha.append (.word i hb)

/-- A template whose tokens stand for themselves. -/
theorem substitute_self [DecidableEq α] {tok : ι → List α} {l : List ι}
    (hfree : OverlapFree (l.map tok)) (hnodup : (l.map tok).Nodup) (s : List α) :
    substitute (l.map fun i => (tok i, tok i)) s = s := by
  have htokens : Table.tokens (l.map fun i => (tok i, tok i)) = l.map tok := by
    simp [Table.tokens]
  induction s using token_induction hfree.all_ne_nil with
  | plain s hplain => exact substitute_eq_self (by rwa [htokens])
  | around a x b hx ha hb =>
    obtain ⟨i, hi, rfl⟩ := List.mem_map.mp hx
    have hmem : (tok i, tok i) ∈ l.map fun i => (tok i, tok i) := List.mem_map.mpr ⟨i, hi, rfl⟩
    rw [substitute_around_token (by rwa [htokens]) (by rwa [htokens]) hmem, ha, hb]

end rewrite

/-! ## What stands in alike texts -/

section stands

variable {w : List α}

/-- What starts one text and has nothing of a word starts the other. -/
theorem Alike.isPrefix (hV : ∀ i, V i ≠ [] ∧ ∀ a ∈ w, a ∉ V i) (h : Alike V W s t)
    (hw : w <+: s) : w <+: t := by
  induction w generalizing s t with
  | nil => exact List.nil_prefix
  | cons a w ih =>
    cases h with
    | nil => exact hw
    | symbol b h =>
      obtain ⟨rfl, htail⟩ := List.cons_prefix_cons.mp hw
      have hV' : ∀ i, V i ≠ [] ∧ ∀ c ∈ w, c ∉ V i := fun i =>
        ⟨(hV i).1, fun c hc => (hV i).2 c (List.mem_cons_of_mem _ hc)⟩
      exact List.cons_prefix_cons.mpr ⟨rfl, ih hV' h htail⟩
    | word i h =>
      obtain ⟨hne, hno⟩ := hV i
      obtain ⟨b, v, hv⟩ := List.exists_cons_of_ne_nil hne
      rw [hv, List.cons_append] at hw
      obtain ⟨rfl, -⟩ := List.cons_prefix_cons.mp hw
      exact absurd (hv ▸ List.mem_cons_self) (hno a List.mem_cons_self)

/-- What stands in one text and has nothing of a word stands in the other. -/
theorem Alike.isInfix (hw : w ≠ []) (hV : ∀ i, V i ≠ [] ∧ ∀ a ∈ w, a ∉ V i) (h : Alike V W s t)
    (hin : w <:+: s) : w <:+: t := by
  have hpart : ∀ i x, x ≠ [] → x ⊆ w → ¬ x ⊆ V i := by
    intro i x hx hxw hxV
    obtain ⟨a, x, rfl⟩ := List.exists_cons_of_ne_nil hx
    exact (hV i).2 a (hxw List.mem_cons_self) (hxV List.mem_cons_self)
  induction h with
  | nil => exact hin
  | symbol a h ih =>
    rcases List.infix_cons_iff.mp hin with hpre | hin
    · exact ((Alike.symbol a h).isPrefix hV hpre).isInfix
    · exact (ih hin).trans (List.suffix_cons a _).isInfix
  | word i h ih =>
    rw [List.infix_append_iff_ne_nil] at hin
    rcases hin with hin | hin | ⟨x, y, hx, -, rfl, hxV, -⟩
    · exact absurd hin.subset (hpart i w hw (List.Subset.refl w))
    · exact (ih hin).trans (List.suffix_append _ _).isInfix
    · exact absurd hxV.subset (hpart i x hx (List.subset_append_left x y))

/-- A text without some of the words is not much longer than the other text. -/
theorem Alike.length_le {U : ι → Prop} {k : ℕ} (hV : ∀ i, ¬ U i → (V i).length ≤ k)
    (hW : ∀ i, W i ≠ []) (h : Alike V W s t) :
    (∃ i, U i ∧ W i <:+: t) ∨ s.length ≤ (k + 1) * t.length := by
  induction h with
  | nil => exact Or.inr (Nat.zero_le _)
  | symbol a h ih =>
    rcases ih with ⟨i, hi, hin⟩ | hle
    · exact Or.inl ⟨i, hi, hin.trans (List.suffix_cons a _).isInfix⟩
    · right
      rw [List.length_cons, List.length_cons, Nat.mul_succ]
      omega
  | @word i s t h ih =>
    by_cases hi : U i
    · exact Or.inl ⟨i, hi, (List.prefix_append _ _).isInfix⟩
    · rcases ih with ⟨j, hj, hin⟩ | hle
      · exact Or.inl ⟨j, hj, hin.trans (List.suffix_append _ _).isInfix⟩
      · right
        have hword := hV i hi
        have hpos := List.length_pos_iff.mpr (hW i)
        rw [List.length_append, List.length_append]
        calc (V i).length + s.length ≤ (k + 1) * 1 + (k + 1) * t.length := by omega
          _ ≤ (k + 1) * (W i).length + (k + 1) * t.length :=
              Nat.add_le_add_right (Nat.mul_le_mul_left _ hpos) _
          _ = (k + 1) * ((W i).length + t.length) := (Nat.mul_add _ _ _).symm

/-- Where one text has a token for each word, a token that stands in it is one of its words, or
its brackets stand in the other text. -/
theorem Alike.infix_bracketed {o c : α} {names : List (List α)} {name : ι → List α}
    (hfree : OverlapFree (names.map (bracketed o c))) (hname : ∀ i, name i ∈ names)
    (ho : ∀ n ∈ names, n ≠ [] ∧ o ∉ n) (h : Alike V (fun i => bracketed o c (name i)) s t)
    {n : List α} (hn : n ∈ names) (hin : bracketed o c n <:+: t) :
    (∃ i, name i = n ∧ V i <:+: s) ∨ [o, o] <:+: s := by
  have hmem : ∀ m ∈ names, bracketed o c m ∈ names.map (bracketed o c) := fun m hm =>
    List.mem_map_of_mem hm
  induction h with
  | nil => simp [bracketed] at hin
  | @symbol a s t h ih =>
    have hlater : (∃ i, name i = n ∧ V i <:+: s) ∨ [o, o] <:+: s →
        (∃ i, name i = n ∧ V i <:+: a :: s) ∨ [o, o] <:+: a :: s := by
      rintro (⟨i, hi, hin⟩ | hin)
      · exact Or.inl ⟨i, hi, hin.trans (List.suffix_cons a s).isInfix⟩
      · exact Or.inr (hin.trans (List.suffix_cons a s).isInfix)
    rcases List.infix_cons_iff.mp hin with hpre | hin
    · -- the second bracket is the next symbol, for a word would start with two more
      have hfront : o :: o :: (n ++ [c, c]) <+: a :: t := hpre
      obtain ⟨hoa, hnext⟩ := List.cons_prefix_cons.mp hfront
      right
      cases h with
      | nil => simp at hnext
      | @symbol b s t h =>
        obtain ⟨hob, -⟩ := List.cons_prefix_cons.mp hnext
        rw [← hoa, ← hob]
        exact ⟨[], s, rfl⟩
      | @word i s t h =>
        have hnext : o :: (n ++ [c, c]) <+: o :: o :: (name i ++ [c, c] ++ t) := by
          simpa [bracketed] using hnext
        obtain ⟨-, hpre⟩ := List.cons_prefix_cons.mp hnext
        obtain ⟨hne, hno⟩ := ho n hn
        obtain ⟨b, n', rfl⟩ := List.exists_cons_of_ne_nil hne
        obtain ⟨rfl, -⟩ := List.cons_prefix_cons.mp hpre
        exact absurd List.mem_cons_self hno
    · exact hlater (ih hin)
  | @word i s t h ih =>
    rw [List.infix_append_iff_ne_nil] at hin
    have hi := hmem _ (hname i)
    have hx := hmem n hn
    have hinj : bracketed o c n = bracketed o c (name i) → name i = n := by
      intro heq
      simpa [bracketed] using heq.symm
    rcases hin with hin | hin | ⟨x, y, hx', hy, hxy, hxV, -⟩
    · left
      exact ⟨i, hinj (hfree.eq_of_within hx hi hin), (List.prefix_append _ _).isInfix⟩
    · rcases ih hin with ⟨j, hj, hin⟩ | hin
      · exact Or.inl ⟨j, hj, hin.trans (List.suffix_append _ _).isInfix⟩
      · exact Or.inr (hin.trans (List.suffix_append _ _).isInfix)
    · have hpre : x <+: bracketed o c n := hxy ▸ List.prefix_append x y
      obtain ⟨heq, hsame⟩ := hfree.eq hi hx hxV hx' (.inl hpre)
      rw [heq, hsame] at hxy
      exact absurd (List.append_right_eq_self.mp hxy.symm) hy

end stands

end Mailman.Library
