import Mailman.Analysis.RenderOnce
import Mailman.Library.Alike

/-!
# The unsubscribe link in both parts of a mail

One flag over both bodies decides about both footers, and a text that is made of the html has lost
what stood inside its tags. The two parts carry the recipient's unsubscribe link whatever tokens
are drawn exactly when the words of the flag stand in no body, or each part has an unsubscribe
token of its own (`link_in_both_iff`). What a mail says beside its links does not depend on them,
so that its links can be followed through `_html_to_text`.
-/

set_option autoImplicit false

namespace Mailman.Analysis

open Mailman.Library Mailman.Library.Text Mailman.Model

/-! ## The links and their tokens as words -/

section words

/-- The names of both links. -/
def linkNames : List String := unsubNames ++ erasureNames

/-- The place of a link, by its name. -/
abbrev LinkPlace := {n : String // n ∈ linkNames}

def linkWord (unsubUrl erasureUrl : String) (i : LinkPlace) : List Char :=
  if i.1 ∈ unsubNames then unsubUrl.toList else erasureUrl.toList

def tokenWord (i : LinkPlace) : List Char := (token i.1).toList

/-- A character of a host or a token: no blank, no angle bracket and no brace. -/
def isLinkChar (c : Char) : Bool :=
  !isSpace c && c ≠ '<' && c ≠ '>' && c ≠ '\x7b' && c ≠ '\x7d'

/-- The text of a host name or a token. -/
def IsLinkText (s : String) : Prop := ∀ c ∈ s.toList, isLinkChar c = true

/-- A text of link characters is one of a link. -/
theorem isLinkText_of_all {s : String} (h : s.toList.all isLinkChar = true) : IsLinkText s :=
  List.all_eq_true.mp h

/-- What a tag may go on with that `_html_to_text` tells from others. -/
def isTagChar (c : Char) : Bool := "bBrR/pP>".toList.contains c

/-- A word that `_html_to_text` passes over: it has no blanks and no angle brackets, and it does
not start like the rest of a tag. -/
structure Passed (v : List Char) : Prop where
  starts : ∃ c w, v = c :: w ∧ isTagChar c = false
  plain : ∀ c ∈ v, isSpace c = false ∧ c ≠ '<' ∧ c ≠ '>'

/-- A text that a link is made of: it starts with a scheme. -/
structure IsLink (s : String) : Prop where
  scheme : ∃ w, s.toList = "https://".toList ++ w
  chars : IsLinkText s

variable {u e u' e' s host t : String}

/-- The links to a host with a token are links. -/
theorem isLink_of (hhost : IsLinkText host) (ht : IsLinkText t) :
    IsLink (unsubLink host t) ∧ IsLink (erasureLink host t) := by
  have hfixed : ∀ w : String, w = "/u/" ∨ w = "/e/" → IsLink ("https://" ++ host ++ w ++ t) := by
    intro w hw
    refine ⟨⟨host.toList ++ w.toList ++ t.toList, by simp⟩, ?_⟩
    intro c hc
    simp only [String.toList_append, List.mem_append] at hc
    rcases hc with ((hc | hc) | hc) | hc
    · exact isLinkText_of_all (by decide) c hc
    · exact hhost c hc
    · rcases hw with rfl | rfl
      · exact isLinkText_of_all (by decide) c hc
      · exact isLinkText_of_all (by decide) c hc
    · exact ht c hc
  exact ⟨hfixed "/u/" (Or.inl rfl), hfixed "/e/" (Or.inr rfl)⟩

/-- A link is not empty. -/
theorem IsLink.ne_nil (h : IsLink s) : s.toList ≠ [] := by
  obtain ⟨w, hw⟩ := h.scheme
  rw [hw]
  simp

/-- A link is passed over by the text conversion. -/
theorem IsLink.passed (h : IsLink s) : Passed s.toList := by
  obtain ⟨w, hw⟩ := h.scheme
  refine ⟨⟨'h', "ttps://".toList ++ w, by rw [hw]; rfl, by decide⟩, ?_⟩
  intro c hc
  have hchar := h.chars c hc
  simp only [isLinkChar, Bool.and_eq_true, Bool.not_eq_true', decide_eq_true_eq] at hchar
  exact ⟨hchar.1.1.1.1, hchar.1.1.1.2, hchar.1.1.2⟩

/-- A link holds no brace. -/
theorem IsLink.no_brace (h : IsLink s) : '\x7b' ∉ s.toList ∧ '\x7d' ∉ s.toList := by
  constructor
  · intro hc
    exact absurd (h.chars _ hc) (by decide)
  · intro hc
    exact absurd (h.chars _ hc) (by decide)

/-- What stands in a place is one of the two links. -/
theorem linkWord_eq (i : LinkPlace) : linkWord u e i = u.toList ∨ linkWord u e i = e.toList := by
  unfold linkWord
  split_ifs
  · exact Or.inl rfl
  · exact Or.inr rfl

/-- What stands in a place is passed over. -/
theorem passed_linkWord (hu : IsLink u) (he : IsLink e) (i : LinkPlace) :
    Passed (linkWord u e i) := by
  rcases @linkWord_eq u e i with h | h
  · exact h ▸ hu.passed
  · exact h ▸ he.passed

/-- What stands in a place holds no brace. -/
theorem no_brace_linkWord (hu : IsLink u) (he : IsLink e) (i : LinkPlace) :
    '\x7b' ∉ linkWord u e i := by
  rcases @linkWord_eq u e i with h | h
  · exact h ▸ hu.no_brace.1
  · exact h ▸ he.no_brace.1

/-- The names of the links hold no space, tag or brace. -/
theorem linkNames_plain : ∀ n ∈ linkNames, n.toList ≠ [] ∧ '\x7b' ∉ n.toList ∧ ':' ∉ n.toList ∧
    ∀ c ∈ (token n).toList, isSpace c = false ∧ c ≠ '<' ∧ c ≠ '>' := by
  intro n hn
  have hall : (linkNames.all fun n => !n.toList.isEmpty && !n.toList.contains '\x7b' &&
      !n.toList.contains ':' && (token n).toList.all fun c =>
        !isSpace c && c != '<' && c != '>') = true := by decide
  simpa [and_assoc] using List.all_eq_true.mp hall n hn

/-- The word of a place is its name in braces. -/
theorem tokenWord_eq (i : LinkPlace) :
    tokenWord i = bracketed '\x7b' '\x7d' i.1.toList := toList_token i.1

/-- The word of a place is passed over. -/
theorem passed_tokenWord (i : LinkPlace) : Passed (tokenWord i) := by
  refine ⟨⟨'\x7b', _, tokenWord_eq i, by decide⟩, ?_⟩
  exact (linkNames_plain i.1 i.2).2.2.2

/-- What is passed over is solid for any class of tags and spaces. -/
theorem Passed.solid {V : LinkPlace → List Char} {p : Char → Bool} (hV : ∀ i, Passed (V i))
    (hp : ∀ c, isSpace c = false → c ≠ '<' → c ≠ '>' → p c = false) : Solid p V := by
  intro i
  obtain ⟨c, w, hw, -⟩ := (hV i).starts
  refine ⟨by simp [hw], ?_⟩
  intro c hc
  obtain ⟨hspace, hopen, hclose⟩ := (hV i).plain c hc
  exact hp c hspace hopen hclose

/-! ## A filled body -/

/-- The words of the places are the tokens of the names. -/
theorem linkTable_tokens : linkNames.attach.map tokenWord = tokensOf linkNames := by
  unfold tokensOf
  conv_rhs => rw [← List.attach_map_subtype_val linkNames, List.map_map]
  rfl

/-- The tokens of the links do not overlap. -/
theorem overlapFree_links : OverlapFree (linkNames.attach.map tokenWord) := by
  rw [linkTable_tokens]
  apply overlapFree_mailNames.mono
  exact List.map_subset _ (List.subset_append_right _ _)

/-- The tokens of the links differ. -/
theorem nodup_links : (linkNames.attach.map tokenWord).Nodup := by
  rw [linkTable_tokens]
  exact nodup_mailNames.sublist ((List.sublist_append_right _ _).map _)

/-- The table of the links has the link at each token. -/
theorem varTable_linkVars :
    varTable (linkVars u e) = linkNames.attach.map fun i => (tokenWord i, linkWord u e i) := by
  have hmap : ∀ f : String → List Char × List Char,
      (linkNames.attach.map fun i => f i.1) = linkNames.map f := by
    intro f
    conv_rhs => rw [← List.attach_map_subtype_val linkNames, List.map_map]
    rfl
  have hlinks := hmap fun n =>
    ((token n).toList, if n ∈ unsubNames then u.toList else e.toList)
  show _ = linkNames.attach.map fun i =>
    ((token i.1).toList, if i.1 ∈ unsubNames then u.toList else e.toList)
  rw [hlinks]
  simp [varTable, linkVars, linkNames, unsubNames, erasureNames]

/-- The links are filled in one pass. -/
theorem toList_sub (hu : IsLink u) (he : IsLink e) (s : String) : (sub u e s).toList =
    substitute (linkNames.attach.map fun i => (tokenWord i, linkWord u e i)) s.toList := by
  have htokens : Table.tokens (linkNames.attach.map fun i => (tokenWord i, linkWord u e i)) =
      linkNames.attach.map tokenWord := by
    simp [Table.tokens]
  rw [sub_eq_fillVars, toList_fillVars, varTable_linkVars]
  apply inTurn_of_settled (by rw [htokens]; exact overlapFree_links)
    (by rw [htokens]; exact nodup_links)
  apply settled_of_no_bracket (o := '\x7b') (c := '\x7d')
  · intro d hd
    obtain ⟨i, -, rfl⟩ := List.mem_map.mp hd
    rcases @linkWord_eq u e i with h | h
    · exact h ▸ hu.no_brace
    · exact h ▸ he.no_brace
  · intro d hd
    obtain ⟨i, -, rfl⟩ := List.mem_map.mp hd
    refine ⟨i.1.toList, tokenWord_eq i, ?_⟩
    intro d hd hin
    obtain ⟨j, -, rfl⟩ := List.mem_map.mp hd
    have hcolon : ':' ∈ linkWord u e j := by
      rcases @linkWord_eq u e j with h | h
      · obtain ⟨w, hw⟩ := hu.scheme
        rw [h, hw]
        simp
      · obtain ⟨w, hw⟩ := he.scheme
        rw [h, hw]
        simp
    exact (linkNames_plain i.1 i.2).2.2.1 (hin.subset hcolon)

/-- Two mails with other links are alike. -/
theorem alike_sub (hu : IsLink u) (he : IsLink e) (hu' : IsLink u') (he' : IsLink e') (s : String) :
    Alike (linkWord u e) (linkWord u' e') (sub u e s).toList (sub u' e' s).toList := by
  rw [toList_sub hu he, toList_sub hu' he']
  exact alike_substitute overlapFree_links nodup_links s.toList

/-- A mail is like what it was before its links were filled. -/
theorem alike_sub_tokens (hu : IsLink u) (he : IsLink e) (s : String) :
    Alike (linkWord u e) tokenWord (sub u e s).toList s.toList := by
  have hself := alike_substitute (V := linkWord u e) (W := tokenWord) overlapFree_links nodup_links
    s.toList
  rw [substitute_self overlapFree_links nodup_links] at hself
  rw [toList_sub hu he]
  exact hself

end words

/-! ## Through `_html_to_text` -/

section passes

variable {V W : LinkPlace → List Char} {s t : List Char}

/-- A passed word starts with no tag character. -/
theorem tagStarts (hV : ∀ i, Passed (V i)) (i : LinkPlace) :
    ∃ c w, V i = c :: w ∧ isTagChar c = false := (hV i).starts

/-- A word is passed over by a rule that takes only what starts with a character of its own. -/
theorem none_of_head {ρ : Rule Char Char} {a : Char} (hρ : ∀ c s, c ≠ a → ρ (c :: s) = none)
    (hV : ∀ i, ∀ c ∈ V i, c ≠ a) (i : LinkPlace) (w t : List Char) (hw : w ≠ [])
    (hsuffix : w <:+ V i) : ρ (w ++ t) = none := by
  obtain ⟨c, w, rfl⟩ := List.exists_cons_of_ne_nil hw
  exact hρ c (w ++ t) (hV i c (hsuffix.subset List.mem_cons_self))

/-- A rule keeps texts alike when it starts with one character and finds the same after it. -/
theorem alike_reSub {ρ : Rule Char Char} {a : Char} (hρ : ∀ c s, c ≠ a → ρ (c :: s) = none)
    (hV : ∀ i, Passed (V i)) (hW : ∀ i, Passed (W i))
    (ha : ∀ c, isSpace c = false → c ≠ '<' → c ≠ '>' → c ≠ a)
    (hstep : ∀ s t, Alike V W s t → (ρ (a :: s) = none ∧ ρ (a :: t) = none) ∨
      ∃ m n out, ρ (a :: s) = some (m + 1, out) ∧ ρ (a :: t) = some (n + 1, out) ∧
        Alike V W (s.drop m) (t.drop n))
    (h : Alike V W s t) : Alike V W (reSub ρ s) (reSub ρ t) := by
  have hplain : ∀ {U : LinkPlace → List Char}, (∀ i, Passed (U i)) → ∀ i, ∀ c ∈ U i, c ≠ a := by
    intro U hU i c hc
    obtain ⟨hspace, hopen, hclose⟩ := (hU i).plain c hc
    exact ha c hspace hopen hclose
  apply h.rewrite (none_of_head hρ (hplain hV)) (none_of_head hρ (hplain hW))
  · intro i
    obtain ⟨c, w, hw, -⟩ := (hV i).starts
    simp [hw]
  · intro c s t hst
    by_cases hc : c = a
    · subst hc
      exact hstep s t hst
    · exact Or.inl ⟨hρ c s hc, hρ c t hc⟩

/-- Where no character of a tag is next, a text does not go on like a tag. -/
theorem ne_of_head {c : Char} (hs : ∀ a ∈ s.head?, isTagChar a = false) (hc : isTagChar c = true)
    (x : List Char) : s ≠ c :: x := by
  rintro rfl
  rw [hs c (by simp)] at hc
  cases hc

/-! ### `<br\s*/?>` -/

/-- The end of a line break's tag, after so many blanks. -/
def brEnd (k : ℕ) : List Char → Option (ℕ × List Char)
  | '>' :: _ => some (k + 4, ['\n'])
  | '/' :: '>' :: _ => some (k + 5, ['\n'])
  | _ => none

/-- A line break tag by its first letters. -/
theorem brTag_eq (b r : Char) (s : List Char) : brTag ('<' :: b :: r :: s) =
    if (b = 'b' ∨ b = 'B') ∧ (r = 'r' ∨ r = 'R') then
      brEnd (s.takeWhile isSpace).length (s.dropWhile isSpace)
    else none := by
  rw [← drop_length_takeWhile]
  rfl

/-- What is not closed is no line break tag. -/
theorem brEnd_none {k : ℕ} (h : ∀ x, s ≠ '>' :: x) (h' : ∀ x, s ≠ '/' :: '>' :: x) :
    brEnd k s = none := by
  unfold brEnd
  split
  · next x => exact absurd rfl (h x)
  · next x => exact absurd rfl (h' x)
  · rfl

/-- Other letters are no line break tag. -/
theorem brTag_none (h : ∀ b r x, s = b :: r :: x →
    ¬((b = 'b' ∨ b = 'B') ∧ (r = 'r' ∨ r = 'R'))) : brTag ('<' :: s) = none := by
  cases s with
  | nil => rfl
  | cons b s =>
    cases s with
    | nil => rfl
    | cons r s => rw [brTag_eq, if_neg (h b r s rfl)]

/-- What starts with another character is no line break tag. -/
theorem brTag_of_ne (c : Char) (s : List Char) (hc : c ≠ '<') : brTag (c :: s) = none := by
  unfold brTag
  split
  · next heq =>
    cases heq
    exact absurd rfl hc
  · rfl

/-- The end of a line break tag is found alike in alike texts. -/
theorem alike_brEnd (hV : ∀ i, Passed (V i)) (hW : ∀ i, Passed (W i)) (k : ℕ)
    (h : Alike V W s t) : (brEnd k s = none ∧ brEnd k t = none) ∨
      ∃ j, brEnd k s = some (k + j + 3, ['\n']) ∧ brEnd k t = some (k + j + 3, ['\n']) ∧
        Alike V W (s.drop j) (t.drop j) := by
  have hclose : isTagChar '>' = true := by decide
  have hslash : isTagChar '/' = true := by decide
  rcases h.cases_head (tagStarts hV) (tagStarts hW) with ⟨c, s, t, rfl, rfl, hst⟩ | ⟨hs, ht⟩
  · by_cases hgt : c = '>'
    · subst hgt
      exact Or.inr ⟨1, rfl, rfl, hst⟩
    · by_cases hsl : c = '/'
      · subst hsl
        rcases hst.cases_head (tagStarts hV) (tagStarts hW) with ⟨d, s, t, rfl, rfl, hst'⟩ | ⟨hs, ht⟩
        · by_cases hd : d = '>'
          · subst hd
            exact Or.inr ⟨2, rfl, rfl, hst'⟩
          · left
            constructor
            · exact brEnd_none (by simp) (by simp [hd])
            · exact brEnd_none (by simp) (by simp [hd])
        · left
          constructor
          · exact brEnd_none (by simp) (by simpa using ne_of_head hs hclose)
          · exact brEnd_none (by simp) (by simpa using ne_of_head ht hclose)
      · left
        constructor
        · exact brEnd_none (by simp [hgt]) (by simp [hsl])
        · exact brEnd_none (by simp [hgt]) (by simp [hsl])
  · left
    constructor
    · exact brEnd_none (ne_of_head hs hclose) fun x => ne_of_head hs hslash ('>' :: x)
    · exact brEnd_none (ne_of_head ht hclose) fun x => ne_of_head ht hslash ('>' :: x)

/-- Line break tags are replaced alike. -/
theorem alike_brTag (hV : ∀ i, Passed (V i)) (hW : ∀ i, Passed (W i)) (h : Alike V W s t) :
    Alike V W (reSub brTag s) (reSub brTag t) := by
  have hletters : ∀ c, (c = 'b' ∨ c = 'B') ∨ (c = 'r' ∨ c = 'R') → isTagChar c = true := by
    rintro c ((rfl | rfl) | (rfl | rfl)) <;> decide
  apply alike_reSub brTag_of_ne hV hW (fun c _ hc _ => hc) _ h
  intro s t h
  rcases h.cases_head (tagStarts hV) (tagStarts hW) with ⟨b, s, t, rfl, rfl, h₁⟩ | ⟨hs, ht⟩
  · rcases h₁.cases_head (tagStarts hV) (tagStarts hW) with ⟨r, s, t, rfl, rfl, h₂⟩ | ⟨hs, ht⟩
    · by_cases htag : (b = 'b' ∨ b = 'B') ∧ (r = 'r' ∨ r = 'R')
      · have hsolid : ∀ {U : LinkPlace → List Char}, (∀ i, Passed (U i)) → Solid isSpace U :=
          fun hU => Passed.solid hU fun c hspace _ _ => hspace
        obtain ⟨htake, hdrop⟩ := h₂.span (hsolid hV) (hsolid hW)
        rw [brTag_eq, brTag_eq, if_pos htag, if_pos htag, htake]
        rcases alike_brEnd hV hW (t.takeWhile isSpace).length hdrop with hnone | ⟨j, hs, ht, hj⟩
        · exact Or.inl hnone
        · right
          refine ⟨_, _, _, hs, ht, ?_⟩
          have hlater : ∀ x : List Char,
              (b :: r :: x).drop ((t.takeWhile isSpace).length + j + 2) =
                (x.drop (t.takeWhile isSpace).length).drop j := by
            intro x
            rw [List.drop_succ_cons, List.drop_succ_cons, List.drop_drop]
          rw [hlater, hlater, drop_length_takeWhile, ← htake, drop_length_takeWhile]
          exact hj
      · left
        rw [brTag_eq, brTag_eq, if_neg htag, if_neg htag]
        exact ⟨rfl, rfl⟩
    · left
      constructor
      · apply brTag_none
        rintro b' r x heq ⟨-, hr⟩
        exact ne_of_head hs (hletters r (Or.inr hr)) x (List.cons.inj heq).2
      · apply brTag_none
        rintro b' r x heq ⟨-, hr⟩
        exact ne_of_head ht (hletters r (Or.inr hr)) x (List.cons.inj heq).2
  · left
    constructor
    · apply brTag_none
      rintro b r x heq ⟨hb, -⟩
      exact ne_of_head hs (hletters b (Or.inl hb)) (r :: x) heq
    · apply brTag_none
      rintro b r x heq ⟨hb, -⟩
      exact ne_of_head ht (hletters b (Or.inl hb)) (r :: x) heq

/-! ### `</p>` -/

/-- What starts with another character is no closing paragraph. -/
theorem closingP_of_ne (c : Char) (s : List Char) (hc : c ≠ '<') : closingP (c :: s) = none := by
  unfold closingP
  split
  · next heq =>
    cases heq
    exact absurd rfl hc
  · rfl

/-- Other letters are no closing paragraph. -/
theorem closingP_none (h : ∀ p x, s = '/' :: p :: '>' :: x → ¬(p = 'p' ∨ p = 'P')) :
    closingP ('<' :: s) = none := by
  unfold closingP
  split
  · next p x heq =>
    cases heq
    exact if_neg (h p x rfl)
  · rfl

/-- Closing paragraphs are replaced alike. -/
theorem alike_closingP (hV : ∀ i, Passed (V i)) (hW : ∀ i, Passed (W i)) (h : Alike V W s t) :
    Alike V W (reSub closingP s) (reSub closingP t) := by
  have hclose : isTagChar '>' = true := by decide
  have hslash : isTagChar '/' = true := by decide
  have hletters : ∀ c, c = 'p' ∨ c = 'P' → isTagChar c = true := by
    rintro c (rfl | rfl) <;> decide
  apply alike_reSub closingP_of_ne hV hW (fun c _ hc _ => hc) _ h
  intro s t h
  rcases h.cases_head (tagStarts hV) (tagStarts hW) with ⟨a, s, t, rfl, rfl, h₁⟩ | ⟨hs, ht⟩
  · rcases h₁.cases_head (tagStarts hV) (tagStarts hW) with ⟨p, s, t, rfl, rfl, h₂⟩ | ⟨hs, ht⟩
    · rcases h₂.cases_head (tagStarts hV) (tagStarts hW) with ⟨c, s, t, rfl, rfl, h₃⟩ | ⟨hs, ht⟩
      · by_cases htag : a = '/' ∧ (p = 'p' ∨ p = 'P') ∧ c = '>'
        · obtain ⟨rfl, hp, rfl⟩ := htag
          right
          refine ⟨3, 3, ['\n', '\n'], if_pos hp, if_pos hp, h₃⟩
        · left
          constructor
          · apply closingP_none
            intro p' x heq hp
            cases heq
            exact htag ⟨rfl, hp, rfl⟩
          · apply closingP_none
            intro p' x heq hp
            cases heq
            exact htag ⟨rfl, hp, rfl⟩
      · left
        constructor
        · apply closingP_none
          intro p' x heq _
          exact ne_of_head hs hclose x (List.cons.inj (List.cons.inj heq).2).2
        · apply closingP_none
          intro p' x heq _
          exact ne_of_head ht hclose x (List.cons.inj (List.cons.inj heq).2).2
    · left
      constructor
      · apply closingP_none
        intro p x heq hp
        exact ne_of_head hs (hletters p hp) ('>' :: x) (List.cons.inj heq).2
      · apply closingP_none
        intro p x heq hp
        exact ne_of_head ht (hletters p hp) ('>' :: x) (List.cons.inj heq).2
  · left
    constructor
    · apply closingP_none
      intro p x heq _
      exact ne_of_head hs hslash (p :: '>' :: x) heq
    · apply closingP_none
      intro p x heq _
      exact ne_of_head ht hslash (p :: '>' :: x) heq

/-! ### `<[^>]+>` and blank lines -/

/-- What starts with another character is no tag. -/
theorem anyTag_of_ne (c : Char) (s : List Char) (hc : c ≠ '<') : anyTag (c :: s) = none := by
  unfold anyTag
  split
  · next heq =>
    cases heq
    exact absurd rfl hc
  · rfl

/-- A tag runs to the next bracket, and is not empty. -/
theorem anyTag_eq (s : List Char) : anyTag ('<' :: s) =
    if s.takeWhile (· ≠ '>') ≠ [] ∧ s.dropWhile (· ≠ '>') ≠ [] then
      some ((s.takeWhile (· ≠ '>')).length + 2, []) else none := by
  have hlen : (s.takeWhile (· ≠ '>')).length < s.length ↔ s.dropWhile (· ≠ '>') ≠ [] := by
    have hsplit := congrArg List.length (List.takeWhile_append_dropWhile (p := (· ≠ '>')) (l := s))
    rw [List.length_append] at hsplit
    rw [← List.length_pos_iff]
    omega
  exact if_congr (and_congr_right fun _ => hlen) rfl rfl

/-- What is left past other characters starts with the character, if anything. -/
theorem dropWhile_ne (a : Char) (s : List Char) :
    s.dropWhile (· ≠ a) = [] ∨ ∃ y, s.dropWhile (· ≠ a) = a :: y := by
  induction s with
  | nil => exact Or.inl rfl
  | cons c s ih =>
    by_cases hc : c = a
    · right
      exact ⟨s, by simp [hc]⟩
    · rw [List.dropWhile_cons, if_pos (by simpa using hc)]
      exact ih

/-- Tags are removed alike. -/
theorem alike_anyTag (hV : ∀ i, Passed (V i)) (hW : ∀ i, Passed (W i)) (h : Alike V W s t) :
    Alike V W (reSub anyTag s) (reSub anyTag t) := by
  have hne : ∀ {U : LinkPlace → List Char}, (∀ i, Passed (U i)) → ∀ i, U i ≠ [] := by
    intro U hU i
    obtain ⟨c, w, hw, -⟩ := (hU i).starts
    simp [hw]
  have hthrough : ∀ {U : LinkPlace → List Char}, (∀ i, Passed (U i)) → ∀ i, ∀ c ∈ U i,
      (c ≠ '>') = true := by
    intro U hU i c hc
    simpa using ((hU i).plain c hc).2.2
  apply alike_reSub anyTag_of_ne hV hW (fun c _ hc _ => hc) _ h
  intro s t h
  obtain ⟨htake, hdrop⟩ := h.span_through (p := (· ≠ '>'))
    (by simpa using hthrough hV) (by simpa using hthrough hW)
  have hinner := htake.eq_nil_iff (hne hV) (hne hW)
  have hrest := hdrop.eq_nil_iff (hne hV) (hne hW)
  rw [anyTag_eq, anyTag_eq]
  by_cases htag : s.takeWhile (· ≠ '>') ≠ [] ∧ s.dropWhile (· ≠ '>') ≠ []
  · have htag' : t.takeWhile (· ≠ '>') ≠ [] ∧ t.dropWhile (· ≠ '>') ≠ [] :=
      ⟨fun hnil => htag.1 (hinner.mpr hnil), fun hnil => htag.2 (hrest.mpr hnil)⟩
    right
    refine ⟨_, _, [], if_pos htag, if_pos htag', ?_⟩
    rw [← List.drop_drop, ← List.drop_drop, drop_length_takeWhile, drop_length_takeWhile]
    -- the next character is the closing bracket, which no word has
    obtain hnil | ⟨x, hx⟩ := dropWhile_ne '>' s
    · exact absurd hnil htag.2
    · obtain hnil | ⟨y, hy⟩ := dropWhile_ne '>' t
      · exact absurd hnil htag'.2
      · rw [hx, hy] at hdrop ⊢
        rcases hdrop.cases_head (tagStarts hV) (tagStarts hW) with ⟨c, x', y', hcx, hcy, h'⟩ | ⟨hs, -⟩
        · cases hcx
          cases hcy
          exact h'
        · exact absurd (hs '>' (by simp)) (by decide)
  · left
    have htag' : ¬(t.takeWhile (· ≠ '>') ≠ [] ∧ t.dropWhile (· ≠ '>') ≠ []) := by
      rintro ⟨htake', hdrop'⟩
      exact htag ⟨fun hnil => htake' (hinner.mp hnil), fun hnil => hdrop' (hrest.mp hnil)⟩
    exact ⟨if_neg htag, if_neg htag'⟩

/-- What starts with another character is no run of blank lines. -/
theorem blankLines_of_ne (c : Char) (s : List Char) (hc : c ≠ '\n') :
    blankLines (c :: s) = none := by
  unfold blankLines
  simp [hc]

/-- A run of blank lines is three line feeds or more. -/
theorem blankLines_eq (s : List Char) : blankLines ('\n' :: s) =
    if 2 ≤ (s.takeWhile (· = '\n')).length then
      some ((s.takeWhile (· = '\n')).length + 1, ['\n', '\n']) else none := by
  unfold blankLines
  simp

/-- Blank lines are folded alike. -/
theorem alike_blankLines (hV : ∀ i, Passed (V i)) (hW : ∀ i, Passed (W i)) (h : Alike V W s t) :
    Alike V W (reSub blankLines s) (reSub blankLines t) := by
  have hline : ∀ c, isSpace c = false → c ≠ '\n' := by
    rintro c hc rfl
    exact absurd hc (by decide)
  have hsolid : ∀ {U : LinkPlace → List Char}, (∀ i, Passed (U i)) → Solid (· = '\n') U :=
    fun hU => Passed.solid hU fun c hspace _ _ => decide_eq_false (hline c hspace)
  apply alike_reSub blankLines_of_ne hV hW (fun c hspace _ _ => hline c hspace) _ h
  intro s t h
  obtain ⟨htake, hdrop⟩ := h.span (hsolid hV) (hsolid hW)
  rw [blankLines_eq, blankLines_eq, htake]
  by_cases hlines : 2 ≤ (t.takeWhile (· = '\n')).length
  · right
    refine ⟨_, _, _, if_pos hlines, if_pos hlines, ?_⟩
    rw [drop_length_takeWhile, ← htake, drop_length_takeWhile]
    exact hdrop
  · exact Or.inl ⟨if_neg hlines, if_neg hlines⟩

/-- The text that is made of an html body depends on its words only in their places. -/
theorem alike_htmlToText (hV : ∀ i, Passed (V i)) (hW : ∀ i, Passed (W i)) {html html' : String}
    (h : Alike V W html.toList html'.toList) :
    Alike V W (htmlToText html).toList (htmlToText html').toList := by
  have hsolid : ∀ {U : LinkPlace → List Char}, (∀ i, Passed (U i)) → Solid isSpace U :=
    fun hU => Passed.solid hU fun c hspace _ _ => hspace
  have htext := alike_blankLines hV hW (alike_anyTag hV hW (alike_closingP hV hW
    (alike_brTag hV hW h)))
  have hstripped := ((htext.span (hsolid hV) (hsolid hW)).2).rdropWhile (hsolid hV) (hsolid hW)
  unfold htmlToText strip stripBy
  rw [String.toList_ofList, String.toList_ofList, String.toList_ofList, String.toList_ofList]
  exact hstripped

end passes

/-! ## The two parts of a mail -/

section mail

variable {ctx : MailCtx} {r : SendRow} {mail m : MailText} {u e u' e' : String}

/-- A mail with its links, before it is checked. -/
def linkedMail (ctx : MailCtx) (mail : MailText) (unsubUrl erasureUrl : String) : MailText :=
  let parts := injectCompliance ctx.footerAddr mail.html mail.text unsubUrl erasureUrl ctx.kind
  { mail with html := parts.1, text := parts.2 }

/-- The mail with the links that `_preflight` and `_assert_recipients_sendable` check it with. -/
def exampleMail (ctx : MailCtx) (mail : MailText) : MailText :=
  linkedMail ctx mail "https://example.com/u/x" "https://example.com/e/x"

/-- A body with a token of the unsubscribe link. -/
def holdsUnsub (s : String) : Bool := unsubNames.any fun n => contains (token n) s

/-- What the text part is made of. -/
def textSource (mail : MailText) : String :=
  if mail.text = "" then htmlToText mail.html else mail.text

/-- Whatever tokens are drawn for the recipient, a mail that is built carries the unsubscribe link
in both of its parts. -/
def LinkInBoth (ctx : MailCtx) (r : SendRow) : Prop :=
  ∀ unsubToken erasureToken mail, IsLinkText unsubToken → IsLinkText erasureToken →
    mailText ctx r unsubToken erasureToken = .ok mail →
      contains (unsubLink ctx.publicHost unsubToken) mail.html = true ∧
        contains (unsubLink ctx.publicHost unsubToken) mail.text = true

/-- Containing a text is holding it as an infix. -/
theorem contains_iff (a s : String) : contains a s = true ↔ a.toList <:+: s.toList := by
  simp [contains]

/-- A mail is sendable when no part holds an opening double brace. -/
theorem assertSendable_iff (mail : MailText) : assertSendable mail = .ok () ↔
    ∀ s ∈ [mail.subject, mail.html, mail.text], ¬['\x7b', '\x7b'] <:+: s.toList := by
  have hbraces : "\x7b\x7b".toList = ['\x7b', '\x7b'] := rfl
  unfold assertSendable
  dsimp only
  split_ifs with hany
  · simp only [List.any_eq_true, contains_iff, hbraces] at hany
    obtain ⟨s, hs, hin⟩ := hany
    simp only [false_iff]
    exact fun h => h s hs hin
  · simp only [List.any_eq_true, contains_iff, hbraces, not_exists, not_and] at hany
    exact iff_of_true rfl hany

/-- A mail text is the rendered mail with its links, if that is sendable. -/
theorem mailText_eq_ok {unsubToken erasureToken : String} :
    mailText ctx r unsubToken erasureToken = .ok m ↔
      ∃ mail, render ctx.template r ctx.companyName = some mail ∧
        m = linkedMail ctx mail (unsubLink ctx.publicHost unsubToken)
          (erasureLink ctx.publicHost erasureToken) ∧ assertSendable m = .ok () := by
  unfold mailText
  cases hrender : render ctx.template r ctx.companyName with
  | none => simp
  | some mail =>
    simp only [Option.some.injEq, exists_eq_left']
    show (assertSendable (linkedMail ctx mail _ _) >>= fun _ => pure (linkedMail ctx mail _ _)) =
      .ok m ↔ _
    cases hcheck : assertSendable (linkedMail ctx mail (unsubLink ctx.publicHost unsubToken)
        (erasureLink ctx.publicHost erasureToken)) with
    | error reason =>
      constructor
      · intro h
        cases h
      · rintro ⟨rfl, hok⟩
        rw [hcheck] at hok
        cases hok
    | ok done =>
      constructor
      · intro h
        cases h
        exact ⟨rfl, hcheck⟩
      · rintro ⟨rfl, -⟩
        rfl

/-- A mail whose flag is set gets no footer. -/
theorem linkedMail_of_had (hkind : ctx.kind = .promotional)
    (hhad : hadUnsubToken mail.html mail.text = true) : linkedMail ctx mail u e =
      { mail with
        html := sub u e mail.html
        text := if sub u e mail.text = "" then htmlToText (sub u e mail.html)
          else sub u e mail.text } := by
  unfold linkedMail injectCompliance
  simp [hkind, hhad]

/-- Both footers carry the link. -/
theorem link_in_footers (addr : String) :
    u.toList <:+: (footerHtml addr u e).toList ∧ u.toList <:+: (footerText addr u e).toList := by
  unfold footerHtml footerText
  simp only [String.toList_append, List.append_assoc]
  constructor
  · iterate 5 apply List.infix_append_of_infix_right
    exact (List.prefix_append _ _).isInfix
  · iterate 4 apply List.infix_append_of_infix_right
    exact (List.prefix_append _ _).isInfix

/-- A mail whose flag is not set gets both footers. -/
theorem contains_of_not_had (hkind : ctx.kind = .promotional) (hfooter : ctx.footerAddr ≠ "")
    (hhad : hadUnsubToken mail.html mail.text = false) :
    contains u (linkedMail ctx mail u e).html = true ∧
      contains u (linkedMail ctx mail u e).text = true := by
  obtain ⟨hhtml, htext⟩ := @link_in_footers u e ctx.footerAddr
  rw [contains_iff, contains_iff]
  unfold linkedMail injectCompliance
  simp only [hkind, hhad, Bool.not_false, Bool.true_and, decide_eq_true_eq, hfooter, ne_eq,
    not_false_eq_true, if_true, String.toList_append]
  exact ⟨hhtml.trans (List.suffix_append _ _).isInfix, htext.trans (List.suffix_append _ _).isInfix⟩

section links

variable (hu : IsLink u) (he : IsLink e)

include hu he

/-- With the links put in, a text is empty only if it was. -/
theorem sub_eq_empty_iff (s : String) : sub u e s = "" ↔ s = "" := by
  have hne : ∀ {U : LinkPlace → List Char}, (∀ i, Passed (U i)) → ∀ i, U i ≠ [] := by
    intro U hU i
    obtain ⟨c, w, hw, -⟩ := (hU i).starts
    simp [hw]
  have hnil := (alike_sub_tokens hu he s).eq_nil_iff (hne (passed_linkWord hu he))
    (hne passed_tokenWord)
  rwa [String.toList_eq_nil_iff, String.toList_eq_nil_iff] at hnil

/-- The text part of a mail whose flag is set, without its links. -/
theorem alike_text (mail : MailText) : Alike (linkWord u e) tokenWord
    (if sub u e mail.text = "" then htmlToText (sub u e mail.html) else sub u e mail.text).toList
      (textSource mail).toList := by
  unfold textSource
  rw [if_congr (sub_eq_empty_iff hu he mail.text) rfl rfl]
  split_ifs
  · exact alike_htmlToText (passed_linkWord hu he) passed_tokenWord
      (alike_sub_tokens hu he mail.html)
  · exact alike_sub_tokens hu he mail.text

omit hu he in
/-- One link is like the other. -/
theorem alike_links : Alike (linkWord u e) (linkWord u' e') u.toList u'.toList ∧
    Alike (linkWord u e) (linkWord u' e') e.toList e'.toList := by
  have hunsub : ∀ u e : String, linkWord u e ⟨"unsubscribeUrl", by decide⟩ = u.toList :=
    fun u e => if_pos (by decide)
  have herasure : ∀ u e : String, linkWord u e ⟨"erasureUrl", by decide⟩ = e.toList :=
    fun u e => if_neg (by decide)
  constructor
  · have hword := Alike.word (V := linkWord u e) (W := linkWord u' e')
      ⟨"unsubscribeUrl", by decide⟩ .nil
    rwa [hunsub, hunsub, List.append_nil, List.append_nil] at hword
  · have hword := Alike.word (V := linkWord u e) (W := linkWord u' e')
      ⟨"erasureUrl", by decide⟩ .nil
    rwa [herasure, herasure, List.append_nil, List.append_nil] at hword

omit hu he in
/-- The footers of two pairs of links are alike. -/
theorem alike_footers (addr : String) :
    Alike (linkWord u e) (linkWord u' e') (footerHtml addr u e).toList
        (footerHtml addr u' e').toList ∧
      Alike (linkWord u e) (linkWord u' e') (footerText addr u e).toList
        (footerText addr u' e').toList := by
  obtain ⟨hunsub, herasure⟩ := @alike_links u e u' e'
  have hfixed : ∀ s : String, Alike (linkWord u e) (linkWord u' e') s.toList s.toList :=
    fun s => Alike.refl s.toList
  unfold footerHtml footerText
  simp only [String.toList_append]
  constructor
  · refine ((((((((Alike.append ?_ ?_).append ?_).append ?_).append ?_).append hunsub).append
      ?_).append ?_).append herasure).append ?_ |>.append ?_
    all_goals exact hfixed _
  · refine ((((Alike.append ?_ ?_).append ?_).append ?_).append hunsub).append ?_ |>.append
      herasure |>.append ?_
    all_goals exact hfixed _

/-- Two mails that differ in their links are alike in both parts. -/
theorem alike_linked (hu' : IsLink u') (he' : IsLink e') (ctx : MailCtx) (mail : MailText) :
    Alike (linkWord u e) (linkWord u' e') (linkedMail ctx mail u e).html.toList
        (linkedMail ctx mail u' e').html.toList ∧
      Alike (linkWord u e) (linkWord u' e') (linkedMail ctx mail u e).text.toList
        (linkedMail ctx mail u' e').text.toList := by
  have hV := passed_linkWord hu he
  have hW := passed_linkWord hu' he'
  have hpart := alike_sub hu he hu' he'
  obtain ⟨hfooterHtml, hfooterText⟩ :=
    @alike_footers u e u' e' ctx.footerAddr
  -- the text part is the html part's text where there is none
  have hmade : ∀ {html html' : String}, Alike (linkWord u e) (linkWord u' e') html.toList html'.toList →
      Alike (linkWord u e) (linkWord u' e')
        (if sub u e mail.text = "" then htmlToText html else sub u e mail.text).toList
        (if sub u' e' mail.text = "" then htmlToText html' else sub u' e' mail.text).toList := by
    intro html html' h
    rw [if_congr (sub_eq_empty_iff hu he mail.text) rfl rfl,
      if_congr (sub_eq_empty_iff hu' he' mail.text) rfl rfl]
    split_ifs
    · exact alike_htmlToText hV hW h
    · exact hpart mail.text
  unfold linkedMail injectCompliance
  cases ctx.kind with
  | transactional => exact ⟨hpart mail.html, hmade (hpart mail.html)⟩
  | promotional =>
    have hhtml : Alike (linkWord u e) (linkWord u' e')
        (if !hadUnsubToken mail.html mail.text && ctx.footerAddr ≠ "" then
          sub u e mail.html ++ footerHtml ctx.footerAddr u e else sub u e mail.html).toList
        (if !hadUnsubToken mail.html mail.text && ctx.footerAddr ≠ "" then
          sub u' e' mail.html ++ footerHtml ctx.footerAddr u' e' else sub u' e' mail.html).toList := by
      split_ifs
      · rw [String.toList_append, String.toList_append]
        exact (hpart mail.html).append hfooterHtml
      · exact hpart mail.html
    refine ⟨hhtml, ?_⟩
    dsimp only
    have htext := hmade hhtml
    generalize (if sub u e mail.text = "" then htmlToText _ else sub u e mail.text) = s at htext ⊢
    generalize (if sub u' e' mail.text = "" then htmlToText _ else sub u' e' mail.text) = s' at htext ⊢
    cases hadUnsubToken mail.html mail.text with
    | true => exact htext
    | false =>
      show Alike _ _ (s ++ footerText ctx.footerAddr u e).toList
        (s' ++ footerText ctx.footerAddr u' e').toList
      rw [String.toList_append, String.toList_append]
      exact htext.append hfooterText

/-- Braces stand in a text with one pair of links when they do with another. -/
theorem braces_alike {s t : List Char} (h : Alike (linkWord u e) (linkWord u' e') s t)
    (hin : ['\x7b', '\x7b'] <:+: s) : ['\x7b', '\x7b'] <:+: t := by
  apply h.isInfix (by simp) _ hin
  intro i
  obtain ⟨c, w, hw, -⟩ := (passed_linkWord hu he i).starts
  refine ⟨by simp [hw], ?_⟩
  intro a ha
  simp only [List.mem_cons, List.not_mem_nil, or_false, or_self] at ha
  subst ha
  exact no_brace_linkWord hu he i

/-- Whether a mail is refused does not depend on its links. -/
theorem sendable_of_sendable (hu' : IsLink u') (he' : IsLink e')
    (h : assertSendable (linkedMail ctx mail u' e') = .ok ()) :
    assertSendable (linkedMail ctx mail u e) = .ok () := by
  rw [assertSendable_iff] at h ⊢
  obtain ⟨hhtml, htext⟩ := alike_linked hu he hu' he' ctx mail
  simp only [List.mem_cons, List.not_mem_nil, or_false, forall_eq_or_imp, forall_eq] at h ⊢
  exact ⟨h.1, fun hin => h.2.1 (braces_alike hu he hhtml hin),
    fun hin => h.2.2 (braces_alike hu he htext hin)⟩

omit hu he in
/-- A text that is not refused has the link wherever it had a token of it. -/
theorem link_of_token {s t : List Char} (h : Alike (linkWord u e) tokenWord s t)
    (hsend : ¬['\x7b', '\x7b'] <:+: s) (hin : ∃ n ∈ unsubNames, (token n).toList <:+: t) :
    u.toList <:+: s := by
  obtain ⟨n, hn, hin⟩ := hin
  have hnames : ∀ i : LinkPlace, i.1.toList ∈ linkNames.map String.toList := fun i =>
    List.mem_map_of_mem i.2
  have hfree : OverlapFree ((linkNames.map String.toList).map (bracketed '\x7b' '\x7d')) := by
    have hall := overlapFree_links
    rw [linkTable_tokens] at hall
    have htokens : tokensOf linkNames =
        (linkNames.map String.toList).map (bracketed '\x7b' '\x7d') := by
      rw [tokensOf, List.map_map]
      exact List.map_congr_left fun n _ => toList_token n
    rwa [htokens] at hall
  have hword : tokenWord = fun i : LinkPlace => bracketed '\x7b' '\x7d' i.1.toList :=
    funext tokenWord_eq
  rw [hword] at h
  rw [toList_token] at hin
  have hmem : n ∈ linkNames := List.mem_append_left _ hn
  have hplain : ∀ w ∈ linkNames.map String.toList, w ≠ [] ∧ '\x7b' ∉ w := by
    intro w hw
    obtain ⟨m, hm, rfl⟩ := List.mem_map.mp hw
    exact ⟨(linkNames_plain m hm).1, (linkNames_plain m hm).2.1⟩
  rcases h.infix_bracketed hfree hnames hplain (List.mem_map_of_mem hmem) hin with
    ⟨i, hi, hlink⟩ | hbraces
  · have hname : i.1 ∈ unsubNames := by
      rw [String.toList_inj.mp hi]
      exact hn
    rwa [linkWord, if_pos hname] at hlink
  · exact absurd hbraces hsend

omit hu he in
/-- A text that has a longer link than it could be long had a token of it. -/
theorem token_of_link {s t : List Char} (h : Alike (linkWord u e) tokenWord s t)
    (hlong : (e.toList.length + 1) * t.length < u.toList.length) (hin : u.toList <:+: s) :
    ∃ n ∈ unsubNames, (token n).toList <:+: t := by
  have hne : ∀ i : LinkPlace, tokenWord i ≠ [] := by
    intro i
    obtain ⟨c, w, hw, -⟩ := (passed_tokenWord i).starts
    simp [hw]
  have hlength : ∀ i : LinkPlace, i.1 ∉ unsubNames →
      (linkWord u e i).length ≤ e.toList.length := by
    intro i hi
    rw [linkWord, if_neg hi]
  rcases h.length_le (U := fun i => i.1 ∈ unsubNames) hlength hne with ⟨i, hi, hstands⟩ | hle
  · exact ⟨i.1, hi, hstands⟩
  · have := hin.length_le
    omega

end links

/-- A body holds an unsubscribe token when one is an infix of it. -/
theorem holdsUnsub_iff (s : String) :
    holdsUnsub s = true ↔ ∃ n ∈ unsubNames, (token n).toList <:+: s.toList := by
  simp only [holdsUnsub, List.any_eq_true, contains_iff]

/-- For a promotional campaign with a footer address, both parts of every mail carry the link
exactly when the flag is not set for the rendered bodies, or each part is made of a body with an
unsubscribe token of its own; a recipient that cannot be sent to gets no mail. -/
theorem link_in_both_iff (ctx : MailCtx) (r : SendRow) (hkind : ctx.kind = .promotional)
    (hfooter : ctx.footerAddr ≠ "") (hhost : IsLinkText ctx.publicHost) :
    LinkInBoth ctx r ↔ ∀ mail, render ctx.template r ctx.companyName = some mail →
      assertSendable (exampleMail ctx mail) = .ok () → hadUnsubToken mail.html mail.text = true →
        holdsUnsub mail.html = true ∧ holdsUnsub (textSource mail) = true := by
  have hexample : IsLink "https://example.com/u/x" ∧ IsLink "https://example.com/e/x" :=
    @isLink_of "example.com" "x" (isLinkText_of_all (by decide)) (isLinkText_of_all (by decide))
  constructor
  · intro h mail hrender hsend hhad
    -- a token that is longer than all else in the mail
    have herasure : IsLinkText "x" := isLinkText_of_all (by decide)
    obtain ⟨k, hk⟩ : ∃ k, (erasureLink ctx.publicHost "x").toList.length + 1 = k := ⟨_, rfl⟩
    obtain ⟨n, hn⟩ : ∃ n, k * mail.html.toList.length + k * (textSource mail).toList.length = n :=
      ⟨_, rfl⟩
    have htoken : IsLinkText (.ofList (List.replicate (n + 1) 'x')) := by
      intro c hc
      rw [String.toList_ofList] at hc
      rw [List.eq_of_mem_replicate hc]
      decide
    obtain ⟨hu, -⟩ := isLink_of hhost htoken
    obtain ⟨-, he⟩ := isLink_of hhost herasure
    have hlen : n < (unsubLink ctx.publicHost
        (.ofList (List.replicate (n + 1) 'x'))).toList.length := by
      simp only [unsubLink, String.toList_append, String.toList_ofList, List.length_append,
        List.length_replicate]
      omega
    have hok := sendable_of_sendable hu he hexample.1 hexample.2 hsend
    obtain ⟨hhtml, htext⟩ := h _ _ _ htoken herasure (mailText_eq_ok.mpr ⟨mail, hrender, rfl, hok⟩)
    rw [linkedMail_of_had hkind hhad, contains_iff] at hhtml htext
    rw [holdsUnsub_iff, holdsUnsub_iff]
    constructor
    · apply token_of_link (alike_sub_tokens hu he mail.html) _ hhtml
      rw [hk]
      omega
    · apply token_of_link (alike_text hu he mail) _ htext
      rw [hk]
      omega
  · intro h unsubToken erasureToken m hunsub herasure hm
    obtain ⟨mail, hrender, rfl, hok⟩ := mailText_eq_ok.mp hm
    obtain ⟨hu, -⟩ := isLink_of hhost hunsub
    obtain ⟨-, he⟩ := isLink_of hhost herasure
    cases hhad : hadUnsubToken mail.html mail.text with
    | false => exact contains_of_not_had hkind hfooter hhad
    | true =>
      have hsend := sendable_of_sendable hexample.1 hexample.2 hu he hok
      obtain ⟨hhtml, htext⟩ := h mail hrender hsend hhad
      rw [assertSendable_iff] at hok
      rw [linkedMail_of_had hkind hhad] at hok ⊢
      simp only [List.mem_cons, List.not_mem_nil, or_false, forall_eq_or_imp, forall_eq] at hok
      rw [contains_iff, contains_iff]
      exact ⟨link_of_token (alike_sub_tokens hu he mail.html) hok.2.1
          ((holdsUnsub_iff _).mp hhtml),
        link_of_token (alike_text hu he mail) hok.2.2 ((holdsUnsub_iff _).mp htext)⟩

/-- A promotional campaign, with a footer address, of such bodies. -/
private def footerCtx (html text : String) : MailCtx :=
  { template := textTemplate "Winter news" html text
    companyName := none
    kind := .promotional
    publicHost := "mail.example.com"
    footerAddr := "1 Main St" }

private def bobRow : SendRow :=
  { contactId := some 1, email := "bob@demo.example", name := "Bob" }

/-- The bodies of a mail with a link in each, and with the recipient's name. -/
private def leaveHtml : String :=
  "<p>Hi " ++ token "name" ++ ", <a href='" ++ token "unsubscribeUrl" ++ "'>leave</a></p>"

private def leaveText : String := "Hi " ++ token "name" ++ ", leave at " ++ token "unsubscribe_url"

/-- Each body has its own link, and so does each part. -/
theorem link_in_both_leave : LinkInBoth (footerCtx leaveHtml leaveText) bobRow := by
  apply (link_in_both_iff (footerCtx leaveHtml leaveText) bobRow rfl (by decide)
    (isLinkText_of_all (by decide))).mpr
  intro mail hrender _ _
  have hbody : render (footerCtx leaveHtml leaveText).template bobRow none =
      some { subject := "Winter news"
             html := "<p>Hi Bob, <a href='" ++ token "unsubscribeUrl" ++ "'>leave</a></p>"
             text := "Hi Bob, leave at " ++ token "unsubscribe_url" } := by
    decide +kernel
  cases hbody.symm.trans hrender
  decide +kernel

/-- The html of a mail whose only unsubscribe link is a tag's attribute. -/
private def anchorHtml : String := "<a href='" ++ token "unsubscribeUrl" ++ "'>Unsubscribe</a>"

/-- The text that is made of an html body has lost the link that stood inside a tag. -/
theorem link_lost_from_text : ¬ ∀ (ctx : MailCtx) (r : SendRow), ctx.kind = .promotional →
    ctx.footerAddr ≠ "" → IsLinkText ctx.publicHost → LinkInBoth ctx r := by
  intro h
  have hbody : render (footerCtx anchorHtml "").template bobRow none =
      some { subject := "Winter news", html := anchorHtml, text := "" } := by decide +kernel
  have hsend : mailText (footerCtx anchorHtml "") bobRow "x" "y" = .ok
      { subject := "Winter news"
        html := "<a href='https://mail.example.com/u/x'>Unsubscribe</a>"
        text := "Unsubscribe" } := by
    rw [mailText_eq_ok]
    exact ⟨_, hbody, by decide +kernel, by rw [assertSendable_iff]; decide +kernel⟩
  have hboth := h (footerCtx anchorHtml "") bobRow rfl (by decide)
    (isLinkText_of_all (by decide)) "x" "y" _ (isLinkText_of_all (by decide))
    (isLinkText_of_all (by decide)) hsend
  revert hboth
  decide +kernel

end mail

end Mailman.Analysis
