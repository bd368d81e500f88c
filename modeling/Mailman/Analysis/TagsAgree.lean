import Mailman.Model.Tags
import Mathlib.Algebra.Order.BigOperators.Group.List
import Mathlib.Algebra.Order.Ring.Nat
import Mathlib.Data.List.Nodup

/-!
# When the operations on tags agree

`list_tags` trims the parts of a text and counts each of them, `add_recipients` compares them as
they are and counts a contact once. The two agree on every tag exactly when each contact's text
is tidy: its parts are trimmed and no two are the same. A rename and a deletion do what they
should on tidy texts, so that the operations agree exactly where the texts are tidy
(`tagsAgree_iff`).
-/

set_option autoImplicit false

namespace Mailman.Analysis

open Mailman.Library Mailman.Model

/-- The parts of the tags of a row. -/
def partsOf : Option String → List String
  | none => []
  | some text => tagParts text

def contactParts (c : Contact) : List String := partsOf c.tags

/-- A tag that can be asked for: trimmed, not empty and without a bar. -/
def IsTag (t : String) : Prop := t ≠ "" ∧ Text.strip t = t ∧ '|' ∉ t.toList

/-- The number that `list_tags` reports for a tag. -/
def reported (t : String) (contacts : List Contact) : ℕ :=
  (((listTagsData contacts).find? (·.1 = t)).map (·.2)).getD 0

/-- The parts that are not blank are trimmed and distinct. -/
def TidyParts (parts : List String) : Prop :=
  (∀ p ∈ parts, Text.strip p ≠ "" → Text.strip p = p) ∧ (parts.filter (Text.strip · ≠ "")).Nodup

def Tidy (contacts : List Contact) : Prop := ∀ c ∈ contacts, TidyParts (contactParts c)

/-! ## Strip -/

section strip

variable {s : String} {c : Char}

/-- What a stripped text holds, the text holds. -/
theorem mem_strip (h : c ∈ (Text.strip s).toList) : c ∈ s.toList := by
  unfold Text.strip Text.stripBy at h
  rw [String.toList_ofList] at h
  exact (List.dropWhile_sublist _).subset ((List.rdropWhile_prefix _ _).sublist.subset h)

/-- Without the spaces at its end a list starts as it did. -/
theorem dropWhile_rdropWhile {p : Char → Bool} {l : List Char} (h : l.dropWhile p = l) :
    (l.rdropWhile p).dropWhile p = l.rdropWhile p := by
  rw [List.dropWhile_eq_self_iff] at h ⊢
  intro hpos
  have hkept := List.rdropWhile_prefix p l
  have hlen := hkept.length_le
  rw [hkept.getElem hpos]
  exact h (by omega)

/-- A stripped text is stripped. -/
@[simp] theorem strip_strip (s : String) : Text.strip (Text.strip s) = Text.strip s := by
  unfold Text.strip Text.stripBy
  rw [String.toList_ofList]
  congr 1
  rw [dropWhile_rdropWhile (List.dropWhile_idempotent _ _), List.rdropWhile_idempotent]

end strip

/-! ## Split and join -/

section join

variable {parts : List String} {t : String}

/-- A part holds no separator. -/
theorem notMem_of_mem_splitOn {a : Char} {l part : List Char} (h : part ∈ l.splitOn a) :
    a ∉ part := by
  induction l generalizing part with
  | nil =>
    rw [List.splitOn_nil, List.mem_singleton] at h
    simp [h]
  | cons c l ih =>
    rw [List.splitOn_cons_eq_if_modifyHead] at h
    split_ifs at h with hc
    · rcases List.mem_cons.mp h with rfl | h
      · simp
      · exact ih h
    · cases hparts : l.splitOn a with
      | nil => exact absurd hparts (List.splitOn_ne_nil _ _)
      | cons first parts =>
        rw [hparts, List.modifyHead_cons, List.mem_cons] at h
        rcases h with rfl | h
        · have hfirst : a ∉ first := ih (by simp [hparts])
          have hne : a ≠ c := by
            rintro rfl
            simp at hc
          simp [hne, hfirst]
        · exact ih (by simp [hparts, h])

/-- A part of the tags holds no bar. -/
theorem notMem_of_mem_tagParts {text p : String} (h : p ∈ tagParts text) : '|' ∉ p.toList := by
  unfold tagParts at h
  obtain ⟨part, hpart, rfl⟩ := List.mem_map.mp h
  rw [String.toList_ofList]
  exact notMem_of_mem_splitOn hpart

/-- A text without a bar is its only part. -/
theorem tagParts_of_notMem (h : '|' ∉ t.toList) : tagParts t = [t] := by
  unfold tagParts
  rw [List.splitOn_eq_singleton h, List.map_singleton, String.ofList_toList]

/-- A join is split into the parts of its parts. -/
theorem tagParts_joinTags (h : parts ≠ []) :
    tagParts (joinTags parts) = parts.flatMap tagParts := by
  unfold tagParts joinTags
  rw [String.toList_ofList]
  induction parts with
  | nil => exact absurd rfl h
  | cons p parts ih =>
    cases parts with
    | nil => simp
    | cons q parts =>
      rw [List.map_cons, List.map_cons, List.intercalate_cons_cons, List.append_assoc,
        List.singleton_append, List.splitOn_append_cons_self, List.map_append]
      have hrest := ih (by simp)
      rw [List.map_cons] at hrest
      rw [hrest]
      rfl

end join

/-! ## Counting and selecting -/

section count

variable {contacts : List Contact} {c : Contact} {t : String}

/-- How often `list_tags` counts a contact for a tag. -/
def countedFor (t : String) (c : Contact) : ℕ := ((contactParts c).map Text.strip).count t

/-- Whether a contact is selected by a tag, as a number. -/
def selectedFor (t : String) (c : Contact) : ℕ := if t ∈ contactParts c then 1 else 0

/-- The tags that are counted are the stripped parts that are not empty. -/
theorem countedTags_eq (contacts : List Contact) : countedTags contacts =
    (contacts.flatMap fun c => (contactParts c).map Text.strip).filter (· ≠ "") := by
  unfold countedTags
  congr 2
  funext c
  unfold contactParts partsOf
  cases c.tags <;> rfl

/-- A tag is counted once for each part that is it. -/
theorem count_countedTags (ht : t ≠ "") :
    (countedTags contacts).count t = (contacts.map (countedFor t)).sum := by
  rw [countedTags_eq, List.count_filter (by simpa using ht), List.count_flatMap]
  rfl

/-- A listed tag is counted, with its count. -/
theorem mem_listTagsData {n : ℕ} : (t, n) ∈ listTagsData contacts ↔
    t ∈ countedTags contacts ∧ n = (countedTags contacts).count t := by
  unfold listTagsData
  dsimp only
  rw [(List.mergeSort_perm _ _).mem_iff, List.mem_map]
  constructor
  · rintro ⟨t', ht', heq⟩
    rw [Prod.mk.injEq] at heq
    obtain ⟨rfl, rfl⟩ := heq
    exact ⟨List.mem_eraseDups.mp ht', rfl⟩
  · rintro ⟨ht, rfl⟩
    exact ⟨t, List.mem_eraseDups.mpr ht, rfl⟩

/-- The number reported for a tag is how often it is counted. -/
theorem reported_eq (ht : t ≠ "") : reported t contacts = (contacts.map (countedFor t)).sum := by
  rw [← count_countedTags ht]
  unfold reported
  cases hfind : (listTagsData contacts).find? (·.1 = t) with
  | none =>
    have hno : t ∉ countedTags contacts := by
      intro hmem
      have hpair := mem_listTagsData.mpr ⟨hmem, rfl⟩
      have hne := List.find?_eq_none.mp hfind _ hpair
      simp at hne
    rw [List.count_eq_zero_of_not_mem hno]
    rfl
  | some pair =>
    obtain ⟨t', n⟩ := pair
    have hname : t' = t := by simpa using List.find?_some hfind
    subst hname
    exact (mem_listTagsData.mp (List.mem_of_find?_eq_some hfind)).2

/-- A tag selects the contacts that have it as a part. -/
theorem mem_selectByTag (ht : Text.strip t = t) :
    c ∈ selectByTag t contacts ↔ c ∈ contacts ∧ t ∈ contactParts c := by
  unfold selectByTag contactParts partsOf
  rw [List.mem_filter, ht]
  cases c.tags <;> simp

/-- A tag selects as many contacts as have it. -/
theorem length_selectByTag (ht : Text.strip t = t) :
    (selectByTag t contacts).length = (contacts.map (selectedFor t)).sum := by
  induction contacts with
  | nil => rfl
  | cons c contacts ih =>
    rw [List.map_cons, List.sum_cons, ← ih]
    unfold selectByTag selectedFor contactParts partsOf
    rw [List.filter_cons, ht]
    cases htags : c.tags with
    | none => simp
    | some text =>
      by_cases hmem : t ∈ tagParts text
      · simp [hmem, Nat.add_comm]
      · simp [hmem]

/-- A contact that is selected by a tag is counted for it. -/
theorem selectedFor_le (ht : Text.strip t = t) (c : Contact) : selectedFor t c ≤ countedFor t c := by
  unfold selectedFor countedFor
  split_ifs with hmem
  · apply List.count_pos_iff.mpr
    exact List.mem_map.mpr ⟨t, hmem, ht⟩
  · exact Nat.zero_le _

/-- Where no number is larger, equal sums are equal number by number. -/
theorem eq_of_sum_eq {α : Type} {f g : α → ℕ} {l : List α} (hle : ∀ a ∈ l, f a ≤ g a)
    (hsum : (l.map f).sum = (l.map g).sum) : ∀ a ∈ l, f a = g a := by
  induction l with
  | nil => simp
  | cons a l ih =>
    rw [List.map_cons, List.map_cons, List.sum_cons, List.sum_cons] at hsum
    have ha := hle a (by simp)
    have hrest : (l.map f).sum ≤ (l.map g).sum :=
      List.sum_le_sum fun b hb => hle b (List.mem_cons_of_mem _ hb)
    intro b hb
    rcases List.mem_cons.mp hb with rfl | hb
    · omega
    · exact ih (fun b hb => hle b (List.mem_cons_of_mem _ hb)) (by omega) b hb

/-- A contact's part holds no bar. -/
theorem notMem_of_mem_contactParts {p : String} (h : p ∈ contactParts c) : '|' ∉ p.toList := by
  unfold contactParts partsOf at h
  cases htags : c.tags with
  | none => simp [htags] at h
  | some text =>
    rw [htags] at h
    exact notMem_of_mem_tagParts h

/-- A part that is not blank is a tag once it is stripped. -/
theorem isTag_strip {p : String} (hp : p ∈ contactParts c) (hblank : Text.strip p ≠ "") :
    IsTag (Text.strip p) :=
  ⟨hblank, strip_strip p, fun hbar => notMem_of_mem_contactParts hp (mem_strip hbar)⟩

/-- Counting and selecting agree on a contact exactly when its parts are tidy. -/
theorem counted_eq_selected_iff (c : Contact) :
    (∀ t, IsTag t → selectedFor t c = countedFor t c) ↔ TidyParts (contactParts c) := by
  constructor
  · intro h
    have hone : ∀ t, IsTag t → countedFor t c ≤ 1 := by
      intro t ht
      rw [← h t ht]
      unfold selectedFor
      split_ifs <;> omega
    have htrimmed : ∀ p ∈ contactParts c, Text.strip p ≠ "" → Text.strip p = p := by
      intro p hp hblank
      have htag := isTag_strip hp hblank
      by_contra hne
      have hcounted : 1 ≤ countedFor (Text.strip p) c :=
        List.count_pos_iff.mpr (List.mem_map_of_mem hp)
      have hmem : Text.strip p ∈ contactParts c := by
        have hselected := h _ htag
        unfold selectedFor at hselected
        by_contra hno
        rw [if_neg hno] at hselected
        omega
      have hrest : Text.strip p ∈ (contactParts c).erase p :=
        (List.mem_erase_of_ne hne).mpr hmem
      have hperm := ((List.perm_cons_erase hp).map Text.strip).count_eq (Text.strip p)
      have hagain : 1 ≤ (((contactParts c).erase p).map Text.strip).count (Text.strip p) :=
        List.count_pos_iff.mpr (List.mem_map.mpr ⟨_, hrest, strip_strip p⟩)
      have htwo := hone _ htag
      unfold countedFor at htwo
      rw [hperm, List.map_cons, List.count_cons_self] at htwo
      omega
    refine ⟨htrimmed, List.nodup_iff_count_le_one.mpr ?_⟩
    intro p
    by_cases hp : p ∈ (contactParts c).filter (Text.strip · ≠ "")
    · rw [List.mem_filter] at hp
      have hblank : Text.strip p ≠ "" := by simpa using hp.2
      have hself := htrimmed p hp.1 hblank
      have htag := isTag_strip hp.1 hblank
      have hle := hone _ htag
      unfold countedFor at hle
      calc ((contactParts c).filter (Text.strip · ≠ "")).count p
          ≤ (contactParts c).count p := List.filter_sublist.count_le p
        _ ≤ ((contactParts c).map Text.strip).count (Text.strip p) :=
            List.count_le_count_map
        _ ≤ 1 := hle
    · rw [List.count_eq_zero_of_not_mem hp]
      omega
  · rintro ⟨htrimmed, hnodup⟩ t ht
    have hcount : countedFor t c = (contactParts c).count t := by
      unfold countedFor
      rw [List.count_eq_countP, List.countP_map, List.count_eq_countP]
      apply List.countP_congr
      intro p hp
      simp only [Function.comp_apply, beq_iff_eq]
      constructor
      · intro hstrip
        rw [← hstrip]
        exact (htrimmed p hp (by rw [hstrip]; exact ht.1)).symm
      · rintro rfl
        exact ht.2.1
    rw [hcount]
    unfold selectedFor
    split_ifs with hmem
    · have hfilter : ((contactParts c).filter (Text.strip · ≠ "")).count t =
          (contactParts c).count t := by
        rw [List.count_filter]
        simpa [ht.2.1] using ht.1
      have hle := List.nodup_iff_count_le_one.mp hnodup t
      have hpos := List.count_pos_iff.mpr hmem
      omega
    · exact (List.count_eq_zero_of_not_mem hmem).symm

/-- `list_tags` and `add_recipients` agree on every tag exactly when the texts are tidy. -/
theorem reported_eq_selected_iff (contacts : List Contact) :
    (∀ t, IsTag t → reported t contacts = (selectByTag t contacts).length) ↔ Tidy contacts := by
  unfold Tidy
  constructor
  · intro h c hc
    rw [← counted_eq_selected_iff]
    intro t ht
    have hsum := h t ht
    rw [reported_eq ht.1, length_selectByTag ht.2.1] at hsum
    exact eq_of_sum_eq (fun c _ => selectedFor_le ht.2.1 c) hsum.symm c hc
  · intro h t ht
    rw [reported_eq ht.1, length_selectByTag ht.2.1]
    congr 1
    apply List.map_congr_left
    intro c hc
    exact ((counted_eq_selected_iff c).mpr (h c hc) t ht).symm

end count

/-! ## What a rewrite looks at -/

section like

variable {c : Contact} {t : String}

/-- A text that starts with the pattern's characters and goes on somehow is like the pattern. -/
theorem like_prefix (l post : List Char) : like (l ++ ['%']) (l ++ post) = true := by
  induction l with
  | nil =>
    have hnil : [] ∈ post.tails := (List.mem_tails _ _).mpr List.nil_suffix
    simp only [List.nil_append, like, if_pos]
    exact List.any_eq_true.mpr ⟨[], hnil, rfl⟩
  | cons d l ih =>
    rw [List.cons_append, List.cons_append, like]
    split_ifs with hd
    · refine List.any_eq_true.mpr ⟨l ++ post, ?_, ih⟩
      exact (List.mem_tails _ _).mpr (List.suffix_cons _ _)
    · simp [ih]

/-- Every text that holds a tag is found by the search for it. -/
theorem like_infix {l text : List Char} (h : l <:+: text) : like ('%' :: l ++ ['%']) text = true := by
  obtain ⟨pre, post, rfl⟩ := h
  simp only [List.cons_append, like, if_pos]
  refine List.any_eq_true.mpr ⟨l ++ post, ?_, like_prefix l post⟩
  rw [List.append_assoc]
  exact (List.mem_tails _ _).mpr (List.suffix_append _ _)

/-- A part stands in the joined text. -/
theorem infix_of_mem_intercalate {a : Char} {part : List Char} {parts : List (List Char)}
    (h : part ∈ parts) : part <:+: [a].intercalate parts := by
  induction parts with
  | nil => cases h
  | cons first parts ih =>
    cases parts with
    | nil =>
      rw [List.mem_singleton.mp h]
      simp
    | cons next parts =>
      rw [List.intercalate_cons_cons]
      rcases List.mem_cons.mp h with rfl | h
      · rw [List.append_assoc]
        exact (List.prefix_append _ _).isInfix
      · exact (ih h).trans (List.suffix_append _ _).isInfix

/-- A stripped text stands in the text. -/
theorem strip_infix (s : String) : (Text.strip s).toList <:+: s.toList := by
  unfold Text.strip Text.stripBy
  rw [String.toList_ofList]
  exact (List.rdropWhile_prefix _ _).isInfix.trans (List.dropWhile_suffix _).isInfix

/-- A contact that has a part which trims to the tag is looked at. -/
theorem tagsLike_of_mem {p : String} (hp : p ∈ contactParts c) (ht : Text.strip p = t) :
    tagsLike t c.tags = true := by
  unfold contactParts partsOf at hp
  cases htags : c.tags with
  | none => simp [htags] at hp
  | some text =>
    rw [htags] at hp
    obtain ⟨part, hpart, rfl⟩ := List.mem_map.mp hp
    have hin : t.toList <:+: text.toList := by
      have hfirst := strip_infix (String.ofList part)
      have hsecond := infix_of_mem_intercalate (a := '|') hpart
      rw [ht, String.toList_ofList] at hfirst
      rw [List.intercalate_splitOn] at hsecond
      exact hfirst.trans hsecond
    exact like_infix hin

/-- A text has at least one part. -/
theorem tagParts_ne_nil (text : String) : tagParts text ≠ [] := by
  unfold tagParts
  simp

/-- A list of parts without bars is what its join is split into. -/
theorem flatMap_tagParts {parts : List String} (h : ∀ p ∈ parts, '|' ∉ p.toList) :
    parts.flatMap tagParts = parts := by
  induction parts with
  | nil => rfl
  | cons p parts ih =>
    rw [List.flatMap_cons, tagParts_of_notMem (h p (by simp)),
      ih fun q hq => h q (List.mem_cons_of_mem _ hq)]
    rfl

/-! ## What a rewrite does -/

/-- The parts after a rename: a part that trims to the old tag gives the parts of the new one. -/
def renamedParts (old new : String) (parts : List String) : List String :=
  parts.flatMap fun p => if Text.strip p = old then tagParts new else [p]

/-- Without a part that trims to the old tag a rename changes nothing. -/
theorem renamedParts_of_ne {old new : String} {parts : List String}
    (h : ∀ p ∈ parts, Text.strip p ≠ old) : renamedParts old new parts = parts := by
  unfold renamedParts
  have hsame : parts.flatMap (fun p => if Text.strip p = old then tagParts new else [p]) =
      parts.flatMap fun p => [p] := by
    apply List.flatMap_congr
    intro p hp
    exact if_neg (h p hp)
  rw [hsame, List.flatMap_singleton']

/-- Renaming each part and splitting again gives the renamed parts. -/
theorem flatMap_map_rename {old new : String} {parts : List String}
    (h : ∀ p ∈ parts, '|' ∉ p.toList) :
    (parts.map fun p => if Text.strip p = old then new else p).flatMap tagParts =
      renamedParts old new parts := by
  unfold renamedParts
  rw [List.flatMap_map]
  apply List.flatMap_congr
  intro p hp
  split_ifs
  · rfl
  · exact tagParts_of_notMem (h p hp)

/-- A renamed text has the renamed parts. -/
theorem tagParts_renameIn (old new text : String) :
    tagParts (renameIn old new text) = renamedParts old new (tagParts text) := by
  have hbar : ∀ p ∈ tagParts text, '|' ∉ p.toList := fun p hp => notMem_of_mem_tagParts hp
  unfold renameIn
  dsimp only
  split_ifs with hchanged
  · rw [tagParts_joinTags (by simpa using tagParts_ne_nil text), flatMap_map_rename hbar]
  · rw [← flatMap_map_rename hbar, not_not.mp hchanged, flatMap_tagParts hbar]

/-- A text without a tag has the other parts. -/
theorem partsOf_deleteIn (tag text : String) :
    partsOf (deleteIn tag text) = (tagParts text).filter fun p => Text.strip p ≠ tag := by
  unfold deleteIn
  dsimp only
  split_ifs with hnone
  · rw [hnone]
    rfl
  · show tagParts (joinTags _) = _
    rw [tagParts_joinTags hnone]
    apply flatMap_tagParts
    intro p hp
    exact notMem_of_mem_tagParts (List.mem_of_mem_filter hp)

/-- A row of `rename_tag`, looked at or not. -/
theorem contactParts_rename (old new : String) (c : Contact) :
    contactParts (if tagsLike old c.tags then { c with tags := c.tags.map (renameIn old new) }
      else c) = renamedParts old new (contactParts c) := by
  split_ifs with hlike
  · unfold contactParts
    cases htags : c.tags with
    | none => simp [partsOf, renamedParts]
    | some text => exact tagParts_renameIn old new text
  · symm
    apply renamedParts_of_ne
    intro p hp ht
    exact hlike (tagsLike_of_mem hp ht)

/-- A row of `delete_tag`, looked at or not. -/
theorem contactParts_delete (tag : String) (c : Contact) :
    contactParts (if tagsLike tag c.tags then { c with tags := c.tags.bind (deleteIn tag) } else c) =
      (contactParts c).filter fun p => Text.strip p ≠ tag := by
  split_ifs with hlike
  · unfold contactParts
    cases htags : c.tags with
    | none => rfl
    | some text => exact partsOf_deleteIn tag text
  · symm
    rw [List.filter_eq_self]
    intro p hp
    exact decide_eq_true fun ht => hlike (tagsLike_of_mem hp ht)

end like

/-! ## The operations on tidy texts -/

section agree

variable {Id : Type} {x : Texts} {db : Db Id} {a b t : String} {contacts : List Contact} {i : ℕ}

/-- The ids of the contacts that `by_tag` adds. -/
def selectedIds (t : String) (contacts : List Contact) : List ℕ :=
  (selectByTag t contacts).map (·.id)

/-- A tag selects the ids of the contacts that have it. -/
theorem mem_selectedIds (ht : Text.strip t = t) :
    i ∈ selectedIds t contacts ↔ ∃ c ∈ contacts, t ∈ contactParts c ∧ c.id = i := by
  unfold selectedIds
  simp only [List.mem_map, mem_selectByTag ht, and_assoc]

/-- The contacts after a rename that is not refused. -/
theorem contacts_rename (ha : IsTag a) (hb : IsTag b) :
    ((TagOp.rename a b).run x db).contacts = updateRows db.contacts (tagsLike a ·.tags) fun c =>
      { c with tags := c.tags.map (renameIn a b) } := by
  simp only [TagOp.run, renameTag, ha.2.1, hb.2.1, ha.1, hb.1, or_self, if_false]

/-- The contacts after a deletion that is not refused. -/
theorem contacts_delete (ht : IsTag t) :
    ((TagOp.delete t).run x db).contacts = updateRows db.contacts (tagsLike t ·.tags) fun c =>
      { c with tags := c.tags.bind (deleteIn t) } := by
  simp only [TagOp.run, deleteTag, ht.2.1, ht.1, if_false]

/-- A renamed part is an old one or of the new name. -/
theorem mem_renamedParts {parts : List String} {p : String} :
    p ∈ renamedParts a b parts ↔
      (p ∈ parts ∧ Text.strip p ≠ a) ∨ (p ∈ tagParts b ∧ ∃ q ∈ parts, Text.strip q = a) := by
  unfold renamedParts
  rw [List.mem_flatMap]
  constructor
  · rintro ⟨q, hq, hp⟩
    split_ifs at hp with hstrip
    · exact Or.inr ⟨hp, q, hq, hstrip⟩
    · rw [List.mem_singleton] at hp
      subst hp
      exact Or.inl ⟨hq, hstrip⟩
  · rintro (⟨hp, hstrip⟩ | ⟨hp, q, hq, hstrip⟩)
    · exact ⟨p, hp, by simp [hstrip]⟩
    · exact ⟨q, hq, by simpa [hstrip] using hp⟩

/-- The ids selected after a rename. -/
theorem mem_selectedIds_rename (ha : IsTag a) (hb : IsTag b) (ht : Text.strip t = t) :
    i ∈ selectedIds t ((TagOp.rename a b).run x db).contacts ↔
      ∃ c ∈ db.contacts, t ∈ renamedParts a b (contactParts c) ∧ c.id = i := by
  rw [mem_selectedIds ht, contacts_rename ha hb]
  constructor
  · rintro ⟨c', hc', hmem, hid⟩
    obtain ⟨c, hc, rfl⟩ := mem_updateRows.mp hc'
    rw [contactParts_rename] at hmem
    refine ⟨c, hc, hmem, ?_⟩
    rw [← hid]
    split_ifs <;> rfl
  · rintro ⟨c, hc, hmem, hid⟩
    refine ⟨_, mem_updateRows.mpr ⟨c, hc, rfl⟩, ?_, ?_⟩
    · rw [contactParts_rename]
      exact hmem
    · rw [← hid]
      split_ifs <;> rfl

/-- After a rename of tidy texts the new tag selects who had one of the two. -/
theorem rename_selects (htidy : Tidy db.contacts) (ha : IsTag a) (hb : IsTag b) (hab : a ≠ b) :
    i ∈ selectedIds b ((TagOp.rename a b).run x db).contacts ↔
      i ∈ selectedIds a db.contacts ∨ i ∈ selectedIds b db.contacts := by
  rw [mem_selectedIds_rename ha hb hb.2.1, mem_selectedIds ha.2.1, mem_selectedIds hb.2.1]
  have hrow : ∀ c ∈ db.contacts,
      b ∈ renamedParts a b (contactParts c) ↔ a ∈ contactParts c ∨ b ∈ contactParts c := by
    intro c hc
    rw [mem_renamedParts, hb.2.1, tagParts_of_notMem hb.2.2]
    constructor
    · rintro (⟨hmem, -⟩ | ⟨-, q, hq, hstrip⟩)
      · exact Or.inr hmem
      · have htrimmed := (htidy c hc).1 q hq (by rw [hstrip]; exact ha.1)
        rw [hstrip] at htrimmed
        exact Or.inl (htrimmed ▸ hq)
    · rintro (hmem | hmem)
      · exact Or.inr ⟨by simp, a, hmem, ha.2.1⟩
      · exact Or.inl ⟨hmem, hab.symm⟩
  constructor
  · rintro ⟨c, hc, hmem, hid⟩
    rcases (hrow c hc).mp hmem with hmem | hmem
    · exact Or.inl ⟨c, hc, hmem, hid⟩
    · exact Or.inr ⟨c, hc, hmem, hid⟩
  · rintro (⟨c, hc, hmem, hid⟩ | ⟨c, hc, hmem, hid⟩)
    · exact ⟨c, hc, (hrow c hc).mpr (Or.inl hmem), hid⟩
    · exact ⟨c, hc, (hrow c hc).mpr (Or.inr hmem), hid⟩

/-- After a rename the old tag selects nobody. -/
theorem rename_clears (ha : IsTag a) (hb : IsTag b) (hab : a ≠ b) :
    selectedIds a ((TagOp.rename a b).run x db).contacts = [] := by
  apply List.eq_nil_iff_forall_not_mem.mpr
  intro i hi
  obtain ⟨c, -, hmem, -⟩ := (mem_selectedIds_rename ha hb ha.2.1).mp hi
  rcases mem_renamedParts.mp hmem with ⟨-, hne⟩ | ⟨hnew, -⟩
  · exact hne ha.2.1
  · rw [tagParts_of_notMem hb.2.2, List.mem_singleton] at hnew
    exact hab hnew

/-- What a tag selects after the deletion of one: the same, and nobody for the deleted one. -/
theorem selectedIds_delete (ht : IsTag t) (ha : IsTag a) :
    selectedIds a ((TagOp.delete t).run x db).contacts =
      if a = t then [] else selectedIds a db.contacts := by
  rw [contacts_delete ht]
  unfold selectedIds updateRows
  induction db.contacts with
  | nil => simp [selectByTag]
  | cons c contacts ih =>
    have hselect : ∀ (c : Contact) (contacts : List Contact), (selectByTag a (c :: contacts)).map (·.id) =
        (if a ∈ contactParts c then [c.id] else []) ++ (selectByTag a contacts).map (·.id) := by
      intro c contacts
      have hcond := @mem_selectByTag [c] c a ha.2.1
      unfold selectByTag at hcond ⊢
      simp only [List.mem_filter, List.mem_singleton, true_and] at hcond
      rw [List.filter_cons]
      split_ifs with hone htwo htwo
      · rfl
      · exact absurd (hcond.mp hone) htwo
      · exact absurd (hcond.mpr htwo) hone
      · rfl
    have hid : (if tagsLike t c.tags then
        ({ c with tags := c.tags.bind (deleteIn t) } : Contact) else c).id = c.id := by
      split_ifs <;> rfl
    rw [List.map_cons, hselect, hselect, ih, contactParts_delete, hid]
    by_cases hat : a = t
    · subst hat
      simp [ha.2.1]
    · simp [hat, ha.2.1]

/-- The operations on tags agree: what is counted is what is selected, a rename and a deletion
select what they should. -/
structure TagsAgree (x : Texts) (db : Db Id) : Prop where
  counted : ∀ t, IsTag t → reported t db.contacts = (selectByTag t db.contacts).length
  renamed : ∀ a b, IsTag a → IsTag b → a ≠ b →
    (∀ i, i ∈ selectedIds b ((TagOp.rename a b).run x db).contacts ↔
      i ∈ selectedIds a db.contacts ∨ i ∈ selectedIds b db.contacts) ∧
    selectedIds a ((TagOp.rename a b).run x db).contacts = []
  deleted : ∀ t, IsTag t →
    selectedIds t ((TagOp.delete t).run x db).contacts = [] ∧
    ∀ a, IsTag a → a ≠ t →
      selectedIds a ((TagOp.delete t).run x db).contacts = selectedIds a db.contacts

/-- In a state the operations agree exactly when the texts are tidy. -/
theorem tagsAgree_iff : TagsAgree x db ↔ Tidy db.contacts := by
  constructor
  · intro h
    exact (reported_eq_selected_iff _).mp h.counted
  · intro h
    refine ⟨(reported_eq_selected_iff _).mpr h, ?_, ?_⟩
    · intro a b ha hb hab
      exact ⟨fun i => rename_selects h ha hb hab, rename_clears ha hb hab⟩
    · intro t ht
      refine ⟨by simp [selectedIds_delete ht ht], ?_⟩
      intro a ha hat
      simp [selectedIds_delete ht ha, hat]

end agree

end Mailman.Analysis
