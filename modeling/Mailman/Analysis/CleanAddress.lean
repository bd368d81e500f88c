import Mailman.Model.Contacts

/-!
# What the cleaner lets through

`IsAddress` is the grammar of `_EMAIL_RE` as a text in full. What the cleaner accepts is in the
grammar, is neither a role account nor on a disposable domain, and is cleaned to itself, except
where the address it has come to, between the brackets, ends with a line break: the `$` of the
expression matches before it (`clean_email_sound_iff`).
-/

set_option autoImplicit false

namespace Mailman.Analysis

open Mailman.Library Mailman.Model

/-- Dot-separated atoms, an `@`, dot-separated labels and a last label of two letters or more. -/
def IsAddress (l : List Char) : Prop :=
  ∃ (atoms labels : List (List Char)) (tld : List Char),
    (atoms ≠ [] ∧ ∀ a ∈ atoms, a ≠ [] ∧ ∀ c ∈ a, isLocalChar c = true) ∧
      (labels ≠ [] ∧ ∀ d ∈ labels, isDomainLabel d = true) ∧
        (2 ≤ tld.length ∧ ∀ c ∈ tld, 'a' ≤ c ∧ c ≤ 'z') ∧
          l = ['.'].intercalate atoms ++ '@' :: ['.'].intercalate (labels ++ [tld])

/-- A character of some address. -/
def isAddressChar (c : Char) : Bool := isLocalChar c || c = '.' || c = '@'

/-- The part before the first `@`, and the part after it. -/
def localPartOf (e : String) : String := .ofList (e.toList.takeWhile (· ≠ '@'))

def domainOf (e : String) : String := .ofList ((e.toList.dropWhile (· ≠ '@')).drop 1)

/-- What the cleaner compares with the expression: stripped and in lower case, without `mailto:`
and without brackets. -/
def addressText (lower : String → String) (raw : String) : String :=
  let email := lower (Text.strip raw)
  Text.stripBy "<> \t".toList.contains ((Text.afterPrefix "mailto:" email).getD email)

/-- `str.lower` changes no text of these characters: none of them is a capital. -/
def KeepsAddresses (lower : String → String) : Prop :=
  ∀ s : String, (∀ c ∈ s.toList, isAddressChar c = true) → lower s = s

/-- The text between the brackets is an address of no role account with a line break after it. -/
def EndsInLineBreak (lower : String → String) (raw : String) : Prop :=
  ∃ w : String, addressText lower raw = w ++ "\n" ∧ IsAddress w.toList ∧
    localPartOf w ∉ roleLocalparts

/-- What is claimed of an input: an address that is returned is in the grammar in full, no role
account, on no disposable domain, and cleaned to itself. -/
def SoundFor (lower : String → String) (raw : String) : Prop :=
  ∀ e, cleanEmail lower raw = .ok e → IsAddress e.toList ∧ localPartOf e ∉ roleLocalparts ∧
    domainOf e ∉ disposableDomains ∧ cleanEmail lower e = .ok e

/-! ## The grammar -/

/-- `matchesEmailRe` without the line break it allows at the end. -/
def matchesInFull (s : List Char) : Bool :=
  let localPart := s.takeWhile (· ≠ '@')
  let domain := ((s.dropWhile (· ≠ '@')).drop 1).splitOn '.'
  s.contains '@' && (localPart.splitOn '.').all (fun a => a ≠ [] && a.all isLocalChar) &&
    domain.dropLast ≠ [] && domain.dropLast.all isDomainLabel &&
    domain.getLast?.any fun tld => 2 ≤ tld.length && tld.all fun c => 'a' ≤ c && c ≤ 'z'

variable {l s t : List Char} {c : Char}

/-- The pattern matches up to one line feed at the end. -/
theorem matchesEmailRe_eq (e : String) : matchesEmailRe e =
    matchesInFull (if e.toList.getLast? = some '\n' then e.toList.dropLast else e.toList) := rfl

/-- What comes before the first at sign. -/
theorem takeWhile_at (h : '@' ∉ s) : (s ++ '@' :: t).takeWhile (· ≠ '@') = s := by
  rw [List.takeWhile_append_of_pos]
  · simp
  · intro c hc
    simp only [decide_eq_true_eq, ne_eq]
    rintro rfl
    exact h hc

/-- What comes from the first at sign on. -/
theorem dropWhile_at (h : '@' ∉ s) : (s ++ '@' :: t).dropWhile (· ≠ '@') = '@' :: t := by
  rw [List.dropWhile_append_of_pos]
  · simp
  · intro c hc
    simp only [decide_eq_true_eq, ne_eq]
    rintro rfl
    exact h hc

/-- Letters and digits may stand in a local part. -/
theorem isLowerAlnum_isLocalChar (h : isLowerAlnum c = true) : isLocalChar c = true := by
  simp [isLocalChar, h]

/-- The characters of a label may stand in a local part. -/
theorem isLocalChar_of_label (h : isDomainLabel l = true) (hc : c ∈ l) : isLocalChar c = true := by
  simp only [isDomainLabel, Bool.and_eq_true, List.all_eq_true, Bool.or_eq_true,
    decide_eq_true_eq] at h
  rcases h.1.1.2 c hc with halnum | rfl
  · exact isLowerAlnum_isLocalChar halnum
  · decide

/-- The letters of a last label may stand in a local part. -/
theorem isLocalChar_of_tld (h : 'a' ≤ c ∧ c ≤ 'z') : isLocalChar c = true := by
  apply isLowerAlnum_isLocalChar
  simp [isLowerAlnum, h]

/-- A character of a local part is no other one. -/
theorem ne_of_isLocalChar (hc : isLocalChar c = true) {d : Char} (hd : isLocalChar d = false) :
    c ≠ d := by
  rintro rfl
  rw [hc] at hd
  cases hd

/-- What joined parts hold is the separator or in a part. -/
theorem mem_intercalate {sep : Char} {parts : List (List Char)}
    (h : c ∈ [sep].intercalate parts) : c = sep ∨ ∃ part ∈ parts, c ∈ part := by
  induction parts with
  | nil => simp at h
  | cons part parts ih =>
    cases parts with
    | nil => exact .inr ⟨part, by simp, by simpa using h⟩
    | cons next parts =>
      rw [List.intercalate_cons_cons, List.mem_append, List.mem_append] at h
      rcases h with (h | h) | h
      · exact .inr ⟨part, by simp, h⟩
      · exact .inl (by simpa using h)
      · rcases ih h with rfl | ⟨q, hq, hc⟩
        · exact .inl rfl
        · exact .inr ⟨q, List.mem_cons_of_mem _ hq, hc⟩

/-- The expression without the line break is the grammar. -/
theorem matchesInFull_iff : matchesInFull l = true ↔ IsAddress l := by
  unfold matchesInFull
  dsimp only
  constructor
  · intro h
    simp only [Bool.and_eq_true, List.contains_iff_mem, List.all_eq_true, decide_eq_true_eq] at h
    obtain ⟨⟨⟨⟨hat, hatoms⟩, hlabels⟩, hlabel⟩, htld⟩ := h
    obtain ⟨s, t, rfl, hs⟩ := List.eq_append_cons_of_mem hat
    rw [takeWhile_at hs] at hatoms
    rw [dropWhile_at hs, List.drop_one, List.tail_cons] at hlabels hlabel htld
    obtain ⟨tld, hlast, htld⟩ := (Option.any_eq_true _ _).mp htld
    simp only [Bool.and_eq_true, List.all_eq_true, decide_eq_true_eq] at htld
    refine ⟨s.splitOn '.', (t.splitOn '.').dropLast, tld, ⟨List.splitOn_ne_nil _ _, hatoms⟩,
      ⟨hlabels, hlabel⟩, htld, ?_⟩
    rw [List.intercalate_splitOn, List.dropLast_append_getLast? _ hlast, List.intercalate_splitOn]
  · rintro ⟨atoms, labels, tld, ⟨hne, hatoms⟩, ⟨hne', hlabels⟩, ⟨hlen, htld⟩, rfl⟩
    have hat : '@' ∉ ['.'].intercalate atoms := by
      intro hmem
      rcases mem_intercalate hmem with hdot | ⟨a, ha, hc⟩
      · exact absurd hdot (by decide)
      · exact ne_of_isLocalChar ((hatoms a ha).2 _ hc) (by decide) rfl
    have hdot : ∀ a ∈ atoms, '.' ∉ a := by
      intro a ha hc
      exact ne_of_isLocalChar ((hatoms a ha).2 _ hc) (by decide) rfl
    have hdot' : ∀ d ∈ labels ++ [tld], '.' ∉ d := by
      intro d hd hc
      rw [List.mem_append, List.mem_singleton] at hd
      rcases hd with hd | rfl
      · exact ne_of_isLocalChar (isLocalChar_of_label (hlabels d hd) hc) (by decide) rfl
      · exact ne_of_isLocalChar (isLocalChar_of_tld (htld _ hc)) (by decide) rfl
    rw [takeWhile_at hat, dropWhile_at hat, List.drop_one, List.tail_cons,
      List.splitOn_intercalate _ hdot hne, List.splitOn_intercalate _ hdot' (by simp)]
    simp only [List.dropLast_concat, List.getLast?_concat, Option.any_some, Bool.and_eq_true,
      List.contains_iff_mem, List.all_eq_true, decide_eq_true_eq]
    exact ⟨⟨⟨⟨by simp, hatoms⟩, hne'⟩, hlabels⟩, hlen, htld⟩

/-! ## Texts of the alphabet -/

/-- The characters of addresses are visible ones, and none of these three. -/
theorem visible_of_isAddressChar (h : isAddressChar c = true) :
    (33 ≤ c.toNat ∧ c.toNat ≤ 126) ∧ c ≠ '<' ∧ c ≠ '>' ∧ c ≠ ':' := by
  have hsymbols : ∀ d ∈ "!#$%&'*+/=?^_\x60\x7b|\x7d~-".toList,
      (33 ≤ d.toNat ∧ d.toNat ≤ 126) ∧ d ≠ '<' ∧ d ≠ '>' ∧ d ≠ ':' := by
    -- as a test on the list, which is evaluated faster than the quantifier
    have hall : "!#$%&'*+/=?^_\x60\x7b|\x7d~-".toList.all (fun d =>
        33 ≤ d.toNat && d.toNat ≤ 126 && d ≠ '<' && d ≠ '>' && d ≠ ':') = true := by decide
    intro d hd
    simpa [and_assoc] using List.all_eq_true.mp hall d hd
  have halnum : isLowerAlnum c = true →
      (33 ≤ c.toNat ∧ c.toNat ≤ 126) ∧ c ≠ '<' ∧ c ≠ '>' ∧ c ≠ ':' := by
    intro hc
    simp only [isLowerAlnum, Bool.or_eq_true, Bool.and_eq_true, decide_eq_true_eq] at hc
    have hrange : (97 ≤ c.toNat ∧ c.toNat ≤ 122) ∨ (48 ≤ c.toNat ∧ c.toNat ≤ 57) := hc
    refine ⟨by omega, ?_, ?_, ?_⟩ <;>
    · rintro rfl
      revert hrange
      decide
  simp only [isAddressChar, isLocalChar, Bool.or_eq_true, decide_eq_true_eq,
    List.contains_iff_mem] at h
  rcases h with ((h | h) | rfl) | rfl
  · exact halnum h
  · exact hsymbols c h
  · decide
  · decide

/-- No space stands in an address. -/
theorem isSpace_of_isAddressChar (h : isAddressChar c = true) : Text.isSpace c = false := by
  obtain ⟨⟨hlow, hhigh⟩, -⟩ := visible_of_isAddressChar h
  simp only [Text.isSpace, Bool.or_eq_false_iff, Bool.and_eq_false_iff, decide_eq_false_iff_not]
  omega

/-- No bracket or blank stands in an address. -/
theorem isBracket_of_isAddressChar (h : isAddressChar c = true) :
    "<> \t".toList.contains c = false := by
  obtain ⟨⟨hlow, -⟩, hopen, hclose, -⟩ := visible_of_isAddressChar h
  have hspace : c ≠ ' ' := by
    rintro rfl
    exact absurd hlow (by decide)
  have htab : c ≠ '\t' := by
    rintro rfl
    exact absurd hlow (by decide)
  simp [hopen, hclose, hspace, htab]

/-- An address is of its characters. -/
theorem IsAddress.char (h : IsAddress l) (hc : c ∈ l) : isAddressChar c = true := by
  have hlocal : isLocalChar c = true → isAddressChar c = true := by
    intro h
    simp [isAddressChar, h]
  obtain ⟨atoms, labels, tld, ⟨-, hatoms⟩, ⟨-, hlabels⟩, ⟨-, htld⟩, rfl⟩ := h
  rw [List.mem_append, List.mem_cons] at hc
  rcases hc with hc | rfl | hc
  · rcases mem_intercalate hc with rfl | ⟨a, ha, hc⟩
    · rfl
    · exact hlocal ((hatoms a ha).2 c hc)
  · rfl
  · rcases mem_intercalate hc with rfl | ⟨d, hd, hcd⟩
    · rfl
    · rw [List.mem_append, List.mem_singleton] at hd
      rcases hd with hd | rfl
      · exact hlocal (isLocalChar_of_label (hlabels d hd) hcd)
      · exact hlocal (isLocalChar_of_tld (htld c hcd))

/-- No line feed stands in an address. -/
theorem IsAddress.newline_notMem (h : IsAddress l) : '\n' ∉ l := fun hc =>
  absurd (h.char hc) (by decide)

/-- An at sign stands in an address. -/
theorem IsAddress.at_mem (h : IsAddress l) : '@' ∈ l := by
  obtain ⟨atoms, labels, tld, -, -, -, rfl⟩ := h
  simp

/-! ## The cleaner -/

section clean

variable {lower : String → String} {e raw w : String}

/-- The checks on the cleaned text, in their order. -/
theorem cleanEmail_eq (hraw : raw ≠ "") : cleanEmail lower raw =
    if !matchesEmailRe (addressText lower raw) then .error .badSyntax
    else if roleLocalparts.contains (localPartOf (addressText lower raw)) then .error .roleAccount
    else if disposableDomains.contains (domainOf (addressText lower raw)) then
      .error .disposableDomain
    else .ok (addressText lower raw) := by
  unfold cleanEmail
  rw [if_neg hraw]
  rfl

/-- A text without a colon has no scheme in front. -/
theorem afterPrefix_mailto (h : ':' ∉ e.toList) : Text.afterPrefix "mailto:" e = none := by
  unfold Text.afterPrefix
  rw [Option.map_eq_none_iff]
  by_contra hsome
  obtain ⟨rest, hrest⟩ := Option.ne_none_iff_exists'.mp hsome
  have heq := List.isPrefixOf?_eq_some_iff_append_eq.mp hrest
  apply h
  rw [← heq]
  exact List.mem_append_left _ (by decide)

/-- An address is what the cleaner makes of it. -/
theorem addressText_self (hlower : KeepsAddresses lower) (h : IsAddress e.toList) :
    addressText lower e = e := by
  have hstrip : Text.strip e = e :=
    Text.stripBy_eq_self fun c hc => isSpace_of_isAddressChar (h.char hc)
  have hcolon : ':' ∉ e.toList := fun hc => absurd (h.char hc) (by decide)
  unfold addressText
  dsimp only
  rw [hstrip, hlower e fun c hc => h.char hc, afterPrefix_mailto hcolon]
  exact Text.stripBy_eq_self fun c hc => isBracket_of_isAddressChar (h.char hc)

/-- With a line feed at the end, what is before it has to be an address. -/
theorem matchesEmailRe_newline (w : String) :
    matchesEmailRe (w ++ "\n") = true ↔ IsAddress w.toList := by
  have hlist : (w ++ "\n").toList = w.toList ++ ['\n'] := by simp
  rw [matchesEmailRe_eq, hlist, List.getLast?_concat, if_pos rfl, List.dropLast_concat,
    matchesInFull_iff]

/-- Without a line feed at the end, the text has to be an address. -/
theorem matchesEmailRe_plain (h : e.toList.getLast? ≠ some '\n') :
    matchesEmailRe e = true ↔ IsAddress e.toList := by
  rw [matchesEmailRe_eq, if_neg h, matchesInFull_iff]

/-- A line feed at the end is not in the local part. -/
theorem localPartOf_newline (h : '@' ∈ w.toList) : localPartOf (w ++ "\n") = localPartOf w := by
  obtain ⟨s, t, heq, hs⟩ := List.eq_append_cons_of_mem h
  have hlist : (w ++ "\n").toList = s ++ '@' :: (t ++ ['\n']) := by simp [heq]
  unfold localPartOf
  rw [hlist, heq, takeWhile_at hs, takeWhile_at hs]

/-- No disposable domain ends with a line break. -/
theorem domainOf_newline (h : '@' ∈ w.toList) : domainOf (w ++ "\n") ∉ disposableDomains := by
  obtain ⟨s, t, heq, hs⟩ := List.eq_append_cons_of_mem h
  have hlist : (w ++ "\n").toList = s ++ '@' :: (t ++ ['\n']) := by simp [heq]
  have hnone : ∀ d ∈ disposableDomains, '\n' ∉ d.toList := by decide +kernel
  intro hmem
  apply hnone _ hmem
  unfold domainOf
  rw [hlist, dropWhile_at hs]
  simp

/-- What is refused is sound. -/
theorem soundFor_of_error {reason : DropReason} (h : cleanEmail lower raw = .error reason) :
    SoundFor lower raw := by
  intro e he
  rw [h] at he
  cases he

/-- The cleaner is sound and idempotent on an input exactly when what stands between the brackets
is no address, of no role account, that a line break follows. -/
theorem clean_email_sound_iff (lower : String → String) (hlower : KeepsAddresses lower)
    (raw : String) : SoundFor lower raw ↔ ¬EndsInLineBreak lower raw := by
  by_cases hraw : raw = ""
  · subst hraw
    have hempty : addressText lower "" = "" := by
      unfold addressText
      dsimp only
      have hlow : lower (Text.strip "") = "" := hlower "" (by simp)
      rw [hlow]
      rfl
    constructor
    · rintro - ⟨w, hw, -⟩
      rw [hempty] at hw
      have hlen := congrArg String.length hw
      rw [String.length_append] at hlen
      have hone : "\n".length = 1 := rfl
      have hzero : "".length = 0 := rfl
      omega
    · intro _
      exact @soundFor_of_error lower "" .empty rfl
  · have hclean := @cleanEmail_eq lower raw hraw
    by_cases hnewline : (addressText lower raw).toList.getLast? = some '\n'
    · obtain ⟨l, hl⟩ := List.getLast?_eq_some_iff.mp hnewline
      have hw : addressText lower raw = String.ofList l ++ "\n" := by
        rw [← String.toList_inj]
        simpa using hl
      generalize hword : String.ofList l = w at hw
      rw [hw] at hclean
      by_cases haddress : IsAddress w.toList ∧ localPartOf w ∉ roleLocalparts
      · constructor
        · intro hsound
          rw [(matchesEmailRe_newline w).mpr haddress.1,
            localPartOf_newline haddress.1.at_mem] at hclean
          have hdomain := domainOf_newline haddress.1.at_mem
          rw [Bool.not_true, if_neg (by simp), if_neg (by simpa using haddress.2),
            if_neg (by simpa using hdomain)] at hclean
          have hbad := (hsound _ hclean).1.newline_notMem
          simp at hbad
        · intro hnot
          exact absurd ⟨w, hw, haddress⟩ hnot
      · constructor
        · rintro - ⟨w', hw', haddress'⟩
          rw [hw] at hw'
          have hsame : w = w' := by
            rw [← String.toList_inj] at hw' ⊢
            simpa using hw'
          exact haddress (hsame ▸ haddress')
        · intro _
          by_cases hmatch : IsAddress w.toList
          · have hrole : localPartOf w ∈ roleLocalparts := by
              by_contra hrole
              exact haddress ⟨hmatch, hrole⟩
            rw [(matchesEmailRe_newline w).mpr hmatch, localPartOf_newline hmatch.at_mem,
              Bool.not_true, if_neg (by simp), if_pos (by simpa using hrole)] at hclean
            exact soundFor_of_error hclean
          · have hno : matchesEmailRe (w ++ "\n") = false :=
              Bool.eq_false_iff.mpr fun h => hmatch ((matchesEmailRe_newline w).mp h)
            rw [hno, Bool.not_false, if_pos rfl] at hclean
            exact soundFor_of_error hclean
    · constructor
      · rintro - ⟨w, hw, -⟩
        apply hnewline
        rw [hw]
        simp
      · intro _ e he
        rw [hclean] at he
        split_ifs at he with hmatch hrole hdomain
        cases he
        have haddress : IsAddress (addressText lower raw).toList :=
          (matchesEmailRe_plain hnewline).mp (by simpa using hmatch)
        refine ⟨haddress, by simpa using hrole, by simpa using hdomain, ?_⟩
        have hself := addressText_self hlower haddress
        have hne : addressText lower raw ≠ "" := by
          intro hempty
          have hat := haddress.at_mem
          rw [hempty] at hat
          simp at hat
        rw [cleanEmail_eq hne, hself, if_neg hmatch, if_neg hrole, if_neg hdomain]

end clean

/-- `str.lower` of the capitals A to Z. -/
private def asciiLower (s : String) : String := .ofList (s.toList.map Char.toLower)

/-- The characters of an address are lower case. -/
theorem toLower_of_isAddressChar (h : isAddressChar c = true) : c.toLower = c := by
  have hsymbols : ∀ d ∈ "!#$%&'*+/=?^_\x60\x7b|\x7d~-".toList, ¬('A' ≤ d ∧ d ≤ 'Z') := by
    have hall : "!#$%&'*+/=?^_\x60\x7b|\x7d~-".toList.all
        (fun d => !('A' ≤ d && d ≤ 'Z')) = true := by decide
    intro d hd
    have hd := List.all_eq_true.mp hall d hd
    simp only [Bool.not_eq_true', Bool.and_eq_false_iff, decide_eq_false_iff_not] at hd
    tauto
  have hcapital : ¬('A' ≤ c ∧ c ≤ 'Z') := by
    simp only [isAddressChar, isLocalChar, isLowerAlnum, Bool.or_eq_true, Bool.and_eq_true,
      decide_eq_true_eq, List.contains_iff_mem] at h
    rcases h with (((h | h) | h) | rfl) | rfl
    · intro hcapital
      have hlow : 97 ≤ c.toNat := h.1
      have hhigh : c.toNat ≤ 90 := hcapital.2
      omega
    · intro hcapital
      have hlow : c.toNat ≤ 57 := h.2
      have hhigh : 65 ≤ c.toNat := hcapital.1
      omega
    · exact hsymbols c h
    · decide
    · decide
  unfold Char.toLower
  exact dif_neg hcapital

/-- Lower case of ASCII keeps addresses. -/
private theorem keepsAddresses_asciiLower : KeepsAddresses asciiLower := by
  intro s hs
  unfold asciiLower
  have hmap : s.toList.map Char.toLower = s.toList := by
    conv_rhs => rw [← List.map_id s.toList]
    apply List.map_congr_left
    intro c hc
    exact toLower_of_isAddressChar (hs c hc)
  rw [hmap, String.ofList_toList]

/-- An address in brackets. -/
theorem clean_email_sound_bracketed :
    SoundFor asciiLower "<a@b.co>" ↔ ¬EndsInLineBreak asciiLower "<a@b.co>" :=
  clean_email_sound_iff asciiLower keepsAddresses_asciiLower "<a@b.co>"

/-- The line break before the closing bracket is left in the address. -/
theorem line_break_accepted : ¬SoundFor asciiLower "<a@b.co\n>" := by
  intro h
  have hclean : cleanEmail asciiLower "<a@b.co\n>" = .ok "a@b.co\n" := by
    decide +kernel
  exact (h _ hclean).1.newline_notMem (by decide)

end Mailman.Analysis
