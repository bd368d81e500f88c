import Mathlib.Data.List.Perm.Subperm
import Mathlib.Data.List.Sort
import Mathlib.Order.Defs.LinearOrder

/-!
# Reading rows in the order of a key, a page at a time

`orderBy key l` is `l` in ascending order of `key`, and `page key n l` its first `n` rows.
What a reader of pages relies on is that a page has no gap (`mem_page_of_lt`), that it is
short only when nothing is left (`mem_page_of_length_lt`), and that a row it leaves out has
`n` rows before it (`le_of_notMem_page`). Where no two rows share a key, a page is the rows
that have fewer than `n` before them (`mem_page_iff`), so it does not depend on the rows past it
(`page_eq_iff`).
-/

set_option autoImplicit false

namespace Mailman.Library

variable {α κ : Type} [LinearOrder κ] (key : α → κ)

/-- The rows in ascending order of their key; rows of one key keep their order. -/
def orderBy (l : List α) : List α := l.insertionSort fun a b => key a ≤ key b

/-- The first `n` rows in ascending order of their key. -/
def page (n : ℕ) (l : List α) : List α := (orderBy key l).take n

variable {key} {l : List α} {n : ℕ} {a b : α}

/-- Ordering only moves the rows. -/
theorem perm_orderBy (l : List α) : (orderBy key l).Perm l := List.perm_insertionSort _ l

/-- Ordering keeps the rows. -/
@[simp] theorem mem_orderBy : a ∈ orderBy key l ↔ a ∈ l := (perm_orderBy l).mem_iff

/-- Ordering keeps their number. -/
@[simp] theorem length_orderBy : (orderBy key l).length = l.length := (perm_orderBy l).length_eq

/-- Ordered rows go upward. -/
theorem pairwise_orderBy (l : List α) : (orderBy key l).Pairwise fun a b => key a ≤ key b := by
  have htotal : Std.Total fun a b : α => key a ≤ key b := ⟨fun a b => le_total (key a) (key b)⟩
  have htrans : IsTrans α fun a b => key a ≤ key b := ⟨fun _ _ _ => le_trans⟩
  exact List.pairwise_insertionSort _ l

/-- A row of a page is one of the rows. -/
theorem mem_of_mem_page (h : a ∈ page key n l) : a ∈ l :=
  mem_orderBy.mp (List.mem_of_mem_take h)

/-- A page has at most its size. -/
theorem length_page_le : (page key n l).length ≤ n := List.length_take_le _ _

/-- The rows of a page go upward. -/
theorem pairwise_page : (page key n l).Pairwise fun a b => key a ≤ key b :=
  (pairwise_orderBy l).sublist (List.take_sublist _ _)

/-- No row is twice on a page. -/
theorem nodup_page (h : l.Nodup) : (page key n l).Nodup :=
  ((perm_orderBy l).nodup_iff.mpr h).sublist (List.take_sublist _ _)

/-- A row of the page and a row that is not on it come in this order. -/
theorem le_of_mem_of_notMem_page (ha : a ∈ page key n l) (hb : b ∈ l) (hnb : b ∉ page key n l) :
    key a ≤ key b := by
  have hsorted : (orderBy key l).Pairwise fun a b => key a ≤ key b := pairwise_orderBy l
  rw [← List.take_append_drop n (orderBy key l), List.pairwise_append] at hsorted
  have hdrop : b ∈ (orderBy key l).drop n := by
    have hmem : b ∈ orderBy key l := mem_orderBy.mpr hb
    rw [← List.take_append_drop n (orderBy key l), List.mem_append] at hmem
    exact hmem.resolve_left hnb
  exact hsorted.2.2 a ha b hdrop

/-- A page has no gap. -/
theorem mem_page_of_lt (ha : a ∈ page key n l) (hb : b ∈ l) (hlt : key b < key a) :
    b ∈ page key n l := by
  by_contra hnb
  exact absurd (le_of_mem_of_notMem_page ha hb hnb) (not_le.mpr hlt)

/-- A page that is not full holds every row. -/
theorem mem_page_of_length_lt (h : (page key n l).length < n) (ha : a ∈ l) :
    a ∈ page key n l := by
  have hlen : (orderBy key l).length ≤ n := by
    unfold page at h
    rw [List.length_take] at h
    omega
  unfold page
  rw [List.take_of_length_le hlen]
  exact mem_orderBy.mpr ha

/-- A page with a row left out is full. -/
theorem length_page_of_notMem (ha : a ∈ l) (hna : a ∉ page key n l) :
    (page key n l).length = n := by
  have hle : (page key n l).length ≤ n := length_page_le
  rcases Nat.lt_or_ge (page key n l).length n with hlt | hge
  · exact absurd (mem_page_of_length_lt hlt ha) hna
  · omega

/-! ## Rows that do not share a key -/

section distinct

variable (key)

/-- The rows before a row. -/
def rowsBefore (l : List α) (a : α) : List α := l.filter fun b => key b < key a

variable {key} {l' : List α}

/-- The rows before one are those with smaller keys. -/
theorem mem_rowsBefore : b ∈ rowsBefore key l a ↔ b ∈ l ∧ key b < key a := by
  simp [rowsBefore]

/-- Among more rows there are more before one. -/
theorem length_rowsBefore_mono (h : l ⊆ l') (hnodup : l.Nodup) :
    (rowsBefore key l a).length ≤ (rowsBefore key l' a).length := by
  apply List.Subperm.length_le
  apply List.Nodup.subperm (hnodup.filter _)
  intro b hb
  obtain ⟨hmem, hlt⟩ := mem_rowsBefore.mp hb
  exact mem_rowsBefore.mpr ⟨h hmem, hlt⟩

/-- The rows of a page have fewer than `n` rows before them. -/
theorem length_rowsBefore_of_mem_page (hnodup : l.Nodup) (ha : a ∈ page key n l) :
    (rowsBefore key l a).length < n := by
  have hnotMem : a ∉ rowsBefore key l a := fun h => lt_irrefl _ (mem_rowsBefore.mp h).2
  have hsub : (a :: rowsBefore key l a).Subperm (page key n l) := by
    apply List.Nodup.subperm
    · exact List.nodup_cons.mpr ⟨hnotMem, hnodup.filter _⟩
    · intro b hb
      rcases List.mem_cons.mp hb with rfl | hb
      · exact ha
      · obtain ⟨hmem, hlt⟩ := mem_rowsBefore.mp hb
        exact mem_page_of_lt ha hmem hlt
  have hlen := hsub.length_le
  have hpage : (page key n l).length ≤ n := length_page_le
  rw [List.length_cons] at hlen
  omega

/-- A row is on the page when fewer rows than its size are before it. -/
theorem mem_page_iff (hkeys : (l.map key).Nodup) :
    a ∈ page key n l ↔ a ∈ l ∧ (rowsBefore key l a).length < n := by
  have hnodup : l.Nodup := hkeys.of_map key
  constructor
  · exact fun ha => ⟨mem_of_mem_page ha, length_rowsBefore_of_mem_page hnodup ha⟩
  · rintro ⟨ha, hlt⟩
    by_contra hna
    have hfull : (page key n l).length = n := length_page_of_notMem ha hna
    have hsub : (page key n l).Subperm (rowsBefore key l a) := by
      apply List.Nodup.subperm (nodup_page hnodup)
      intro b hb
      have hmem : b ∈ l := mem_of_mem_page hb
      have hle : key b ≤ key a := le_of_mem_of_notMem_page hb ha hna
      have hne : key b ≠ key a := by
        intro heq
        exact hna (List.inj_on_of_nodup_map hkeys hmem ha heq ▸ hb)
      exact mem_rowsBefore.mpr ⟨hmem, lt_of_le_of_ne hle hne⟩
    have hlen := hsub.length_le
    omega

/-- A part of the rows comes in the same order. -/
theorem orderBy_filter (hkeys : (l.map key).Nodup) (p : α → Bool) :
    orderBy key (l.filter p) = (orderBy key l).filter p := by
  apply List.Perm.eq_of_pairwise _ (pairwise_orderBy _) ((pairwise_orderBy l).filter p)
  · exact (perm_orderBy _).trans ((perm_orderBy l).symm.filter p)
  · intro a b ha hb hab hba
    have hmem : a ∈ l := List.mem_of_mem_filter (mem_orderBy.mp ha)
    have hmem' : b ∈ l := mem_orderBy.mp (List.mem_of_mem_filter hb)
    exact List.inj_on_of_nodup_map hkeys hmem hmem' (le_antisymm hab hba)

/-- Two pages with the same rows are the same. -/
theorem page_ext {m : ℕ} (hkeys : (l.map key).Nodup) (hnodup : l'.Nodup) (hsub : l' ⊆ l)
    (h : ∀ a, a ∈ page key n l' ↔ a ∈ page key m l) : page key n l' = page key m l := by
  apply List.Perm.eq_of_pairwise _ pairwise_page pairwise_page
  · exact (List.perm_ext_iff_of_nodup (nodup_page hnodup) (nodup_page (hkeys.of_map key))).mpr h
  · intro a b ha hb hab hba
    have hmem : a ∈ l := hsub (mem_of_mem_page ha)
    exact List.inj_on_of_nodup_map hkeys hmem (mem_of_mem_page hb) (le_antisymm hab hba)

/-- A page of a part is the page of the whole if each row outside of the part has `n` rows
before it, and only then. -/
theorem page_eq_iff (hkeys : (l.map key).Nodup) (hnodup : l'.Nodup) (hsub : l' ⊆ l) :
    page key n l' = page key n l ↔
      ∀ a ∈ l, a ∉ l' → n ≤ (rowsBefore key l a).length := by
  constructor
  · intro heq a ha hna
    by_contra hlt
    have hpage : a ∈ page key n l := (mem_page_iff hkeys).mpr ⟨ha, by omega⟩
    rw [← heq] at hpage
    exact hna (mem_of_mem_page hpage)
  · intro h
    -- the page of the whole lies in the part
    have hpart : ∀ a ∈ page key n l, a ∈ l' := by
      intro a ha
      obtain ⟨hmem, hlt⟩ := (mem_page_iff hkeys).mp ha
      by_contra hna
      have hge := h a hmem hna
      omega
    apply page_ext hkeys hnodup hsub
    intro a
    constructor
    · intro ha
      by_contra hna
      have hmem : a ∈ l := hsub (mem_of_mem_page ha)
      have hfull : (page key n l).length = n := length_page_of_notMem hmem hna
      have hfew : (rowsBefore key l' a).length < n := length_rowsBefore_of_mem_page hnodup ha
      have hmore : (page key n l).Subperm (rowsBefore key l' a) := by
        apply List.Nodup.subperm (nodup_page (hkeys.of_map key))
        intro b hb
        have hlt : (rowsBefore key l b).length < n := ((mem_page_iff hkeys).mp hb).2
        have hle : key b ≤ key a := le_of_mem_of_notMem_page hb hmem hna
        have hne : key b ≠ key a := by
          intro heq
          exact hna (List.inj_on_of_nodup_map hkeys (mem_of_mem_page hb) hmem heq ▸ hb)
        exact mem_rowsBefore.mpr ⟨hpart b hb, lt_of_le_of_ne hle hne⟩
      have hlen := hmore.length_le
      omega
    · intro ha
      have hfew : (rowsBefore key l a).length < n := ((mem_page_iff hkeys).mp ha).2
      have hkeys' : (l'.map key).Nodup := by
        apply hnodup.map_on
        intro x hx y hy heq
        exact List.inj_on_of_nodup_map hkeys (hsub hx) (hsub hy) heq
      apply (mem_page_iff hkeys').mpr
      exact ⟨hpart a ha, lt_of_le_of_lt (length_rowsBefore_mono hsub hnodup) hfew⟩

end distinct

end Mailman.Library
