import Mailman.Model.SyncDesk

/-!
# The review of near-conflicts

The list of open conflicts is cut to the limit before the acknowledged ones are taken out. It is
the newest open ones exactly when nothing open lies past the cut or the whole page is open, and
an operator who acknowledges all that is listed, again and again, comes to see exactly the open
conflicts that lie within the cut of some answer (`conflict_review_iff`): an entry is never
moved closer to the front.
-/

set_option autoImplicit false

namespace Mailman.Analysis

open Mailman.Library Mailman.Model

/-! ## A page that is filtered afterwards -/

section filter

variable {α : Type} {p : α → Bool} {l : List α} {m n : ℕ}

/-- The rows of a page that meet a condition are the first rows that meet it, in order. -/
theorem filter_take_eq_take (m : ℕ) (l : List α) :
    (l.take m).filter p = (l.filter p).take ((l.take m).filter p).length := by
  have hsplit : l.filter p = (l.take m).filter p ++ (l.drop m).filter p := by
    rw [← List.filter_append, List.take_append_drop]
  rw [hsplit, List.take_left]

/-- Filtering a page of at most `n` rows gives the first `n` rows that meet the condition exactly
when no row past it meets the condition or it holds `n` rows that all do. -/
theorem filter_take_iff (hmn : m ≤ n) :
    (l.take m).filter p = (l.filter p).take n ↔
      (∀ a ∈ l.drop m, p a = false) ∨ (m = n ∧ n ≤ l.length ∧ ∀ a ∈ l.take n, p a = true) := by
  have hsplit : (l.filter p).length = ((l.take m).filter p).length + ((l.drop m).filter p).length := by
    rw [← List.length_append, ← List.filter_append, List.take_append_drop]
  have hle : ((l.take m).filter p).length ≤ m :=
    (List.length_filter_le _ _).trans (List.length_take_le _ _)
  constructor
  · intro h
    have hlen := congrArg List.length h
    rw [List.length_take, hsplit] at hlen
    by_cases hrest : ((l.drop m).filter p).length = 0
    · left
      intro a ha
      rw [List.length_eq_zero_iff, List.filter_eq_nil_iff] at hrest
      exact Bool.eq_false_iff.mpr (hrest a ha)
    · right
      have hfull : ((l.take m).filter p).length = n := by omega
      have hm : m = n := by omega
      subst hm
      have hpage : (l.take m).length = m := by
        have hpage := List.length_filter_le p (l.take m)
        have htake := List.length_take_le m l
        omega
      refine ⟨rfl, ?_, ?_⟩
      · rw [List.length_take] at hpage
        omega
      · have hall : ((l.take m).filter p).length = (l.take m).length := by omega
        exact List.length_filter_eq_length_iff.mp hall
  · rintro (hrest | ⟨rfl, hlen, hall⟩)
    · have hnil : (l.drop m).filter p = [] := by
        rw [List.filter_eq_nil_iff]
        intro a ha
        simp [hrest a ha]
      have hfilter : l.filter p = (l.take m).filter p := by
        conv_lhs => rw [← List.take_append_drop m l, List.filter_append, hnil, List.append_nil]
      rw [hfilter, List.take_of_length_le (hle.trans hmn)]
    · have hpage : (l.take m).filter p = l.take m := List.filter_eq_self.mpr hall
      have hlength : ((l.take m).filter p).length = m := by
        rw [hpage, List.length_take]
        omega
      rw [filter_take_eq_take, hlength]

end filter

/-! ## Acknowledging what is listed -/

/-- A round of the review: everything listed is acknowledged. -/
def ackListed (actor : String) (now : ClockTime) (listed conflicts : List NearConflict) :
    List NearConflict :=
  listed.foldl (fun cs c => (ackNearConflict c.conflictId actor now cs).2) conflicts

variable (actor : String) (limit : ℕ) (rooms : ℕ → ℕ) (nows : ℕ → ClockTime)

/-- The log after so many rounds of a review; each answer has room for so many entries. -/
def reviewed (conflicts : List NearConflict) : ℕ → List NearConflict
  | 0 => conflicts
  | k + 1 =>
    ackListed actor (nows k) (listNearConflicts (reviewed conflicts k) (rooms k) true limit)
      (reviewed conflicts k)

/-- What a round lists. -/
def listedAt (conflicts : List NearConflict) (k : ℕ) : List NearConflict :=
  listNearConflicts (reviewed actor limit rooms nows conflicts k) (rooms k) true limit

variable {limit : ℕ} {rooms : ℕ → ℕ} {nows : ℕ → ClockTime} {conflicts listed : List NearConflict}

/-- The text of a time is not empty. -/
theorem nowIso_ne_empty (now : ClockTime) : now.nowIso ≠ "" := by
  intro h
  have hlist := congrArg String.toList h
  rw [ClockTime.nowIso, zuluText, String.toList_ofList] at hlist
  simp at hlist

/-- An acknowledgement keeps the ids and the order, and closes the entries that were listed. -/
theorem ackListed_eq (now : ClockTime) (listed conflicts : List NearConflict) :
    ∃ g : NearConflict → NearConflict, ackListed actor now listed conflicts = conflicts.map g ∧
      ∀ c, (g c).conflictId = c.conflictId ∧
        ((g c).unacked = true ↔ c.unacked = true ∧ c.conflictId ∉ listed.map (·.conflictId)) := by
  induction listed generalizing conflicts with
  | nil => exact ⟨id, by simp [ackListed], fun c => by simp⟩
  | cons a listed ih =>
    obtain ⟨g, hg, hspec⟩ := ih (ackNearConflict a.conflictId actor now conflicts).2
    refine ⟨fun c => g (if c.conflictId = a.conflictId then
      { c with acknowledgedAt := some now.nowIso, acknowledgedBy := some actor } else c), ?_, ?_⟩
    · unfold ackListed at hg ⊢
      rw [List.foldl_cons, hg]
      simp [ackNearConflict, updateRows, Function.comp_def]
    · intro c
      dsimp only
      by_cases hid : c.conflictId = a.conflictId
      · rw [if_pos hid, (hspec _).1, (hspec _).2]
        refine ⟨rfl, ?_⟩
        have hclosed : ({ c with
            acknowledgedAt := some now.nowIso, acknowledgedBy := some actor } :
              NearConflict).unacked = false := by
          simp [NearConflict.unacked, nowIso_ne_empty]
        rw [hclosed]
        simp [hid]
      · rw [if_neg hid, (hspec _).1, (hspec _).2]
        simp [hid]

/-- The log after some rounds: the entries in their places, open when they were open and have not
been listed. -/
theorem reviewed_eq (conflicts : List NearConflict) (k : ℕ) :
    ∃ g : NearConflict → NearConflict,
      reviewed actor limit rooms nows conflicts k = conflicts.map g ∧
        ∀ c, (g c).conflictId = c.conflictId ∧
          ((g c).unacked = true ↔ c.unacked = true ∧ ∀ i < k,
            c.conflictId ∉ (listedAt actor limit rooms nows conflicts i).map (·.conflictId)) := by
  induction k with
  | zero => exact ⟨id, by simp [reviewed], fun c => by simp⟩
  | succ k ih =>
    obtain ⟨g, hg, hspec⟩ := ih
    obtain ⟨f, hf, hack⟩ := ackListed_eq actor (nows k) (listedAt actor limit rooms nows conflicts k)
      (reviewed actor limit rooms nows conflicts k)
    refine ⟨f ∘ g, ?_, ?_⟩
    · rw [reviewed, ← List.map_map, ← hg]
      exact hf
    · intro c
      obtain ⟨hid, hopen⟩ := hspec c
      rw [Function.comp_apply, (hack _).1, (hack _).2, hid, hopen, and_assoc]
      refine ⟨rfl, and_congr_right fun _ => ?_⟩
      constructor
      · rintro ⟨hbefore, hnow⟩ i hi
        rcases Nat.lt_succ_iff_lt_or_eq.mp hi with hlt | rfl
        · exact hbefore i hlt
        · exact hnow
      · intro h
        exact ⟨fun i hi => h i (by omega), h k (by omega)⟩

/-- An entry is listed in a round exactly when it is open then and within the cut of the answer. -/
theorem listed_iff (hids : (conflicts.map (·.conflictId)).Nodup) {c : NearConflict}
    (hc : c ∈ conflicts) (k : ℕ) :
    c.conflictId ∈ (listedAt actor limit rooms nows conflicts k).map (·.conflictId) ↔
      c ∈ conflicts.take (min limit (rooms k)) ∧ c.unacked = true ∧ ∀ i < k,
        c.conflictId ∉ (listedAt actor limit rooms nows conflicts i).map (·.conflictId) := by
  obtain ⟨g, hg, hspec⟩ := @reviewed_eq actor limit rooms nows conflicts k
  have hlist : listedAt actor limit rooms nows conflicts k =
      ((conflicts.take (min limit (rooms k))).map g).filter (·.unacked) := by
    unfold listedAt listNearConflicts
    rw [hg, List.map_take]
    rfl
  rw [hlist, List.mem_map]
  constructor
  · rintro ⟨d, hd, hid⟩
    obtain ⟨hmem, hopen⟩ := List.mem_filter.mp hd
    obtain ⟨c', hc', rfl⟩ := List.mem_map.mp hmem
    rw [(hspec c').1] at hid
    have heq : c' = c := List.inj_on_of_nodup_map hids (List.mem_of_mem_take hc') hc hid
    rw [heq] at hc' hopen
    exact ⟨hc', (hspec c).2.mp hopen⟩
  · rintro ⟨hmem, hopen⟩
    refine ⟨g c, ?_, (hspec c).1⟩
    exact List.mem_filter.mpr ⟨List.mem_map_of_mem hmem, (hspec c).2.mpr hopen⟩

/-- The listing of a log is its newest open entries exactly when no open entry lies past the cut,
or the answer has room for the limit and the newest `limit` entries are all open. An operator
who acknowledges all that is listed comes to see every open entry exactly when each lies within
the cut of some answer. -/
theorem conflict_review_iff (actor : String) (limit : ℕ) (rooms : ℕ → ℕ) (nows : ℕ → ClockTime)
    (conflicts : List NearConflict) (hids : (conflicts.map (·.conflictId)).Nodup) :
    (∀ room, listNearConflicts conflicts room true limit =
        (conflicts.filter (·.unacked)).take limit ↔
      (∀ c ∈ conflicts.drop (min limit room), c.unacked = false) ∨
        (limit ≤ room ∧ limit ≤ conflicts.length ∧ ∀ c ∈ conflicts.take limit, c.unacked = true)) ∧
    ((∀ c ∈ conflicts, c.unacked = true → ∃ k, c.conflictId ∈
        (listedAt actor limit rooms nows conflicts k).map (·.conflictId)) ↔
      ∀ c ∈ conflicts, c.unacked = true → ∃ k, c ∈ conflicts.take (min limit (rooms k))) := by
  constructor
  · intro room
    unfold listNearConflicts
    rw [if_pos rfl, filter_take_iff (Nat.min_le_left limit room), min_eq_left_iff]
  · constructor
    · intro h c hc hopen
      obtain ⟨k, hk⟩ := h c hc hopen
      exact ⟨k, ((listed_iff actor hids hc k).mp hk).1⟩
    · intro h c hc hopen
      obtain ⟨k, hk⟩ := h c hc hopen
      by_cases hbefore : ∃ i < k, c.conflictId ∈
          (listedAt actor limit rooms nows conflicts i).map (·.conflictId)
      · obtain ⟨i, -, hi⟩ := hbefore
        exact ⟨i, hi⟩
      · refine ⟨k, (listed_iff actor hids hc k).mpr ⟨hk, hopen, ?_⟩⟩
        intro i hi hmem
        exact hbefore ⟨i, hi, hmem⟩

private def conflictRow (id : ℕ) (acknowledgedAt : Option String) : NearConflict where
  conflictId := id
  tableName := "templates"
  rowId := "shared"
  eventIdA := 2 * id - 1
  eventIdB := 2 * id
  actorA := "operator"
  actorB := "client"
  modifiedAtA := "2026-05-19T01:00:00Z"
  modifiedAtB := "2026-05-19T01:00:20Z"
  deltaMicros := 20000000
  detectedAt := "2026-05-19T01:00:21Z"
  acknowledgedAt := acknowledgedAt

/-- Two conflicts, of which the newer one is acknowledged. -/
private def olderOpen : List NearConflict :=
  [conflictRow 2 (some "2026-05-19T01:05:00Z"), conflictRow 1 none]

private def reviewClock : ClockTime where
  date := { year := 2027, month := 5, day := 19, hyear := by decide, hmonth := by decide,
            hday := by decide }
  micros := 3600000000
  hmicros := by decide
  epoch := by decide

/-- Two conflicts, the older one open. -/
theorem review_two_conflicts :
    listNearConflicts olderOpen 100 true 2 = (olderOpen.filter (·.unacked)).take 2 ↔
      (∀ c ∈ olderOpen.drop (min 2 100), c.unacked = false) ∨
        (2 ≤ 100 ∧ 2 ≤ olderOpen.length ∧ ∀ c ∈ olderOpen.take 2, c.unacked = true) :=
  (conflict_review_iff "operator" 2 (fun _ => 100) (fun _ => reviewClock) olderOpen
    (by decide)).1 100

/-- At a limit of one the open conflict is not listed, and no round of the review lists it. -/
theorem older_conflict_never_listed :
    listNearConflicts olderOpen 100 true 1 ≠ (olderOpen.filter (·.unacked)).take 1 ∧
      ¬∀ c ∈ olderOpen, c.unacked = true → ∃ k, c.conflictId ∈
        (listedAt "operator" 1 (fun _ => 100) (fun _ => reviewClock) olderOpen k).map
          (·.conflictId) := by
  constructor
  · decide +kernel
  · intro h
    have hmem : conflictRow 1 none ∈ olderOpen := by decide
    obtain ⟨k, hk⟩ := h _ hmem (by decide)
    have hcut := ((listed_iff "operator" (by decide) hmem k).mp hk).1
    exact absurd hcut (by decide)

end Mailman.Analysis
