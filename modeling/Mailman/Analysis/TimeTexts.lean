import Mailman.Model.SendTimes

/-!
# The order of times and of their texts

A stored time is the second of a posted one in UTC: read again it is the same instant truncated
to the second, and stored times, the `send_at` of the packs made from them and the cloud's clock
compare as texts as their seconds do (`time_texts_ordered`). So a pack is enqueued when it is
pushed, or due for the dispatcher later, at exactly the times its second has come.
-/

set_option autoImplicit false

namespace Mailman.Analysis

open Mailman.Library Mailman.Model

/-- The instant a text stands for: its local time without its offset, in microseconds. -/
def instantOf (value : String) : Option ℤ :=
  (fromIsoFormat (Text.strip value).toList).map fun p =>
    p.1.instant - (p.2.map (·.micros)).getD 0

variable {x y : String} {u v : LocalTime}

/-- The instant of a text that is read. -/
theorem instantOf_eq (h : parseUtcNaive x = some u) : instantOf x = some u.instant := by
  unfold parseUtcNaive at h
  unfold instantOf
  cases hread : fromIsoFormat (Text.strip x).toList with
  | none =>
    rw [hread] at h
    cases h
  | some p =>
    obtain ⟨time, offset⟩ := p
    rw [hread] at h
    cases offset with
    | none =>
      cases h
      simp
    | some o =>
      have hutc : time.toUtc o = some u := h
      simp [LocalTime.instant_toUtc hutc]

/-! ## Texts -/

/-- A text without spaces at its ends is stripped. -/
theorem strip_ofList {l : List Char} (hhead : ∀ c ∈ l.head?, Text.isSpace c = false)
    (hlast : ∀ c ∈ l.getLast?, Text.isSpace c = false) :
    Text.strip (.ofList l) = .ofList l := by
  unfold Text.strip Text.stripBy
  rw [String.toList_ofList]
  congr 1
  have hleft : l.dropWhile Text.isSpace = l := by
    cases l with
    | nil => rfl
    | cons c l =>
      apply List.dropWhile_cons_of_neg
      simp [hhead c rfl]
  rw [hleft, List.rdropWhile_eq_self_iff]
  intro hne
  simp [hlast _ (List.getLast?_eq_some_getLast hne)]

/-- A digit is no space. -/
theorem isSpace_digitChar {n : ℕ} (hn : n < 10) : Text.isSpace (Nat.digitChar n) = false := by
  unfold Text.isSpace
  rw [toNat_digitChar hn]
  simp
  omega

/-- A stored text has no space at its ends. -/
theorem strip_utcText (t : LocalTime) : Text.strip (utcText t) = utcText t := by
  unfold utcText
  apply strip_ofList
  · intro c hc
    rw [isoText, fixed_four] at hc
    have heq : Nat.digitChar (t.date.year / 10 / 10 / 10 % 10) = c := by simpa using hc
    rw [← heq]
    exact isSpace_digitChar (Nat.mod_lt _ (by decide))
  · intro c hc
    rw [isoText, fixed_two t.second] at hc
    have heq : Nat.digitChar (t.second % 10) = c := by
      simpa [List.getLast?_cons] using hc
    rw [← heq]
    exact isSpace_digitChar (Nat.mod_lt _ (by decide))

/-- A written time is read back without its fraction. -/
theorem parseUtcNaive_utcText (t : LocalTime) : parseUtcNaive (utcText t) = some t.truncate := by
  unfold parseUtcNaive
  rw [strip_utcText, utcText, String.toList_ofList, fromIsoFormat_isoText]
  rfl

/-- Written times are in the order of their seconds. -/
theorem utcText_lt_iff : utcText u < utcText v ↔ u.seconds < v.seconds := by
  unfold utcText
  rw [String.lt_iff_toList_lt, String.toList_ofList, String.toList_ofList]
  have h := @isoText_lt_iff u v ' ' []
  rwa [List.append_nil, List.append_nil] at h

/-- Times that are written with a Z are in the order of their seconds. -/
theorem zuluText_lt_iff : zuluText u < zuluText v ↔ u.seconds < v.seconds := by
  unfold zuluText
  rw [String.lt_iff_toList_lt, String.toList_ofList, String.toList_ofList]
  exact isoText_lt_iff 'T' ['Z']

/-- The same order with ties. -/
theorem zuluText_le_iff : zuluText u ≤ zuluText v ↔ u.seconds ≤ v.seconds := by
  rw [← not_lt, zuluText_lt_iff, not_lt]

/-- A time that is read is not blank. -/
theorem strip_ne_of_parse (h : parseUtcNaive x = some u) : Text.strip x ≠ "" := by
  intro hblank
  unfold parseUtcNaive at h
  rw [hblank] at h
  cases h

/-- The text of a time that is read is that time with a Z. -/
theorem packSendAtText_eq (h : parseUtcNaive x = some u) : packSendAtText (some x) = zuluText u := by
  unfold packSendAtText
  rw [Option.getD_some, if_neg (strip_ne_of_parse h), h]

/-- The fraction is not written. -/
theorem zuluText_truncate (t : LocalTime) : zuluText t.truncate = zuluText t := by
  have hle : zuluText t.truncate ≤ zuluText t := zuluText_le_iff.mpr (by rw [LocalTime.seconds_truncate])
  have hge : zuluText t ≤ zuluText t.truncate := zuluText_le_iff.mpr (by rw [LocalTime.seconds_truncate])
  exact le_antisymm hle hge

/-! ## Packs -/

section packs

variable {Id : Type} [DecidableEq Id] (now : ClockTime) {r : PackPush Id} {p : TimedPackIn Id}

/-- A push of another pack leaves a pack as it stands: stored or not, enqueued or not. -/
theorem pushOne_other {q : TimedPackIn Id} (hne : q.packId ≠ p.packId) :
    getTimedPack (r.pushOne now q).packs p.packId = getTimedPack r.packs p.packId ∧
      (p.packId ∈ (r.pushOne now q).enqueued ↔ p.packId ∈ r.enqueued) := by
  unfold PackPush.pushOne
  split
  · exact ⟨rfl, Iff.rfl⟩
  · dsimp only
    split_ifs
    · simp [getTimedPack, hne, Ne.symm hne]
    · simp [getTimedPack, hne]

/-- A stored pack is held and not enqueued again. -/
theorem pushOne_held {q : TimedPackIn Id} {cur : TimedPack Id} (hid : q.packId = p.packId)
    (hcur : getTimedPack r.packs p.packId = some cur) :
    getTimedPack (r.pushOne now q).packs p.packId = some cur ∧
      (p.packId ∈ (r.pushOne now q).enqueued ↔ p.packId ∈ r.enqueued) := by
  unfold PackPush.pushOne
  rw [hid, hcur]
  exact ⟨hcur, Iff.rfl⟩

/-- A new pack is stored as pending, and enqueued when its text is not after the clock's. -/
theorem pushOne_new (hnew : getTimedPack r.packs p.packId = none) (hqueue : p.packId ∉ r.enqueued) :
    getTimedPack (r.pushOne now p).packs p.packId = some { toTimedPackIn := p, status := .pending } ∧
      (p.packId ∈ (r.pushOne now p).enqueued ↔ p.sendAt ≤ now.nowIso) := by
  have hfind := hnew
  unfold getTimedPack at hfind
  unfold PackPush.pushOne
  rw [hnew]
  dsimp only
  split_ifs with hdue
  · simp [getTimedPack, hfind, hdue]
  · simp [getTimedPack, hfind, hdue, hqueue]

/-- Pushes after a pack is stored do not change what became of it. -/
theorem pushes_stored {cur : TimedPack Id} (packs : List (TimedPackIn Id))
    (hcur : getTimedPack r.packs p.packId = some cur) :
    getTimedPack (packs.foldl (PackPush.pushOne now) r).packs p.packId = some cur ∧
      (p.packId ∈ (packs.foldl (PackPush.pushOne now) r).enqueued ↔ p.packId ∈ r.enqueued) := by
  induction packs generalizing r with
  | nil => exact ⟨hcur, Iff.rfl⟩
  | cons q packs ih =>
    by_cases hid : q.packId = p.packId
    · obtain ⟨hstored, hqueue⟩ := pushOne_held now hid hcur
      obtain ⟨hlater, hlaterQueue⟩ := ih hstored
      exact ⟨hlater, hlaterQueue.trans hqueue⟩
    · obtain ⟨hstored, hqueue⟩ := pushOne_other now (r := r) hid
      obtain ⟨hlater, hlaterQueue⟩ := ih (hstored.trans hcur)
      exact ⟨hlater, hlaterQueue.trans hqueue⟩

/-- Pushes of other packs do not store a pack or enqueue it. -/
theorem pushes_other (packs : List (TimedPackIn Id)) (hnew : ∀ q ∈ packs, q.packId ≠ p.packId) :
    getTimedPack (packs.foldl (PackPush.pushOne now) r).packs p.packId =
        getTimedPack r.packs p.packId ∧
      (p.packId ∈ (packs.foldl (PackPush.pushOne now) r).enqueued ↔ p.packId ∈ r.enqueued) := by
  induction packs generalizing r with
  | nil => exact ⟨rfl, Iff.rfl⟩
  | cons q packs ih =>
    obtain ⟨hstored, hqueue⟩ := pushOne_other now (r := r) (hnew q (by simp))
    obtain ⟨hlater, hlaterQueue⟩ := ih (r := r.pushOne now q)
      fun q' hq' => hnew q' (List.mem_cons_of_mem _ hq')
    exact ⟨hlater.trans hstored, hlaterQueue.trans hqueue⟩

/-- What a push does with a pack that is new to the table: it is stored as pending, and enqueued
at once when its text is not after the clock's. -/
theorem packsPushTimed_new {table : List (TimedPack Id)} {before : List (TimedPackIn Id)}
    (after : List (TimedPackIn Id))
    (htable : ∀ q ∈ table, q.packId ≠ p.packId) (hbefore : ∀ q ∈ before, q.packId ≠ p.packId) :
    getTimedPack (packsPushTimed now (before ++ p :: after) table).packs p.packId =
        some { toTimedPackIn := p, status := .pending } ∧
      (p.packId ∈ (packsPushTimed now (before ++ p :: after) table).enqueued ↔
        p.sendAt ≤ now.nowIso) := by
  have hnone : getTimedPack table p.packId = none := by
    simpa [getTimedPack] using htable
  unfold packsPushTimed
  rw [List.foldl_append, List.foldl_cons]
  obtain ⟨hfirst, hfirstQueue⟩ := pushes_other now (p := p)
    (r := { packs := table }) before hbefore
  have hqueue : p.packId ∉ (before.foldl (PackPush.pushOne now) { packs := table }).enqueued := by
    rw [hfirstQueue]
    exact List.not_mem_nil
  obtain ⟨hstored, hdue⟩ := pushOne_new now (hfirst.trans hnone) hqueue
  obtain ⟨hlater, hlaterQueue⟩ := pushes_stored now after hstored
  exact ⟨hlater, hlaterQueue.trans hdue⟩

end packs

/-- A listed pack is in the table and due. -/
theorem listPendingPacks_due {Id : Type} {table : List (TimedPack Id)} {now : ClockTime} {limit : ℕ}
    {p : TimedPack Id} (h : p ∈ listPendingPacks now limit table) : p ∈ table ∧ p.due now = true := by
  have hmem := mem_of_mem_page h
  rwa [List.mem_filter] at hmem

/-! ## Order -/

/-- Instants without fractions are in the order of their seconds. -/
theorem truncate_lt_iff : u.truncate.instant < v.truncate.instant ↔ u.seconds < v.seconds := by
  rw [LocalTime.instant_truncate, LocalTime.instant_truncate]
  omega

/-- Below an instant is below its second. -/
theorem truncate_le_iff : u.truncate.instant ≤ v.instant ↔ u.seconds ≤ v.seconds := by
  have hv := v.seconds_eq
  rw [LocalTime.instant_truncate]
  omega

/-- The instant of a written time is its whole second. -/
theorem instantOf_utcText (t : LocalTime) :
    instantOf (utcText t) = some (t.instant / 1000000 * 1000000) := by
  rw [instantOf_eq (parseUtcNaive_utcText t), LocalTime.instant_truncate, LocalTime.seconds_eq]

/-- For every two times that are accepted: a time keeps its instant, its stored text is read
again as the instant truncated to the second, stored texts and the packs' texts compare as the
truncated instants do, and a new pack with such a text is enqueued when it is pushed exactly
when its instant is not after the clock's, and meets the key condition of the due packs, while
it is pending, exactly when its instant is not after the clock's then. -/
theorem time_texts_ordered (hx : parseUtcNaive x = some u) (hy : parseUtcNaive y = some v) :
    (instantOf x = some u.instant ∧ parseUtcNaive (utcText u) = some u.truncate ∧
      instantOf (utcText u) = some (u.instant / 1000000 * 1000000)) ∧
    (utcText u < utcText v ↔ u.truncate.instant < v.truncate.instant) ∧
    (packSendAtText (some (utcText u)) = packSendAtText (some x) ∧
      (packSendAtText (some x) < packSendAtText (some y) ↔ u.truncate.instant < v.truncate.instant)) ∧
    ∀ (Id : Type) [DecidableEq Id] (p : TimedPackIn Id), p.sendAt = packSendAtText (some (utcText u)) →
      (∀ (now : ClockTime) (table : List (TimedPack Id)) (before after : List (TimedPackIn Id)),
        (∀ q ∈ table, q.packId ≠ p.packId) → (∀ q ∈ before, q.packId ≠ p.packId) →
          getTimedPack (packsPushTimed now (before ++ p :: after) table).packs p.packId =
              some { toTimedPackIn := p, status := .pending } ∧
            (p.packId ∈ (packsPushTimed now (before ++ p :: after) table).enqueued ↔
              u.truncate.instant ≤ now.instant)) ∧
      ∀ later : ClockTime,
        ({ toTimedPackIn := p, status := .pending } : TimedPack Id).due later = true ↔
          u.truncate.instant ≤ later.instant := by
  have hstored : packSendAtText (some (utcText u)) = zuluText u := by
    rw [packSendAtText_eq (parseUtcNaive_utcText u), zuluText_truncate]
  refine ⟨⟨instantOf_eq hx, parseUtcNaive_utcText u, instantOf_utcText u⟩, ?_, ⟨?_, ?_⟩, ?_⟩
  · rw [utcText_lt_iff, truncate_lt_iff]
  · rw [hstored, packSendAtText_eq hx]
  · rw [packSendAtText_eq hx, packSendAtText_eq hy, zuluText_lt_iff, truncate_lt_iff]
  · intro Id _ p hp
    have hdue : ∀ now : ClockTime, p.sendAt ≤ now.nowIso ↔ u.truncate.instant ≤ now.instant := by
      intro now
      rw [hp, hstored, ClockTime.nowIso, zuluText_le_iff, truncate_le_iff]
    constructor
    · intro now table before after htable hbefore
      obtain ⟨hpending, hqueue⟩ := packsPushTimed_new now after htable hbefore
      exact ⟨hpending, hqueue.trans (hdue now)⟩
    · intro later
      have hcond : ({ toTimedPackIn := p, status := .pending } : TimedPack Id).due later = true ↔
          p.sendAt ≤ later.nowIso := by
        simp [TimedPack.due]
      exact hcond.trans (hdue later)

private def newYear : LocalTime where
  date := { year := 2026, month := 1, day := 1, hyear := by decide, hmonth := by decide,
            hday := by decide }
  micros := 500000
  hmicros := by decide

private def newYearsEve : LocalTime where
  date := { year := 2025, month := 12, day := 31, hyear := by decide, hmonth := by decide,
            hday := by decide }
  micros := 66600000000
  hmicros := by decide

/-- The order across a year's end. -/
theorem new_year_after_new_years_eve :
    utcText newYearsEve < utcText newYear ↔
      newYearsEve.truncate.instant < newYear.truncate.instant :=
  (time_texts_ordered (x := "2026-01-01T00:00:00+05:30") (y := "2026-01-01 00:00:00.5")
    (by decide +kernel) (by decide +kernel)).2.1

end Mailman.Analysis
