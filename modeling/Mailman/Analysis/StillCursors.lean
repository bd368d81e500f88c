import Mailman.Analysis.EntryDates

/-!
# Schedules that take their time

How many rounds a schedule can need. With no jitter the cursors stand still in each window until
its date is full, and then every sender is moved off it. Where a window runs past midnight, a
schedule that begins in the last moment of a date needs one window more.
-/

set_option autoImplicit false

namespace Mailman.Analysis

open Mailman.Model Mailman.Interface

section still

variable {n : ℕ} {w : SendWindow} {p : Pace} {first : SendCursor}

/-- No jitter and no stagger. -/
def noDraws : Draws := ⟨fun _ => 0, fun _ => 0, fun _ => 0⟩

/-- What the loop keeps while no cursor moves inside its window: sender `i` has been moved `at i`
times, every time so far is of a window that no sender has still before it, and each round gave
out a time or moved a sender. -/
structure Still (w : SendWindow) (first : SendCursor) (cap count used : ℕ) (st : Cursors)
    (reached : List ℕ) : Prop where
  length : reached.length = count
  senders : st.senders = reached.map (windowChain w first)
  used : used = st.out.length + reached.sum
  seen : ∀ d ∈ dates w st.out, ∃ j, (∀ i ∈ reached, j ≤ i) ∧ d = w.dateOf (windowChain w first j).t
  counts : ∀ day, st.dayCounts day = (dates w st.out).count day
  cap : ∀ day, st.dayCounts day ≤ cap

/-- One sender is moved once more. -/
theorem sum_set_succ {l : List ℕ} {i a : ℕ} (h : l[i]? = some a) :
    (l.set i (a + 1)).sum = l.sum + 1 := by
  induction l generalizing i with
  | nil => simp at h
  | cons b l ih =>
    cases i with
    | zero =>
      simp only [List.getElem?_cons_zero, Option.some.injEq] at h
      simp only [List.set_cons_zero, List.sum_cons, h]
      omega
    | succ i =>
      simp only [List.getElem?_cons_succ] at h
      simp only [List.set_cons_succ, List.sum_cons, ih h]
      omega

/-- One round. -/
theorem Still.round (hw : WindowOpens w) (hfirst : first.t < first.closes) {cap count used : ℕ}
    (hcap : p.dailyCap = some cap) (hpos : 1 ≤ cap) (hcount : 0 < count) {st st' : Cursors}
    {reached : List ℕ} (h : Still w first cap count used st reached)
    (hround : endlessRound w p noDraws st = some st') :
    ∃ reached', Still w first cap count (used + 1) st' reached' := by
  have hne : st.senders ≠ [] := by
    intro hnil
    have hlen := h.length
    rw [h.senders, List.map_eq_nil_iff] at hnil
    rw [hnil, List.length_nil] at hlen
    omega
  obtain ⟨s, hs, hmin⟩ := earliest_spec hne
  have hs' := hs
  rw [h.senders, List.getElem?_map] at hs'
  obtain ⟨j, hj, rfl⟩ := Option.map_eq_some_iff.mp hs'
  have hleast : ∀ i ∈ reached, j ≤ i := by
    intro i hi
    have hle := hmin (windowChain w first i) (by rw [h.senders]; exact List.mem_map_of_mem hi)
    by_contra hlt
    exact absurd (chain_lt hw hfirst (Nat.lt_of_not_le hlt)) (not_lt.mpr hle)
  simp only [endlessRound, hs] at hround
  split at hround
  · next hfull =>
    rw [endlessWindow_chain first hw, Option.map_some] at hround
    rw [← h.senders] at hj
    obtain rfl := Option.some.inj hround
    refine ⟨reached.set (earliest st.senders) (j + 1), ?_, ?_, ?_, ?_, h.counts, h.cap⟩
    · rw [List.length_set, h.length]
    · rw [List.map_set, ← h.senders]
    · rw [sum_set_succ hj, h.used]
      dsimp only
      omega
    · intro d hd
      obtain ⟨k, hk, hdate⟩ := h.seen d hd
      refine ⟨k, fun i hi => ?_, hdate⟩
      rcases List.mem_or_eq_of_mem_set hi with hi | rfl
      · exact hk i hi
      · exact (hk j (List.mem_of_getElem? hj)).trans (Nat.le_succ j)
  · next hfree =>
    have hstay : ¬ (windowChain w first j).closes ≤ (windowChain w first j).t :=
      not_le.mpr (chain_before hw hfirst j)
    simp only [noDraws, ite_self, Nat.cast_zero, add_zero, if_neg hstay, Option.map_some] at hround
    obtain rfl := Option.some.inj hround
    have hsame : st.senders.set (earliest st.senders) (windowChain w first j) = st.senders := by
      obtain ⟨hlt, heq⟩ := List.getElem?_eq_some_iff.mp hs
      rw [← heq, List.set_getElem_self]
    refine ⟨reached, h.length, ?_, ?_, ?_, ?_, ?_⟩
    · exact hsame.trans h.senders
    · simp only [List.length_cons, h.used]
      omega
    · intro d hd
      rw [dates, List.map_cons, dateOf_secondOf] at hd
      rcases List.mem_cons.mp hd with rfl | hd
      · exact ⟨j, hleast, rfl⟩
      · exact h.seen d hd
    · exact counts_cons h.counts _
    · exact counts_le hfree hcap hpos h.cap

/-- The guard counts what it took to get this far. -/
theorem Still.rounds (hw : WindowOpens w) (hfirst : first.t < first.closes) {cap count used : ℕ}
    (hcap : p.dailyCap = some cap) (hpos : 1 ≤ cap) (hcount : 0 < count) {rounds : ℕ}
    {st st' : Cursors} {reached : List ℕ} (h : Still w first cap count used st reached)
    (hrun : endlessRounds w p noDraws n rounds st = some st') :
    ∃ used' reached', used' ≤ used + rounds ∧ Still w first cap count used' st' reached' := by
  have hstep : ∀ used st st', (∃ reached, Still w first cap count used st reached) →
      endlessRound w p noDraws st = some st' →
      ∃ reached, Still w first cap count (used + 1) st' reached := by
    rintro used st st' ⟨reached, h⟩ hround
    exact h.round hw hfirst hcap hpos hcount hround
  obtain ⟨used', hle, ⟨reached', hst'⟩, -⟩ := endlessRounds_keep hstep ⟨reached, h⟩ hrun
  exact ⟨used', reached', hle, hst'⟩

/-- Times of the first windows only are few, and every sender was moved past all but the last. -/
theorem Still.le_used {cap count used : ℕ} (hpos : 1 ≤ cap) (hcount : 0 < count) {st : Cursors}
    {reached : List ℕ} (h : Still w first cap count used st reached) :
    st.out.length + count * ((st.out.length - 1) / cap) ≤ used := by
  classical
  have hne : reached.toFinset.Nonempty := by
    rw [List.toFinset_nonempty_iff]
    intro hnil
    have hlen := h.length
    rw [hnil, List.length_nil] at hlen
    omega
  obtain ⟨low, hlow, hleast⟩ := reached.toFinset.exists_min_image id hne
  simp only [List.mem_toFinset, id_eq] at hlow hleast
  let dateAt : ℕ → ℤ := fun j => w.dateOf (windowChain w first j).t
  have hsub : (dates w st.out).toFinset ⊆ (Finset.range (low + 1)).image dateAt := by
    intro d hd
    obtain ⟨j, hj, rfl⟩ := h.seen d (List.mem_toFinset.mp hd)
    exact Finset.mem_image_of_mem dateAt (Finset.mem_range.mpr (Nat.lt_succ_of_le (hj low hlow)))
  have hfew : st.out.length ≤ (low + 1) * cap := by
    calc st.out.length = ∑ d ∈ (dates w st.out).toFinset, (dates w st.out).count d := by
          rw [List.sum_toFinset_count_eq_length, dates, List.length_map]
      _ ≤ (dates w st.out).toFinset.card * cap :=
          Finset.sum_le_card_nsmul _ _ _ fun d _ => h.counts d ▸ h.cap d
      _ ≤ (low + 1) * cap := by
          refine Nat.mul_le_mul_right _ ((Finset.card_le_card hsub).trans ?_)
          exact Finset.card_image_le.trans_eq (Finset.card_range _)
  have hlowest : (st.out.length - 1) / cap ≤ low := by
    rw [Nat.div_le_iff_le_mul_add_pred (by omega)]
    rw [Nat.add_mul, Nat.one_mul, Nat.mul_comm] at hfew
    omega
  have hsum : count * low ≤ reached.sum := by
    have hall := List.card_nsmul_le_sum reached low hleast
    simpa [h.length] using hall
  have hmul := Nat.mul_le_mul_left count hlowest
  rw [h.used]
  omega


/-- The pace of cursors that stand still. -/
def stillPace (count : ℕ) (cap : Option ℕ) : Pace := ⟨count, 0, 0, 0, 0, cap⟩

/-- No draws are in range. -/
theorem noDraws_inRange (count : ℕ) (cap : Option ℕ) : noDraws.InRange (stillPace count cap) :=
  ⟨rfl, by simp [noDraws], by simp [noDraws, stillPace], by simp [noDraws, stillPace]⟩

/-- **With no jitter the guard stops the loop early.** -/
theorem still_length_le (hw : WindowOpens w) (hn : 0 < n) {count cap : ℕ} (hcount : 0 < count)
    (hpos : 1 ≤ cap) {start : ℤ} {out : List ℤ}
    (hout : computeSendAts n start (some w.zone) w.startHour w.windowHours
      (stillPace count (some cap)) noDraws = .ok out) :
    out.length + count * ((out.length - 1) / cap) ≤ 8 * n + 2000 := by
  obtain ⟨first, senders, st, hfirst, hmap, hrun, rfl⟩ := endless_of_computeSendAts hn hout
  obtain ⟨⟨day, hin⟩, -, -⟩ := endlessWindow_spec hfirst
  have hcursor : endlessCursor w noDraws first = fun _ => pure first := by
    funext i
    simp [endlessCursor, noDraws, not_le.mpr hin.before]
  have hsenders : senders = (List.replicate count 0).map (windowChain w first) := by
    rw [hcursor, List.mapM_pure, List.map_const', List.length_range,
      show max (stillPace count (some cap)).senderCount 1 = count from max_eq_left hcount] at hmap
    rw [List.map_replicate]
    exact (Option.some.inj hmap).symm
  have h0 : Still w first cap count 0 { senders := senders } (List.replicate count 0) :=
    ⟨List.length_replicate, hsenders, by simp, by simp [dates], fun _ => rfl, fun _ => Nat.zero_le _⟩
  obtain ⟨used, reached, hle, hst⟩ := h0.rounds hw hin.before rfl hpos hcount hrun
  have hused := hst.le_used hpos hcount
  rw [List.length_insertionSort]
  omega

end still

section late

variable {n : ℕ} {w : SendWindow} {p : Pace} {draws : Draws} {first : SendCursor}
  {count cap gap : ℕ} {st st' : Cursors}

/-- The first cursor stands in the last moment of its date, two gaps on its window is still open
and shows the date of the next window, and each later window keeps its date for a gap. -/
structure LastMoment (w : SendWindow) (first : SendCursor) (gap : ℕ) : Prop where
  night : ∀ t, first.t < t → t ≤ first.t + 2 * gap →
    t < first.closes ∧ w.dateOf t = entryDate w first 1
  entered : ∀ j, 1 ≤ j → ∀ t, entry w first j ≤ t → t ≤ entry w first j + gap →
    t < (windowChain w first j).closes ∧ w.dateOf t = entryDate w first j

/-- A cursor that has been moved `j` times and sends at most once in each window after the first. -/
structure LatePlace (w : SendWindow) (first : SendCursor) (gap : ℕ) (s : SendCursor) (j : ℕ) :
    Prop where
  closes : s.closes = (windowChain w first j).closes
  night : j = 0 → first.t ≤ s.t ∧ s.t ≤ first.t + 2 * gap
  entered : 1 ≤ j → s.t = entry w first j ∨ s.t = entry w first j + gap

/-- What the loop keeps from the last moment of a date: only one time is on that date, and every
other is on the date of a window that no sender has still before it. -/
structure LateLedger (w : SendWindow) (p : Pace) (first : SendCursor) (gap cap count used : ℕ)
    (st : Cursors) (reached : List ℕ) : Prop where
  length : st.senders.length = count
  steps : reached.length = count
  place : ∀ (i : ℕ) s, st.senders[i]? = some s →
    ∃ j, reached[i]? = some j ∧ LatePlace w first gap s j
  used : used = st.out.length + reached.sum
  gates : ∀ j, 1 ≤ j → Gate p (entryDate w first j) (entry w first j) st
  night : Gate p (entryDate w first 1) (first.t + gap) st
  alone : st.dayCounts (entryDate w first 0) + (st.senders.countP fun s => s.t = first.t) ≤ 1
  seen : ∀ d ∈ dates w st.out, d = entryDate w first 0 ∨ ∃ j, 1 ≤ j ∧ d = entryDate w first j ∧
    (j = 1 ∨ ∀ s ∈ st.senders, entry w first j ≤ s.t)
  counts : ∀ day, st.dayCounts day = (dates w st.out).count day
  cap : ∀ day, st.dayCounts day ≤ cap

/-- A place is in its window. -/
theorem LatePlace.atWindow (hfirst : first.t < first.closes) (hlast : LastMoment w first gap)
    {s : SendCursor} {j : ℕ} (h : LatePlace w first gap s j) : AtWindow w first s j := by
  have hcloses := h.closes
  rcases Nat.eq_zero_or_pos j with rfl | hj
  · obtain ⟨hafter, hle⟩ := h.night rfl
    refine ⟨h.closes, hafter, ?_⟩
    rw [hcloses]
    rcases hafter.lt_or_eq with hlt | heq
    · exact (hlast.night s.t hlt hle).1
    · rw [← heq]
      exact hfirst
  · have ht := h.entered hj
    have hle : entry w first j ≤ s.t := by omega
    refine ⟨h.closes, hle, ?_⟩
    rw [hcloses]
    exact (hlast.entered j hj s.t hle (by omega)).1

/-- The date that a place shows: after the first moment it is that of its window or of the next. -/
theorem LatePlace.dateOf (hlast : LastMoment w first gap) {s : SendCursor} {j : ℕ}
    (h : LatePlace w first gap s j) (hafter : first.t < s.t) :
    w.dateOf s.t = entryDate w first (max j 1) := by
  rcases Nat.eq_zero_or_pos j with rfl | hj
  · exact (hlast.night s.t hafter (h.night rfl).2).2
  · rw [max_eq_left hj]
    have ht := h.entered hj
    exact (hlast.entered j hj s.t (by omega) (by omega)).2

/-- No place is before the first moment, and only one in the first window is at it. -/
theorem LatePlace.first_le (hw : WindowOpens w) (hfirst : first.t < first.closes) {s : SendCursor}
    {j : ℕ} (h : LatePlace w first gap s j) : first.t ≤ s.t ∧ (1 ≤ j → first.t < s.t) := by
  rcases Nat.eq_zero_or_pos j with rfl | hj
  · exact ⟨(h.night rfl).1, fun hzero => absurd hzero (by omega)⟩
  · have hlt : first.t < entry w first j := entry_lt hw hfirst hj
    have ht := h.entered hj
    exact ⟨by omega, fun _ => by omega⟩

/-- A sender that still finds room sends at the entry of its window, or within a gap of the first
moment. -/
theorem LateLedger.sends_early {used : ℕ} {reached : List ℕ} (hw : WindowOpens w)
    (hfirst : first.t < first.closes) (hlast : LastMoment w first gap)
    (hcap : p.dailyCap = some cap) (hpos : 1 ≤ cap) (hmany : cap ≤ count)
    (h : LateLedger w p first gap cap count used st reached) {s : SendCursor} {j : ℕ}
    (hplace : LatePlace w first gap s j) (hmin : ∀ r ∈ st.senders, s.t ≤ r.t)
    (hfree : ¬ capped p (st.dayCounts (w.dateOf s.t)) = true) :
    (j = 0 → s.t ≤ first.t + gap) ∧ (1 ≤ j → s.t = entry w first j) := by
  have hlen : cap ≤ st.senders.length := h.length ▸ hmany
  constructor
  · rintro rfl
    by_contra hlate
    -- everyone is past the night, so the date after it is full
    have hfull := h.night.full hcap hpos hlen fun r hr =>
      lt_of_lt_of_le (not_le.mp hlate) (hmin r hr)
    rw [hplace.dateOf hlast (by omega)] at hfree
    exact hfree hfull
  · intro hj
    rcases hplace.entered hj with heq | hgap
    · exact heq
    · by_contra hne
      have hpast : entry w first j < s.t := by omega
      have hfull := (h.gates j hj).full hcap hpos hlen fun r hr => hpast.trans_le (hmin r hr)
      have hafter := (hplace.first_le hw hfirst).2 hj
      rw [hplace.dateOf hlast hafter, max_eq_left hj] at hfree
      exact hfree hfull

/-- Who is moved off a full date is past the first moment. -/
theorem LateLedger.moved_after {used : ℕ} {reached : List ℕ} (hw : WindowOpens w)
    (hfirst : first.t < first.closes) (hcap : p.dailyCap = some cap) (hpos : 1 ≤ cap)
    (h : LateLedger w p first gap cap count used st reached) {s : SendCursor} {j : ℕ}
    (hs : s ∈ st.senders) (hplace : LatePlace w first gap s j)
    (hfull : capped p (st.dayCounts (w.dateOf s.t)) = true) : first.t < s.t := by
  rcases (hplace.first_le hw hfirst).1.lt_or_eq with hlt | heq
  · exact hlt
  · have halone := h.alone
    have hat : 0 < st.senders.countP fun s => decide (s.t = first.t) :=
      List.countP_pos_iff.mpr ⟨s, hs, by simpa using heq.symm⟩
    rw [capped_iff hcap hpos, ← heq] at hfull
    change cap ≤ st.dayCounts (entryDate w first 0) at hfull
    omega

/-- A round from the last moment of a date: the earliest sender `s`, moved `j` times, goes to the
next window off a full date, or on by a gap. -/
structure LateRound (w : SendWindow) (p : Pace) (draws : Draws) (first : SendCursor) (gap : ℕ)
    (st st' : Cursors) (reached : List ℕ) (s next : SendCursor) (j k : ℕ) : Prop where
  round : RoundOf w p draws st st' s next
  moved : reached[earliest st.senders]? = some j
  place : LatePlace w first gap s j
  nextPlace : LatePlace w first gap next k
  later : s.t ≤ next.t
  after : first.t < next.t
  early : s.t = first.t → next.t ≤ first.t + gap
  ends : next.t ≤ entry w first (j + 1)
  done : (k = j + 1 ∧ first.t < s.t ∧ st'.out = st.out ∧ st'.dayCounts = st.dayCounts) ∨
    (k = j ∧ ¬ capped p (st.dayCounts (w.dateOf s.t)) = true ∧ st'.out = secondOf s.t :: st.out ∧
      st'.dayCounts = Function.update st.dayCounts (w.dateOf s.t)
        (st.dayCounts (w.dateOf s.t) + 1))

/-- Every round is such a round. -/
theorem LateLedger.moves (hw : WindowOpens w) (hfirst : first.t < first.closes)
    (hlast : LastMoment w first gap) (hgap : 1 ≤ gap) (hcap : p.dailyCap = some cap) (hpos : 1 ≤ cap)
    (hmany : cap ≤ count)
    (hgaps : ∀ s : SendCursor, s.t < s.closes → ∀ k, sendGap p draws s k = gap) {used : ℕ}
    {reached : List ℕ} (h : LateLedger w p first gap cap count used st reached)
    (hround : endlessRound w p draws st = some st') :
    ∃ s next j k, LateRound w p draws first gap st st' reached s next j k := by
  obtain ⟨s, next, hround⟩ := endlessRound_cases hround
  obtain ⟨j, hj, hplace⟩ := h.place _ s hround.found
  have hat := hplace.atWindow hfirst hlast
  have hbefore := hat.before
  have hcloses := hplace.closes
  obtain ⟨hfirstLe, hfirstLt⟩ := hplace.first_le hw hfirst
  have hends : (windowChain w first j).closes ≤ entry w first (j + 1) := closes_le_entry hw j
  have hdone := hround.done
  rw [hgaps s hat.before] at hdone
  rcases hdone with ⟨hfull, hnext, hout, hcounts⟩ | ⟨hfree, hnext, hout, hcounts⟩
  · have hafter :=
      h.moved_after hw hfirst hcap hpos (List.mem_of_getElem? hround.found) hplace hfull
    rw [hcloses, endlessWindow_chain first hw] at hnext
    obtain rfl := Option.some.inj hnext
    have hlater : s.t ≤ entry w first (j + 1) := by omega
    refine ⟨s, _, j, j + 1, hround, hj, hplace, ⟨rfl, ?_, fun _ => .inl rfl⟩, hlater,
      hafter.trans_le hlater, ?_, le_rfl, .inl ⟨rfl, hafter, hout, hcounts⟩⟩
    · exact fun hzero => absurd hzero (Nat.succ_ne_zero j)
    · exact fun heq => absurd heq hafter.ne'
  · obtain ⟨hnight, hentered⟩ :=
      h.sends_early hw hfirst hlast hcap hpos hmany hplace hround.least hfree
    have hopen : s.t + gap < s.closes := by
      rw [hcloses]
      rcases Nat.eq_zero_or_pos j with rfl | hj
      · have hearly := hnight rfl
        exact (hlast.night (s.t + gap) (by omega) (by omega)).1
      · rw [hentered hj]
        exact (hlast.entered j hj _ (by omega) le_rfl).1
    rcases hnext with ⟨hlate, -⟩ | ⟨-, rfl⟩
    · exact absurd hopen (not_lt.mpr hlate)
    · refine ⟨s, _, j, j, hround, hj, hplace, ⟨hcloses, ?_, ?_⟩, ?_, ?_, ?_, ?_,
        .inr ⟨rfl, hfree, hout, hcounts⟩⟩
      · intro hzero
        have hearly := hnight hzero
        dsimp only
        omega
      · intro hj
        rw [hentered hj]
        exact .inr rfl
      · dsimp only
        omega
      · dsimp only
        omega
      · intro heq
        dsimp only
        omega
      · dsimp only
        omega

/-- Only one time stays on the first date. -/
theorem LateRound.alone (hw : WindowOpens w) (hfirst : first.t < first.closes)
    (hinj : Function.Injective (entryDate w first)) (hlast : LastMoment w first gap)
    {reached : List ℕ} {s next : SendCursor} {j k : ℕ}
    (h : LateRound w p draws first gap st st' reached s next j k)
    (halone : st.dayCounts (entryDate w first 0) +
      (st.senders.countP fun s => s.t = first.t) ≤ 1) :
    st'.dayCounts (entryDate w first 0) + (st'.senders.countP fun s => s.t = first.t) ≤ 1 := by
  obtain ⟨hlt, hget⟩ := List.getElem?_eq_some_iff.mp h.round.found
  have hat0 : (st'.senders.countP fun s => decide (s.t = first.t)) =
      (st.senders.countP fun s => decide (s.t = first.t)) - if s.t = first.t then 1 else 0 := by
    rw [h.round.senders, List.countP_set hlt, hget]
    simp [h.after.ne']
  rcases h.done with ⟨-, hpast, -, hcounts⟩ | ⟨-, -, -, hcounts⟩
  · rw [hcounts, hat0, if_neg hpast.ne']
    exact halone
  · by_cases heq : s.t = first.t
    · have hsome : 0 < st.senders.countP fun s => decide (s.t = first.t) :=
        List.countP_pos_iff.mpr ⟨s, List.mem_of_getElem? h.round.found, by simpa using heq⟩
      rw [hcounts, hat0, if_pos heq, heq]
      change Function.update st.dayCounts (entryDate w first 0) _ (entryDate w first 0) + _ ≤ 1
      rw [Function.update_self]
      change st.dayCounts (entryDate w first 0) + 1 + _ ≤ 1
      omega
    · have hpast : first.t < s.t := lt_of_le_of_ne (h.place.first_le hw hfirst).1 (Ne.symm heq)
      have hdate : w.dateOf s.t ≠ entryDate w first 0 := by
        rw [h.place.dateOf hlast hpast]
        intro hsame
        have hzero := hinj hsame
        omega
      rw [hcounts, hat0, if_neg heq, Function.update_of_ne hdate.symm]
      exact halone

/-- Each time stays on the date of a window that no sender has still before it. -/
theorem LateRound.seen (hw : WindowOpens w) (hfirst : first.t < first.closes)
    (hlast : LastMoment w first gap) {reached : List ℕ} {s next : SendCursor} {j k : ℕ}
    (h : LateRound w p draws first gap st st' reached s next j k)
    (hseen : ∀ d ∈ dates w st.out, d = entryDate w first 0 ∨ ∃ j, 1 ≤ j ∧ d = entryDate w first j ∧
      (j = 1 ∨ ∀ s ∈ st.senders, entry w first j ≤ s.t)) :
    ∀ d ∈ dates w st'.out, d = entryDate w first 0 ∨ ∃ j, 1 ≤ j ∧ d = entryDate w first j ∧
      (j = 1 ∨ ∀ s ∈ st'.senders, entry w first j ≤ s.t) := by
  have hrest : ∀ t, (∀ r ∈ st.senders, t ≤ r.t) → t ≤ s.t → ∀ r ∈ st'.senders, t ≤ r.t := by
    intro t hall hle r hr
    rw [h.round.senders] at hr
    rcases List.mem_or_eq_of_mem_set hr with hr | rfl
    · exact hall r hr
    · exact hle.trans h.later
  have hold : ∀ d ∈ dates w st.out, d = entryDate w first 0 ∨ ∃ j, 1 ≤ j ∧ d = entryDate w first j ∧
      (j = 1 ∨ ∀ s ∈ st'.senders, entry w first j ≤ s.t) := by
    intro d hd
    rcases hseen d hd with hzero | ⟨i, hi, hdate, hall⟩
    · exact .inl hzero
    · refine .inr ⟨i, hi, hdate, hall.imp_right fun hall => hrest _ hall ?_⟩
      exact hall s (List.mem_of_getElem? h.round.found)
  intro d hd
  rcases h.done with ⟨-, -, hout, -⟩ | ⟨-, -, hout, -⟩
  · rw [hout] at hd
    exact hold d hd
  · rw [hout, dates, List.map_cons, dateOf_secondOf] at hd
    rcases List.mem_cons.mp hd with rfl | hd
    · rcases (h.place.first_le hw hfirst).1.lt_or_eq with hpast | heq
      · refine .inr ⟨max j 1, le_max_right j 1, h.place.dateOf hlast hpast, ?_⟩
        rcases Nat.eq_zero_or_pos j with rfl | hj
        · exact .inl rfl
        · have hafter := (h.place.atWindow hfirst hlast).after
          rw [max_eq_left hj]
          exact .inr (hrest _ (fun r hr => hafter.trans (h.round.least r hr)) hafter)
      · left
        rw [← heq]
        rfl
    · exact hold d hd

/-- **One round** from the last moment of a date. -/
theorem LateLedger.round (hw : WindowOpens w) (hfirst : first.t < first.closes)
    (hinj : Function.Injective (entryDate w first)) (hlast : LastMoment w first gap)
    (hgap : 1 ≤ gap) (hcap : p.dailyCap = some cap) (hpos : 1 ≤ cap) (hmany : cap ≤ count)
    (hgaps : ∀ s : SendCursor, s.t < s.closes → ∀ k, sendGap p draws s k = gap) {used : ℕ}
    {reached : List ℕ} (h : LateLedger w p first gap cap count used st reached)
    (hround : endlessRound w p draws st = some st') :
    ∃ reached', LateLedger w p first gap cap count (used + 1) st' reached' := by
  obtain ⟨s, next, j, k, hlate⟩ := h.moves hw hfirst hlast hgap hcap hpos hmany hgaps hround
  obtain ⟨hlt, hget⟩ := List.getElem?_eq_some_iff.mp hlate.moved
  have hat := hlate.place.atWindow hfirst hlast
  refine ⟨reached.set (earliest st.senders) k, ?_, ?_, fun i r hr => ?_, ?_, fun i hi => ?_, ?_,
    hlate.alone hw hfirst hinj hlast h.alone, hlate.seen hw hfirst hlast h.seen, ?_, ?_⟩
  · rw [hlate.round.senders, List.length_set]
    exact h.length
  · rw [List.length_set]
    exact h.steps
  · rw [hlate.round.senders] at hr
    rcases getElem?_set_cases hr with ⟨rfl, rfl⟩ | ⟨hne, hr⟩
    · exact ⟨k, List.getElem?_set_self hlt, hlate.nextPlace⟩
    · obtain ⟨i', hi', hplace'⟩ := h.place i r hr
      exact ⟨i', by rw [List.getElem?_set_ne (Ne.symm hne), hi'], hplace'⟩
  · rcases hlate.done with ⟨rfl, -, hout, -⟩ | ⟨rfl, -, hout, -⟩
    · rw [sum_set_succ hlate.moved, hout, h.used]
      omega
    · have hsum : (reached.set (earliest st.senders) k).sum = reached.sum := by
        rw [← hget, List.set_getElem_self]
      rw [hsum, hout, List.length_cons, h.used]
      omega
  · refine (h.gates i hi).round hlate.round fun hle hgt => ?_
    rw [hat.eq_entry hw hfirst hlate.ends hle hgt]
    rfl
  · refine h.night.round hlate.round fun hle hgt => ?_
    have hpast : first.t < s.t := by
      rcases (hlate.place.first_le hw hfirst).1.lt_or_eq with hlt | heq
      · exact hlt
      · have hearly := hlate.early heq.symm
        omega
    exact (hlast.night s.t hpast (by omega)).2
  · rcases hlate.done with ⟨-, -, hout, hcounts⟩ | ⟨-, -, hout, hcounts⟩
    · rw [hcounts, hout]
      exact h.counts
    · rw [hcounts, hout]
      exact counts_cons h.counts s.t
  · rcases hlate.done with ⟨-, -, -, hcounts⟩ | ⟨-, hfree, -, hcounts⟩
    · rw [hcounts]
      exact h.cap
    · rw [hcounts]
      exact counts_le hfree hcap hpos h.cap

/-- No sender is still before the windows of the times: as many times as those up to the window
after that of the sender moved least have room for. -/
theorem LateLedger.length_le {used low : ℕ} {reached : List ℕ} (hw : WindowOpens w)
    (hfirst : first.t < first.closes) (hinj : Function.Injective (entryDate w first))
    (hlast : LastMoment w first gap)
    (h : LateLedger w p first gap cap count used st reached) (hlow : low ∈ reached) :
    st.out.length ≤ 1 + max low 1 * cap := by
  -- the sender that was moved `low` times is before the entry of the window after its own
  have hbehind : ∃ s ∈ st.senders, s.t < entry w first (low + 1) := by
    obtain ⟨i, hi⟩ := List.mem_iff_getElem?.mp hlow
    obtain ⟨hlt, -⟩ := List.getElem?_eq_some_iff.mp hi
    have hi' : i < st.senders.length := by
      rw [h.length, ← h.steps]
      exact hlt
    obtain ⟨j, hj, hplace⟩ := h.place i _ (List.getElem?_eq_getElem hi')
    obtain rfl := Option.some.inj (hi.symm.trans hj)
    have hat := hplace.atWindow hfirst hlast
    have hbefore := hat.before
    rw [hat.closes] at hbefore
    exact ⟨_, List.getElem_mem hi', hbefore.trans_le (closes_le_entry hw low)⟩
  let later : Finset ℤ := (Finset.Icc 1 (max low 1)).image (entryDate w first)
  have hsub : (dates w st.out).toFinset ⊆ insert (entryDate w first 0) later := by
    intro d hd
    rcases h.seen d (List.mem_toFinset.mp hd) with rfl | ⟨j, hj, rfl, hall⟩
    · exact Finset.mem_insert_self _ _
    · refine Finset.mem_insert_of_mem (Finset.mem_image_of_mem _ (Finset.mem_Icc.mpr ⟨hj, ?_⟩))
      rcases hall with rfl | hall
      · exact le_max_right _ _
      · obtain ⟨s, hs, hbefore⟩ := hbehind
        have hle := hall s hs
        by_contra hgt
        have hmono : entry w first (low + 1) ≤ entry w first j := entry_le hw hfirst (by omega)
        omega
  have hzero : entryDate w first 0 ∉ later := by
    intro hmem
    obtain ⟨j, hj, heq⟩ := Finset.mem_image.mp hmem
    have hj0 := hinj heq
    have hj1 := (Finset.mem_Icc.mp hj).1
    omega
  have hcard : later.card = max low 1 := by
    rw [Finset.card_image_of_injective _ hinj, Nat.card_Icc]
    omega
  calc st.out.length = ∑ d ∈ (dates w st.out).toFinset, (dates w st.out).count d := by
        rw [List.sum_toFinset_count_eq_length, dates, List.length_map]
    _ ≤ ∑ d ∈ insert (entryDate w first 0) later, (dates w st.out).count d :=
        Finset.sum_le_sum_of_subset hsub
    _ = (dates w st.out).count (entryDate w first 0) + ∑ d ∈ later, (dates w st.out).count d :=
        Finset.sum_insert hzero
    _ ≤ 1 + max low 1 * cap := by
        have halone := h.alone
        have hlater : ∑ d ∈ later, (dates w st.out).count d ≤ later.card * cap :=
          Finset.sum_le_card_nsmul _ _ _ fun d _ => h.counts d ▸ h.cap d
        rw [← h.counts, ← hcard]
        omega

/-- Every sender was moved past all windows but the last. -/
theorem LateLedger.le_used {used : ℕ} {reached : List ℕ} (hw : WindowOpens w)
    (hfirst : first.t < first.closes) (hinj : Function.Injective (entryDate w first))
    (hlast : LastMoment w first gap) (hpos : 1 ≤ cap) (hcount : 0 < count)
    (h : LateLedger w p first gap cap count used st reached) (hlong : cap + 1 < st.out.length) :
    st.out.length + count * lateMoves (st.out.length - 1) cap ≤ used := by
  have hne : reached.toFinset.Nonempty := by
    rw [List.toFinset_nonempty_iff]
    intro hnil
    have hlen := h.steps
    rw [hnil, List.length_nil] at hlen
    omega
  obtain ⟨low, hlow, hleast⟩ := reached.toFinset.exists_min_image id hne
  simp only [List.mem_toFinset, id_eq] at hlow hleast
  have hfew := h.length_le hw hfirst hinj hlast hlow
  have hlow1 : 1 ≤ low := by
    by_contra hless
    rw [show max low 1 = 1 by omega, Nat.one_mul] at hfew
    omega
  rw [max_eq_left hlow1] at hfew
  have hmoves : lateMoves (st.out.length - 1) cap ≤ low := by
    rw [lateMoves, if_neg (by omega)]
    have hdiv : (st.out.length - 1 - 1) / cap < low := by
      rw [Nat.div_lt_iff_lt_mul (by omega)]
      omega
    omega
  have hsum : count * low ≤ reached.sum := by
    have hall := List.card_nsmul_le_sum reached low hleast
    simpa [h.steps] using hall
  have hmul := Nat.mul_le_mul_left count hmoves
  rw [h.used]
  omega

/-- The seconds between two sends of a sender that begins in the last moment of a date: as many as
keep the senders a microsecond apart. -/
def lateSeconds (count : ℕ) : ℕ := count / 1000000 + 1

/-- The pace of such senders. -/
def latePace (count : ℕ) (cap : Option ℕ) : Pace :=
  ⟨count, lateSeconds count, lateSeconds count, 0, 0, cap⟩

/-- Its draws: `i * (jitter_min_s / sender_count)` to the nearest microsecond, and the one gap. -/
def lateDraws (count : ℕ) : Draws :=
  let gap := lateSeconds count * 1000000
  ⟨fun i => min ((2 * i * gap + count) / (2 * count)) gap, fun _ => gap, fun _ => 0⟩

/-- The late draws are in range. -/
theorem lateDraws_inRange {count : ℕ} (hcount : 0 < count) (cap : Option ℕ) :
    (lateDraws count).InRange (latePace count cap) := by
  refine ⟨?_, fun i => min_le_right _ _, fun k => ⟨le_rfl, le_rfl⟩, fun k => ⟨?_, ?_⟩⟩
  · have hzero : (2 * 0 * (lateSeconds count * 1000000) + count) / (2 * count) = 0 :=
      Nat.div_eq_of_lt (by omega)
    simp only [lateDraws, hzero]
    exact Nat.zero_min _
  · simp [latePace]
  · simp [lateDraws]

/-- Only the first sender begins at once. -/
theorem lateDraws_pos {count i : ℕ} (hcount : 0 < count) (hi : 1 ≤ i) :
    1 ≤ (lateDraws count).stagger i := by
  have hgap : count ≤ lateSeconds count * 1000000 := by
    unfold lateSeconds
    omega
  refine le_min ?_ (by omega)
  rw [Nat.le_div_iff_mul_le (by omega)]
  have hmul : 1 * (lateSeconds count * 1000000) ≤ i * (lateSeconds count * 1000000) :=
    Nat.mul_le_mul_right _ hi
  rw [Nat.mul_assoc 2 i]
  omega

/-- The senders before the first round. -/
theorem lateLedger_begin (hw : WindowOpens w) (hfirst : first.t < first.closes) (hcount : 0 < count)
    (hlast : LastMoment w first (lateSeconds count * 1000000)) {senders : List SendCursor}
    (hmap : (List.range count).mapM (endlessCursor w (lateDraws count) first) = some senders) :
    LateLedger w (latePace count (some cap)) first (lateSeconds count * 1000000) cap count 0
      { senders := senders } (List.replicate count 0) := by
  have hle : ∀ i, (lateDraws count).stagger i ≤ lateSeconds count * 1000000 :=
    fun i => min_le_right _ _
  have hopen : ∀ i, first.t + (lateDraws count).stagger i < first.closes := by
    intro i
    have hi := hle i
    rcases (Nat.zero_le ((lateDraws count).stagger i)).lt_or_eq with hlt | heq
    · exact (hlast.night _ (by omega) (by omega)).1
    · rw [← heq]
      simpa using hfirst
  have hcursor : endlessCursor w (lateDraws count) first =
      fun i => pure { first with t := first.t + (lateDraws count).stagger i } := by
    funext i
    exact if_neg (not_le.mpr (hopen i))
  rw [hcursor, List.mapM_pure] at hmap
  obtain rfl := Option.some.inj hmap
  have hsenders : ∀ s ∈ (List.range count).map fun i : ℕ =>
      ({ first with t := first.t + (lateDraws count).stagger i } : SendCursor),
      s.closes = first.closes ∧ first.t ≤ s.t ∧ s.t < first.closes ∧
        s.t ≤ first.t + (lateSeconds count * 1000000 : ℕ) := by
    intro s hs
    obtain ⟨i, -, rfl⟩ := List.mem_map.mp hs
    have hi := hle i
    exact ⟨rfl, by dsimp only; omega, hopen i, by dsimp only; omega⟩
  have hends : first.closes ≤ entry w first 1 := closes_le_entry hw 0
  refine ⟨by simp, by simp, fun i s hs => ?_, by simp, fun j hj => .inr ?_, .inr ?_, ?_, by simp [dates],
    fun _ => rfl, fun _ => Nat.zero_le _⟩
  · obtain ⟨hcloses, hafter, hbefore, hgap⟩ := hsenders s (List.mem_of_getElem? hs)
    obtain ⟨hlt, -⟩ := List.getElem?_eq_some_iff.mp hs
    rw [List.length_map, List.length_range] at hlt
    refine ⟨0, by simp [hlt], hcloses, fun _ => ⟨hafter, by omega⟩, fun hzero => ?_⟩
    exact absurd hzero (by omega)
  · rw [Nat.le_zero, List.countP_eq_zero]
    intro s hs
    obtain ⟨-, -, hbefore, -⟩ := hsenders s hs
    have hmono : entry w first 1 ≤ entry w first j := entry_le hw hfirst hj
    simp only [decide_eq_true_eq]
    omega
  · rw [Nat.le_zero, List.countP_eq_zero]
    intro s hs
    obtain ⟨-, -, -, hgap⟩ := hsenders s hs
    simp only [decide_eq_true_eq]
    omega
  · rw [Nat.zero_add, List.countP_map]
    have honly : ∀ i ∈ List.range count,
        ((fun s : SendCursor => decide (s.t = first.t)) ∘ fun i : ℕ =>
          ({ first with t := first.t + (lateDraws count).stagger i } : SendCursor)) i = true ↔
        (i == 0) = true := by
      intro i _
      simp only [Function.comp_apply, decide_eq_true_eq, beq_iff_eq]
      rcases Nat.eq_zero_or_pos i with rfl | hi
      · have hzero := (lateDraws_inRange hcount (some cap)).first
        omega
      · have hpos := lateDraws_pos hcount hi
        omega
    rw [List.countP_congr honly]
    exact List.nodup_iff_count_le_one.mp List.nodup_range 0

/-- **From the last moment of a date the guard stops the loop earlier still.** -/
theorem late_length_le (hw : WindowOpens w) (hown : EntersOwnDate w) (hn : 0 < n)
    (hcount : 0 < count) (hpos : 1 ≤ cap) (hmany : cap ≤ count) {start : ℤ}
    (hfirst : endlessWindow w start = some first)
    (hlast : LastMoment w first (lateSeconds count * 1000000)) {out : List ℤ}
    (hout : computeSendAts n start (some w.zone) w.startHour w.windowHours
      (latePace count (some cap)) (lateDraws count) = .ok out) (hlong : cap + 1 < out.length) :
    out.length + count * lateMoves (out.length - 1) cap ≤ 8 * n + 2000 := by
  obtain ⟨first', senders, st, hfirst', hmap, hrun, rfl⟩ := endless_of_computeSendAts hn hout
  obtain rfl := Option.some.inj (hfirst.symm.trans hfirst')
  obtain ⟨⟨day, hin⟩, -, -⟩ := endlessWindow_spec hfirst
  rw [show max (latePace count (some cap)).senderCount 1 = count from max_eq_left hcount] at hmap
  have hinj := entryDate_injective hw hown hfirst
  have hbegin : LateLedger w (latePace count (some cap)) first (lateSeconds count * 1000000) cap
      count 0 { senders := senders } (List.replicate count 0) :=
    lateLedger_begin hw hin.before hcount hlast hmap
  have hgap : 1 ≤ lateSeconds count * 1000000 := by
    unfold lateSeconds
    omega
  have hgaps : ∀ s : SendCursor, s.t < s.closes → ∀ k,
      sendGap (latePace count (some cap)) (lateDraws count) s k = lateSeconds count * 1000000 := by
    intro s hs k
    refine if_neg ?_
    simp only [latePace, micros, Nat.cast_zero, zero_mul, sub_zero, not_le]
    exact hs
  have hstep : ∀ used st st',
      (∃ reached, LateLedger w (latePace count (some cap)) first (lateSeconds count * 1000000) cap
        count used st reached) →
      endlessRound w (latePace count (some cap)) (lateDraws count) st = some st' →
      ∃ reached, LateLedger w (latePace count (some cap)) first (lateSeconds count * 1000000) cap
        count (used + 1) st' reached := by
    rintro used st st' ⟨reached, h⟩ hround
    exact h.round hw hin.before hinj hlast hgap rfl hpos hmany hgaps hround
  obtain ⟨used, hle, ⟨reached, hst⟩, -⟩ := endlessRounds_keep hstep ⟨_, hbegin⟩ hrun
  rw [List.length_insertionSort] at hlong ⊢
  have hused := hst.le_used hw hin.before hinj hlast hpos hcount hlong
  omega

end late

end Mailman.Analysis
