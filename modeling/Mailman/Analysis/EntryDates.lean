import Mailman.Analysis.WindowLedger

/-!
# Windows that run past midnight

Every sender enters a later window at the same instant. Where there are as many senders as a date
takes, a sender that is moved off a window leaves the date full on which that window was entered,
the first window apart. So the windows that senders are moved off are hardly more than the full
dates, although each window shows two of them.
-/

set_option autoImplicit false

namespace Mailman.Analysis

open Mailman.Model Mailman.Interface

/-- A window that is found is the one of the local date it is entered on. -/
def EntersOwnDate (w : SendWindow) : Prop :=
  ∀ after s, endlessWindow w after = some s → s.closes = micros (w.closeAt (w.dateOf s.t))

/-- The instant at which the senders enter a window. -/
def entry (w : SendWindow) (first : SendCursor) (j : ℕ) : ℤ := (windowChain w first j).t

/-- The local date that it shows. -/
def entryDate (w : SendWindow) (first : SendCursor) (j : ℕ) : ℤ := w.dateOf (entry w first j)

/-- How many windows each sender may be moved off before `x` are scheduled at a cap. -/
def lateMoves (x cap : ℕ) : ℕ := if x ≤ cap then x / cap else 1 + (x - 1) / cap

variable {w : SendWindow} {p : Pace} {draws : Draws} {first : SendCursor} {start : ℤ}
  {count cap : ℕ} {st st' : Cursors}

/-- A full cap costs at least one move. -/
theorem div_le_lateMoves (x cap : ℕ) : x / cap ≤ lateMoves x cap := by
  unfold lateMoves
  split
  · exact le_rfl
  · next hpast =>
    rcases Nat.eq_zero_or_pos cap with rfl | hpos
    · simp
    · calc x / cap ≤ (x - 1 + cap) / cap := Nat.div_le_div_right (by omega)
        _ = 1 + (x - 1) / cap := by rw [Nat.add_div_right _ hpos, Nat.add_comm]

/-- More to schedule, more moves. -/
theorem lateMoves_mono {x y cap : ℕ} (h : x ≤ y) : lateMoves x cap ≤ lateMoves y cap := by
  unfold lateMoves
  have hdiv : x / cap ≤ y / cap := Nat.div_le_div_right h
  have hsub : (x - 1) / cap ≤ (y - 1) / cap := Nat.div_le_div_right (by omega)
  have hone : x ≤ cap → x / cap ≤ 1 := by
    intro hle
    exact Nat.div_le_of_le_mul (by omega)
  split_ifs with hx hy
  · exact hdiv
  · exact (hone hx).trans (Nat.le_add_right 1 _)
  · omega
  · omega

section rounds

/-- A cursor stands in a window of the chain, not before its entry. -/
structure AtWindow (w : SendWindow) (first : SendCursor) (s : SendCursor) (j : ℕ) : Prop where
  closes : s.closes = (windowChain w first j).closes
  after : entry w first j ≤ s.t
  before : s.t < s.closes

/-- Windows are entered one after the other. -/
theorem entry_lt (hw : WindowOpens w) (hfirst : first.t < first.closes) {i j : ℕ} (h : i < j) :
    entry w first i < entry w first j := chain_lt hw hfirst h

/-- Later entries are not earlier. -/
theorem entry_le (hw : WindowOpens w) (hfirst : first.t < first.closes) {i j : ℕ} (h : i ≤ j) :
    entry w first i ≤ entry w first j := by
  rcases h.lt_or_eq with hlt | rfl
  · exact (entry_lt hw hfirst hlt).le
  · exact le_rfl

/-- A window ends before the next is entered. -/
theorem closes_le_entry (hw : WindowOpens w) (j : ℕ) :
    (windowChain w first j).closes ≤ entry w first (j + 1) := by
  obtain ⟨-, hafter, -⟩ := endlessWindow_spec (endlessWindow_chain first hw j)
  exact hafter

/-- Where a cursor gets in one round. -/
theorem AtWindow.next (hw : WindowOpens w) (hfirst : first.t < first.closes) {s next : SendCursor}
    {j gap : ℕ} (h : AtWindow w first s j)
    (hnext : endlessWindow w s.closes = some next ∨
      (s.t + gap < s.closes ∧ next = { s with t := s.t + gap })) :
    s.t ≤ next.t ∧ next.t ≤ entry w first (j + 1) ∧
      ((next = windowChain w first (j + 1) ∧ AtWindow w first next (j + 1)) ∨
        (next = { s with t := s.t + gap } ∧ AtWindow w first next j)) := by
  have hends : (windowChain w first j).closes ≤ entry w first (j + 1) := closes_le_entry hw j
  have hbefore := h.before
  have hcloses := h.closes
  rcases hnext with hnext | ⟨hopen, rfl⟩
  · rw [hcloses, endlessWindow_chain first hw] at hnext
    obtain rfl := Option.some.inj hnext
    have hlate : s.t ≤ entry w first (j + 1) := by omega
    exact ⟨hlate, le_rfl, .inl ⟨rfl, rfl, le_rfl, chain_before hw hfirst (j + 1)⟩⟩
  · have hlater : s.t ≤ s.t + gap := le_add_of_nonneg_right (Int.natCast_nonneg _)
    refine ⟨hlater, ?_, .inr ⟨rfl, h.closes, h.after.trans hlater, hopen⟩⟩
    dsimp only
    omega

/-- Who passes the entry of a window in a round is at that entry. -/
theorem AtWindow.eq_entry (hw : WindowOpens w) (hfirst : first.t < first.closes) {s : SendCursor}
    {t : ℤ} {j k : ℕ} (h : AtWindow w first s j) (ht : t ≤ entry w first (j + 1))
    (hle : s.t ≤ entry w first k) (hgt : entry w first k < t) : s.t = entry w first k := by
  have hkj : k ≤ j := by
    by_contra hjk
    have hmono : entry w first (j + 1) ≤ entry w first k := entry_le hw hfirst (by omega)
    omega
  have hback : entry w first k ≤ entry w first j := entry_le hw hfirst hkj
  have hafter := h.after
  omega

end rounds

section gates

/-- As many times on a date as senders are past an instant, or the date is full. -/
def Gate (p : Pace) (date instant : ℤ) (st : Cursors) : Prop :=
  capped p (st.dayCounts date) = true ∨
    (st.senders.countP fun s => instant < s.t) ≤ st.dayCounts date

/-- A gate holds as long as senders pass the instant from the date. -/
theorem Gate.round {date instant : ℤ} {s next : SendCursor} (h : Gate p date instant st)
    (hround : RoundOf w p draws st st' s next)
    (hdate : s.t ≤ instant → instant < next.t → w.dateOf s.t = date) : Gate p date instant st' := by
  obtain ⟨hs, -, hset, hcase⟩ := hround
  obtain ⟨hlt, hat⟩ := List.getElem?_eq_some_iff.mp hs
  have hcount : (st'.senders.countP fun s => instant < s.t) ≤
      (st.senders.countP fun s => instant < s.t) +
        if s.t ≤ instant ∧ instant < next.t then 1 else 0 := by
    rw [hset, List.countP_set hlt, hat]
    have hpos : instant < s.t → 0 < st.senders.countP fun s => decide (instant < s.t) := by
      intro hbefore
      exact List.countP_pos_iff.mpr ⟨s, List.mem_of_getElem? hs, by simpa using hbefore⟩
    by_cases hbefore : instant < s.t
    · have hsome := hpos hbefore
      by_cases hnext : instant < next.t
      · simp only [hbefore, hnext, decide_true, if_true]
        omega
      · simp only [hbefore, hnext, decide_true, decide_false, if_true, Bool.false_eq_true, if_false]
        omega
    · by_cases hnext : instant < next.t
      · simp [hbefore, hnext, not_lt.mp hbefore]
      · simp [hbefore, hnext]
  rcases hcase with ⟨hfull, -, -, hcounts⟩ | ⟨hfree, -, -, hcounts⟩
  · rcases h with hcapped | hle
    · left
      rwa [hcounts]
    · by_cases hpasses : s.t ≤ instant ∧ instant < next.t
      · left
        rw [hcounts, ← hdate hpasses.1 hpasses.2]
        exact hfull
      · right
        rw [if_neg hpasses] at hcount
        rw [hcounts]
        omega
  · have hmono : st.dayCounts date ≤ st'.dayCounts date := by
      rw [hcounts]
      exact counts_mono _ _ _
    rcases h with hcapped | hle
    · exact .inl (capped_mono hcapped hmono)
    · right
      by_cases hpasses : s.t ≤ instant ∧ instant < next.t
      · rw [if_pos hpasses] at hcount
        rw [hcounts, hdate hpasses.1 hpasses.2, Function.update_self]
        omega
      · rw [if_neg hpasses] at hcount
        omega

/-- Once all senders are past the instant, the date is full. -/
theorem Gate.full {date instant : ℤ} (h : Gate p date instant st)
    (hcap : p.dailyCap = some cap) (hpos : 1 ≤ cap) (hmany : cap ≤ st.senders.length)
    (hpast : ∀ s ∈ st.senders, instant < s.t) : capped p (st.dayCounts date) = true := by
  rcases h with hcapped | hle
  · exact hcapped
  · have hall : (st.senders.countP fun s => instant < s.t) = st.senders.length :=
      List.countP_eq_length.mpr fun s hs => by simpa using hpast s hs
    rw [capped_iff hcap hpos]
    omega

end gates

section ledger

/-- What the loop keeps where no sender is before the entry of the first window. A pair `(i, j)` of
`moved` says that sender `i` was moved off a full date while it stood in window `j`. -/
structure EntryLedger (w : SendWindow) (p : Pace) (first : SendCursor) (count : ℕ) (st : Cursors)
    (moved : Finset (ℕ × ℕ)) : Prop where
  length : st.senders.length = count
  cursor : ∀ s ∈ st.senders, ∃ j, AtWindow w first s j
  gates : ∀ j, 1 ≤ j → Gate p (entryDate w first j) (entry w first j) st
  gone : ∀ i j, (i, j) ∈ moved →
    ∃ s, st.senders[i]? = some s ∧ (windowChain w first j).closes < s.closes
  full : ∀ i j, (i, j) ∈ moved → 1 ≤ j → capped p (st.dayCounts (entryDate w first j)) = true
  dated : moved.Nonempty → ∃ date, capped p (st.dayCounts date) = true
  begun : st.out = [] → ∃ s ∈ st.senders, s.t = first.t
  opening : st.out ≠ [] → 1 ≤ st.dayCounts (entryDate w first 0)
  counts : ∀ day, st.dayCounts day = (dates w st.out).count day

/-- Where the earliest sender is moved off a full date, the date is full as well on which it
entered its window. -/
theorem EntryLedger.entered_full (hcap : p.dailyCap = some cap) (hpos : 1 ≤ cap)
    (hmany : cap ≤ count) {moved : Finset (ℕ × ℕ)} (h : EntryLedger w p first count st moved)
    {s : SendCursor} {j : ℕ} (hat : AtWindow w first s j) (hmin : ∀ r ∈ st.senders, s.t ≤ r.t)
    (hfull : capped p (st.dayCounts (w.dateOf s.t)) = true) (hj : 1 ≤ j) :
    capped p (st.dayCounts (entryDate w first j)) = true := by
  rcases hat.after.lt_or_eq with hlt | heq
  · -- everyone is past the entry, and none was moved off at it
    apply (h.gates j hj).full hcap hpos (h.length ▸ hmany)
    exact fun r hr => hlt.trans_le (hmin r hr)
  · rw [entryDate, heq]
    exact hfull

/-- Where the earliest sender gets: to the next window at most. -/
theorem AtWindow.goes (hw : WindowOpens w) (hfirst : first.t < first.closes) {s next : SendCursor}
    {j : ℕ} (hat : AtWindow w first s j) (hround : RoundOf w p draws st st' s next) :
    s.t ≤ next.t ∧ next.t ≤ entry w first (j + 1) ∧ s.closes ≤ next.closes ∧
      ∃ k, AtWindow w first next k := by
  have hnext : endlessWindow w s.closes = some next ∨
      (s.t + sendGap p draws s st.out.length < s.closes ∧
        next = { s with t := s.t + sendGap p draws s st.out.length }) := by
    rcases hround.done with ⟨-, hnext, -⟩ | ⟨-, ⟨-, hnext⟩ | hstay, -⟩
    · exact .inl hnext
    · exact .inl hnext
    · exact .inr hstay
  obtain ⟨hlater, hends, hwhere⟩ := hat.next hw hfirst hnext
  refine ⟨hlater, hends, ?_⟩
  rcases hwhere with ⟨rfl, hnextAt⟩ | ⟨rfl, hnextAt⟩
  · rw [hat.closes]
    exact ⟨chain_closes hw (Nat.le_succ j), j + 1, hnextAt⟩
  · exact ⟨le_rfl, j, hnextAt⟩

/-- The ledger after a round, from what the round adds to it. -/
theorem EntryLedger.step (hw : WindowOpens w) (hfirst : first.t < first.closes)
    {moved moved' : Finset (ℕ × ℕ)} {s next : SendCursor}
    (h : EntryLedger w p first count st moved) (hround : RoundOf w p draws st st' s next)
    (hmono : ∀ day, st.dayCounts day ≤ st'.dayCounts day)
    (hnew : ∀ i k, (i, k) ∈ moved' → (i, k) ∈ moved ∨
      (i = earliest st.senders ∧ (windowChain w first k).closes < next.closes ∧
        (1 ≤ k → capped p (st'.dayCounts (entryDate w first k)) = true)))
    (hdated : moved'.Nonempty → ∃ date, capped p (st'.dayCounts date) = true)
    (hbegun : st'.out ≠ []) (hopening : 1 ≤ st'.dayCounts (entryDate w first 0))
    (hcounts : ∀ day, st'.dayCounts day = (dates w st'.out).count day) :
    EntryLedger w p first count st' moved' := by
  obtain ⟨hlt, -⟩ := List.getElem?_eq_some_iff.mp hround.found
  obtain ⟨j, hat⟩ := h.cursor s (List.mem_of_getElem? hround.found)
  obtain ⟨-, hends, hcloses, hnextAt⟩ := hat.goes hw hfirst hround
  refine ⟨?_, fun r hr => ?_, fun k hk => ?_, fun i k hik => ?_, fun i k hik hk => ?_, hdated,
    fun hnil => absurd hnil hbegun, fun _ => hopening, hcounts⟩
  · rw [hround.senders, List.length_set]
    exact h.length
  · rw [hround.senders] at hr
    rcases List.mem_or_eq_of_mem_set hr with hr | rfl
    · exact h.cursor r hr
    · exact hnextAt
  · refine (h.gates k hk).round hround fun hle hgt => ?_
    rw [hat.eq_entry hw hfirst hends hle hgt]
    rfl
  · rw [hround.senders]
    rcases hnew i k hik with hik | ⟨rfl, hlate, -⟩
    · exact left_set hround.found hcloses (h.gone i k hik)
    · exact ⟨next, List.getElem?_set_self hlt, hlate⟩
  · rcases hnew i k hik with hik | ⟨-, -, hfull⟩
    · exact capped_mono (h.full i k hik hk) (hmono _)
    · exact hfull hk

/-- A sender that is moved off a full date leaves its window for the first time. -/
theorem EntryLedger.moved_off (hw : WindowOpens w) (hfirst : first.t < first.closes)
    (hcap : p.dailyCap = some cap) (hpos : 1 ≤ cap) (hmany : cap ≤ count)
    {moved : Finset (ℕ × ℕ)} {s next : SendCursor} (h : EntryLedger w p first count st moved)
    (hround : RoundOf w p draws st st' s next)
    (hfull : capped p (st.dayCounts (w.dateOf s.t)) = true)
    (hnext : endlessWindow w s.closes = some next) (hout : st'.out = st.out)
    (hcounts : st'.dayCounts = st.dayCounts) :
    ∃ moved', EntryLedger w p first count st' moved' ∧ moved'.card = moved.card + 1 := by
  obtain ⟨j, hat⟩ := h.cursor s (List.mem_of_getElem? hround.found)
  obtain ⟨-, -, hlate⟩ := endlessWindow_spec hnext
  have hfresh : (earliest st.senders, j) ∉ moved := by
    intro hmem
    obtain ⟨r, hr, hpast⟩ := h.gone _ _ hmem
    obtain rfl := Option.some.inj (hround.found.symm.trans hr)
    rw [hat.closes] at hpast
    exact absurd hpast (lt_irrefl _)
  have hsent : st.out ≠ [] := by
    intro hnil
    rw [capped_iff hcap hpos, h.counts, hnil] at hfull
    simp [dates] at hfull
    omega
  refine ⟨insert (earliest st.senders, j) moved, h.step hw hfirst hround ?_ (fun i k hik => ?_) ?_
    (hout ▸ hsent) ?_ ?_, Finset.card_insert_of_notMem hfresh⟩
  · exact fun d => hcounts ▸ le_rfl
  · rcases Finset.mem_insert.mp hik with heq | hik
    · obtain ⟨rfl, rfl⟩ := Prod.mk.inj heq
      refine .inr ⟨rfl, hat.closes ▸ hlate, fun hk => ?_⟩
      rw [hcounts]
      exact h.entered_full hcap hpos hmany hat hround.least hfull hk
    · exact .inl hik
  · exact fun _ => ⟨_, by rw [hcounts]; exact hfull⟩
  · rw [hcounts]
    exact h.opening hsent
  · rw [hcounts, hout]
    exact h.counts

/-- A time that is given out: the first of all is the entry of the first window. -/
theorem EntryLedger.sent (hw : WindowOpens w) (hfirst : first.t < first.closes)
    {moved : Finset (ℕ × ℕ)} {s next : SendCursor} (h : EntryLedger w p first count st moved)
    (hround : RoundOf w p draws st st' s next) (hout : st'.out = secondOf s.t :: st.out)
    (hcounts : st'.dayCounts = Function.update st.dayCounts (w.dateOf s.t)
      (st.dayCounts (w.dateOf s.t) + 1)) : EntryLedger w p first count st' moved := by
  have hmono : ∀ day, st.dayCounts day ≤ st'.dayCounts day := by
    rw [hcounts]
    exact counts_mono _ _
  refine h.step hw hfirst hround hmono (fun i k hik => .inl hik) (fun hne => ?_) ?_ ?_ ?_
  · obtain ⟨date, hdate⟩ := h.dated hne
    exact ⟨date, capped_mono hdate (hmono date)⟩
  · rw [hout]
    exact List.cons_ne_nil _ _
  · by_cases hnil : st.out = []
    · obtain ⟨j, hat⟩ := h.cursor s (List.mem_of_getElem? hround.found)
      obtain ⟨r, hr, hrt⟩ := h.begun hnil
      have hle := hround.least r hr
      have hstart : entry w first 0 ≤ entry w first j := entry_le hw hfirst (Nat.zero_le j)
      have hafter := hat.after
      have hzero : entry w first 0 = first.t := rfl
      have ht : s.t = entry w first 0 := by omega
      rw [hcounts, ht, entryDate, Function.update_self]
      omega
    · exact (h.opening hnil).trans (hmono _)
  · rw [hcounts, hout]
    exact counts_cons h.counts s.t

/-- **One round** gives out a time or moves a sender off a window for the first time. -/
theorem EntryLedger.round (hw : WindowOpens w) (hfirst : first.t < first.closes)
    (hcap : p.dailyCap = some cap) (hpos : 1 ≤ cap) (hmany : cap ≤ count)
    {moved : Finset (ℕ × ℕ)} (h : EntryLedger w p first count st moved)
    (hround : endlessRound w p draws st = some st') :
    ∃ moved', EntryLedger w p first count st' moved' ∧
      moved'.card + st'.out.length = moved.card + st.out.length + 1 := by
  obtain ⟨s, next, hround⟩ := endlessRound_cases hround
  rcases hround.done with ⟨hfull, hnext, hout, hcounts⟩ | ⟨-, -, hout, hcounts⟩
  · obtain ⟨moved', hledger, hcard⟩ :=
      h.moved_off hw hfirst hcap hpos hmany hround hfull hnext hout hcounts
    refine ⟨moved', hledger, ?_⟩
    rw [hcard, hout]
    omega
  · refine ⟨moved, h.sent hw hfirst hround hout hcounts, ?_⟩
    rw [hout, List.length_cons]
    omega

/-- The rounds that the loop took are its times and its moves, and it took all that there are
unless everyone has a time. -/
theorem EntryLedger.rounds (hw : WindowOpens w) (hfirst : first.t < first.closes)
    (hcap : p.dailyCap = some cap) (hpos : 1 ≤ cap) (hmany : cap ≤ count) {n rounds : ℕ}
    {moved : Finset (ℕ × ℕ)} (h : EntryLedger w p first count st moved)
    (hrun : endlessRounds w p draws n rounds st = some st') :
    ∃ moved', EntryLedger w p first count st' moved' ∧
      (st'.out.length < n →
        moved'.card + st'.out.length = moved.card + st.out.length + rounds) := by
  let Kept : ℕ → Cursors → Prop := fun used st =>
    ∃ moved, EntryLedger w p first count st moved ∧ moved.card + st.out.length = used
  have hstep : ∀ used st st', Kept used st → endlessRound w p draws st = some st' →
      Kept (used + 1) st' := by
    rintro used st st' ⟨moved, h, hsum⟩ hround
    obtain ⟨moved', h', hone⟩ := h.round hw hfirst hcap hpos hmany hround
    exact ⟨moved', h', by rw [hone, hsum]⟩
  have hbegin : Kept (moved.card + st.out.length) st := ⟨moved, h, rfl⟩
  obtain ⟨used, -, ⟨moved', hst', hused⟩, hall⟩ := endlessRounds_keep hstep hbegin hrun
  exact ⟨moved', hst', fun hless => by rw [hused, hall hless]⟩

/-- The times of some dates are not more than all times. -/
theorem sum_count_le (l : List ℤ) (days : Finset ℤ) : ∑ d ∈ days, l.count d ≤ l.length := by
  calc ∑ d ∈ days, l.count d ≤ ∑ d ∈ days ∪ l.toFinset, l.count d :=
        Finset.sum_le_sum_of_subset Finset.subset_union_left
    _ = ∑ d ∈ l.toFinset, l.count d := by
        refine (Finset.sum_subset Finset.subset_union_right fun d _ hd => ?_).symm
        exact List.count_eq_zero.mpr fun hmem => hd (List.mem_toFinset.mpr hmem)
    _ = l.length := List.sum_toFinset_count_eq_length l

/-- Full dates that are not the first, and the first, are covered by the times. -/
theorem EntryLedger.full_dates_le (hcap : p.dailyCap = some cap) (hpos : 1 ≤ cap)
    {moved : Finset (ℕ × ℕ)} (h : EntryLedger w p first count st moved) {days : Finset ℤ}
    (hdays : ∀ d ∈ days, d ≠ entryDate w first 0 ∧ capped p (st.dayCounts d) = true) :
    days.card * cap + st.dayCounts (entryDate w first 0) ≤ st.out.length := by
  have hnot : entryDate w first 0 ∉ days := fun hmem => (hdays _ hmem).1 rfl
  have hsum := sum_count_le (dates w st.out) (insert (entryDate w first 0) days)
  have hfull : days.card * cap ≤ ∑ d ∈ days, (dates w st.out).count d := by
    refine Finset.card_nsmul_le_sum _ _ _ fun d hd => ?_
    rw [← h.counts]
    exact (capped_iff hcap hpos).mp (hdays d hd).2
  rw [Finset.sum_insert hnot, dates, List.length_map, ← dates, ← h.counts] at hsum
  omega

/-- Different windows of the chain are entered on different dates. -/
theorem entryDate_injective (hw : WindowOpens w) (hown : EntersOwnDate w)
    (hfirst : endlessWindow w start = some first) : Function.Injective (entryDate w first) := by
  have hcloses : ∀ j, (windowChain w first j).closes = micros (w.closeAt (entryDate w first j)) := by
    intro j
    cases j with
    | zero => exact hown _ _ hfirst
    | succ j => exact hown _ _ (endlessWindow_chain first hw j)
  have hstrict : StrictMono fun j => (windowChain w first j).closes := by
    refine strictMono_nat_of_lt_succ fun j => ?_
    obtain ⟨-, -, hafter⟩ := endlessWindow_spec (endlessWindow_chain first hw j)
    exact hafter
  intro i j hij
  apply hstrict.injective
  dsimp only
  rw [hcloses, hcloses, hij]

/-- **Each sender is moved off few windows.** -/
theorem EntryLedger.card_le (hw : WindowOpens w) (hown : EntersOwnDate w)
    (hfirst : endlessWindow w start = some first) (hcap : p.dailyCap = some cap) (hpos : 1 ≤ cap)
    {moved : Finset (ℕ × ℕ)} (h : EntryLedger w p first count st moved) :
    moved.card ≤ count * lateMoves st.out.length cap := by
  classical
  have hinj := entryDate_injective hw hown hfirst
  let left : Finset ℕ := moved.image Prod.snd
  let days : Finset ℤ := (left.erase 0).image (entryDate w first)
  have hsub : moved ⊆ Finset.range count ×ˢ left := by
    rintro ⟨i, j⟩ hmem
    obtain ⟨s, hs, -⟩ := h.gone i j hmem
    obtain ⟨hlt, -⟩ := List.getElem?_eq_some_iff.mp hs
    exact Finset.mem_product.mpr ⟨Finset.mem_range.mpr (h.length ▸ hlt),
      Finset.mem_image.mpr ⟨(i, j), hmem, rfl⟩⟩
  have hdays : ∀ d ∈ days, d ≠ entryDate w first 0 ∧ capped p (st.dayCounts d) = true := by
    intro d hd
    obtain ⟨j, hj, rfl⟩ := Finset.mem_image.mp hd
    obtain ⟨hne, hleft⟩ := Finset.mem_erase.mp hj
    obtain ⟨⟨i, j⟩, hmem, rfl⟩ := Finset.mem_image.mp hleft
    exact ⟨fun heq => hne (hinj heq), h.full i j hmem (Nat.pos_of_ne_zero hne)⟩
  have hcard : days.card = (left.erase 0).card := Finset.card_image_of_injective _ hinj
  have hleft : left.card ≤ lateMoves st.out.length cap := by
    have hall := h.full_dates_le hcap hpos hdays
    by_cases hzero : 0 ∈ left
    · obtain ⟨m, hm, -⟩ := Finset.mem_image.mp hzero
      obtain ⟨date, hdate⟩ := h.dated ⟨m, hm⟩
      rw [capped_iff hcap hpos] at hdate
      have hsent : st.out ≠ [] := by
        intro hnil
        rw [h.counts, hnil] at hdate
        simp [dates] at hdate
        omega
      have hopening := h.opening hsent
      have herase := Finset.card_erase_add_one hzero
      by_cases heq : date = entryDate w first 0
      · rw [heq] at hdate
        have hle : left.card ≤ st.out.length / cap := by
          rw [Nat.le_div_iff_mul_le (by omega), ← herase, ← hcard, Nat.add_mul]
          omega
        exact hle.trans (div_le_lateMoves _ _)
      · -- the first date is not full, and another one is
        have hfull : ∀ d ∈ insert date days, d ≠ entryDate w first 0 ∧
            capped p (st.dayCounts d) = true := by
          intro d hd
          rcases Finset.mem_insert.mp hd with rfl | hd
          · exact ⟨heq, (capped_iff hcap hpos).mpr hdate⟩
          · exact hdays d hd
        have hmore := h.full_dates_le hcap hpos hfull
        have hsome : 1 ≤ (insert date days).card :=
          Finset.card_pos.mpr (Finset.insert_nonempty date days)
        have hgrown : days.card ≤ (insert date days).card :=
          Finset.card_le_card (Finset.subset_insert date days)
        have hone : cap ≤ (insert date days).card * cap := Nat.le_mul_of_pos_left cap hsome
        have hdiv : (insert date days).card ≤ (st.out.length - 1) / cap := by
          rw [Nat.le_div_iff_mul_le (by omega)]
          omega
        rw [lateMoves, if_neg (by omega)]
        omega
    · rw [Finset.erase_eq_of_notMem hzero] at hcard
      have hle : left.card ≤ st.out.length / cap := by
        rw [Nat.le_div_iff_mul_le (by omega), ← hcard]
        omega
      exact hle.trans (div_le_lateMoves _ _)
  calc moved.card ≤ (Finset.range count ×ˢ left).card := Finset.card_le_card hsub
    _ = count * left.card := by rw [Finset.card_product, Finset.card_range]
    _ ≤ count * lateMoves st.out.length cap := Nat.mul_le_mul_left _ hleft

/-- Where a sender begins. -/
theorem atWindow_begin (hw : WindowOpens w) (hfirst : first.t < first.closes) {i : ℕ} {s : SendCursor}
    (h : endlessCursor w draws first i = some s) :
    (∃ j, AtWindow w first s j) ∧ s.t ≤ entry w first 1 := by
  have hends : first.closes ≤ entry w first 1 := closes_le_entry hw 0
  simp only [endlessCursor] at h
  split at h
  · have hnext : endlessWindow w first.closes = some (windowChain w first 1) :=
      endlessWindow_chain first hw 0
    obtain rfl := Option.some.inj (hnext.symm.trans h)
    exact ⟨⟨1, rfl, le_rfl, chain_before hw hfirst 1⟩, le_rfl⟩
  · next hopen =>
    obtain rfl := Option.some.inj h
    have hlater : first.t ≤ first.t + draws.stagger i :=
      le_add_of_nonneg_right (Int.natCast_nonneg _)
    refine ⟨⟨0, rfl, hlater, not_le.mp hopen⟩, ?_⟩
    dsimp only
    omega

/-- The senders before the first round. -/
theorem entryLedger_begin (hw : WindowOpens w) (hfirst : first.t < first.closes)
    (hzero : draws.stagger 0 = 0) (hcount : 0 < count) {senders : List SendCursor}
    (hmap : (List.range count).mapM (endlessCursor w draws first) = some senders) :
    EntryLedger w p first count { senders := senders } ∅ := by
  have hall := Mailman.Library.mapM_eq_some.mp hmap
  have hsenders : ∀ s ∈ senders, ∃ i, endlessCursor w draws first i = some s := by
    intro s hs
    obtain ⟨k, hk, rfl⟩ := List.getElem_of_mem hs
    have hlen := hall.length_eq
    exact ⟨_, hall.get (by omega) hk⟩
  refine ⟨?_, fun s hs => ?_, fun j hj => .inr ?_, by simp, by simp, by simp, fun _ => ?_, by simp,
    fun _ => rfl⟩
  · rw [← hall.length_eq, List.length_range]
  · obtain ⟨i, hi⟩ := hsenders s hs
    exact (atWindow_begin hw hfirst hi).1
  · rw [Nat.le_zero, List.countP_eq_zero]
    intro s hs
    obtain ⟨i, hi⟩ := hsenders s hs
    have hle := (atWindow_begin hw hfirst hi).2
    have hmono : entry w first 1 ≤ entry w first j := entry_le hw hfirst hj
    simp only [decide_eq_true_eq]
    omega
  · have hlen := hall.length_eq
    rw [List.length_range] at hlen
    have hget := hall.get (i := 0) (by rw [List.length_range]; exact hcount) (by omega)
    refine ⟨_, List.getElem_mem (show 0 < senders.length by omega), ?_⟩
    simp only [List.get_eq_getElem, List.getElem_range, endlessCursor, hzero, Nat.cast_zero, add_zero,
      if_neg (not_le.mpr hfirst)] at hget
    rw [← Option.some.inj hget]

end ledger

end Mailman.Analysis
