import Mathlib.Algebra.Order.Ring.Abs
import Mathlib.Data.Finset.Max
import Mathlib.Order.Monotone.Basic
import Mailman.Library.Checks
import Mailman.Model.SendSchedule

/-!
# The schedule on a calendar without an end

The same windows, rounds and cursors as `compute_send_ats`, over all integers: no `datetime` is
too early or too late. What the code answers is what this schedule comes to (`endlessRounds_of_ok`),
and it answers as long as the windows it may reach keep two days away from the first and the last
year (`computeSendAts_of_endless`).
-/

set_option autoImplicit false

namespace Mailman.Interface

open Mailman.Library Mailman.Model

/-- The search of `next_window`; `none` is its `RuntimeError`. -/
def endlessSearch (w : SendWindow) (after : ℤ) : ℕ → ℤ → Option SendCursor
  | 0, _ => none
  | days + 1, day =>
    let o := micros (w.openAt day)
    let c := micros (w.closeAt day)
    if after < c ∧ max o after < c then some ⟨o, c, max o after⟩
    else endlessSearch w after days (day + 1)

/-- `next_window`. -/
def endlessWindow (w : SendWindow) (after : ℤ) : Option SendCursor :=
  endlessSearch w after 400 (w.dateOf after)

/-- One round of the loop. -/
def endlessRound (w : SendWindow) (p : Pace) (draws : Draws) (st : Cursors) : Option Cursors :=
  let i := earliest st.senders
  match st.senders[i]? with
  | none => none
  | some s =>
    let day := w.dateOf s.t
    if capped p (st.dayCounts day) then
      (endlessWindow w s.closes).map fun next => { st with senders := st.senders.set i next }
    else
      let gap : ℕ := if s.closes - micros (p.rushTailMinutes * 60) ≤ s.t then
        draws.rush st.out.length else draws.uniform st.out.length
      let next := if s.closes ≤ s.t + gap then endlessWindow w s.closes
        else some { s with t := s.t + gap }
      next.map fun next =>
        { senders := st.senders.set i next
          out := secondOf s.t :: st.out
          dayCounts := Function.update st.dayCounts day (st.dayCounts day + 1) }

/-- The loop, with the rounds that the guard still allows. -/
def endlessRounds (w : SendWindow) (p : Pace) (draws : Draws) (n : ℕ) : ℕ → Cursors → Option Cursors
  | 0, st => some st
  | rounds + 1, st =>
    if st.out.length < n then
      (endlessRound w p draws st).bind (endlessRounds w p draws n rounds)
    else some st

/-- The cursor of sender `i`. -/
def endlessCursor (w : SendWindow) (draws : Draws) (first : SendCursor) (i : ℕ) :
    Option SendCursor :=
  let t := first.t + draws.stagger i
  if first.closes ≤ t then endlessWindow w first.closes else some { first with t := t }

/-- **What the loop keeps**, with the rounds that it took counted: they are all that the guard
allows, unless everyone has a time. -/
theorem endlessRounds_keep {w : SendWindow} {p : Pace} {draws : Draws} {n : ℕ}
    {Kept : ℕ → Cursors → Prop}
    (hstep : ∀ used st st', Kept used st → endlessRound w p draws st = some st' → Kept (used + 1) st')
    {rounds used : ℕ} {st st' : Cursors} (h : Kept used st)
    (hrun : endlessRounds w p draws n rounds st = some st') :
    ∃ used' ≤ used + rounds, Kept used' st' ∧ (st'.out.length < n → used' = used + rounds) := by
  induction rounds generalizing st used with
  | zero =>
    obtain rfl := Option.some.inj hrun
    exact ⟨used, le_rfl, h, fun _ => rfl⟩
  | succ rounds ih =>
    simp only [endlessRounds] at hrun
    split at hrun
    · obtain ⟨u, hround, hrest⟩ := Option.bind_eq_some_iff.mp hrun
      obtain ⟨used', hle, hst', hall⟩ := ih (hstep used st u h hround) hrest
      exact ⟨used', by omega, hst', fun hless => by rw [hall hless]; omega⟩
    · next hdone =>
      obtain rfl := Option.some.inj hrun
      exact ⟨used, Nat.le_add_right _ _, h, fun hless => absurd hless hdone⟩

/-! ## What the code answers -/

section answers

variable {w : SendWindow} {p : Pace} {draws : Draws} {n : ℕ} {after : ℤ} {s : SendCursor}

/-- A window that is given is that of the day. -/
theorem windowFor_eq_ok {day o c : ℤ} (h : w.windowFor day = .ok (o, c)) :
    o = micros (w.openAt day) ∧ c = micros (w.closeAt day) := by
  unfold SendWindow.windowFor at h
  split at h
  · cases h
  · split at h
    · cases h
      exact ⟨rfl, rfl⟩
    · cases h

/-- A search that answers answers so without a calendar. -/
theorem endlessSearch_of_ok {days : ℕ} {day : ℤ} (h : w.search after days day = .ok s) :
    endlessSearch w after days day = some s := by
  induction days generalizing day with
  | zero => cases h
  | succ days ih =>
    obtain ⟨⟨o, c⟩, hwindow, h⟩ := bind_eq_ok.mp h
    obtain ⟨rfl, rfl⟩ := windowFor_eq_ok hwindow
    simp only [endlessSearch]
    dsimp only at h
    split at h
    · next hfound => rw [if_pos hfound, Except.ok.inj h]
    · next hpast =>
      rw [if_neg hpast]
      split at h
      · exact ih h
      · cases h

/-- A window that the code finds is the endless schedule's. -/
theorem endlessWindow_of_ok (h : w.nextWindow after = .ok s) : endlessWindow w after = some s := by
  unfold SendWindow.nextWindow SendWindow.localDate at h
  split at h
  · exact endlessSearch_of_ok h
  · cases h

/-- A time of the calendar is itself. -/
theorem inCalendar_eq_ok {t u : ℤ} (h : inCalendar t = .ok u) : u = t := by
  unfold inCalendar at h
  split at h
  · exact (Except.ok.inj h).symm
  · cases h

/-- A local date that is answered is the date. -/
theorem localDate_eq_ok {t day : ℤ} (h : w.localDate t = .ok day) : day = w.dateOf t := by
  unfold SendWindow.localDate at h
  split at h
  · exact (Except.ok.inj h).symm
  · cases h

/-- A first cursor that is answered is so without a calendar. -/
theorem endlessCursor_of_ok {first : SendCursor} {i : ℕ}
    (h : firstCursor w draws first i = .ok s) : endlessCursor w draws first i = some s := by
  obtain ⟨t, ht, h⟩ := bind_eq_ok.mp h
  obtain rfl := inCalendar_eq_ok ht
  simp only [endlessCursor]
  split at h
  · next hlate =>
    rw [if_pos hlate]
    exact endlessWindow_of_ok h
  · next hopen => rw [if_neg hopen, Except.ok.inj h]

/-- One round that does not raise. -/
theorem endlessRound_of_ok {st st' : Cursors} (h : scheduleRound w p draws st = .ok st') :
    endlessRound w p draws st = some st' := by
  simp only [scheduleRound] at h
  simp only [endlessRound]
  cases hs : st.senders[earliest st.senders]? with
  | none =>
    rw [hs] at h
    cases h
  | some s =>
    rw [hs] at h
    dsimp only at h ⊢
    obtain ⟨day, hday, h⟩ := bind_eq_ok.mp h
    obtain rfl := localDate_eq_ok hday
    split at h
    · next hfull =>
      obtain ⟨next, hnext, h⟩ := bind_eq_ok.mp h
      rw [if_pos hfull, endlessWindow_of_ok hnext, Option.map_some]
      exact congrArg some (Except.ok.inj h)
    · next hfree =>
      rw [if_neg hfree]
      obtain ⟨rushStart, hrush, h⟩ := bind_eq_ok.mp h
      obtain rfl := inCalendar_eq_ok hrush
      generalize (if s.closes - micros (p.rushTailMinutes * 60) ≤ s.t then
        draws.rush st.out.length else draws.uniform st.out.length) = gap at h ⊢
      obtain ⟨t, ht, h⟩ := bind_eq_ok.mp h
      obtain rfl := inCalendar_eq_ok ht
      split at h
      · next hlate =>
        obtain ⟨next, hnext, h⟩ := bind_eq_ok.mp h
        rw [if_pos hlate, endlessWindow_of_ok hnext, Option.map_some]
        exact congrArg some (Except.ok.inj h)
      · next hopen =>
        rw [if_neg hopen, Option.map_some]
        exact congrArg some (Except.ok.inj h)

/-- The rounds of a loop that ends in an answer. -/
theorem endlessRounds_of_ok {rounds : ℕ} {st st' : Cursors}
    (h : scheduleRounds w p draws n rounds st = .ok st') :
    endlessRounds w p draws n rounds st = some st' := by
  induction rounds generalizing st with
  | zero => exact congrArg some (Except.ok.inj h)
  | succ rounds ih =>
    simp only [scheduleRounds] at h
    simp only [endlessRounds]
    split at h
    · next hmore =>
      obtain ⟨st₁, hround, h⟩ := bind_eq_ok.mp h
      rw [if_pos hmore, endlessRound_of_ok hround, Option.bind_some]
      exact ih h
    · next hdone =>
      rw [if_neg hdone]
      exact congrArg some (Except.ok.inj h)

/-- **An answer of `compute_send_ats`** is what the endless schedule comes to. -/
theorem endless_of_computeSendAts {start : ℤ} (hn : 0 < n) {out : List ℤ}
    (h : computeSendAts n start (some w.zone) w.startHour w.windowHours p draws = .ok out) :
    ∃ first senders st, endlessWindow w start = some first ∧
      (List.range (max p.senderCount 1)).mapM (endlessCursor w draws first) = some senders ∧
      endlessRounds w p draws n (n * 8 + 2000) { senders := senders } = some st ∧
      out = st.out.insertionSort (· ≤ ·) := by
  simp only [computeSendAts, if_neg (Nat.pos_iff_ne_zero.mp hn)] at h
  obtain ⟨first, hfirst, h⟩ := bind_eq_ok.mp h
  obtain ⟨senders, hmap, h⟩ := bind_eq_ok.mp h
  obtain ⟨st, hrun, h⟩ := bind_eq_ok.mp h
  refine ⟨first, senders, st, endlessWindow_of_ok hfirst, ?_, endlessRounds_of_ok hrun, ?_⟩
  · exact mapM_eq_some.mpr ((mapM_eq_ok.mp hmap).imp fun _ _ => endlessCursor_of_ok)
  · exact (Except.ok.inj h).symm

end answers

/-! ## Windows that open -/

/-- What the schedule relies on of the zone and the window: offsets are shorter than a day, and a
window that a clock change swallows is followed by one that it does not. -/
structure WindowOpens (w : SendWindow) : Prop where
  wall : ∀ t, |w.zone.wall t - t| < 86400
  utc : ∀ s, |w.zone.utc s - s| < 86400
  hours : 0 ≤ w.startHour ∧ 1 ≤ w.windowHours
  soon : ∀ day, ∃ k : ℕ, k < 300 ∧ w.openAt (day + k) < w.closeAt (day + k)

/-- A cursor stands in the window of `day`. -/
structure Within (w : SendWindow) (day : ℤ) (s : SendCursor) : Prop where
  opens : s.opens = micros (w.openAt day)
  closes : s.closes = micros (w.closeAt day)
  after : s.opens ≤ s.t
  before : s.t < s.closes

section windows

variable {w : SendWindow} {after : ℤ} {s : SendCursor}

/-- A search answers a window that opens from its day on and closes past the time. -/
theorem endlessSearch_spec {days : ℕ} {day : ℤ} (h : endlessSearch w after days day = some s) :
    (∃ d, day ≤ d ∧ Within w d s) ∧ s.t = max s.opens after ∧ after < s.closes := by
  induction days generalizing day with
  | zero => cases h
  | succ days ih =>
    simp only [endlessSearch] at h
    split at h
    · next hc =>
      obtain rfl := (Option.some.inj h).symm
      exact ⟨⟨day, le_rfl, rfl, rfl, le_max_left _ _, hc.2⟩, rfl, hc.1⟩
    · obtain ⟨⟨d, hle, hin⟩, hrest⟩ := ih h
      exact ⟨⟨d, by omega, hin⟩, hrest⟩

/-- A window that is found is still open after `after`. -/
theorem endlessWindow_spec (h : endlessWindow w after = some s) :
    (∃ d, Within w d s) ∧ after ≤ s.t ∧ after < s.closes := by
  obtain ⟨⟨d, -, hin⟩, ht, hafter⟩ := endlessSearch_spec h
  exact ⟨⟨d, hin⟩, by rw [ht]; exact le_max_right _ _, hafter⟩

/-- The search succeeds when one of the days it tries has what it looks for. -/
theorem endlessSearch_isSome {days : ℕ} {day : ℤ} {k : ℕ} (hk : k < days)
    (hafter : after < micros (w.closeAt (day + k)))
    (hopen : w.openAt (day + k) < w.closeAt (day + k)) :
    ∃ s, endlessSearch w after days day = some s := by
  induction days generalizing day k with
  | zero => exact absurd hk (Nat.not_lt_zero k)
  | succ days ih =>
    simp only [endlessSearch]
    split
    · exact ⟨_, rfl⟩
    · next hc =>
      cases k with
      | zero =>
        refine absurd ⟨?_, ?_⟩ hc
        · simpa using hafter
        · apply max_lt
          · simp only [micros, Nat.cast_zero, add_zero] at hopen ⊢
            omega
          · simpa using hafter
      | succ k =>
        have hday : day + 1 + k = day + (k + 1 : ℕ) := by omega
        refine ih (k := k) (by omega) ?_ ?_
        · rwa [hday]
        · rwa [hday]

/-- The search of `next_window` does not fail. -/
theorem endlessWindow_isSome (hw : WindowOpens w) (after : ℤ) :
    ∃ s, endlessWindow w after = some s := by
  obtain ⟨k, hk, hopen⟩ := hw.soon (w.dateOf after + 3)
  have hday : w.dateOf after + 3 + k = w.dateOf after + (k + 3 : ℕ) := by omega
  rw [hday] at hopen
  refine endlessSearch_isSome (k := k + 3) (by omega) ?_ hopen
  -- three days on, the window closes after any instant of the date
  have hwall := abs_lt.mp (hw.wall (secondOf after))
  have hutc := abs_lt.mp (hw.utc ((w.dateOf after + (k + 3 : ℕ)) * 86400 + w.startHour * 3600 +
    w.windowHours * 3600))
  obtain ⟨hstart, hlength⟩ := hw.hours
  have hdate : w.zone.wall (secondOf after) < (w.dateOf after + 1) * 86400 := by
    simp only [SendWindow.dateOf]
    omega
  simp only [SendWindow.closeAt, micros, secondOf] at *
  push_cast at *
  omega

/-- The windows after the first, each found from the end of the one before it. -/
def windowChain (w : SendWindow) (first : SendCursor) : ℕ → SendCursor
  | 0 => first
  | j + 1 => (endlessWindow w (windowChain w first j).closes).getD (windowChain w first j)

variable {first : SendCursor}

/-- Each window of the chain is the next one after the window before. -/
theorem endlessWindow_chain (first : SendCursor) (hw : WindowOpens w) (j : ℕ) :
    endlessWindow w (windowChain w first j).closes = some (windowChain w first (j + 1)) := by
  obtain ⟨s, hs⟩ := endlessWindow_isSome hw (windowChain w first j).closes
  rw [windowChain, hs, Option.getD_some]

/-- Each window of the chain opens before it closes. -/
theorem chain_before (hw : WindowOpens w) (hfirst : first.t < first.closes) (j : ℕ) :
    (windowChain w first j).t < (windowChain w first j).closes := by
  cases j with
  | zero => exact hfirst
  | succ j =>
    obtain ⟨⟨day, hin⟩, -, -⟩ := endlessWindow_spec (endlessWindow_chain first hw j)
    exact hin.before

/-- The windows of the chain go upward. -/
theorem chain_lt (hw : WindowOpens w) (hfirst : first.t < first.closes) {i j : ℕ} (h : i < j) :
    (windowChain w first i).t < (windowChain w first j).t := by
  have hnext : ∀ k, (windowChain w first k).t < (windowChain w first (k + 1)).t := by
    intro k
    obtain ⟨-, hafter, -⟩ := endlessWindow_spec (endlessWindow_chain first hw k)
    exact (chain_before hw hfirst k).trans_le hafter
  exact strictMono_nat_of_lt_succ (f := fun k => (windowChain w first k).t) hnext h

/-- Later windows close later. -/
theorem chain_closes (hw : WindowOpens w) {i j : ℕ} (h : i ≤ j) :
    (windowChain w first i).closes ≤ (windowChain w first j).closes := by
  apply monotone_nat_of_le_succ (f := fun k => (windowChain w first k).closes) ?_ h
  intro k
  obtain ⟨-, -, hafter⟩ := endlessWindow_spec (endlessWindow_chain first hw k)
  exact hafter.le

end windows

/-! ## Where the calendar has room -/

/-- The longest gap after a send, in seconds, and the longest way a sender starts behind. -/
def longestGap (p : Pace) : ℤ := max p.jitterMinS (max p.jitterMaxS (2 * p.rushJitterS))

/-- The rush before the start and the gaps behind a window of the chain keep three days away from
the first and the last year. -/
structure Roomy (w : SendWindow) (p : Pace) (first : SendCursor) (start : ℤ) (last : ℕ) : Prop where
  early : minSecond + 3 * 86400 ≤ secondOf start - p.rushTailMinutes * 60
  late : secondOf (windowChain w first last).closes + longestGap p + 3 * 86400 ≤ maxSecond

/-- The calendar has room for the windows that a schedule of `n` can reach where at most `m` windows
show one local date: one for each time, `m` for each full date, and the last. -/
def FitsCalendar (n m : ℕ) (w : SendWindow) (p : Pace) (start : ℤ) : Prop :=
  ∀ first, endlessWindow w start = some first → Roomy w p first start (n + m * (n - 1) + 1)

section room

variable {w : SendWindow} {p : Pace} {draws : Draws} {n : ℕ} {after start : ℤ}
  {s first : SendCursor}

/-- The second of a whole second. -/
theorem secondOf_micros (x : ℤ) : secondOf (micros x) = x := by
  simp only [secondOf, micros]
  omega

/-- Later times have later seconds. -/
theorem secondOf_mono {a b : ℤ} (h : a ≤ b) : secondOf a ≤ secondOf b := by
  simp only [secondOf]
  omega

/-- The windows of a day and of those before it. -/
theorem windowFor_of_room (hw : WindowOpens w) (hhour : w.startHour ≤ 23) {day last : ℤ}
    (hday : day ≤ last) (hearly : minSecond + 86400 ≤ day * 86400)
    (hlate : w.closeAt last + 2 * 86400 ≤ maxSecond) :
    w.windowFor day = .ok (micros (w.openAt day), micros (w.closeAt day)) := by
  obtain ⟨hstart, hlength⟩ := hw.hours
  have hopen := abs_lt.mp (hw.utc (day * 86400 + w.startHour * 3600))
  have hclose := abs_lt.mp (hw.utc (day * 86400 + w.startHour * 3600 + w.windowHours * 3600))
  have hend := abs_lt.mp (hw.utc (last * 86400 + w.startHour * 3600 + w.windowHours * 3600))
  simp only [SendWindow.closeAt] at hlate
  have hgood : InCalendar (day * 86400 + w.startHour * 3600 + w.windowHours * 3600) ∧
      InCalendar (w.openAt day) ∧ InCalendar (w.closeAt day) := by
    simp only [InCalendar, SendWindow.openAt, SendWindow.closeAt]
    omega
  unfold SendWindow.windowFor
  rw [if_neg (by omega), if_pos hgood]

/-- A search answers as without a calendar where the calendar has room. -/
theorem search_of_endless (hw : WindowOpens w) (hhour : w.startHour ≤ 23) {days : ℕ} {day : ℤ}
    (hearly : minSecond + 86400 ≤ day * 86400) (h : endlessSearch w after days day = some s)
    (hlate : secondOf s.closes + 2 * 86400 ≤ maxSecond) : w.search after days day = .ok s := by
  induction days generalizing day with
  | zero => cases h
  | succ days ih =>
    obtain ⟨⟨last, hday, hin⟩, -, -⟩ := endlessSearch_spec h
    have hend : w.closeAt last + 2 * 86400 ≤ maxSecond := by
      rwa [hin.closes, secondOf_micros] at hlate
    unfold SendWindow.search
    rw [windowFor_of_room hw hhour hday hearly hend]
    simp only [bind, Except.bind]
    simp only [endlessSearch] at h
    split at h
    · next hfound => rw [if_pos hfound, Option.some.inj h]
    · next hfound =>
      obtain ⟨⟨later, hlater, hin'⟩, -, -⟩ := endlessSearch_spec h
      have hend' : w.closeAt later + 2 * 86400 ≤ maxSecond := by
        rwa [hin'.closes, secondOf_micros] at hlate
      have hutc := abs_lt.mp (hw.utc (later * 86400 + w.startHour * 3600 + w.windowHours * 3600))
      obtain ⟨hstart, hlength⟩ := hw.hours
      have hnext : InCalendar ((day + 1) * 86400) := by
        simp only [InCalendar, SendWindow.closeAt] at hend' ⊢
        omega
      rw [if_neg hfound, if_pos hnext]
      exact ih (by omega) h

/-- The date of a time with a day of room on both sides. -/
theorem localDate_of_room (hw : WindowOpens w) {t : ℤ} (hearly : minSecond + 86400 ≤ secondOf t)
    (hlate : secondOf t + 86400 ≤ maxSecond) : w.localDate t = .ok (w.dateOf t) := by
  have hwall := abs_lt.mp (hw.wall (secondOf t))
  apply if_pos
  simp only [InCalendar]
  omega

/-- The next window is as without a calendar where the calendar has room. -/
theorem nextWindow_of_endless (hw : WindowOpens w) (hhour : w.startHour ≤ 23)
    (hearly : minSecond + 3 * 86400 ≤ secondOf after) (h : endlessWindow w after = some s)
    (hlate : secondOf s.closes + 2 * 86400 ≤ maxSecond) : w.nextWindow after = .ok s := by
  obtain ⟨-, -, hafter⟩ := endlessWindow_spec h
  have hle := secondOf_mono hafter.le
  unfold SendWindow.nextWindow
  rw [localDate_of_room hw (by omega) (by omega)]
  apply search_of_endless hw hhour ?_ h hlate
  have hwall := abs_lt.mp (hw.wall (secondOf after))
  simp only [SendWindow.dateOf]
  omega

/-- A time inside the calendar is answered. -/
theorem inCalendar_of_room {t : ℤ} (h : InCalendar (secondOf t)) : inCalendar t = .ok t := if_pos h

/-- No cursor is in the last window yet. -/
def WithinReach (w : SendWindow) (first : SendCursor) (start : ℤ) (last : ℕ)
    (senders : List SendCursor) : Prop :=
  ∀ s ∈ senders, start ≤ s.t ∧ s.t < s.closes ∧
    ∃ j < last, s.closes = (windowChain w first j).closes

/-- A cursor that may be moved on, and where its gaps lead. -/
theorem cursor_of_room (hw : WindowOpens w) (hhour : w.startHour ≤ 23) {last j : ℕ}
    (hroom : Roomy w p first start last) (hj : j < last) (hstart : start ≤ s.t)
    (hbefore : s.t < s.closes) (hcloses : s.closes = (windowChain w first j).closes) :
    w.localDate s.t = .ok (w.dateOf s.t) ∧
      w.nextWindow s.closes = .ok (windowChain w first (j + 1)) ∧
      inCalendar (s.closes - micros (p.rushTailMinutes * 60)) =
        .ok (s.closes - micros (p.rushTailMinutes * 60)) ∧
      ∀ gap : ℕ, (gap : ℤ) ≤ longestGap p * 1000000 → inCalendar (s.t + gap) = .ok (s.t + gap) := by
  have hnext := endlessWindow_chain first hw j
  rw [← hcloses] at hnext
  obtain ⟨-, -, hafter⟩ := endlessWindow_spec hnext
  have hchain : (windowChain w first (j + 1)).closes ≤ (windowChain w first last).closes :=
    chain_closes hw hj
  obtain ⟨hearly, hlate⟩ := hroom
  have hgap : 0 ≤ longestGap p := (Int.natCast_nonneg _).trans (le_max_left _ _)
  have htail : (0 : ℤ) ≤ p.rushTailMinutes := Int.natCast_nonneg _
  have hfirst := secondOf_mono hstart
  have hcursor := secondOf_mono hbefore.le
  have hthis := secondOf_mono hafter.le
  have hlast := secondOf_mono hchain
  refine ⟨localDate_of_room hw (by omega) (by omega), ?_, ?_, fun gap hle => ?_⟩
  · exact nextWindow_of_endless hw hhour (by omega) hnext (by omega)
  · apply inCalendar_of_room
    simp only [InCalendar, secondOf, micros] at *
    omega
  · apply inCalendar_of_room
    simp only [InCalendar, secondOf] at *
    omega

/-- The gaps of draws in range. -/
theorem draws_le (hdraws : draws.InRange p) (k : ℕ) :
    (draws.stagger k : ℤ) ≤ longestGap p * 1000000 ∧
      (draws.uniform k : ℤ) ≤ longestGap p * 1000000 ∧
      (draws.rush k : ℤ) ≤ longestGap p * 1000000 := by
  have hstagger := hdraws.stagger k
  have huniform := (hdraws.uniform k).2
  have hrush := (hdraws.rush k).2
  unfold longestGap
  omega

/-- The cursor of a sender. -/
theorem firstCursor_of_endless (hw : WindowOpens w) (hhour : w.startHour ≤ 23)
    (hdraws : draws.InRange p) {last : ℕ} (hroom : Roomy w p first start last) (hlast : 1 ≤ last)
    (hfirst : endlessWindow w start = some first) {i : ℕ}
    (h : endlessCursor w draws first i = some s) : firstCursor w draws first i = .ok s := by
  obtain ⟨⟨day, hin⟩, hstart, -⟩ := endlessWindow_spec hfirst
  obtain ⟨-, hnext, -, hgap⟩ := cursor_of_room hw hhour hroom (show 0 < last by omega) hstart
    hin.before rfl
  have hstep : firstCursor w draws first i =
      if first.closes ≤ first.t + draws.stagger i then w.nextWindow first.closes
      else .ok { first with t := first.t + draws.stagger i } := by
    unfold firstCursor
    rw [hgap _ (draws_le hdraws i).1]
    rfl
  rw [hstep]
  simp only [endlessCursor] at h
  split at h
  · next hlate =>
    have hsecond : endlessWindow w first.closes = some (windowChain w first 1) :=
      endlessWindow_chain first hw 0
    rw [if_pos hlate, hnext]
    rw [hsecond] at h
    rw [Option.some.inj h]
  · next hopen =>
    rw [if_neg hopen]
    exact congrArg Except.ok (Option.some.inj h)

/-- **One round** of the code is the endless one where the calendar has room. -/
theorem scheduleRound_of_endless (hw : WindowOpens w) (hhour : w.startHour ≤ 23)
    (hdraws : draws.InRange p) {last : ℕ} (hroom : Roomy w p first start last) {st st' : Cursors}
    (hst : WithinReach w first start last st.senders) (h : endlessRound w p draws st = some st') :
    scheduleRound w p draws st = .ok st' := by
  simp only [endlessRound] at h
  simp only [scheduleRound]
  cases hs : st.senders[earliest st.senders]? with
  | none =>
    rw [hs] at h
    cases h
  | some s =>
    rw [hs] at h
    obtain ⟨hstart, hbefore, j, hj, hcloses⟩ := hst s (List.mem_of_getElem? hs)
    obtain ⟨hdate, hnext, hrush, hgap⟩ := cursor_of_room hw hhour hroom hj hstart hbefore hcloses
    have hchain : endlessWindow w s.closes = some (windowChain w first (j + 1)) := by
      rw [hcloses]
      exact endlessWindow_chain first hw j
    dsimp only at h ⊢
    rw [hdate]
    simp only [bind, Except.bind]
    split at h
    · next hfull =>
      rw [if_pos hfull, hnext]
      rw [hchain, Option.map_some] at h
      exact congrArg Except.ok (Option.some.inj h)
    · next hfree =>
      rw [if_neg hfree, hrush]
      dsimp only
      have hle : ∀ gap : ℕ, gap = (if s.closes - micros (p.rushTailMinutes * 60) ≤ s.t then
          draws.rush st.out.length else draws.uniform st.out.length) →
          (gap : ℤ) ≤ longestGap p * 1000000 := by
        rintro gap rfl
        split
        · exact (draws_le hdraws _).2.2
        · exact (draws_le hdraws _).2.1
      generalize (if s.closes - micros (p.rushTailMinutes * 60) ≤ s.t then
        draws.rush st.out.length else draws.uniform st.out.length) = gap at h hle ⊢
      rw [hgap gap (hle gap rfl)]
      dsimp only
      split at h
      · next hlate =>
        rw [if_pos hlate, hnext]
        rw [hchain, Option.map_some] at h
        exact congrArg Except.ok (Option.some.inj h)
      · next hopen =>
        rw [if_neg hopen]
        exact congrArg Except.ok (Option.some.inj h)

/-- The loop of the code is the endless one as long as no cursor is in the last window. -/
theorem scheduleRounds_of_endless (hw : WindowOpens w) (hhour : w.startHour ≤ 23)
    (hdraws : draws.InRange p) {last rounds : ℕ} (hroom : Roomy w p first start last)
    {Kept : Cursors → Prop} (hreached : ∀ st, Kept st → st.out.length < n →
      WithinReach w first start last st.senders)
    (hkept : ∀ st st', Kept st → st.out.length < n → endlessRound w p draws st = some st' → Kept st')
    {st st' : Cursors} (hst : Kept st) (h : endlessRounds w p draws n rounds st = some st') :
    scheduleRounds w p draws n rounds st = .ok st' := by
  induction rounds generalizing st with
  | zero => exact congrArg Except.ok (Option.some.inj h)
  | succ rounds ih =>
    simp only [endlessRounds] at h
    simp only [scheduleRounds]
    split at h
    · next hmore =>
      rw [if_pos hmore]
      obtain ⟨st₁, hround, hrest⟩ := Option.bind_eq_some_iff.mp h
      rw [scheduleRound_of_endless hw hhour hdraws hroom (hreached st hst hmore) hround]
      exact ih (hkept st st₁ hst hmore hround) hrest
    · next hdone =>
      rw [if_neg hdone]
      exact congrArg Except.ok (Option.some.inj h)

/-- **Where the calendar has room**, `compute_send_ats` answers what the endless schedule comes
to. -/
theorem computeSendAts_of_endless (hw : WindowOpens w) (hhour : w.startHour ≤ 23) (hn : 0 < n)
    (hdraws : draws.InRange p) {last : ℕ} (hroom : Roomy w p first start last) (hlast : 1 ≤ last)
    {Kept : Cursors → Prop} (hreached : ∀ st, Kept st → st.out.length < n →
      WithinReach w first start last st.senders)
    (hkept : ∀ st st', Kept st → st.out.length < n → endlessRound w p draws st = some st' → Kept st')
    {senders : List SendCursor} {st : Cursors} (hfirst : endlessWindow w start = some first)
    (hmap : (List.range (max p.senderCount 1)).mapM (endlessCursor w draws first) = some senders)
    (hbegin : Kept { senders := senders })
    (hrun : endlessRounds w p draws n (n * 8 + 2000) { senders := senders } = some st) :
    computeSendAts n start (some w.zone) w.startHour w.windowHours p draws =
      .ok (st.out.insertionSort (· ≤ ·)) := by
  have hmapped := mapM_eq_ok.mpr ((mapM_eq_some.mp hmap).imp fun i s h =>
    firstCursor_of_endless hw hhour hdraws hroom hlast hfirst h)
  have hrounds := scheduleRounds_of_endless hw hhour hdraws hroom hreached hkept hbegin hrun
  have hnext : w.nextWindow start = .ok first := by
    have htail : (0 : ℤ) ≤ p.rushTailMinutes := Int.natCast_nonneg _
    have hgap : 0 ≤ longestGap p := (Int.natCast_nonneg _).trans (le_max_left _ _)
    have hfar : secondOf first.closes ≤ secondOf (windowChain w first last).closes :=
      secondOf_mono (chain_closes hw (Nat.zero_le last))
    obtain ⟨hearly, hlate⟩ := hroom
    exact nextWindow_of_endless hw hhour (by omega) hfirst (by omega)
  simp only [computeSendAts, if_neg (Nat.pos_iff_ne_zero.mp hn)]
  rw [show SendWindow.nextWindow ⟨w.zone, w.startHour, w.windowHours⟩ start = _ from hnext]
  simp only [bind, Except.bind]
  rw [show List.mapM (firstCursor ⟨w.zone, w.startHour, w.windowHours⟩ draws first) _ = _
    from hmapped]
  dsimp only
  rw [show scheduleRounds ⟨w.zone, w.startHour, w.windowHours⟩ p draws n _ _ = _ from hrounds]
  rfl

end room

/-! ## What it raises -/

section raises

variable {w : SendWindow} {p : Pace} {draws : Draws} {n : ℕ} {e : ScheduleError}

/-- The cursor the loop takes. -/
theorem earliest_spec {senders : List SendCursor} (h : senders ≠ []) :
    ∃ s, senders[earliest senders]? = some s ∧ ∀ r ∈ senders, s.t ≤ r.t := by
  obtain ⟨s, hs, hmin⟩ :=
    senders.toFinset.exists_min_image (·.t) (List.toFinset_nonempty_iff _ |>.mpr h)
  simp only [List.mem_toFinset] at hs hmin
  have hex : ∃ x ∈ senders, (senders.all fun r => x.t ≤ r.t) = true :=
    ⟨s, hs, by simpa using hmin⟩
  have hlt := List.findIdx_lt_length_of_exists hex
  have hprop := List.findIdx_getElem (w := hlt)
  refine ⟨_, List.getElem?_eq_getElem hlt, ?_⟩
  simpa using hprop

/-- A round neither adds nor drops a sender. -/
theorem endlessRound_length {st st' : Cursors} (h : endlessRound w p draws st = some st') :
    st'.senders.length = st.senders.length := by
  simp only [endlessRound] at h
  split at h
  · cases h
  · split at h
    · obtain ⟨next, -, rfl⟩ := Option.map_eq_some_iff.mp h
      exact List.length_set ..
    · obtain ⟨next, -, rfl⟩ := Option.map_eq_some_iff.mp h
      exact List.length_set ..

/-- The search of a window that opens ends early only where the calendar does. -/
theorem search_error (hhour : 0 ≤ w.startHour ∧ w.startHour ≤ 23) {after : ℤ} {days : ℕ} {day : ℤ}
    (h : w.search after days day = .error e) :
    e = .overflow ∨ endlessSearch w after days day = none := by
  induction days generalizing day with
  | zero => exact .inr rfl
  | succ days ih =>
    simp only [SendWindow.search, SendWindow.windowFor] at h
    rw [if_neg (by omega)] at h
    simp only [endlessSearch]
    split at h
    · simp only [bind, Except.bind] at h
      split at h
      · cases h
      · next hpast =>
        rw [if_neg hpast]
        split at h
        · exact ih h
        · exact .inl (Except.error.inj h).symm
    · exact .inl (Except.error.inj h).symm

/-- A next window fails by an overflow alone. -/
theorem nextWindow_error (hw : WindowOpens w) (hhour : w.startHour ≤ 23) {after : ℤ}
    (h : w.nextWindow after = .error e) : e = .overflow := by
  unfold SendWindow.nextWindow SendWindow.localDate at h
  split at h
  · obtain ⟨s, hs⟩ := endlessWindow_isSome hw after
    rcases search_error ⟨hw.hours.1, hhour⟩ h with he | hnone
    · exact he
    · cases hs.symm.trans hnone
  · exact (Except.error.inj h).symm

/-- The calendar fails by an overflow alone. -/
theorem inCalendar_error {t : ℤ} (h : inCalendar t = .error e) : e = .overflow := by
  unfold inCalendar at h
  split at h
  · cases h
  · exact (Except.error.inj h).symm

/-- A local date fails by an overflow alone. -/
theorem localDate_error {t : ℤ} (h : w.localDate t = .error e) : e = .overflow := by
  unfold SendWindow.localDate at h
  split at h
  · cases h
  · exact (Except.error.inj h).symm

/-- A first cursor fails by an overflow alone. -/
theorem firstCursor_error (hw : WindowOpens w) (hhour : w.startHour ≤ 23) {first : SendCursor}
    {i : ℕ} (h : firstCursor w draws first i = .error e) : e = .overflow := by
  rcases bind_eq_error.mp h with h | ⟨t, -, h⟩
  · exact inCalendar_error h
  · split at h
    · exact nextWindow_error hw hhour h
    · cases h

/-- A round fails by an overflow alone. -/
theorem scheduleRound_error (hw : WindowOpens w) (hhour : w.startHour ≤ 23) {st : Cursors}
    (hne : st.senders ≠ []) (h : scheduleRound w p draws st = .error e) : e = .overflow := by
  obtain ⟨s, hs, -⟩ := earliest_spec hne
  simp only [scheduleRound, hs] at h
  rcases bind_eq_error.mp h with h | ⟨day, -, h⟩
  · exact localDate_error h
  split at h
  · rcases bind_eq_error.mp h with h | ⟨next, -, h⟩
    · exact nextWindow_error hw hhour h
    · cases h
  · rcases bind_eq_error.mp h with h | ⟨rushStart, -, h⟩
    · exact inCalendar_error h
    rcases bind_eq_error.mp h with h | ⟨t, -, h⟩
    · exact inCalendar_error h
    split at h
    · rcases bind_eq_error.mp h with h | ⟨next, -, h⟩
      · exact nextWindow_error hw hhour h
      · cases h
    · cases h

/-- Rounds fail by an overflow alone. -/
theorem scheduleRounds_error (hw : WindowOpens w) (hhour : w.startHour ≤ 23) {rounds : ℕ}
    {st : Cursors} (hne : st.senders ≠ [])
    (h : scheduleRounds w p draws n rounds st = .error e) : e = .overflow := by
  induction rounds generalizing st with
  | zero => cases h
  | succ rounds ih =>
    simp only [scheduleRounds] at h
    split at h
    · rcases bind_eq_error.mp h with h | ⟨st', hround, h⟩
      · exact scheduleRound_error hw hhour hne h
      · have hlength := endlessRound_length (endlessRound_of_ok hround)
        refine ih ?_ h
        rw [← List.length_pos_iff, hlength, List.length_pos_iff]
        exact hne
    · cases h

/-- **On a window that opens**, `compute_send_ats` raises nothing but datetime's own error. -/
theorem computeSendAts_error (hw : WindowOpens w) (hhour : w.startHour ≤ 23) {start : ℤ}
    (h : computeSendAts n start (some w.zone) w.startHour w.windowHours p draws = .error e) :
    e = .overflow := by
  unfold computeSendAts at h
  split at h
  · cases h
  rcases bind_eq_error.mp h with h | ⟨first, -, h⟩
  · exact nextWindow_error hw hhour h
  rcases bind_eq_error.mp h with h | ⟨senders, hmap, h⟩
  · obtain ⟨i, -, hcursor⟩ := error_of_mapM h
    exact firstCursor_error hw hhour hcursor
  rcases bind_eq_error.mp h with h | ⟨st, -, h⟩
  · refine scheduleRounds_error hw hhour ?_ h
    have hlength := (mapM_eq_ok.mp hmap).length_eq
    rintro rfl
    rw [List.length_nil, List.length_range] at hlength
    omega
  · cases h

end raises

end Mailman.Interface
