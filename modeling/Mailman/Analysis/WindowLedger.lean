import Mathlib.Algebra.BigOperators.Group.Finset.Basic
import Mathlib.Algebra.Order.BigOperators.Group.Finset
import Mathlib.Data.Finset.Max
import Mathlib.Order.Interval.Finset.Nat
import Mathlib.Tactic.Ring
import Mailman.Interface.EndlessSchedule

/-!
# The ledger of a schedule

A round of the loop of `compute_send_ats` gives out one time, or it moves one sender off a local
date that is full. The ledger counts the times of each date and the moves of each sender, and it
bounds both by what the guard allows.
-/

set_option autoImplicit false

namespace Mailman.Analysis

open Mailman.Model Mailman.Interface

/-- The windows that show one local date are at most `m`. -/
def SharesDates (w : SendWindow) (m : ℕ) : Prop :=
  ∀ date, ∃ days : Finset ℤ, days.card ≤ m ∧ ∀ day t, micros (w.openAt day) ≤ t →
    t < micros (w.closeAt day) → w.dateOf t = date → day ∈ days

variable {w : SendWindow} {p : Pace} {draws : Draws} {first : SendCursor} {start : ℤ} {count : ℕ}

/-- The local date of a point in time is that of its whole second. -/
theorem dateOf_secondOf (t : ℤ) : w.dateOf (micros (secondOf t)) = w.dateOf t := by
  rw [SendWindow.dateOf, secondOf_micros, SendWindow.dateOf]

/-- The local dates of the times so far. -/
def dates (w : SendWindow) (out : List ℤ) : List ℤ := out.map fun x => w.dateOf (micros x)

/-- What the loop keeps. A pair `(i, day)` of `moved` says that sender `i` was moved off a full
local date while it stood in the window of `day`. -/
structure WindowLedger (w : SendWindow) (p : Pace) (first : SendCursor) (start : ℤ) (count : ℕ)
    (st : Cursors) (moved : Finset (ℕ × ℤ)) : Prop where
  length : st.senders.length = count
  cursor : ∀ (i : ℕ) s, st.senders[i]? = some s → (∃ day, Within w day s) ∧ start ≤ s.t
  index : ∀ (i : ℕ) s, st.senders[i]? = some s →
    ∃ j ≤ st.out.length + (moved.filter fun m => m.1 = i).card + 1,
      s.closes = (windowChain w first j).closes
  counts : ∀ day, st.dayCounts day = (dates w st.out).count day
  cap : ∀ cap, p.dailyCap = some cap → 1 ≤ cap → ∀ day, st.dayCounts day ≤ cap
  times : ∀ x ∈ st.out, secondOf start ≤ x ∧ ∃ day, w.openAt day ≤ x ∧ x < w.closeAt day
  gone : ∀ i day, (i, day) ∈ moved →
    ∃ s, st.senders[i]? = some s ∧ micros (w.closeAt day) < s.closes
  full : ∀ i day, (i, day) ∈ moved → ∃ t, micros (w.openAt day) ≤ t ∧
    t < micros (w.closeAt day) ∧ capped p (st.dayCounts (w.dateOf t)) = true

/-- A full date stays full. -/
theorem capped_mono {k k' : ℕ} (h : capped p k = true) (hk : k ≤ k') : capped p k' = true := by
  unfold capped at h ⊢
  cases hcap : p.dailyCap with
  | none => simp [hcap] at h
  | some cap =>
    simp only [hcap, Option.any_some, Bool.and_eq_true, decide_eq_true_eq] at h ⊢
    exact ⟨h.1, h.2.trans hk⟩

/-- A date is full at the cap. -/
theorem capped_iff {cap k : ℕ} (hcap : p.dailyCap = some cap) (hpos : 1 ≤ cap) :
    capped p k = true ↔ cap ≤ k := by
  have hne : cap ≠ 0 := by omega
  simp [capped, hcap, hne]

/-- The other senders stay as they are. -/
theorem getElem?_set_cases {senders : List SendCursor} {next r : SendCursor} {i k : ℕ}
    (h : (senders.set i next)[k]? = some r) :
    (k = i ∧ r = next) ∨ (k ≠ i ∧ senders[k]? = some r) := by
  by_cases hki : k = i
  · subst hki
    left
    obtain ⟨hlt, heq⟩ := List.getElem?_eq_some_iff.mp h
    rw [List.getElem_set_self] at heq
    exact ⟨rfl, heq.symm⟩
  · right
    rw [List.getElem?_set_ne (Ne.symm hki)] at h
    exact ⟨hki, h⟩

/-- A sender that moves on has still left what it had left before. -/
theorem left_set {senders : List SendCursor} {s next : SendCursor} {i k : ℕ} {t : ℤ}
    (hs : senders[i]? = some s) (hle : s.closes ≤ next.closes)
    (h : ∃ r, senders[k]? = some r ∧ t < r.closes) :
    ∃ r, (senders.set i next)[k]? = some r ∧ t < r.closes := by
  obtain ⟨r, hr, hlate⟩ := h
  by_cases hik : i = k
  · subst hik
    obtain rfl := Option.some.inj (hs.symm.trans hr)
    obtain ⟨hlt, -⟩ := List.getElem?_eq_some_iff.mp hs
    exact ⟨next, List.getElem?_set_self hlt, hlate.trans_le hle⟩
  · exact ⟨r, by rw [List.getElem?_set_ne hik, hr], hlate⟩

/-- The gap behind a send. -/
def sendGap (p : Pace) (draws : Draws) (s : SendCursor) (k : ℕ) : ℕ :=
  if s.closes - micros (p.rushTailMinutes * 60) ≤ s.t then draws.rush k else draws.uniform k

/-- What a round does: the earliest cursor leaves a full date, or it gives out its time and moves
on by a gap. -/
structure RoundOf (w : SendWindow) (p : Pace) (draws : Draws) (st st' : Cursors)
    (s next : SendCursor) : Prop where
  found : st.senders[earliest st.senders]? = some s
  least : ∀ r ∈ st.senders, s.t ≤ r.t
  senders : st'.senders = st.senders.set (earliest st.senders) next
  done : (capped p (st.dayCounts (w.dateOf s.t)) = true ∧ endlessWindow w s.closes = some next ∧
      st'.out = st.out ∧ st'.dayCounts = st.dayCounts) ∨
    (¬ capped p (st.dayCounts (w.dateOf s.t)) = true ∧
      ((s.closes ≤ s.t + sendGap p draws s st.out.length ∧
          endlessWindow w s.closes = some next) ∨
        (s.t + sendGap p draws s st.out.length < s.closes ∧
          next = { s with t := s.t + sendGap p draws s st.out.length })) ∧
      st'.out = secondOf s.t :: st.out ∧
      st'.dayCounts = Function.update st.dayCounts (w.dateOf s.t)
        (st.dayCounts (w.dateOf s.t) + 1))

/-- A round of the loop is one. -/
theorem endlessRound_cases {st st' : Cursors} (h : endlessRound w p draws st = some st') :
    ∃ s next, RoundOf w p draws st st' s next := by
  simp only [endlessRound] at h
  split at h
  · cases h
  · next s hs =>
    obtain ⟨s', hs', hmin⟩ := earliest_spec (List.ne_nil_of_mem (List.mem_of_getElem? hs))
    obtain rfl := Option.some.inj (hs.symm.trans hs')
    split at h
    · next hfull =>
      obtain ⟨next, hnext, rfl⟩ := Option.map_eq_some_iff.mp h
      exact ⟨s, next, hs, hmin, rfl, .inl ⟨hfull, hnext, rfl, rfl⟩⟩
    · next hfree =>
      obtain ⟨next, hnext, rfl⟩ := Option.map_eq_some_iff.mp h
      refine ⟨s, next, hs, hmin, rfl, .inr ⟨hfree, ?_, rfl, rfl⟩⟩
      change (if s.closes ≤ s.t + sendGap p draws s st.out.length then endlessWindow w s.closes
        else some { s with t := s.t + sendGap p draws s st.out.length }) = some next at hnext
      split at hnext
      · next hlate => exact .inl ⟨hlate, hnext⟩
      · next hopen => exact .inr ⟨not_le.mp hopen, (Option.some.inj hnext).symm⟩

/-- On a window that opens, cursors in its chain have a round. -/
theorem endlessRound_some (p : Pace) (draws : Draws) (hw : WindowOpens w) {st : Cursors}
    (hne : st.senders ≠ [])
    (hplace : ∀ s ∈ st.senders, ∃ j, s.closes = (windowChain w first j).closes) :
    ∃ st', endlessRound w p draws st = some st' := by
  obtain ⟨s, hs, -⟩ := earliest_spec hne
  obtain ⟨j, hcloses⟩ := hplace s (List.mem_of_getElem? hs)
  have hnext : endlessWindow w s.closes = some (windowChain w first (j + 1)) := by
    rw [hcloses]
    exact endlessWindow_chain first hw j
  simp only [endlessRound, hs, hnext]
  split
  · exact ⟨_, rfl⟩
  · generalize (if s.closes - micros (p.rushTailMinutes * 60) ≤ s.t then draws.rush st.out.length
      else draws.uniform st.out.length) = gap
    split
    · exact ⟨_, rfl⟩
    · exact ⟨_, rfl⟩

/-- Where the earliest cursor gets in a round: not back, and at most to the next window. -/
theorem RoundOf.goes {st st' : Cursors} {s next : SendCursor} {day : ℤ} {j : ℕ}
    (hround : RoundOf w p draws st st' s next) (hw : WindowOpens w) (hin : Within w day s)
    (hcloses : s.closes = (windowChain w first j).closes) :
    (∃ day, Within w day next) ∧ s.t ≤ next.t ∧ s.closes ≤ next.closes ∧
      ∃ k ≤ j + 1, next.closes = (windowChain w first k).closes := by
  have hmoved : endlessWindow w s.closes = some next → (∃ day, Within w day next) ∧
      s.t ≤ next.t ∧ s.closes ≤ next.closes ∧
        ∃ k ≤ j + 1, next.closes = (windowChain w first k).closes := by
    intro hnext
    obtain ⟨hnextIn, hnextT, hnextCloses⟩ := endlessWindow_spec hnext
    rw [hcloses, endlessWindow_chain first hw] at hnext
    obtain rfl := Option.some.inj hnext
    exact ⟨hnextIn, hin.before.le.trans hnextT, hnextCloses.le, j + 1, le_rfl, rfl⟩
  rcases hround.done with ⟨-, hnext, -⟩ | ⟨-, ⟨-, hnext⟩ | ⟨hopen, rfl⟩, -⟩
  · exact hmoved hnext
  · exact hmoved hnext
  · have hgap : s.t ≤ s.t + sendGap p draws s st.out.length :=
      le_add_of_nonneg_right (Int.natCast_nonneg _)
    have hstay : Within w day { s with t := s.t + sendGap p draws s st.out.length } :=
      ⟨hin.opens, hin.closes, hin.after.trans hgap, hopen⟩
    exact ⟨⟨day, hstay⟩, hgap, le_rfl, j, Nat.le_succ j, hcloses⟩

/-- The ledger after a round, from what the round adds to it. -/
theorem WindowLedger.step (hw : WindowOpens w) {st st' : Cursors} {moved moved' : Finset (ℕ × ℤ)}
    {s next : SendCursor} (h : WindowLedger w p first start count st moved)
    (hround : RoundOf w p draws st st' s next)
    (hmoves : ∀ i, (moved.filter fun m => m.1 = i).card + st.out.length +
      (if i = earliest st.senders then 1 else 0) ≤
        (moved'.filter fun m => m.1 = i).card + st'.out.length)
    (hcounts : ∀ day, st'.dayCounts day = (dates w st'.out).count day)
    (hmono : ∀ day, st.dayCounts day ≤ st'.dayCounts day)
    (hcap : ∀ cap, p.dailyCap = some cap → 1 ≤ cap → ∀ day, st'.dayCounts day ≤ cap)
    (htimes : ∀ x ∈ st'.out, secondOf start ≤ x ∧ ∃ day, w.openAt day ≤ x ∧ x < w.closeAt day)
    (hnew : ∀ i day, (i, day) ∈ moved' → (i, day) ∈ moved ∨
      (i = earliest st.senders ∧ micros (w.closeAt day) < next.closes ∧
        ∃ t, micros (w.openAt day) ≤ t ∧ t < micros (w.closeAt day) ∧
          capped p (st'.dayCounts (w.dateOf t)) = true)) :
    WindowLedger w p first start count st' moved' := by
  obtain ⟨hlt, -⟩ := List.getElem?_eq_some_iff.mp hround.found
  obtain ⟨⟨day, hin⟩, hstart⟩ := h.cursor _ s hround.found
  obtain ⟨j, hj, hcloses⟩ := h.index _ s hround.found
  obtain ⟨hnextIn, hlater, hnextCloses, k, hk, hto⟩ := hround.goes hw hin hcloses
  refine ⟨?_, fun i r hr => ?_, fun i r hr => ?_, hcounts, hcap, htimes, fun i d hi => ?_,
    fun i d hi => ?_⟩
  · rw [hround.senders, List.length_set]
    exact h.length
  · rw [hround.senders] at hr
    rcases getElem?_set_cases hr with ⟨-, rfl⟩ | ⟨-, hr⟩
    · exact ⟨hnextIn, hstart.trans hlater⟩
    · exact h.cursor i r hr
  · have hmore := hmoves i
    rw [hround.senders] at hr
    rcases getElem?_set_cases hr with ⟨rfl, rfl⟩ | ⟨hi, hr⟩
    · rw [if_pos rfl] at hmore
      exact ⟨k, by omega, hto⟩
    · obtain ⟨k, hk, hat⟩ := h.index i r hr
      rw [if_neg hi] at hmore
      exact ⟨k, by omega, hat⟩
  · rw [hround.senders]
    rcases hnew i d hi with hi | ⟨rfl, hlate, -⟩
    · exact left_set hround.found hnextCloses (h.gone i d hi)
    · exact ⟨next, List.getElem?_set_self hlt, hlate⟩
  · rcases hnew i d hi with hi | ⟨-, -, hfull⟩
    · obtain ⟨t, hopen, hclose, hfull⟩ := h.full i d hi
      exact ⟨t, hopen, hclose, capped_mono hfull (hmono _)⟩
    · exact hfull

/-- One more time on a local date. -/
theorem counts_cons {counts : ℤ → ℕ} {out : List ℤ} (h : ∀ d, counts d = (dates w out).count d)
    (t d : ℤ) : Function.update counts (w.dateOf t) (counts (w.dateOf t) + 1) d =
      (dates w (secondOf t :: out)).count d := by
  rw [dates, List.map_cons, dateOf_secondOf, List.count_cons, ← dates, ← h]
  by_cases hd : d = w.dateOf t
  · simp [hd]
  · simp [Function.update_of_ne hd, Ne.symm hd]

/-- A date that is not full has room for one more. -/
theorem counts_le {counts : ℤ → ℕ} {day : ℤ} {cap : ℕ} (hfree : ¬ capped p (counts day) = true)
    (hcap : p.dailyCap = some cap) (hpos : 1 ≤ cap) (h : ∀ d, counts d ≤ cap) (d : ℤ) :
    Function.update counts day (counts day + 1) d ≤ cap := by
  rw [capped_iff hcap hpos] at hfree
  by_cases hd : d = day
  · rw [hd, Function.update_self]
    omega
  · rw [Function.update_of_ne hd]
    exact h d

/-- A time more takes nothing from any date. -/
theorem counts_mono (counts : ℤ → ℕ) (day d : ℤ) :
    counts d ≤ Function.update counts day (counts day + 1) d := by
  by_cases hd : d = day
  · simp [hd]
  · simp [Function.update_of_ne hd]

/-- A sender that is moved off a full date leaves its window for good. -/
theorem WindowLedger.moved_off (hw : WindowOpens w) {st st' : Cursors} {moved : Finset (ℕ × ℤ)}
    {s next : SendCursor} (h : WindowLedger w p first start count st moved)
    (hround : RoundOf w p draws st st' s next)
    (hfull : capped p (st.dayCounts (w.dateOf s.t)) = true)
    (hnext : endlessWindow w s.closes = some next) (hout : st'.out = st.out)
    (hcounts : st'.dayCounts = st.dayCounts) :
    ∃ moved', WindowLedger w p first start count st' moved' ∧ moved'.card = moved.card + 1 := by
  obtain ⟨⟨day, hin⟩, -⟩ := h.cursor _ s hround.found
  obtain ⟨-, -, hlate⟩ := endlessWindow_spec hnext
  have hfresh : (earliest st.senders, day) ∉ moved := by
    -- the sender still stands in the window it leaves
    intro hmem
    obtain ⟨r, hr, hpast⟩ := h.gone _ _ hmem
    obtain rfl := Option.some.inj (hround.found.symm.trans hr)
    rw [hin.closes] at hpast
    exact absurd hpast (lt_irrefl _)
  refine ⟨insert (earliest st.senders, day) moved, h.step hw hround (fun i => ?_) ?_ ?_ ?_ ?_
    fun i d hi => ?_, Finset.card_insert_of_notMem hfresh⟩
  · rw [hout, Finset.filter_insert]
    by_cases hi : earliest st.senders = i
    · have hnot : (earliest st.senders, day) ∉ moved.filter fun m => m.1 = i :=
        fun hmem => hfresh (Finset.mem_filter.mp hmem).1
      rw [if_pos hi, if_pos hi.symm, Finset.card_insert_of_notMem hnot]
      omega
    · rw [if_neg hi, if_neg (Ne.symm hi)]
      exact le_rfl
  · rw [hcounts, hout]
    exact h.counts
  · exact fun d => hcounts ▸ le_rfl
  · rw [hcounts]
    exact h.cap
  · rw [hout]
    exact h.times
  · rcases Finset.mem_insert.mp hi with heq | hi
    · obtain ⟨rfl, rfl⟩ := Prod.mk.inj heq
      exact .inr ⟨rfl, hin.closes ▸ hlate, s.t, hin.opens ▸ hin.after, hin.closes ▸ hin.before,
        hcounts ▸ hfull⟩
    · exact .inl hi

/-- A time that is given out is in a window and on a date with room. -/
theorem WindowLedger.sent (hw : WindowOpens w) {st st' : Cursors} {moved : Finset (ℕ × ℤ)}
    {s next : SendCursor} (h : WindowLedger w p first start count st moved)
    (hround : RoundOf w p draws st st' s next)
    (hfree : ¬ capped p (st.dayCounts (w.dateOf s.t)) = true)
    (hout : st'.out = secondOf s.t :: st.out)
    (hcounts : st'.dayCounts = Function.update st.dayCounts (w.dateOf s.t)
      (st.dayCounts (w.dateOf s.t) + 1)) : WindowLedger w p first start count st' moved := by
  obtain ⟨⟨day, hin⟩, hstart⟩ := h.cursor _ s hround.found
  refine h.step hw hround (fun i => ?_) ?_ ?_ ?_ ?_ fun i d hi => .inl hi
  · rw [hout, List.length_cons]
    split <;> omega
  · rw [hcounts, hout]
    exact counts_cons h.counts s.t
  · rw [hcounts]
    exact counts_mono _ _
  · rw [hcounts]
    exact fun cap hc hpos => counts_le hfree hc hpos (h.cap cap hc hpos)
  · intro x hx
    rw [hout] at hx
    rcases List.mem_cons.mp hx with rfl | hx
    · have hopen := hin.opens ▸ hin.after
      have hclose := hin.closes ▸ hin.before
      refine ⟨?_, day, ?_, ?_⟩
      · simp only [secondOf]
        omega
      · simp only [micros, secondOf] at hopen ⊢
        omega
      · simp only [micros, secondOf] at hclose ⊢
        omega
    · exact h.times x hx

/-- **One round** gives out one time, or it moves one sender off a full date. -/
theorem WindowLedger.round (draws : Draws) (hw : WindowOpens w) (hcount : 0 < count) {st : Cursors}
    {moved : Finset (ℕ × ℤ)} (h : WindowLedger w p first start count st moved) :
    ∃ st', endlessRound w p draws st = some st' ∧
      ((WindowLedger w p first start count st' moved ∧ st'.out.length = st.out.length + 1) ∨
        ∃ moved', WindowLedger w p first start count st' moved' ∧ moved'.card = moved.card + 1 ∧
          st'.out.length = st.out.length ∧ p.dailyCap ≠ none) := by
  have hne : st.senders ≠ [] := by
    intro hnil
    have hlen := h.length
    rw [hnil, List.length_nil] at hlen
    omega
  have hplace : ∀ s ∈ st.senders, ∃ j, s.closes = (windowChain w first j).closes := by
    intro s hs
    obtain ⟨i, hi⟩ := List.mem_iff_getElem?.mp hs
    obtain ⟨j, -, hcloses⟩ := h.index i s hi
    exact ⟨j, hcloses⟩
  obtain ⟨st', hsome⟩ := endlessRound_some p draws hw hne hplace
  obtain ⟨s, next, hround⟩ := endlessRound_cases hsome
  refine ⟨st', hsome, ?_⟩
  rcases hround.done with ⟨hfull, hnext, hout, hcounts⟩ | ⟨hfree, -, hout, hcounts⟩
  · obtain ⟨moved', hledger, hcard⟩ := h.moved_off hw hround hfull hnext hout hcounts
    refine .inr ⟨moved', hledger, hcard, by rw [hout], ?_⟩
    intro hnone
    simp [capped, hnone] at hfull
  · exact .inl ⟨h.sent hw hround hfree hout hcounts, by rw [hout, List.length_cons]⟩

/-- The loop ends with everyone, or the guard has counted every round it allows. -/
theorem WindowLedger.rounds (draws : Draws) (hw : WindowOpens w) (hcount : 0 < count) {n : ℕ}
    (rounds : ℕ) {st : Cursors} {moved : Finset (ℕ × ℤ)}
    (h : WindowLedger w p first start count st moved) (hle : st.out.length ≤ n)
    (hnone : p.dailyCap = none → moved.card = 0) :
    ∃ st' moved', endlessRounds w p draws n rounds st = some st' ∧
      WindowLedger w p first start count st' moved' ∧ (p.dailyCap = none → moved'.card = 0) ∧
      (st'.out.length = n ∨ (st'.out.length < n ∧
        st'.out.length + moved'.card = st.out.length + moved.card + rounds)) := by
  induction rounds generalizing st moved with
  | zero =>
    refine ⟨st, moved, rfl, h, hnone, ?_⟩
    rcases hle.lt_or_eq with hlt | heq
    · exact .inr ⟨hlt, rfl⟩
    · exact .inl heq
  | succ rounds ih =>
    simp only [endlessRounds]
    split
    · next hlt =>
      obtain ⟨st', hround, hst'⟩ := h.round draws hw hcount
      rw [hround, Option.bind_some]
      rcases hst' with ⟨hledger, hlen⟩ | ⟨moved', hledger, hcard, hlen, hcap⟩
      · obtain ⟨u, moved', hrun, hu, hunone, hend⟩ := ih hledger (by omega) hnone
        exact ⟨u, moved', hrun, hu, hunone, hend.imp_right (And.imp_right fun hsum => by omega)⟩
      · obtain ⟨u, moved'', hrun, hu, hunone, hend⟩ := ih hledger (by omega)
          fun hc => absurd hc hcap
        exact ⟨u, moved'', hrun, hu, hunone, hend.imp_right (And.imp_right fun hsum => by omega)⟩
    · exact ⟨st, moved, rfl, h, hnone, .inl (by omega)⟩

/-- Each full date costs a sender at most `m` moves. -/
theorem WindowLedger.own_card_le {st : Cursors} {moved : Finset (ℕ × ℤ)}
    (h : WindowLedger w p first start count st moved) {m cap : ℕ} (hshare : SharesDates w m)
    (hcap : p.dailyCap = some cap) (hpos : 1 ≤ cap) (i : ℕ) :
    (moved.filter fun m => m.1 = i).card ≤ m * (st.out.length / cap) := by
  classical
  choose days hcard hdays using hshare
  let full : Finset ℤ := (dates w st.out).toFinset.filter fun d => cap ≤ (dates w st.out).count d
  have hsub : (moved.filter fun m => m.1 = i) ⊆ (full.biUnion days).image fun day => (i, day) := by
    rintro ⟨k, day⟩ hk
    obtain ⟨hmem, rfl⟩ := Finset.mem_filter.mp hk
    obtain ⟨t, hopen, hclose, hfull⟩ := h.full k day hmem
    rw [capped_iff hcap hpos, h.counts] at hfull
    refine Finset.mem_image_of_mem _ (Finset.mem_biUnion.mpr ⟨w.dateOf t, ?_, ?_⟩)
    · refine Finset.mem_filter.mpr ⟨?_, hfull⟩
      rw [List.mem_toFinset, ← List.count_pos_iff]
      omega
    · exact hdays _ day t hopen hclose rfl
  have hfull : full.card * cap ≤ st.out.length := by
    calc full.card * cap ≤ ∑ d ∈ full, (dates w st.out).count d :=
          Finset.card_nsmul_le_sum _ _ _ fun d hd => (Finset.mem_filter.mp hd).2
      _ ≤ ∑ d ∈ (dates w st.out).toFinset, (dates w st.out).count d :=
          Finset.sum_le_sum_of_subset (Finset.filter_subset _ _)
      _ = st.out.length := by
          rw [List.sum_toFinset_count_eq_length, dates, List.length_map]
  calc (moved.filter fun m => m.1 = i).card ≤ ((full.biUnion days).image fun day => (i, day)).card :=
        Finset.card_le_card hsub
    _ ≤ (full.biUnion days).card := Finset.card_image_le
    _ ≤ full.card * m := Finset.card_biUnion_le_card_mul _ _ _ fun d _ => hcard d
    _ = m * full.card := Nat.mul_comm _ _
    _ ≤ m * (st.out.length / cap) :=
        Nat.mul_le_mul_left _ ((Nat.le_div_iff_mul_le (by omega)).mpr hfull)

/-- Each full date costs at most `m` moves of each sender. -/
theorem WindowLedger.card_le {st : Cursors} {moved : Finset (ℕ × ℤ)}
    (h : WindowLedger w p first start count st moved) {m cap : ℕ} (hshare : SharesDates w m)
    (hcap : p.dailyCap = some cap) (hpos : 1 ≤ cap) :
    moved.card ≤ m * count * (st.out.length / cap) := by
  classical
  have hsenders : moved.image Prod.fst ⊆ Finset.range count := by
    intro i hi
    obtain ⟨⟨k, day⟩, hmem, rfl⟩ := Finset.mem_image.mp hi
    obtain ⟨s, hs, -⟩ := h.gone k day hmem
    obtain ⟨hlt, -⟩ := List.getElem?_eq_some_iff.mp hs
    exact Finset.mem_range.mpr (h.length ▸ hlt)
  have hfew := Finset.card_le_card hsenders
  rw [Finset.card_range] at hfew
  calc moved.card ≤ m * (st.out.length / cap) * (moved.image Prod.fst).card :=
        Finset.card_le_mul_card_image moved _ fun i _ => h.own_card_le hshare hcap hpos i
    _ ≤ m * (st.out.length / cap) * count := Nat.mul_le_mul_left _ hfew
    _ = m * count * (st.out.length / cap) := by ring

/-- While someone is without a time, no cursor has left the windows that a schedule can reach. -/
theorem WindowLedger.reached {st : Cursors} {moved : Finset (ℕ × ℤ)}
    (h : WindowLedger w p first start count st moved) {m n : ℕ} (hshare : SharesDates w m)
    (hcap : ∀ k, p.dailyCap = some k → 1 ≤ k) (hnone : p.dailyCap = none → moved.card = 0)
    (hmore : st.out.length < n) : WithinReach w first start (n + m * (n - 1) + 1) st.senders := by
  intro s hs
  obtain ⟨i, hi⟩ := List.mem_iff_getElem?.mp hs
  obtain ⟨⟨day, hin⟩, hstart⟩ := h.cursor i s hi
  obtain ⟨j, hj, hcloses⟩ := h.index i s hi
  refine ⟨hstart, hin.before, j, ?_, hcloses⟩
  have hmoves : (moved.filter fun m => m.1 = i).card ≤ m * (n - 1) := by
    cases hc : p.dailyCap with
    | none =>
      have hzero := hnone hc
      have hsome := Finset.card_filter_le moved fun m => m.1 = i
      omega
    | some cap =>
      have hown := h.own_card_le hshare hc (hcap cap hc) i
      have hdiv : st.out.length / cap ≤ n - 1 := (Nat.div_le_self _ _).trans (by omega)
      exact hown.trans (Nat.mul_le_mul_left m hdiv)
  omega

/-- The cursors before the first round. -/
theorem ledger_begin (hw : WindowOpens w) (start : ℤ) (draws : Draws) (count : ℕ) :
    ∃ first senders, endlessWindow w start = some first ∧
      (List.range count).mapM (endlessCursor w draws first) = some senders ∧
      WindowLedger w p first start count { senders := senders } ∅ := by
  obtain ⟨first, hfirst⟩ := endlessWindow_isSome hw start
  obtain ⟨⟨day, hin⟩, hstart, -⟩ := endlessWindow_spec hfirst
  have hnext : endlessWindow w first.closes = some (windowChain w first 1) :=
    endlessWindow_chain first hw 0
  obtain ⟨hnextIn, hnextT, -⟩ := endlessWindow_spec hnext
  have hcursor : ∀ i, ∃ s, endlessCursor w draws first i = some s ∧
      ((∃ day, Within w day s) ∧ start ≤ s.t) ∧
      ∃ j ≤ 1, s.closes = (windowChain w first j).closes := by
    intro i
    have hgap : first.t ≤ first.t + draws.stagger i := le_add_of_nonneg_right (Int.natCast_nonneg _)
    simp only [endlessCursor]
    split
    · exact ⟨_, hnext, ⟨hnextIn, hstart.trans (hin.before.le.trans hnextT)⟩, 1, le_rfl, rfl⟩
    · next hopen =>
      exact ⟨_, rfl, ⟨⟨day, hin.opens, hin.closes, hin.after.trans hgap, not_le.mp hopen⟩,
        hstart.trans hgap⟩, 0, by omega, rfl⟩
  choose cursor hcursor hspec using hcursor
  have hmap : (List.range count).mapM (endlessCursor w draws first) =
      some ((List.range count).map cursor) := by
    rw [show endlessCursor w draws first = fun i => pure (cursor i) from funext hcursor]
    exact List.mapM_pure ..
  have hspecs : ∀ (i : ℕ) s, ((List.range count).map cursor)[i]? = some s → ∃ k, s = cursor k := by
    intro i s hs
    obtain ⟨k, -, rfl⟩ := List.mem_map.mp (List.mem_of_getElem? hs)
    exact ⟨k, rfl⟩
  refine ⟨first, _, hfirst, hmap, ?_, fun i s hs => ?_, fun i s hs => ?_, fun _ => rfl,
    fun _ _ _ _ => Nat.zero_le _, by simp, by simp, by simp⟩
  · rw [List.length_map, List.length_range]
  · obtain ⟨k, rfl⟩ := hspecs i s hs
    exact (hspec k).1
  · obtain ⟨k, rfl⟩ := hspecs i s hs
    obtain ⟨j, hj, hcloses⟩ := (hspec k).2
    exact ⟨j, by omega, hcloses⟩

end Mailman.Analysis
