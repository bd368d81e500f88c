import Mathlib.Data.List.Perm.Basic
import Mailman.Model.Launch
import Mailman.Analysis.StillCursors

/-!
# Does a schedule reach everyone

The loop of `compute_send_ats` ends when everyone has a time, or when its guard has counted
`8 n + 2000` rounds; before either, a `datetime` may leave the years that there are. The ledgers
bound the rounds from above, and cursors that take their time bound them from below.
-/

set_option autoImplicit false

namespace Mailman.Analysis

open Mailman.Model Mailman.Interface

/-! ## What the schedule promises -/

section promise

variable {n m : ℕ} {w : SendWindow} {p : Pace} {draws : Draws} {start : ℤ}

/-- Everyone has a time, and the times keep the rules. The last part is what `dispatch_batch` makes
of them: each planned recipient and each seed is a target of one pack. -/
structure SendAtsOk (n : ℕ) (w : SendWindow) (cap : Option ℕ) (start : ℤ) (out : List ℤ) : Prop where
  count : out.length = n
  sorted : out.Pairwise (· ≤ ·)
  start : ∀ x ∈ out, secondOf start ≤ x
  window : ∀ x ∈ out, ∃ day, w.openAt day ≤ x ∧ x < w.closeAt day
  cap : ∀ k, cap = some k → ∀ date, (dates w out).count date ≤ k
  targets : ∀ (sends : List (Candidate × SendId)) (seeds : List String),
    sends.length + seeds.length = n →
      ((batchTargets sends seeds (out.map Int.toNat)).map fun t => (t.row, t.send)).Perm
        (sends.map (fun s => (s.1.row, some s.2)) ++
          seeds.map fun email => (⟨none, .queued, email, ""⟩, none))

/-- Seeds go between the recipients, and none is lost. -/
theorem perm_insertSeeds (step i : ℕ) (seeds : List String) (rows : List (SendRow × Option SendId)) :
    (insertSeeds step i seeds rows).Perm
      (rows ++ seeds.map fun email => (⟨none, .queued, email, ""⟩, none)) := by
  induction seeds generalizing i rows with
  | nil => simp [insertSeeds]
  | cons email seeds ih =>
    refine (ih _ _).trans ?_
    have hinsert := List.perm_insertIdx (⟨none, .queued, email, ""⟩, none) rows
      (min_le_right (i * (step + 1)) rows.length)
    exact (hinsert.append_right _).trans List.perm_middle.symm

/-- Each target gets its pack as soon as there are as many times. -/
theorem perm_batchTargets (sends : List (Candidate × SendId)) (seeds : List String)
    (sendAts : List ℕ) (hlen : sends.length + seeds.length = sendAts.length) :
    ((batchTargets sends seeds sendAts).map fun t => (t.row, t.send)).Perm
      (sends.map (fun s => (s.1.row, some s.2)) ++
        seeds.map fun email => (⟨none, .queued, email, ""⟩, none)) := by
  let rows : List (SendRow × Option SendId) := sends.map fun s => (s.1.row, some s.2)
  have hperm := perm_insertSeeds (max (rows.length / seeds.length) 1) 0 seeds rows
  have hzip : (batchTargets sends seeds sendAts).map (fun t => (t.row, t.send)) =
      insertSeeds (max (rows.length / seeds.length) 1) 0 seeds rows := by
    simp only [batchTargets, List.map_map]
    refine List.map_fst_zip ?_
    rw [hperm.length_eq, ← hlen]
    simp [rows]
  rw [hzip]
  exact hperm

/-- A ledger in which everyone has a time keeps the rules. -/
theorem sendAtsOk_of_ledger {st : Cursors} {moved : Finset (ℕ × ℤ)} {count : ℕ}
    {first : SendCursor}
    (h : WindowLedger w p first start count st moved) (hlen : st.out.length = n)
    (hcap : ∀ k, p.dailyCap = some k → 1 ≤ k) :
    SendAtsOk n w p.dailyCap start (st.out.insertionSort (· ≤ ·)) := by
  have hperm := List.perm_insertionSort (· ≤ · : ℤ → ℤ → Prop) st.out
  refine ⟨by rw [hperm.length_eq, hlen], List.pairwise_insertionSort _ _, fun x hx => ?_,
    fun x hx => ?_, fun k hk date => ?_, fun sends seeds hsum => ?_⟩
  · exact (h.times x (hperm.mem_iff.mp hx)).1
  · exact (h.times x (hperm.mem_iff.mp hx)).2
  · rw [dates, (hperm.map _).count_eq, ← dates, ← h.counts]
    exact h.cap k hk (hcap k hk) date
  · apply perm_batchTargets
    rw [List.length_map, hperm.length_eq, hlen, hsum]

/-- What a call owes: a time for everyone, or datetime's own error where the calendar has no room. -/
def Promised (n m : ℕ) (w : SendWindow) (p : Pace) (start : ℤ)
    (answer : Except ScheduleError (List ℤ)) : Prop :=
  (∃ out, answer = .ok out ∧ SendAtsOk n w p.dailyCap start out) ∨
    (answer = .error .overflow ∧ ¬ FitsCalendar n m w p start)

/-- With room in the calendar the code runs as the endless schedule does, and it answers. -/
theorem computeSendAts_fits (hw : WindowOpens w) (hhour : w.startHour ≤ 23) (hn : 0 < n)
    (hcount : 0 < p.senderCount) (hcap : ∀ k, p.dailyCap = some k → 1 ≤ k) (hshare : SharesDates w m)
    (hdraws : draws.InRange p) (hfits : FitsCalendar n m w p start) :
    ∃ out, computeSendAts n start (some w.zone) w.startHour w.windowHours p draws = .ok out := by
  obtain ⟨first, senders, hfirst, hmap, hledger⟩ := ledger_begin (p := p) hw start draws p.senderCount
  obtain ⟨st, -, hrun, -⟩ := hledger.rounds draws hw hcount (n * 8 + 2000) (Nat.zero_le n)
    fun _ => rfl
  let Kept : Cursors → Prop := fun st =>
    ∃ moved, WindowLedger w p first start p.senderCount st moved ∧
      (p.dailyCap = none → moved.card = 0)
  have hreached : ∀ st, Kept st → st.out.length < n →
      WithinReach w first start (n + m * (n - 1) + 1) st.senders := by
    rintro st ⟨moved, h, hnone⟩ hmore
    exact h.reached hshare hcap hnone hmore
  have hkept : ∀ st st', Kept st → st.out.length < n → endlessRound w p draws st = some st' →
      Kept st' := by
    rintro st st' ⟨moved, h, hnone⟩ - hround
    obtain ⟨u, hu, hcase⟩ := h.round draws hw hcount
    obtain rfl := Option.some.inj (hround.symm.trans hu)
    rcases hcase with ⟨hsent, -⟩ | ⟨moved', hmoved, -, -, hcapped⟩
    · exact ⟨moved, hsent, hnone⟩
    · exact ⟨moved', hmoved, fun hc => absurd hc hcapped⟩
  have hmax : max p.senderCount 1 = p.senderCount := max_eq_left hcount
  exact ⟨_, computeSendAts_of_endless hw hhour hn hdraws (hfits first hfirst) (Nat.le_add_left 1 _)
    hreached hkept hfirst (hmax.symm ▸ hmap) ⟨∅, hledger, fun _ => rfl⟩ hrun⟩

/-- The call keeps its promise where its rounds reach everyone. -/
theorem promised_of_rounds (hw : WindowOpens w) (hhour : w.startHour ≤ 23) (hn : 0 < n)
    (hcount : 0 < p.senderCount) (hcap : ∀ k, p.dailyCap = some k → 1 ≤ k) (hshare : SharesDates w m)
    (hdraws : draws.InRange p)
    (hfull : ∀ first senders st moved, endlessWindow w start = some first →
      (List.range p.senderCount).mapM (endlessCursor w draws first) = some senders →
      endlessRounds w p draws n (n * 8 + 2000) { senders := senders } = some st →
      WindowLedger w p first start p.senderCount st moved → (p.dailyCap = none → moved.card = 0) →
      (st.out.length = n ∨
        (st.out.length < n ∧ st.out.length + moved.card = n * 8 + 2000)) → st.out.length = n) :
    Promised n m w p start
      (computeSendAts n start (some w.zone) w.startHour w.windowHours p draws) := by
  obtain ⟨first, senders, hfirst, hmap, hledger⟩ := ledger_begin (p := p) hw start draws p.senderCount
  obtain ⟨st, moved, hrun, hst, hnone, hend⟩ := hledger.rounds draws hw hcount (n * 8 + 2000)
    (Nat.zero_le n) fun _ => rfl
  have hlength := hfull first senders st moved hfirst hmap hrun hst hnone (by simpa using hend)
  have hmax : max p.senderCount 1 = p.senderCount := max_eq_left hcount
  cases hanswer : computeSendAts n start (some w.zone) w.startHour w.windowHours p draws with
  | ok out =>
    obtain ⟨first', senders', st', hfirst', hmap', hrun', rfl⟩ := endless_of_computeSendAts hn hanswer
    obtain rfl := Option.some.inj (hfirst.symm.trans hfirst')
    rw [hmax] at hmap'
    obtain rfl := Option.some.inj (hmap.symm.trans hmap')
    obtain rfl := Option.some.inj (hrun.symm.trans hrun')
    exact .inl ⟨_, rfl, sendAtsOk_of_ledger hst hlength hcap⟩
  | error e =>
    obtain rfl := computeSendAts_error hw hhour hanswer
    refine .inr ⟨rfl, fun hfits => ?_⟩
    obtain ⟨out, hok⟩ := computeSendAts_fits hw hhour hn hcount hcap hshare hdraws hfits
    cases hanswer.symm.trans hok

end promise

/-! ## The condition -/

/-- The promise holds from every start, at every pace with these senders and this cap, for all
draws in range; `m` windows at most show one local date. -/
def Complete (n m count : ℕ) (cap : Option ℕ) (w : SendWindow) : Prop :=
  ∀ (start : ℤ) (p : Pace) (draws : Draws), p.senderCount = count → p.dailyCap = cap →
    p.jitterMinS ≤ p.jitterMaxS → draws.InRange p →
    Promised n m w p start
      (computeSendAts n start (some w.zone) w.startHour w.windowHours p draws)

section condition

variable {n m count : ℕ} {cap : Option ℕ} {w : SendWindow}

/-- A promise that is kept from a start with room in the calendar is an answer. -/
theorem Complete.ok (h : Complete n m count cap w) {start : ℤ} {p : Pace} {draws : Draws}
    (hp : p.senderCount = count) (hc : p.dailyCap = cap) (hjitter : p.jitterMinS ≤ p.jitterMaxS)
    (hdraws : draws.InRange p) (hfits : FitsCalendar n m w p start) :
    ∃ out, computeSendAts n start (some w.zone) w.startHour w.windowHours p draws = .ok out ∧
      out.length = n := by
  rcases h start p draws hp hc hjitter hdraws with ⟨out, hout, hok⟩ | ⟨-, hnot⟩
  · exact ⟨out, hout, hok.count⟩
  · exact absurd hfits hnot

/-- Enough rounds for the times and for `m` moves of each sender off each full date. -/
theorem complete_of_shares (hn : 0 < n) (hcount : 0 < count) (hcap : ∀ k, cap = some k → 1 ≤ k)
    (hhour : w.startHour ≤ 23) (hw : WindowOpens w) (hshare : SharesDates w m)
    (hrounds : ∀ k, cap = some k → n + m * count * ((n - 1) / k) ≤ 8 * n + 2000) :
    Complete n m count cap w := by
  rintro start p draws rfl rfl - hdraws
  refine promised_of_rounds hw hhour hn hcount hcap hshare hdraws
    fun first senders st moved _ _ _ hst hnone hend => ?_
  rcases hend with hlen | ⟨hlt, hsum⟩
  · exact hlen
  · -- the guard would have counted more rounds than there are times and moves
    cases hc : p.dailyCap with
    | none =>
      have hzero := hnone hc
      omega
    | some k =>
      have hcard := hst.card_le hshare hc (hcap k hc)
      have hdiv : st.out.length / k ≤ (n - 1) / k := Nat.div_le_div_right (by omega)
      have hle := hcard.trans (Nat.mul_le_mul_left _ hdiv)
      have hmax := hrounds k hc
      omega

/-- Fewer senders than a date takes are no trouble. -/
theorem few_senders {k : ℕ} (hk : count < k) : n + 2 * count * ((n - 1) / k) ≤ 8 * n + 2000 := by
  have hmul : count * ((n - 1) / k) ≤ k * ((n - 1) / k) := Nat.mul_le_mul_right _ hk.le
  have hle := Nat.mul_div_le (n - 1) k
  rw [Nat.mul_assoc]
  omega

/-- Enough rounds for windows past midnight. -/
theorem complete_of_late (hn : 0 < n) (hcount : 0 < count) (hcap : ∀ k, cap = some k → 1 ≤ k)
    (hhour : w.startHour ≤ 23) (hw : WindowOpens w) (hshare : SharesDates w 2)
    (hown : EntersOwnDate w)
    (hrounds : ∀ k, cap = some k → n + count * lateMoves (n - 1) k ≤ 8 * n + 2000) :
    Complete n 2 count cap w := by
  by_cases hfew : ∃ k, cap = some k ∧ k ≤ count
  · obtain ⟨k, rfl, hmany⟩ := hfew
    rintro start p draws rfl hc - hdraws
    have hpos := hcap k rfl
    refine promised_of_rounds hw hhour hn hcount (fun k' hk' => hcap k' (hc ▸ hk')) hshare hdraws
      fun first senders st moved hfirst hmap hrun hst hnone hend => ?_
    rcases hend with hlen | ⟨hlt, -⟩
    · exact hlen
    · obtain ⟨⟨day, hin⟩, -, -⟩ := endlessWindow_spec hfirst
      have hbegin := entryLedger_begin (p := p) hw hin.before hdraws.first hcount hmap
      obtain ⟨moved', hst', hall⟩ := hbegin.rounds hw hin.before hc hpos hmany hrun
      have hsum := hall hlt
      have hcard := hst'.card_le hw hown hfirst hc hpos
      have hmono : lateMoves st.out.length k ≤ lateMoves (n - 1) k := lateMoves_mono (by omega)
      have hle := hcard.trans (Nat.mul_le_mul_left _ hmono)
      have hmax := hrounds k rfl
      simp only [Finset.card_empty, List.length_nil] at hsum
      omega
  · refine complete_of_shares hn hcount hcap hhour hw hshare fun k hk => few_senders ?_
    by_contra hle
    exact hfew ⟨k, hk, by omega⟩

/-- More windows that show one date ask for more room. -/
theorem Complete.mono (hw : WindowOpens w) {m' : ℕ} (hle : m ≤ m') (h : Complete n m count cap w) :
    Complete n m' count cap w := by
  intro start p draws hp hc hjitter hdraws
  refine (h start p draws hp hc hjitter hdraws).imp_right fun ⟨hover, hnot⟩ => ⟨hover, fun hfits => ?_⟩
  refine hnot fun first hfirst => ?_
  obtain ⟨hearly, hlate⟩ := hfits first hfirst
  have hmul : m * (n - 1) ≤ m' * (n - 1) := Nat.mul_le_mul_right _ hle
  have hcloses : (windowChain w first (n + m * (n - 1) + 1)).closes ≤
      (windowChain w first (n + m' * (n - 1) + 1)).closes := chain_closes hw (by omega)
  have hseconds := secondOf_mono hcloses
  exact ⟨hearly, by omega⟩

/-- Less jitter asks for less room. -/
theorem fits_stillPace {start : ℤ} (h : FitsCalendar n m w (latePace count cap) start) :
    FitsCalendar n m w (stillPace count cap) start := by
  intro first hfirst
  obtain ⟨hearly, hlate⟩ := h first hfirst
  refine ⟨hearly, ?_⟩
  simp only [longestGap, latePace, stillPace] at hlate ⊢
  omega

/-- Cursors that stand still need a round for each time and for each move off a full date. -/
theorem Complete.still (h : Complete n m count cap w) (hn : 0 < n) (hcount : 0 < count)
    (hcap : ∀ k, cap = some k → 1 ≤ k) (hw : WindowOpens w)
    (hroom : ∃ start, FitsCalendar n m w (stillPace count cap) start) {k : ℕ} (hk : cap = some k) :
    n + count * ((n - 1) / k) ≤ 8 * n + 2000 := by
  obtain ⟨start, hfits⟩ := hroom
  obtain ⟨out, hout, hlen⟩ := h.ok rfl rfl le_rfl (noDraws_inRange count cap) hfits
  rw [hk] at hout
  have hle := still_length_le hw hn hcount (hcap k hk) hout
  rwa [hlen] at hle

/-- The condition where each window keeps to a date of its own. -/
theorem complete_iff_of_shares (hn : 0 < n) (hcount : 0 < count) (hcap : ∀ k, cap = some k → 1 ≤ k)
    (hhour : w.startHour ≤ 23) (hw : WindowOpens w) (hshare : SharesDates w 1)
    (hroom : ∃ start, FitsCalendar n 1 w (stillPace count cap) start) :
    Complete n 1 count cap w ↔ ∀ k, cap = some k → n + count * ((n - 1) / k) ≤ 8 * n + 2000 := by
  refine ⟨fun hcomplete k hk => hcomplete.still hn hcount hcap hw hroom hk, fun hrounds => ?_⟩
  refine complete_of_shares hn hcount hcap hhour hw hshare fun k hk => ?_
  rw [Nat.one_mul]
  exact hrounds k hk

/-- The condition where windows run past midnight. -/
theorem complete_iff_of_late (hn : 0 < n) (hcount : 0 < count) (hcap : ∀ k, cap = some k → 1 ≤ k)
    (hhour : w.startHour ≤ 23) (hw : WindowOpens w) (hshare : SharesDates w 2)
    (hown : EntersOwnDate w)
    (hroom : ∃ start first, endlessWindow w start = some first ∧
      LastMoment w first (lateSeconds count * 1000000) ∧
      FitsCalendar n 2 w (latePace count cap) start) :
    Complete n 2 count cap w ↔
      ∀ k, cap = some k → n + count * lateMoves (n - 1) k ≤ 8 * n + 2000 := by
  obtain ⟨start, first, hfirst, hlast, hfits⟩ := hroom
  refine ⟨fun hcomplete k hk => ?_, complete_of_late hn hcount hcap hhour hw hshare hown⟩
  have hpos := hcap k hk
  by_cases hone : n - 1 ≤ k
  · -- one full date at most: where the window ends does not matter
    rw [lateMoves, if_pos hone]
    exact hcomplete.still hn hcount hcap hw ⟨start, fits_stillPace hfits⟩ hk
  · by_cases hmany : k ≤ count
    · obtain ⟨out, hout, hlen⟩ :=
        hcomplete.ok rfl rfl le_rfl (lateDraws_inRange hcount cap) hfits
      rw [hk] at hout
      have hle := late_length_le hw hown hn hcount hpos hmany hfirst hlast hout (by omega)
      rwa [hlen] at hle
    · have hmul : count * ((n - 1 - 1) / k) ≤ k * ((n - 1 - 1) / k) :=
        Nat.mul_le_mul_right _ (by omega)
      have hle := Nat.mul_div_le (n - 1 - 1) k
      rw [lateMoves, if_neg hone, Nat.mul_add]
      omega

end condition

/-! ## Zones with one offset -/

section fixed

/-- A zone with one offset. -/
def fixedZone (offset : ℤ) : Zone := ⟨fun t => t + offset, fun s => s - offset⟩

variable {offset startHour windowHours : ℤ}

/-- Such a zone opens the window every day. -/
theorem opens_fixed (hoffset : |offset| < 86400) (hstart : 0 ≤ startHour) (hhours : 1 ≤ windowHours) :
    WindowOpens ⟨fixedZone offset, startHour, windowHours⟩ := by
  refine ⟨fun t => ?_, fun s => ?_, ⟨hstart, hhours⟩, fun day => ⟨0, by omega, ?_⟩⟩
  · simpa [fixedZone] using hoffset
  · simpa [fixedZone, sub_eq_add_neg] using hoffset
  · simp only [SendWindow.openAt, SendWindow.closeAt, fixedZone]
    omega

/-- In such a zone a window that ends by midnight keeps to its own date. -/
theorem shares_fixed (hstart : 0 ≤ startHour) (hend : startHour + windowHours ≤ 24) :
    SharesDates ⟨fixedZone offset, startHour, windowHours⟩ 1 := by
  refine fun date => ⟨{date}, le_rfl, fun day t hopen hclose hdate => ?_⟩
  rw [Finset.mem_singleton]
  simp only [SendWindow.openAt, SendWindow.closeAt, SendWindow.dateOf, fixedZone, micros,
    secondOf] at hopen hclose hdate
  omega

/-- One that runs past midnight shares the next date with the window of that date. -/
theorem shares_fixed_late (hstart : 0 ≤ startHour ∧ startHour ≤ 23) (hhours : windowHours ≤ 24) :
    SharesDates ⟨fixedZone offset, startHour, windowHours⟩ 2 := by
  refine fun date => ⟨{date - 1, date}, Finset.card_le_two, fun day t hopen hclose hdate => ?_⟩
  rw [Finset.mem_insert, Finset.mem_singleton]
  simp only [SendWindow.openAt, SendWindow.closeAt, SendWindow.dateOf, fixedZone, micros,
    secondOf] at hopen hclose hdate
  omega

/-- A step of the search that is not out of days. -/
theorem endlessSearch_succ (w : SendWindow) (after : ℤ) (days : ℕ) (day : ℤ) :
    endlessSearch w after (days + 1) day =
      if after < micros (w.closeAt day) ∧ max (micros (w.openAt day)) after < micros (w.closeAt day)
      then some ⟨micros (w.openAt day), micros (w.closeAt day), max (micros (w.openAt day)) after⟩
      else endlessSearch w after days (day + 1) := rfl

/-- The window that is found is that of the date or, where it has closed, of the next one. -/
theorem fixed_window (hstart : 0 ≤ startHour ∧ startHour ≤ 23)
    (hhours : 1 ≤ windowHours ∧ windowHours ≤ 24) {w : SendWindow}
    (hw : w = ⟨fixedZone offset, startHour, windowHours⟩) {after : ℤ} {s : SendCursor}
    (h : endlessWindow w after = some s) :
    ∃ day, s = ⟨micros (w.openAt day), micros (w.closeAt day), max (micros (w.openAt day)) after⟩ ∧
      after < micros (w.closeAt day) ∧ (day = w.dateOf after ∨
        (day = w.dateOf after + 1 ∧ micros (w.closeAt (w.dateOf after)) ≤ after)) := by
  rw [endlessWindow, show (400 : ℕ) = 398 + 1 + 1 from rfl, endlessSearch_succ] at h
  split at h
  · next hopen => exact ⟨_, (Option.some.inj h).symm, hopen.1, .inl rfl⟩
  · next hclosed =>
    have hpast : micros (w.closeAt (w.dateOf after)) ≤ after := by
      subst hw
      simp only [SendWindow.openAt, SendWindow.closeAt, SendWindow.dateOf, fixedZone, micros,
        secondOf] at hclosed ⊢
      omega
    have hnext : after < micros (w.closeAt (w.dateOf after + 1)) ∧
        max (micros (w.openAt (w.dateOf after + 1))) after <
          micros (w.closeAt (w.dateOf after + 1)) := by
      subst hw
      simp only [SendWindow.openAt, SendWindow.closeAt, SendWindow.dateOf, fixedZone, micros,
        secondOf]
      omega
    rw [endlessSearch_succ, if_pos hnext] at h
    exact ⟨_, (Option.some.inj h).symm, hnext.1, .inr ⟨rfl, hpast⟩⟩

/-- A window that is found is that of the date it is entered on. -/
theorem enters_fixed (hstart : 0 ≤ startHour ∧ startHour ≤ 23)
    (hhours : 1 ≤ windowHours ∧ windowHours ≤ 24) :
    EntersOwnDate ⟨fixedZone offset, startHour, windowHours⟩ := by
  intro after s h
  obtain ⟨day, rfl, hopen, hday⟩ := fixed_window hstart hhours rfl h
  have hdate : day = SendWindow.dateOf ⟨fixedZone offset, startHour, windowHours⟩
      (max (micros (SendWindow.openAt ⟨fixedZone offset, startHour, windowHours⟩ day)) after) := by
    simp only [SendWindow.openAt, SendWindow.closeAt, SendWindow.dateOf, fixedZone, micros,
      secondOf] at hopen hday ⊢
    omega
  rw [← hdate]

/-- The windows of the chain are those of one day after the other. -/
theorem chain_fixed (hoffset : |offset| < 86400) (hstart : 0 ≤ startHour ∧ startHour ≤ 23)
    (hhours : 1 ≤ windowHours ∧ windowHours ≤ 24) {w : SendWindow}
    (hw : w = ⟨fixedZone offset, startHour, windowHours⟩) {first : SendCursor} {day : ℤ}
    (hfirst : first.closes = micros (w.closeAt day)) (j : ℕ) :
    windowChain w first (j + 1) = ⟨micros (w.openAt (day + j + 1)), micros (w.closeAt (day + j + 1)),
      micros (w.openAt (day + j + 1))⟩ := by
  have hopens : WindowOpens w := hw ▸ opens_fixed hoffset hstart.1 hhours.1
  have hcloses : (windowChain w first j).closes = micros (w.closeAt (day + j)) := by
    cases j with
    | zero =>
      rw [Nat.cast_zero, add_zero]
      exact hfirst
    | succ j =>
      rw [chain_fixed hoffset hstart hhours hw hfirst j]
      push_cast
      rw [add_assoc]
  have hnext := endlessWindow_chain first hopens j
  rw [hcloses] at hnext
  obtain ⟨d, hd, hopen, hday⟩ := fixed_window hstart hhours hw hnext
  have heq : d = day + j + 1 := by
    subst hw
    simp only [SendWindow.closeAt, SendWindow.dateOf, fixedZone, micros, secondOf] at hopen hday
    omega
  have hlate : max (micros (w.openAt d)) (micros (w.closeAt (day + j))) = micros (w.openAt d) := by
    rw [heq]
    subst hw
    simp only [SendWindow.openAt, SendWindow.closeAt, fixedZone, micros]
    omega
  rw [hd, hlate, heq]

/-- A start after the first days of year 1 and well before the end of 9999 has room. -/
theorem fits_fixed {n m : ℕ} (hoffset : |offset| < 86400) (hstart : 0 ≤ startHour ∧ startHour ≤ 23)
    (hhours : 1 ≤ windowHours ∧ windowHours ≤ 24) {w : SendWindow}
    (hw : w = ⟨fixedZone offset, startHour, windowHours⟩) {p : Pace} (hp : p.rushTailMinutes = 0)
    {start : ℤ} (hearly : -719157 ≤ w.dateOf start)
    (hlate : (w.dateOf start + (n + m * (n - 1) : ℕ) + 8) * 86400 + longestGap p ≤ maxSecond) :
    FitsCalendar n m w p start := by
  intro first hfirst
  obtain ⟨day, hfirst, -, hday⟩ := fixed_window hstart hhours hw hfirst
  have hcloses : first.closes = micros (w.closeAt day) := by rw [hfirst]
  have habs := abs_lt.mp hoffset
  refine ⟨?_, ?_⟩
  · rw [hp]
    subst hw
    simp only [SendWindow.dateOf, fixedZone, minSecond] at hearly ⊢
    omega
  · rw [chain_fixed hoffset hstart hhours hw hcloses, secondOf_micros]
    generalize ((n + m * (n - 1) : ℕ) : ℤ) = last at hlate ⊢
    subst hw
    simp only [SendWindow.closeAt, fixedZone] at hday hlate ⊢
    omega

/-- A window that runs past midnight has a last moment of its date. -/
theorem lastMoment_fixed (hoffset : |offset| < 86400) (hstart : 0 ≤ startHour ∧ startHour ≤ 23)
    (hhours : 1 ≤ windowHours ∧ windowHours ≤ 24) (hpast : 24 < startHour + windowHours)
    {w : SendWindow} (hw : w = ⟨fixedZone offset, startHour, windowHours⟩) {gap : ℕ}
    (hgap : gap ≤ 1800000000) (day : ℤ) :
    ∃ start first, w.dateOf start = day ∧ endlessWindow w start = some first ∧
      LastMoment w first gap := by
  have hopens : WindowOpens w := hw ▸ opens_fixed hoffset hstart.1 hhours.1
  let start : ℤ := micros ((day + 1) * 86400 - offset) - 1
  have hdate : w.dateOf start = day := by
    subst hw
    simp only [start, SendWindow.dateOf, fixedZone, micros, secondOf]
    omega
  obtain ⟨first, hfirst⟩ := endlessWindow_isSome hopens start
  obtain ⟨d, hd, -, hday⟩ := fixed_window hstart hhours hw hfirst
  have hsame : d = day := by
    rw [hdate] at hday
    subst hw
    simp only [start, SendWindow.closeAt, fixedZone, micros] at hday
    omega
  subst hsame
  have hcloses : first.closes = micros (w.closeAt d) := by rw [hd]
  have hfirstT : first.t = start := by
    rw [hd]
    subst hw
    simp only [start, SendWindow.openAt, fixedZone, micros]
    omega
  have hchain := chain_fixed hoffset hstart hhours hw hcloses
  refine ⟨start, first, hdate, hfirst, fun t hafter hle => ?_, fun j hj t hafter hle => ?_⟩
  · have hentry : entryDate w first 1 = d + 1 := by
      have hzero := hchain 0
      rw [Nat.cast_zero, add_zero, Nat.zero_add] at hzero
      rw [entryDate, entry, hzero]
      subst hw
      simp only [SendWindow.openAt, SendWindow.dateOf, fixedZone, micros, secondOf]
      omega
    rw [hentry, hcloses]
    rw [hfirstT] at hafter hle
    subst hw
    simp only [start, SendWindow.closeAt, SendWindow.dateOf, fixedZone, micros, secondOf] at *
    omega
  · obtain ⟨i, rfl⟩ : ∃ i, j = i + 1 := ⟨j - 1, by omega⟩
    rw [entryDate]
    rw [entry, hchain i] at *
    subst hw
    simp only [SendWindow.openAt, SendWindow.closeAt, SendWindow.dateOf, fixedZone, micros,
      secondOf] at *
    omega

/-- **In a zone with one offset** the condition is exact for every window of a day at most. The
calendar has room for up to 1217333 times, and the senders fit into the half hour after midnight. -/
theorem complete_fixed (hoffset : |offset| < 86400) (hstart : 0 ≤ startHour ∧ startHour ≤ 23)
    (hhours : 1 ≤ windowHours ∧ windowHours ≤ 24) {n count : ℕ} {cap : Option ℕ} (hn : 0 < n)
    (hroom : 3 * n ≤ 3652000) (hcount : 0 < count) (hmany : count < 1800000000)
    (hcap : ∀ k, cap = some k → 1 ≤ k) :
    Complete n 2 count cap ⟨fixedZone offset, startHour, windowHours⟩ ↔ ∀ k, cap = some k →
      n + count * (if startHour + windowHours ≤ 24 then (n - 1) / k else lateMoves (n - 1) k) ≤
        8 * n + 2000 := by
  have hopens := opens_fixed hoffset hstart.1 hhours.1
  have hlate : (-719157 + ((n + 2 * (n - 1) : ℕ) : ℤ) + 8) * 86400 + 1800 ≤ maxSecond := by
    unfold maxSecond
    omega
  by_cases hend : startHour + windowHours ≤ 24
  · simp only [if_pos hend]
    have hdate : SendWindow.dateOf ⟨fixedZone offset, startHour, windowHours⟩
        (micros (-719157 * 86400 - offset)) = -719157 := by
      simp only [SendWindow.dateOf, fixedZone, secondOf_micros]
      omega
    have hfits : FitsCalendar n 2 ⟨fixedZone offset, startHour, windowHours⟩ (stillPace count cap)
        (micros (-719157 * 86400 - offset)) := by
      refine fits_fixed hoffset hstart hhours rfl rfl hdate.ge ?_
      rw [hdate, show longestGap (stillPace count cap) = 0 from rfl]
      omega
    constructor
    · exact fun h k hk => h.still hn hcount hcap hopens ⟨_, hfits⟩ hk
    · intro hrounds
      refine Complete.mono hopens (show 1 ≤ 2 by omega)
        (complete_of_shares hn hcount hcap hstart.2 hopens (shares_fixed hstart.1 hend) fun k hk => ?_)
      rw [Nat.one_mul]
      exact hrounds k hk
  · simp only [if_neg hend]
    have hseconds : lateSeconds count ≤ 1800 := by
      unfold lateSeconds
      omega
    obtain ⟨start, first, hdate, hfirst, hlast⟩ := lastMoment_fixed hoffset hstart hhours
      (not_le.mp hend) rfl (show lateSeconds count * 1000000 ≤ 1800000000 by omega) (-719157)
    refine complete_iff_of_late hn hcount hcap hstart.2 hopens (shares_fixed_late hstart hhours.2)
      (enters_fixed hstart hhours) ⟨start, first, hfirst, hlast, ?_⟩
    refine fits_fixed hoffset hstart hhours rfl rfl hdate.ge ?_
    have hgap : longestGap (latePace count cap) ≤ 1800 := by
      simp only [longestGap, latePace]
      omega
    rw [hdate]
    omega

/-- Nine to one, in UTC. -/
def morning : SendWindow := ⟨fixedZone 0, 9, 4⟩

/-- Ten in the evening to two, in UTC. -/
def evening : SendWindow := ⟨fixedZone 0, 22, 4⟩

/-- The mornings from 1970 on have room for a few. -/
theorem morning_fits {n : ℕ} (hn : n ≤ 4) (count : ℕ) (cap : Option ℕ) :
    FitsCalendar n 1 morning (stillPace count cap) 0 := by
  have hzone : morning = ⟨fixedZone 0, 9, 4⟩ := rfl
  have hdate : morning.dateOf 0 = 0 := by decide
  refine fits_fixed (by decide) (by decide) (by decide) hzone rfl (by decide) ?_
  rw [hdate, show longestGap (stillPace count cap) = 0 from rfl]
  unfold maxSecond
  omega

/-- The evenings from 1970 on have a last moment with room for a few. -/
theorem evening_fits {n count : ℕ} (hn : n ≤ 4) (hcount : lateSeconds count = 1) (cap : Option ℕ) :
    ∃ start first, endlessWindow evening start = some first ∧
      LastMoment evening first (lateSeconds count * 1000000) ∧
      FitsCalendar n 2 evening (latePace count cap) start := by
  have hzone : evening = ⟨fixedZone 0, 22, 4⟩ := rfl
  obtain ⟨start, first, hdate, hfirst, hlast⟩ := lastMoment_fixed (by decide) (by decide)
    (by decide) (by decide) hzone (show lateSeconds count * 1000000 ≤ 1800000000 by omega) 0
  refine ⟨start, first, hfirst, hlast,
    fits_fixed (by decide) (by decide) (by decide) hzone rfl ?_ ?_⟩
  · rw [hdate]
    decide
  · simp only [hdate, longestGap, latePace, hcount, maxSecond]
    omega

end fixed

end Mailman.Analysis
