import Mailman.Interface.WorldTurns
import Mailman.Model.Locks

/-!
# When a contact lock is released

The locks are meant to last until the window of a campaign is over and a pull has completed since
its dispatch. The query of `locked_contacts` looks at the window alone, so a lock lasts as it
should exactly while every window that is over has been followed up by a pull
(`lock_release_iff`). The gate of a launch and `find_conflicts` read the same locks.
-/

set_option autoImplicit false

namespace Mailman.Analysis

open Mailman.Library Mailman.Model Mailman.Interface

variable {Id : Type} {t : Terminal Id} {now : Stamp}

/-! ## What the query reads -/

/-- The recipient's row locks its contact for the campaign: dispatched, not confirmed, inside the
window and not clicked. -/
def Locks (t : Terminal Id) (now : Stamp) (r : Recipient) (c : Campaign) : Prop :=
  t.campaign? r.campaignId = some c ∧ c.dispatchedAt ≠ none ∧ c.unsubsConfirmedAt = none ∧
    c.lockUntil.any (now < ·) ∧ r.clickedAt = none

/-- A row of the locks is a recipient that its campaign locks. -/
theorem lockRow_eq_some {r : Recipient} {row : ℕ × LockEntry} :
    t.lockRow now r = some row ↔ ∃ c, Locks t now r c ∧ row.1 = r.contactId ∧
      row.2.campaignId = c.id ∧ c.lockUntil = some row.2.freeAt := by
  unfold Terminal.lockRow Locks
  cases hcamp : t.campaign? r.campaignId with
  | none => simp
  | some c =>
    cases huntil : c.lockUntil with
    | none => simp [huntil]
    | some lockUntil =>
      simp only [huntil]
      constructor
      · intro hrow
        split_ifs at hrow with hlock
        cases hrow
        obtain ⟨hdispatched, hconfirmed, hwindow, hclicked⟩ := hlock
        refine ⟨c, ⟨rfl, hdispatched, hconfirmed, ?_, hclicked⟩, rfl, rfl, huntil⟩
        simpa [huntil] using hwindow
      · rintro ⟨c', ⟨hc', hdispatched, hconfirmed, hwindow, hclicked⟩, hcontact, hid, hfree⟩
        cases hc'
        rw [huntil] at hwindow hfree
        rw [if_pos ⟨hdispatched, hconfirmed, by simpa using hwindow, hclicked⟩, ← hcontact, ← hid,
          Option.some.inj hfree]

/-- The keys of a dictionary that is filled with `setdefault`. -/
theorem any_setDefault (rows out : List (ℕ × LockEntry)) (k : ℕ) :
    (rows.foldl setDefault out).any (·.1 = k) = (out.any (·.1 = k) || rows.any (·.1 = k)) := by
  induction rows generalizing out with
  | nil => simp
  | cons row rows ih =>
    rw [List.foldl_cons, ih]
    unfold setDefault
    by_cases hin : out.any (·.1 = row.1) = true
    · rw [if_pos hin, List.any_cons]
      by_cases hk : row.1 = k
      · subst hk
        simp [hin]
      · simp [hk]
    · rw [if_neg hin, List.any_append, List.any_cons, List.any_cons, List.any_nil, Bool.or_false,
        Bool.or_assoc]

/-- A contact is reported when some recipient's row locks it for a campaign not excluded. -/
theorem any_lockTable (exclude : Option ℕ) (k : ℕ) :
    (t.lockTable exclude now).any (·.1 = k) = true ↔
      ∃ r ∈ t.recipients, r.contactId = k ∧ ∃ c, Locks t now r c ∧ exclude ≠ some c.id := by
  unfold Terminal.lockTable
  rw [any_setDefault, List.any_nil, Bool.false_or, List.any_eq_true]
  constructor
  · rintro ⟨row, hrow, hk⟩
    obtain ⟨hrow, hexclude⟩ := List.mem_filter.mp hrow
    obtain ⟨r, hr, hrow⟩ := List.mem_filterMap.mp hrow
    obtain ⟨c, hlock, hcontact, hid, -⟩ := lockRow_eq_some.mp hrow
    rw [hid] at hexclude
    rw [hcontact] at hk
    exact ⟨r, hr, by simpa using hk, c, hlock, by simpa using hexclude⟩
  · rintro ⟨r, hr, rfl, c, hlock, hexclude⟩
    obtain ⟨lockUntil, huntil⟩ : ∃ lockUntil, c.lockUntil = some lockUntil := by
      have hwindow := hlock.2.2.2.1
      cases huntil : c.lockUntil with
      | none => simp [huntil] at hwindow
      | some lockUntil => exact ⟨lockUntil, rfl⟩
    refine ⟨(r.contactId, ⟨c.id, lockUntil⟩), List.mem_filter.mpr ⟨?_, by simpa using hexclude⟩,
      by simp⟩
    exact List.mem_filterMap.mpr ⟨r, hr, lockRow_eq_some.mpr ⟨c, hlock, rfl, rfl, huntil⟩⟩

/-- `find_conflicts` finds none exactly when the gate of a launch lets the contacts through. -/
theorem findConflicts_eq_nil_iff (campaignId : ℕ) (contactIds : List ℕ) :
    t.findConflicts campaignId contactIds now = [] ↔
      ∀ k ∈ contactIds, k ∉ t.lockedContacts campaignId now := by
  have hmem : ∀ k, k ∈ t.lockedContacts campaignId now ↔
      (t.lockTable (some campaignId) now).any (·.1 = k) = true := by
    intro k
    rw [any_lockTable]
    unfold Terminal.lockedContacts Locks
    rw [List.mem_map]
    constructor
    · rintro ⟨r, hr, hk⟩
      simp only [List.mem_filter, Bool.and_eq_true, decide_eq_true_eq, Option.any_eq_true] at hr
      obtain ⟨hr, ⟨hclicked, hother⟩, c, hcamp, hlock⟩ := hr
      have hid := campaign?_id hcamp
      refine ⟨r, hr, hk, c, ⟨hcamp, hlock.1.1, hlock.1.2, ?_, hclicked⟩, ?_⟩
      · simpa [Option.any_eq_true] using hlock.2
      · simpa [hid, eq_comm] using hother
    · rintro ⟨r, hr, hk, c, ⟨hcamp, hdispatched, hconfirmed, hwindow, hclicked⟩, hother⟩
      have hid := campaign?_id hcamp
      have hne : r.campaignId ≠ campaignId := by simpa [hid, eq_comm] using hother
      refine ⟨r, ?_, hk⟩
      simp [hr, hcamp, hdispatched, hconfirmed, hwindow, hclicked, hne]
  unfold Terminal.findConflicts
  split_ifs with hnil
  · simp [hnil]
  · dsimp only
    rw [List.filterMap_eq_nil_iff]
    apply forall₂_congr
    intro k _
    rw [hmem, List.find?_eq_none, Bool.not_eq_true, List.any_eq_false]

/-! ## What has happened to a campaign -/

/-- What has happened since the last dispatch of a campaign: a pull has completed, and both the
pull and the end of the window were followed by a call of `confirm_elapsed_locks`. -/
structure SinceDispatch where
  pulled : ℕ → Bool := fun _ => false
  confirmed : ℕ → Bool := fun _ => false

/-- The window of a campaign is over. -/
def windowOver (d : LockDesk Id) (campaignId : ℕ) : Bool :=
  (d.terminal.campaign? campaignId).any fun c => c.lockUntil.any (· ≤ d.now)

/-- An observer of the events. -/
def SinceDispatch.observe (h : SinceDispatch) (d : LockDesk Id) : LockEvent → SinceDispatch
  | .dispatch campaignId =>
    { pulled := fun c => c ≠ campaignId && h.pulled c
      confirmed := fun c => c ≠ campaignId && h.confirmed c }
  | .pull => { h with pulled := fun _ => true }
  | .click _ _ => h
  | .confirm _ => { h with confirmed := fun c => h.confirmed c || (h.pulled c && windowOver d c) }
  | .wait _ => h

/-- The desk after some events, with what the observer has seen. -/
def observed (d : LockDesk Id) (h : SinceDispatch) : List LockEvent → LockDesk Id × SinceDispatch
  | [] => (d, h)
  | e :: events => observed (d.step e) (h.observe d e) events

/-- `locked_contacts` reports the contact. -/
def Reported (d : LockDesk Id) (k : ℕ) : Prop :=
  (d.terminal.lockTable none d.now).any (·.1 = k) = true

/-- The contact of a recipient that has not clicked is reported while the window of its campaign
is not over or no pull has completed since the dispatch, and no more for this campaign once a
confirmation has followed both. -/
def ReleasedByBoth (d : LockDesk Id) (h : SinceDispatch) : Prop :=
  ∀ r ∈ d.terminal.recipients, ∀ c, d.terminal.campaign? r.campaignId = some c →
    c.dispatchedAt ≠ none → r.clickedAt = none →
      (¬ (windowOver d c.id = true ∧ h.pulled c.id = true) → Reported d r.contactId) ∧
      (h.confirmed c.id = true → ¬ Locks d.terminal d.now r c)

/-- Each window that is over has been followed up by a pull, or the contact is locked by another
recipient's row. -/
def WindowsPulled (d : LockDesk Id) (h : SinceDispatch) : Prop :=
  ∀ r ∈ d.terminal.recipients, ∀ c, d.terminal.campaign? r.campaignId = some c →
    c.dispatchedAt ≠ none → r.clickedAt = none → windowOver d c.id = true →
      h.pulled c.id = true ∨ ∃ r' ∈ d.terminal.recipients, r'.contactId = r.contactId ∧
        ∃ c', c'.id ≠ c.id ∧ Locks d.terminal d.now r' c'

/-! ## What every event keeps -/

/-- A dispatched campaign has a window, and it is confirmed only when the window is over. -/
structure WindowTerms (d : LockDesk Id) (h : SinceDispatch) : Prop where
  window : ∀ k c, d.terminal.campaign? k = some c → c.dispatchedAt ≠ none → c.lockUntil ≠ none
  stored : ∀ k c, d.terminal.campaign? k = some c → c.unsubsConfirmedAt ≠ none →
    c.lockUntil.any (· ≤ d.now) = true
  seen : ∀ k c, d.terminal.campaign? k = some c → h.confirmed k = true →
    c.lockUntil.any (· ≤ d.now) = true

variable {d : LockDesk Id} {h : SinceDispatch}

/-- A dispatch keeps the terms. -/
theorem windowTerms_dispatch (hd : WindowTerms d h) (campaignId : ℕ) :
    WindowTerms (d.dispatch campaignId) (h.observe d (.dispatch campaignId)) := by
  have hrow : ∀ k c, (d.dispatch campaignId).terminal.campaign? k = some c →
      ∃ c₀, d.terminal.campaign? k = some c₀ ∧
        ((k ≠ campaignId ∧ c = c₀) ∨ (k = campaignId ∧ c.lockUntil = some (d.now + c₀.lockDurationS) ∧
          c.unsubsConfirmedAt = none)) := by
    intro k c hc
    unfold LockDesk.dispatch at hc
    rw [campaign?_updateCampaign (by intro c; rfl)] at hc
    obtain ⟨c₀, hc₀, rfl⟩ := Option.map_eq_some_iff.mp hc
    refine ⟨c₀, hc₀, ?_⟩
    have hid := campaign?_id hc₀
    by_cases hk : k = campaignId
    · right
      simp [hid, hk]
    · left
      simp [hid, hk]
  refine ⟨?_, ?_, ?_⟩
  · intro k c hc hdispatched
    obtain ⟨c₀, hc₀, ⟨-, rfl⟩ | ⟨-, huntil, -⟩⟩ := hrow k c hc
    · exact hd.window k c hc₀ hdispatched
    · simp [huntil]
  · intro k c hc hconfirmed
    obtain ⟨c₀, hc₀, ⟨-, rfl⟩ | ⟨-, -, hnone⟩⟩ := hrow k c hc
    · exact hd.stored k c hc₀ hconfirmed
    · exact absurd hnone hconfirmed
  · intro k c hc hconfirmed
    obtain ⟨c₀, hc₀, ⟨hne, rfl⟩ | ⟨rfl, -⟩⟩ := hrow k c hc
    · simp only [SinceDispatch.observe, ne_eq, Bool.and_eq_true] at hconfirmed
      exact hd.seen k c hc₀ hconfirmed.2
    · simp [SinceDispatch.observe] at hconfirmed

/-- A confirmation keeps the terms. -/
theorem windowTerms_confirm (hd : WindowTerms d h) (nowText : String) :
    WindowTerms (d.confirmElapsedLocks nowText).1 (h.observe d (.confirm nowText)) := by
  have hrow : ∀ k c, (d.confirmElapsedLocks nowText).1.terminal.campaign? k = some c →
      ∃ c₀, d.terminal.campaign? k = some c₀ ∧ c.lockUntil = c₀.lockUntil ∧
        c.dispatchedAt = c₀.dispatchedAt ∧
        (c.unsubsConfirmedAt = c₀.unsubsConfirmedAt ∨ d.elapsed c₀ = true) := by
    intro k c hc
    unfold LockDesk.confirmElapsedLocks Terminal.campaign? at hc
    dsimp only at hc
    rw [find?_updateRows (by intro c _ _; rfl)] at hc
    obtain ⟨c₀, hc₀, rfl⟩ := Option.map_eq_some_iff.mp hc
    refine ⟨c₀, hc₀, ?_⟩
    split_ifs with helapsed
    · exact ⟨rfl, rfl, Or.inr helapsed⟩
    · exact ⟨rfl, rfl, Or.inl rfl⟩
  refine ⟨?_, ?_, ?_⟩
  · intro k c hc hdispatched
    obtain ⟨c₀, hc₀, huntil, hat, -⟩ := hrow k c hc
    rw [huntil]
    exact hd.window k c₀ hc₀ (hat ▸ hdispatched)
  · intro k c hc hconfirmed
    obtain ⟨c₀, hc₀, huntil, -, hstored | helapsed⟩ := hrow k c hc
    · rw [huntil]
      exact hd.stored k c₀ hc₀ (hstored ▸ hconfirmed)
    · rw [huntil]
      simp only [LockDesk.elapsed, Bool.and_eq_true] at helapsed
      exact helapsed.1.2
  · intro k c hc hconfirmed
    obtain ⟨c₀, hc₀, huntil, -⟩ := hrow k c hc
    rw [huntil]
    simp only [SinceDispatch.observe, Bool.or_eq_true, Bool.and_eq_true] at hconfirmed
    rcases hconfirmed with hconfirmed | ⟨-, hover⟩
    · exact hd.seen k c₀ hc₀ hconfirmed
    · simp only [windowOver, hc₀, Option.any_some] at hover
      exact hover

/-- Every event keeps the terms. -/
theorem windowTerms_step (hd : WindowTerms d h) (e : LockEvent) :
    WindowTerms (d.step e) (h.observe d e) := by
  cases e with
  | dispatch campaignId => exact windowTerms_dispatch hd campaignId
  | pull => exact ⟨hd.window, hd.stored, hd.seen⟩
  | click recipientId nowIso => exact ⟨hd.window, hd.stored, hd.seen⟩
  | confirm nowText => exact windowTerms_confirm hd nowText
  | wait seconds =>
    have hlater : ∀ u : Option Stamp, u.any (· ≤ d.now) = true →
        u.any (· ≤ d.now + seconds) = true := by
      intro u hu
      cases u with
      | none => exact hu
      | some u =>
        simp only [Option.any_some, decide_eq_true_eq] at hu ⊢
        exact Nat.le_add_right_of_le hu
    exact ⟨hd.window, fun k c hc hconfirmed => hlater _ (hd.stored k c hc hconfirmed),
      fun k c hc hconfirmed => hlater _ (hd.seen k c hc hconfirmed)⟩

/-- Every run keeps the terms. -/
theorem windowTerms_observed (hd : WindowTerms d h) (events : List LockEvent) :
    WindowTerms (observed d h events).1 (observed d h events).2 := by
  induction events generalizing d h with
  | nil => exact hd
  | cons e events ih => exact ih (windowTerms_step hd e)

/-! ## The release -/

/-- In a state with these terms the locks are released as they should be exactly when each
window that is over has been followed up by a pull. -/
theorem releasedByBoth_iff (hd : WindowTerms d h) : ReleasedByBoth d h ↔ WindowsPulled d h := by
  have hreported : ∀ k, Reported d k ↔
      ∃ r ∈ d.terminal.recipients, r.contactId = k ∧ ∃ c, Locks d.terminal d.now r c := by
    intro k
    unfold Reported
    rw [any_lockTable]
    simp
  have hover : ∀ k c, d.terminal.campaign? k = some c →
      (windowOver d c.id = true ↔ c.lockUntil.any (· ≤ d.now) = true) := by
    intro k c hc
    have hid := campaign?_id hc
    unfold windowOver
    rw [hid, hc, Option.any_some]
  have hapart : ∀ r c, Locks d.terminal d.now r c → windowOver d c.id ≠ true := by
    intro r c hlock hover'
    rw [hover _ _ hlock.1] at hover'
    have hwindow := hlock.2.2.2.1
    cases huntil : c.lockUntil with
    | none => simp [huntil] at hwindow
    | some lockUntil =>
      rw [huntil] at hwindow hover'
      simp only [Option.any_some, decide_eq_true_eq] at hwindow hover'
      exact absurd hwindow (Nat.not_lt.mpr hover')
  unfold ReleasedByBoth WindowsPulled
  constructor
  · intro hreleased r hr c hc hdispatched hclicked hwindow
    by_cases hpulled : h.pulled c.id = true
    · exact Or.inl hpulled
    · right
      have hcontact := (hreleased r hr c hc hdispatched hclicked).1 fun hboth => hpulled hboth.2
      obtain ⟨r', hr', hsame, c', hlock⟩ := (hreported _).mp hcontact
      refine ⟨r', hr', hsame, c', ?_, hlock⟩
      intro heq
      apply hapart r' c' hlock
      rw [heq]
      exact hwindow
  · intro hpulled r hr c hc hdispatched hclicked
    have hid := campaign?_id hc
    constructor
    · intro hboth
      rw [hreported]
      by_cases hwindow : windowOver d c.id = true
      · rcases hpulled r hr c hc hdispatched hclicked hwindow with hpull | hother
        · exact absurd ⟨hwindow, hpull⟩ hboth
        · obtain ⟨r', hr', hsame, c', -, hlock⟩ := hother
          exact ⟨r', hr', hsame, c', hlock⟩
      · have hopen : c.lockUntil.any (d.now < ·) = true := by
          rw [hover _ _ hc] at hwindow
          cases huntil : c.lockUntil with
          | none => exact absurd huntil (hd.window _ c hc hdispatched)
          | some lockUntil =>
            rw [huntil] at hwindow
            simp only [Option.any_some, decide_eq_true_eq] at hwindow ⊢
            exact Nat.lt_of_not_le hwindow
        refine ⟨r, hr, rfl, c, hc, hdispatched, ?_, hopen, hclicked⟩
        by_contra hconfirmed
        exact hwindow ((hover _ _ hc).mpr (hd.stored _ c hc hconfirmed))
    · intro hconfirmed hlock
      apply hapart r c hlock
      rw [hover _ _ hc]
      rw [hid] at hconfirmed
      exact hd.seen _ c hc hconfirmed

/-- In every state of a run that starts before any dispatch, the locks are released by both
conditions exactly when each window that is over has been followed up by a pull. -/
theorem lock_release_iff (start : LockDesk Id)
    (hstart : ∀ c ∈ start.terminal.campaigns, c.dispatchedAt = none ∧ c.unsubsConfirmedAt = none)
    (events : List LockEvent) :
    ReleasedByBoth (observed start {} events).1 (observed start {} events).2 ↔
      WindowsPulled (observed start {} events).1 (observed start {} events).2 := by
  apply releasedByBoth_iff
  apply windowTerms_observed
  have hnone : ∀ k c, start.terminal.campaign? k = some c →
      c.dispatchedAt = none ∧ c.unsubsConfirmedAt = none := fun k c hc =>
    hstart c (List.mem_of_find?_eq_some hc)
  refine ⟨?_, ?_, ?_⟩
  · intro k c hc hdispatched
    exact absurd (hnone k c hc).1 hdispatched
  · intro k c hc hconfirmed
    exact absurd (hnone k c hc).2 hconfirmed
  · intro k c hc hconfirmed
    cases hconfirmed

/-- A terminal with one campaign to one contact. -/
private def lockStart : LockDesk ℕ :=
  { terminal :=
      { campaigns := [{ id := 1, createdAt := "t", templateId := 1, kind := .promotional }]
        recipients := [{ id := 1, campaignId := 1, contactId := 7 }] } }

/-- A pull inside the window, the window's end, another pull and the confirmation. -/
private def pulledDay : List LockEvent :=
  [.dispatch 1, .wait 3600, .pull, .wait 82800, .pull, .confirm "t"]

/-- After the window and the second pull the contact is released. -/
theorem lock_release_dispatched :
    ReleasedByBoth (observed lockStart {} pulledDay).1 (observed lockStart {} pulledDay).2 := by
  apply (lock_release_iff lockStart (by decide) pulledDay).mpr
  intro r hr c hc _ _ _
  left
  have hids : ∀ c ∈ (observed lockStart {} pulledDay).1.terminal.campaigns, c.id = 1 := by decide
  rw [hids c (List.mem_of_find?_eq_some hc)]
  decide

/-- A day after the dispatch the lock is gone, though no pull has completed. -/
theorem lock_released_unpulled :
    ¬ ReleasedByBoth (observed lockStart {} [.dispatch 1, .wait 86400]).1
      (observed lockStart {} [.dispatch 1, .wait 86400]).2 := by
  intro hreleased
  have hrecipient := hreleased { id := 1, campaignId := 1, contactId := 7 } (by decide) _ rfl
    (by decide) rfl
  have hcontact := hrecipient.1 (by decide)
  exact absurd hcontact (by unfold Reported; decide)

end Mailman.Analysis
