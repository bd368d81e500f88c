import Mailman.Model.Scheduler

/-!
# The scheduler's refusal rule

A campaign whose launch raises an unexpected error is moved to `failed` when a day has passed
since the first such error that was recorded under its `updated_at`. The streak is read back from
the newest audit row that carries one; the clock and the edits only go up, so it is the first
recorded error that this row names (`streak_eq`). The rule fails in one place: a campaign that
was found not scheduled is refused all the same when it is scheduled and due again at the write
(`refusal_rule_iff`). Whatever the launches and the recording raise, every campaign that a tick
selects is attempted.
-/

set_option autoImplicit false

namespace Mailman.Analysis

open Mailman.Library Mailman.Model

variable {db db' : SchedulerDb} {log : List Handled} {e : Handled} {c c' : ℕ}
  {since : Option Stamp} {at_ : Stamp}

/-! ## The rule -/

/-- The campaign was moved to `failed`. -/
def Moved (e : Handled) : Prop :=
  e.before.map (·.status) ≠ some .failed ∧ e.after.map (·.status) = some .failed

/-- An unexpected error of a campaign that was recorded under an `updated_at`. -/
def recordedUnder (c : ℕ) (since : Option Stamp) (e : Handled) : Bool :=
  e.campaignId = c && e.exc.cls = .unexpected && e.handling = .noted && e.weighed.any (·.2 = since)

/-- The time of the first one. -/
def firstRecorded (log : List Handled) (c : ℕ) (since : Option Stamp) : Option Stamp :=
  (log.find? (recordedUnder c since)).bind (·.weighed.map (·.1))

/-- A day has passed since the first unexpected error recorded under the `updated_at`. -/
def DayOver (log : List Handled) (c : ℕ) (at_ : Stamp) (since : Option Stamp) : Prop :=
  ∃ begun, firstRecorded log c since = some begun ∧ begun + retryGiveUpS ≤ at_

/-- The rule for a launch that raised, after those in the log. A recording that itself raised
writes nothing. -/
def RefusalRule (log : List Handled) (e : Handled) : Prop :=
  match e.exc.cls with
  | .unexpected => e.handling ≠ .unrecorded →
    (Moved e ↔ ∃ at_ since, e.weighed = some (at_, since) ∧ DayOver log e.campaignId at_ since ∧
      ∃ r, e.before = some r ∧ r.selected e.now = true ∧ since = some r.updatedAt)
  | .retryable => ¬ Moved e
  | .refused => e.handling ≠ .unrecorded →
    (Moved e ↔ ∃ r, e.before = some r ∧ r.selected e.now = true)

/-- Every launch that raised met the rule. -/
def AllRules (log : List Handled) : Prop :=
  ∀ k (hk : k < log.length), RefusalRule (log.take k) log[k]

/-- A longer log keeps the rule when its last entry does. -/
theorem allRules_append : AllRules (log ++ [e]) ↔ AllRules log ∧ RefusalRule log e := by
  unfold AllRules
  constructor
  · intro h
    constructor
    · intro k hk
      have hrule := h k (by rw [List.length_append]; omega)
      rwa [List.getElem_append_left hk, List.take_append_of_le_length hk.le] at hrule
    · have hrule := h log.length (by simp)
      simpa using hrule
  · rintro ⟨hlog, he⟩ k hk
    rw [List.length_append, List.length_singleton] at hk
    by_cases hlast : k < log.length
    · rw [List.getElem_append_left hlast, List.take_append_of_le_length hlast.le]
      exact hlog k hlast
    · obtain rfl : k = log.length := by omega
      simpa using he

/-- The step does not race an operator: where a launch that would be tried again was found not
scheduled, the campaign is not scheduled and due again when the refusal is written. -/
def Unraced (s : SchedulerState) : SchedulerEvent → Prop
  | .scheduler _ fails => ∀ c exc todo, s.pc = .refusing c exc none todo →
    exc.cls ≠ .refused → fails = false → ∀ r, s.db.row? c = some r → r.selected s.db.now = false
  | .write _ _ _ | .create _ _ _ | .wait _ => True

/-! ## What is recorded -/

/-- The first record of a longer log is the old one, or the new entry. -/
theorem firstRecorded_append : firstRecorded (log ++ [e]) c since =
    (firstRecorded log c since).or
      (if recordedUnder c since e then e.weighed.map (·.1) else none) := by
  have hweighed : ∀ e' : Handled, recordedUnder c since e' = true → ∃ t, e'.weighed = some t := by
    intro e' he'
    simp only [recordedUnder, Bool.and_eq_true, Option.any_eq_true] at he'
    obtain ⟨-, t, ht, -⟩ := he'
    exact ⟨t, ht⟩
  unfold firstRecorded
  rw [List.find?_append]
  cases hfind : log.find? (recordedUnder c since) with
  | none =>
    rw [Option.none_or, Option.bind_none, Option.none_or, List.find?_singleton]
    split_ifs <;> rfl
  | some e' =>
    obtain ⟨t, ht⟩ := hweighed e' (List.find?_some hfind)
    simp [ht]

/-- A launch that is not noted, or did not raise an unexpected error, does not count. -/
theorem firstRecorded_append_of_ne (he : e.exc.cls ≠ .unexpected ∨ e.handling ≠ .noted) :
    firstRecorded (log ++ [e]) c since = firstRecorded log c since := by
  rw [firstRecorded_append, if_neg, Option.or_none]
  simp only [recordedUnder, Bool.and_eq_true, decide_eq_true_eq]
  rintro ⟨⟨⟨-, hcls⟩, hnoted⟩, -⟩
  rcases he with he | he
  · exact he hcls
  · exact he hnoted

/-- What the audit rows have to do with the errors that were recorded. -/
structure StreakTerms (db : SchedulerDb) (log : List Handled) : Prop where
  rows_le : ∀ r ∈ db.rows, r.updatedAt ≤ db.now
  recorded : ∀ r ∈ db.retries, ∀ begun, r.details.streakStart = some begun →
    firstRecorded log r.campaignId r.details.updatedAt = some begun
  covered : ∀ c since begun, firstRecorded log c since = some begun → ∃ u v last,
    since = some u ∧ db.streakRow c = some last ∧ last.details.updatedAt = some v ∧ u ≤ v
  behind : ∀ c last, db.streakRow c = some last → ∃ v r,
    last.details.updatedAt = some v ∧ db.row? c = some r ∧ v ≤ r.updatedAt

/-- A streak's row is the campaign's and says when the streak began. -/
theorem streakRow_some {last : RetryRow} (h : db.streakRow c = some last) :
    last ∈ db.retries ∧ last.campaignId = c ∧ ∃ begun, last.details.streakStart = some begun := by
  unfold SchedulerDb.streakRow at h
  have hlast := List.find?_some h
  simp only [Bool.and_eq_true, decide_eq_true_eq, Option.isSome_iff_exists] at hlast
  exact ⟨List.mem_reverse.mp (List.mem_of_find?_eq_some h), hlast.1, hlast.2⟩

/-- The streak that is read back starts at the first error recorded under the `updated_at`, or
now when there is none. -/
theorem streak_eq (h : StreakTerms db log) {r : ScheduledRow} (hr : db.row? c = some r) :
    db.streak c at_ =
      ((firstRecorded log c (some r.updatedAt)).getD at_, some r.updatedAt) := by
  unfold SchedulerDb.streak
  rw [hr, Option.map_some]
  cases hlast : db.streakRow c with
  | none =>
    have hnone : firstRecorded log c (some r.updatedAt) = none := by
      by_contra hne
      obtain ⟨begun, hbegun⟩ := Option.ne_none_iff_exists'.mp hne
      obtain ⟨u, v, last, -, hrow, -⟩ := h.covered c _ begun hbegun
      rw [hlast] at hrow
      cases hrow
    rw [hnone]
    rfl
  | some last =>
    obtain ⟨hmem, hcampaign, begun, hbegun⟩ := streakRow_some hlast
    obtain ⟨v, r', hv, hr', hle⟩ := h.behind c last hlast
    rw [hr] at hr'
    cases hr'
    have hfirst := h.recorded last hmem begun hbegun
    obtain ⟨campaignId, ⟨error, streakStart, updatedAt⟩, occurredAt⟩ := last
    dsimp only at hcampaign hbegun hv hfirst
    subst hcampaign hbegun hv
    dsimp only
    by_cases hsame : v = r.updatedAt
    · subst hsame
      rw [if_pos rfl, hfirst]
      rfl
    · rw [if_neg (by simpa using hsame)]
      have hnone : firstRecorded log campaignId (some r.updatedAt) = none := by
        by_contra hne
        obtain ⟨begun', hbegun'⟩ := Option.ne_none_iff_exists'.mp hne
        obtain ⟨u, v', last, hu, hrow, hv', hle'⟩ := h.covered campaignId _ begun' hbegun'
        rw [hlast] at hrow
        cases hrow
        cases hu
        cases hv'
        exact hsame (Nat.le_antisymm hle hle')
      rw [hnone]
      rfl

/-! ## Where the scheduler is -/

/-- The campaigns that the scheduler holds. -/
def pcIds : SchedulerPc → List ℕ
  | .idle => []
  | .attempting todo => todo
  | .raised c _ todo | .clocked c _ _ todo | .noting c _ _ _ todo | .auditing c _ _ _ todo
  | .refusing c _ _ todo => c :: todo

/-- The campaigns that it has not tried to launch. -/
def untried : SchedulerPc → List ℕ
  | .idle => []
  | .attempting todo | .raised _ _ todo | .clocked _ _ _ todo | .noting _ _ _ _ todo
  | .auditing _ _ _ _ todo | .refusing _ _ _ todo => todo

/-- What holds of a retry that is about to be noted. -/
structure NotingTerms (db : SchedulerDb) (log : List Handled) (c : ℕ) (exc : LaunchFailure)
    (at_ : Stamp) (details : RetryDetails) : Prop where
  cls : exc.cls ≠ .refused
  under : ∃ u r, details.updatedAt = some u ∧ db.row? c = some r ∧ u ≤ r.updatedAt ∧
    ∀ last v, db.streakRow c = some last → last.details.updatedAt = some v → v ≤ u
  retryable : exc.cls = .retryable → details.streakStart = none
  unexpected : exc.cls = .unexpected → ¬ DayOver log c at_ details.updatedAt ∧
    details.streakStart = some ((firstRecorded log c details.updatedAt).getD at_)

/-- What holds where the scheduler is. -/
def PcTerms (db : SchedulerDb) (log : List Handled) : SchedulerPc → Prop
  | .idle | .attempting _ | .raised _ _ _ | .refusing _ _ none _ => True
  | .clocked _ exc _ _ => exc.cls ≠ .refused
  | .noting c exc at_ details _ | .auditing c exc at_ details _ =>
    NotingTerms db log c exc at_ details
  | .refusing c exc (some (at_, since)) _ =>
    exc.cls = .unexpected ∧ DayOver log c at_ since ∧ since ≠ none

structure SchedulerTerms (s : SchedulerState) : Prop where
  streak : StreakTerms s.db s.log
  pc : PcTerms s.db s.log s.pc
  present : ∀ c ∈ pcIds s.pc, ∃ r, s.db.row? c = some r

/-! ## Writes to the campaigns -/

/-- Rows are kept and written later, and the retries are the same. -/
structure RowsGrow (db db' : SchedulerDb) : Prop where
  retries : db'.retries = db.retries
  rows : ∀ c r, db.row? c = some r → ∃ r', db'.row? c = some r' ∧ r.updatedAt ≤ r'.updatedAt
  rows_le : ∀ r ∈ db'.rows, r.updatedAt ≤ db'.now

/-- New audit rows leave the streak. -/
theorem streakRow_of_grow (h : RowsGrow db db') : db'.streakRow c = db.streakRow c := by
  unfold SchedulerDb.streakRow
  rw [h.retries]

/-- The terms of the streaks do not depend on new rows. -/
theorem StreakTerms.grow (hdb : StreakTerms db log) (h : RowsGrow db db') : StreakTerms db' log where
  rows_le := h.rows_le
  recorded r hr := hdb.recorded r (h.retries ▸ hr)
  covered c since begun hbegun := by
    rw [streakRow_of_grow h]
    exact hdb.covered c since begun hbegun
  behind c last hlast := by
    rw [streakRow_of_grow h] at hlast
    obtain ⟨v, r, hv, hr, hle⟩ := hdb.behind c last hlast
    obtain ⟨r', hr', hgrow⟩ := h.rows c r hr
    exact ⟨v, r', hv, hr', hle.trans hgrow⟩

/-- The terms of a note do not depend on new rows. -/
theorem NotingTerms.grow {exc : LaunchFailure} {details : RetryDetails}
    (hdb : NotingTerms db log c exc at_ details) (h : RowsGrow db db') :
    NotingTerms db' log c exc at_ details := by
  obtain ⟨u, r, hu, hr, hle, hlast⟩ := hdb.under
  obtain ⟨r', hr', hgrow⟩ := h.rows c r hr
  refine ⟨hdb.cls, ⟨u, r', hu, hr', hle.trans hgrow, ?_⟩, hdb.retryable, hdb.unexpected⟩
  intro last v hrow
  rw [streakRow_of_grow h] at hrow
  exact hlast last v hrow

/-- The terms of a place in the loop do not depend on new rows. -/
theorem PcTerms.grow {pc : SchedulerPc} (hpc : PcTerms db log pc) (h : RowsGrow db db') :
    PcTerms db' log pc := by
  cases pc with
  | noting c exc at_ details todo => exact NotingTerms.grow hpc h
  | auditing c exc at_ details todo => exact NotingTerms.grow hpc h
  | refusing c exc weighed todo =>
    cases weighed with
    | none => trivial
    | some weighed => exact hpc
  | idle => trivial
  | attempting todo => trivial
  | raised c exc todo => trivial
  | clocked c exc at_ todo => exact hpc

/-- The terms of the scheduler do not depend on new rows. -/
theorem SchedulerTerms.grow {s : SchedulerState} (hs : SchedulerTerms s)
    (h : RowsGrow s.db db') : SchedulerTerms { s with db := db' } where
  streak := hs.streak.grow h
  pc := hs.pc.grow h
  present c hc := by
    obtain ⟨r, hr⟩ := hs.present c hc
    obtain ⟨r', hr', -⟩ := h.rows c r hr
    exact ⟨r', hr'⟩

/-- An update of the rows that a condition selects, stamped with the time. -/
theorem rowsGrow_update (hdb : StreakTerms db log) {p : ScheduledRow → Bool}
    {f : ScheduledRow → ScheduledRow} (hrows : db'.rows = updateRows db.rows p f)
    (hid : ∀ r, (f r).id = r.id) (hat : ∀ r, (f r).updatedAt = db.now)
    (hretries : db'.retries = db.retries) (hnow : db'.now = db.now) : RowsGrow db db' where
  retries := hretries
  rows c r hr := by
    unfold SchedulerDb.row? at hr ⊢
    rw [hrows, find?_updateRows (fun r _ _ => by rw [hid]), hr, Option.map_some]
    refine ⟨_, rfl, ?_⟩
    split_ifs
    · rw [hat]
      exact hdb.rows_le r (List.mem_of_find?_eq_some hr)
    · exact Nat.le_refl _
  rows_le r hr := by
    rw [hrows] at hr
    obtain ⟨r', hr', rfl⟩ := mem_updateRows.mp hr
    rw [hnow]
    split_ifs
    · exact (hat r').le
    · exact hdb.rows_le r' hr'

/-- A step of an operator or of the clock. -/
theorem terms_environment {s : SchedulerState} (hs : SchedulerTerms s) {event : SchedulerEvent}
    (hevent : ∀ raises fails, event ≠ .scheduler raises fails) : SchedulerTerms (s.step event) := by
  cases event with
  | scheduler raises fails => exact absurd rfl (hevent raises fails)
  | write campaignId status scheduledFor =>
    apply hs.grow
    exact rowsGrow_update hs.streak rfl (fun _ => rfl) (fun _ => rfl) rfl rfl
  | create campaignId status scheduledFor =>
    simp only [SchedulerState.step]
    split_ifs with htaken
    · exact hs
    · apply hs.grow
      refine ⟨rfl, ?_, ?_⟩
      · intro c r hr
        refine ⟨r, ?_, Nat.le_refl _⟩
        unfold SchedulerDb.row? at hr ⊢
        rw [List.find?_append, hr, Option.some_or]
      · intro r hr
        rcases List.mem_append.mp hr with hr | hr
        · exact hs.streak.rows_le r hr
        · rw [List.mem_singleton.mp hr]
  | wait seconds =>
    apply hs.grow
    refine ⟨rfl, fun c r hr => ⟨r, hr, Nat.le_refl _⟩, ?_⟩
    intro r hr
    exact (hs.streak.rows_le r hr).trans (Nat.le_add_right _ _)

/-! ## The end of an `except` branch -/

section handled

variable {s : SchedulerState} {exc : LaunchFailure} {todo : List ℕ}
  {weighed : Option (Stamp × Option Stamp)} {handling : Handling}

/-- What is logged at the end of the branch. -/
def logged (s : SchedulerState) (c : ℕ) (exc : LaunchFailure)
    (weighed : Option (Stamp × Option Stamp)) (handling : Handling) (db : SchedulerDb) : Handled :=
  { campaignId := c, exc, weighed, handling, now := s.db.now, before := s.db.row? c
    after := db.row? c }

/-- What handling a failure leaves. -/
theorem handled_eq : s.handled c exc weighed handling db todo =
    { s with db, pc := .attempting todo
             log := s.log ++ [logged s c exc weighed handling db] } := rfl

/-- Where the row is the same before and after, nothing was moved. -/
theorem not_moved (h : e.after = e.before) : ¬ Moved e := by
  rintro ⟨hbefore, hafter⟩
  rw [h] at hafter
  exact hbefore hafter

/-- A branch that ends without a recorded error. -/
theorem terms_handled (hdb : StreakTerms db s.log) (hrows : ∀ c ∈ todo, ∃ r, db.row? c = some r)
    (hnot : exc.cls ≠ .unexpected ∨ handling ≠ .noted) :
    SchedulerTerms (s.handled c exc weighed handling db todo) := by
  have hfirst : ∀ c' since, firstRecorded (s.log ++ [logged s c exc weighed handling db]) c' since =
      firstRecorded s.log c' since := fun c' since => firstRecorded_append_of_ne hnot
  refine ⟨⟨hdb.rows_le, ?_, ?_, hdb.behind⟩, trivial, hrows⟩
  · intro r hr begun hbegun
    rw [handled_eq, hfirst]
    exact hdb.recorded r hr begun hbegun
  · intro c' since begun hbegun
    rw [handled_eq, hfirst] at hbegun
    exact hdb.covered c' since begun hbegun

/-- An unexpected error that is noted leaves the earlier ones as they are, and counts under its
own `updated_at` when it is the first there. -/
theorem firstRecorded_noted (hcls : exc.cls = .unexpected) {details : RetryDetails} {c' : ℕ} :
    firstRecorded (s.log ++ [logged s c exc (some (at_, details.updatedAt)) .noted db]) c' since =
      (firstRecorded s.log c' since).or
        (if c = c' ∧ details.updatedAt = since then some at_ else none) := by
  have hcounts : recordedUnder c' since
      (logged s c exc (some (at_, details.updatedAt)) .noted db) = true ↔
        c = c' ∧ details.updatedAt = since := by
    show (decide (c = c') && decide (exc.cls = .unexpected) && decide (Handling.noted = .noted) &&
      decide (details.updatedAt = since)) = true ↔ _
    simp [hcls]
  rw [firstRecorded_append, if_congr hcounts rfl rfl]
  rfl

/-- The newest streak row after a retry was audited. -/
theorem streakRow_audit {details : RetryDetails} : (db.auditRetry c details).streakRow c' =
    if c = c' ∧ details.streakStart.isSome = true then some ⟨c, details, db.now⟩
    else db.streakRow c' := by
  unfold SchedulerDb.streakRow SchedulerDb.auditRetry
  rw [List.reverse_append, List.reverse_singleton, List.singleton_append, List.find?_cons]
  by_cases hrow : c = c' ∧ details.streakStart.isSome = true
  · simp [hrow]
  · rw [if_neg hrow]
    have hfalse : (decide (c = c') && details.streakStart.isSome) = false := by
      simpa using hrow
    rw [hfalse]

/-- A row without a `streak_start` neither starts a streak nor ends one. -/
theorem terms_audit_retryable {details : RetryDetails} (hs : StreakTerms db log)
    (hnone : details.streakStart = none) : StreakTerms (db.auditRetry c details) log := by
  have hrow : ∀ c', (db.auditRetry c details).streakRow c' = db.streakRow c' := by
    intro c'
    rw [streakRow_audit, if_neg]
    simp [hnone]
  refine ⟨hs.rows_le, ?_, ?_, ?_⟩
  · intro r hr begun hbegun
    rcases List.mem_append.mp hr with hr | hr
    · exact hs.recorded r hr begun hbegun
    · rw [List.mem_singleton.mp hr] at hbegun
      simp [hnone] at hbegun
  · intro c' since begun hbegun
    rw [hrow]
    exact hs.covered c' since begun hbegun
  · intro c' last hlast
    rw [hrow] at hlast
    exact hs.behind c' last hlast

/-- The row of an unexpected error carries the streak from then on. -/
theorem terms_audit_unexpected {details : RetryDetails} (hs : StreakTerms s.db s.log)
    (hn : NotingTerms s.db s.log c exc at_ details) (hcls : exc.cls = .unexpected) :
    StreakTerms (s.db.auditRetry c details)
      (s.log ++ [logged s c exc (some (at_, details.updatedAt)) .noted db]) := by
  obtain ⟨u, r, hu, hr, hle, hlast⟩ := hn.under
  have hstart := (hn.unexpected hcls).2
  have hrow : ∀ c', (s.db.auditRetry c details).streakRow c' =
      if c = c' then some ⟨c, details, s.db.now⟩ else s.db.streakRow c' := by
    intro c'
    rw [streakRow_audit, hstart]
    simp
  refine ⟨hs.rows_le, ?_, ?_, ?_⟩
  · intro r' hr' begun hbegun
    rw [firstRecorded_noted hcls]
    rcases List.mem_append.mp hr' with hr' | hr'
    · rw [hs.recorded r' hr' begun hbegun]
      rfl
    · rw [List.mem_singleton.mp hr'] at hbegun ⊢
      dsimp only at hbegun ⊢
      rw [hstart] at hbegun
      rw [if_pos ⟨rfl, rfl⟩, ← hbegun]
      cases firstRecorded s.log c details.updatedAt <;> rfl
  · intro c' since begun hbegun
    rw [firstRecorded_noted hcls] at hbegun
    rw [hrow]
    by_cases hc : c = c'
    · subst hc
      rw [if_pos rfl]
      cases hbefore : firstRecorded s.log c since with
      | some begun' =>
        obtain ⟨u', v, last, hu', hprev, hv, hle'⟩ := hs.covered c since begun' hbefore
        exact ⟨u', u, _, hu', rfl, hu, hle'.trans (hlast last v hprev hv)⟩
      | none =>
        rw [hbefore, Option.none_or] at hbegun
        split_ifs at hbegun with hnew
        exact ⟨u, u, _, by rw [← hnew.2, hu], rfl, hu, Nat.le_refl _⟩
    · rw [if_neg hc]
      rw [if_neg (fun h => hc h.1), Option.or_none] at hbegun
      exact hs.covered c' since begun hbegun
  · intro c' last hprev
    rw [hrow] at hprev
    split_ifs at hprev with hc
    · subst hc
      cases hprev
      exact ⟨u, r, hu, hr, hle⟩
    · exact hs.behind c' last hprev

/-- A retry that is noted, in a row of its own or in one that is there. -/
theorem terms_noted {details : RetryDetails} (hs : StreakTerms s.db s.log)
    (hn : NotingTerms s.db s.log c exc at_ details) (hrows : ∀ c ∈ todo, ∃ r, s.db.row? c = some r)
    (hdb : (db = s.db ∧ s.db.retrySeen c details = true) ∨ db = s.db.auditRetry c details) :
    SchedulerTerms (s.handled c exc (some (at_, details.updatedAt)) .noted db todo) := by
  cases hcls : exc.cls with
  | refused => exact absurd hcls hn.cls
  | retryable =>
    have hne : exc.cls ≠ .unexpected := by simp [hcls]
    rcases hdb with ⟨rfl, -⟩ | rfl
    · exact terms_handled hs hrows (Or.inl hne)
    · exact terms_handled (terms_audit_retryable hs (hn.retryable hcls)) hrows (Or.inl hne)
  | unexpected =>
    rcases hdb with ⟨rfl, hseen⟩ | rfl
    · -- the row that is there says that an earlier error counts already
      simp only [SchedulerDb.retrySeen, List.any_eq_true, Bool.and_eq_true, decide_eq_true_eq] at hseen
      obtain ⟨r, hr, ⟨hcampaign, hdetails⟩, -⟩ := hseen
      have hfirst := hs.recorded r hr _ (by rw [hdetails, (hn.unexpected hcls).2])
      rw [hcampaign, hdetails] at hfirst
      have hsame : ∀ c' since, firstRecorded (s.log ++
          [logged s c exc (some (at_, details.updatedAt)) .noted s.db]) c' since =
            firstRecorded s.log c' since := by
        intro c' since
        rw [firstRecorded_noted hcls]
        by_cases hnew : c = c' ∧ details.updatedAt = since
        · obtain ⟨rfl, rfl⟩ := hnew
          rw [hfirst]
          rfl
        · rw [if_neg hnew, Option.or_none]
      refine ⟨⟨hs.rows_le, ?_, ?_, hs.behind⟩, trivial, hrows⟩
      · intro r' hr' begun hbegun
        rw [handled_eq, hsame]
        exact hs.recorded r' hr' begun hbegun
      · intro c' since begun hbegun
        rw [handled_eq, hsame] at hbegun
        exact hs.covered c' since begun hbegun
    · exact ⟨terms_audit_unexpected hs hn hcls, trivial, hrows⟩

/-- A refusal keeps the streaks. -/
theorem terms_refused (hs : StreakTerms s.db s.log) (error : String)
    (hrows : ∀ c ∈ todo, ∃ r, s.db.row? c = some r) :
    SchedulerTerms (s.handled c exc weighed .refused (s.db.refuseCampaign c error since).1 todo) := by
  have hgrow : RowsGrow s.db (s.db.refuseCampaign c error since).1 :=
    rowsGrow_update hs rfl (fun _ => rfl) (fun _ => rfl) rfl rfl
  apply terms_handled (hs.grow hgrow) _ (Or.inr (by simp))
  intro c' hc'
  obtain ⟨r, hr⟩ := hrows c' hc'
  obtain ⟨r', hr', -⟩ := hgrow.rows c' r hr
  exact ⟨r', hr'⟩

/-- A refusal moves the campaign exactly when its row meets the guards of the update. -/
theorem moved_refused {error : String} :
    Moved (logged s c exc weighed .refused (s.db.refuseCampaign c error since).1) ↔
      ∃ r, s.db.row? c = some r ∧ r.selected s.db.now = true ∧
        since.all (r.updatedAt = ·) = true := by
  have hafter : (s.db.refuseCampaign c error since).1.row? c = (s.db.row? c).map fun r =>
      if s.db.refusable c since r then { r with status := .failed, updatedAt := s.db.now }
      else r := by
    unfold SchedulerDb.row? SchedulerDb.refuseCampaign
    exact find?_updateRows fun r _ _ => rfl
  unfold Moved logged
  dsimp only
  rw [hafter]
  cases hrow : s.db.row? c with
  | none => simp
  | some r =>
    have hid : r.id = c := by simpa using List.find?_some hrow
    simp only [Option.map_some, Option.some.injEq, exists_eq_left']
    by_cases hguard : s.db.refusable c since r = true
    · have hparts := hguard
      simp only [SchedulerDb.refusable, Bool.and_eq_true] at hparts
      have hscheduled : r.status = .scheduled := by
        have hselected := hparts.1.2
        simp only [ScheduledRow.selected, Bool.and_eq_true, decide_eq_true_eq] at hselected
        exact hselected.1
      simp [hguard, hscheduled, hparts.1.2, hparts.2]
    · rw [if_neg hguard]
      have hno : ¬ (r.selected s.db.now = true ∧ since.all (r.updatedAt = ·) = true) := by
        rintro ⟨hselected, hsince⟩
        apply hguard
        simp only [SchedulerDb.refusable, hid, hselected, hsince]
        simp
      constructor
      · rintro ⟨hne, heq⟩
        exact absurd (congrArg some heq) hne
      · intro h
        exact absurd h hno

end handled

/-! ## A step of the scheduler -/

section advance

variable {s : SchedulerState} {raises : Option LaunchFailure} {fails : Bool}

/-- Going on in the loop keeps the terms. -/
theorem terms_advance (hs : SchedulerTerms s) : SchedulerTerms (s.advance raises fails) := by
  obtain ⟨db, pc, selected, attempted, log⟩ := s
  obtain ⟨hstreak, hpc, hpresent⟩ := hs
  dsimp only at hstreak hpc hpresent
  cases pc with
  | idle =>
    simp only [SchedulerState.advance]
    split_ifs
    · exact ⟨hstreak, hpc, hpresent⟩
    · refine ⟨hstreak, trivial, ?_⟩
      intro c hc
      have hc : c ∈ db.dueCampaigns := hc
      unfold SchedulerDb.dueCampaigns at hc
      rw [List.mem_insertionSort, List.mem_map] at hc
      obtain ⟨r, hr, rfl⟩ := hc
      have hfound : (db.rows.find? (·.id = r.id)).isSome = true := by
        rw [List.find?_isSome]
        exact ⟨r, List.mem_of_mem_filter hr, by simp⟩
      exact Option.isSome_iff_exists.mp hfound
  | attempting todo =>
    cases todo with
    | nil => exact ⟨hstreak, trivial, by simp [SchedulerState.advance, pcIds]⟩
    | cons c todo =>
      cases raises with
      | none => exact ⟨hstreak, trivial, fun c' hc' => hpresent c' (List.mem_cons_of_mem _ hc')⟩
      | some exc => exact ⟨hstreak, trivial, hpresent⟩
  | raised c exc todo =>
    have hrows : ∀ c' ∈ todo, ∃ r, db.row? c' = some r := fun c' hc' =>
      hpresent c' (List.mem_cons_of_mem _ hc')
    simp only [SchedulerState.advance]
    split_ifs with hcls hfails hstill
    · exact ⟨hstreak, trivial, hpresent⟩
    · exact terms_handled hstreak hrows (Or.inr (by simp))
    · exact ⟨hstreak, hcls, hpresent⟩
    · exact ⟨hstreak, trivial, hpresent⟩
  | clocked c exc at_ todo =>
    have hrows : ∀ c' ∈ todo, ∃ r, db.row? c' = some r := fun c' hc' =>
      hpresent c' (List.mem_cons_of_mem _ hc')
    obtain ⟨r, hr⟩ := hpresent c (by simp [pcIds])
    have hunder : ∃ u r', some r.updatedAt = some u ∧ db.row? c = some r' ∧ u ≤ r'.updatedAt ∧
        ∀ last v, db.streakRow c = some last → last.details.updatedAt = some v → v ≤ u := by
      refine ⟨r.updatedAt, r, rfl, hr, Nat.le_refl _, ?_⟩
      intro last v hlast hv
      obtain ⟨v', r', hv', hr', hle⟩ := hstreak.behind c last hlast
      rw [hv] at hv'
      rw [hr] at hr'
      cases hv'
      cases hr'
      exact hle
    simp only [SchedulerState.advance, streak_eq hstreak hr]
    split_ifs with hfails hretry hday
    · exact terms_handled hstreak hrows (Or.inr (by simp))
    · refine ⟨hstreak, ⟨hpc, hunder, fun _ => rfl, ?_⟩, hpresent⟩
      intro hcls
      rw [hretry] at hcls
      cases hcls
    · have hcls : exc.cls = .unexpected := by
        cases hcls : exc.cls with
        | retryable => exact absurd hcls hretry
        | refused => exact absurd hcls hpc
        | unexpected => rfl
      refine ⟨hstreak, ⟨hcls, ?_, by simp⟩, hpresent⟩
      cases hfirst : firstRecorded log c (some r.updatedAt) with
      | some begun =>
        rw [hfirst, Option.getD_some] at hday
        exact ⟨begun, hfirst, hday⟩
      | none =>
        rw [hfirst, Option.getD_none] at hday
        exact absurd hday (by simp [retryGiveUpS])
    · refine ⟨hstreak, ⟨hpc, hunder, fun hcls => absurd hcls hretry, ?_⟩, hpresent⟩
      intro _
      refine ⟨?_, rfl⟩
      rintro ⟨begun, hfirst, hover⟩
      dsimp only at hfirst
      rw [hfirst, Option.getD_some] at hday
      exact hday hover
  | noting c exc at_ details todo =>
    have hrows : ∀ c' ∈ todo, ∃ r, db.row? c' = some r := fun c' hc' =>
      hpresent c' (List.mem_cons_of_mem _ hc')
    simp only [SchedulerState.advance]
    split_ifs with hfails hseen
    · exact terms_handled hstreak hrows (Or.inr (by simp))
    · exact terms_noted hstreak hpc hrows (Or.inl ⟨rfl, hseen⟩)
    · exact ⟨hstreak, hpc, hpresent⟩
  | auditing c exc at_ details todo =>
    have hrows : ∀ c' ∈ todo, ∃ r, db.row? c' = some r := fun c' hc' =>
      hpresent c' (List.mem_cons_of_mem _ hc')
    simp only [SchedulerState.advance]
    split_ifs with hfails
    · exact terms_handled hstreak hrows (Or.inr (by simp))
    · exact terms_noted hstreak hpc hrows (Or.inr rfl)
  | refusing c exc weighed todo =>
    have hrows : ∀ c' ∈ todo, ∃ r, db.row? c' = some r := fun c' hc' =>
      hpresent c' (List.mem_cons_of_mem _ hc')
    simp only [SchedulerState.advance]
    split_ifs with hfails
    · exact terms_handled hstreak hrows (Or.inr (by simp))
    · exact terms_refused hstreak exc.reason hrows

/-- A branch that moves nothing meets the rule, unless a day was over when it noted the error. -/
theorem rule_of_not_moved (hmoved : ¬ Moved e) (hrefused : e.exc.cls = .refused →
      e.handling = .unrecorded)
    (hday : e.exc.cls = .unexpected → e.handling ≠ .unrecorded → ∀ at_ since,
      e.weighed = some (at_, since) → ¬ DayOver log e.campaignId at_ since) : RefusalRule log e := by
  unfold RefusalRule
  cases hcls : e.exc.cls with
  | unexpected =>
    intro hrecorded
    refine iff_of_false hmoved ?_
    rintro ⟨at_, since, hweighed, hover, -⟩
    exact hday hcls hrecorded at_ since hweighed hover
  | retryable => exact hmoved
  | refused =>
    intro hrecorded
    exact absurd (hrefused hcls) hrecorded

/-- A step of the scheduler meets the rule exactly when it is not raced. -/
theorem rules_advance (hs : SchedulerTerms s) : AllRules (s.advance raises fails).log ↔
    AllRules s.log ∧ Unraced s (.scheduler raises fails) := by
  obtain ⟨db, pc, selected, attempted, log⟩ := s
  obtain ⟨hstreak, hpc, hpresent⟩ := hs
  dsimp only at hstreak hpc hpresent
  have hclear : ∀ pc, (∀ c exc todo, pc ≠ .refusing c exc none todo) →
      Unraced ⟨db, pc, selected, attempted, log⟩ (.scheduler raises fails) := by
    intro pc hne c exc todo heq
    exact absurd heq (hne c exc todo)
  have hunrecorded : ∀ c exc weighed todo (s' : SchedulerState), s'.log = log →
      (AllRules (s'.handled c exc weighed .unrecorded s'.db todo).log ↔ AllRules log) := by
    intro c exc weighed todo s' hlog
    rw [handled_eq, allRules_append, hlog]
    refine and_iff_left (rule_of_not_moved (not_moved rfl) (fun _ => rfl) ?_)
    intro _ hne
    exact absurd rfl hne
  cases pc with
  | idle =>
    have hun := hclear .idle (by simp)
    simp only [SchedulerState.advance]
    split_ifs <;> simp [hun]
  | attempting todo =>
    have hun := hclear (.attempting todo) (by simp)
    cases todo with
    | nil => simp [SchedulerState.advance, hun]
    | cons c todo => cases raises <;> simp [SchedulerState.advance, hun]
  | raised c exc todo =>
    have hun := hclear (.raised c exc todo) (by simp)
    simp only [SchedulerState.advance]
    split_ifs with hcls hfails hstill
    · simp [hun]
    · rw [hunrecorded _ _ _ _ _ rfl]
      simp [hun]
    · simp [hun]
    · simp [hun]
  | clocked c exc at_ todo =>
    have hun := hclear (.clocked c exc at_ todo) (by simp)
    simp only [SchedulerState.advance]
    split_ifs with hfails hretry hday
    · rw [hunrecorded _ _ _ _ _ rfl]
      simp [hun]
    · simp [hun]
    · simp [hun]
    · simp [hun]
  | noting c exc at_ details todo =>
    have hun := hclear (.noting c exc at_ details todo) (by simp)
    have hn : NotingTerms db log c exc at_ details := hpc
    simp only [SchedulerState.advance]
    split_ifs with hfails hseen
    · rw [hunrecorded _ _ _ _ _ rfl]
      simp [hun]
    · rw [handled_eq, allRules_append]
      refine and_congr_right fun _ => iff_of_true ?_ hun
      apply rule_of_not_moved (not_moved rfl)
      · exact fun hcls => absurd hcls hn.cls
      · intro hcls _ at' since hweighed
        cases hweighed
        exact (hn.unexpected hcls).1
    · simp [hun]
  | auditing c exc at_ details todo =>
    have hun := hclear (.auditing c exc at_ details todo) (by simp)
    have hn : NotingTerms db log c exc at_ details := hpc
    simp only [SchedulerState.advance]
    split_ifs with hfails
    · rw [hunrecorded _ _ _ _ _ rfl]
      simp [hun]
    · rw [handled_eq, allRules_append]
      refine and_congr_right fun _ => iff_of_true ?_ hun
      apply rule_of_not_moved (not_moved rfl)
      · exact fun hcls => absurd hcls hn.cls
      · intro hcls _ at' since hweighed
        cases hweighed
        exact (hn.unexpected hcls).1
  | refusing c exc weighed todo =>
    simp only [SchedulerState.advance]
    split_ifs with hfails
    · rw [hunrecorded _ _ _ _ _ rfl]
      have hun : Unraced ⟨db, .refusing c exc weighed todo, selected, attempted, log⟩
          (.scheduler raises fails) := by
        intro c' exc' todo' _ _ hok
        rw [hfails] at hok
        cases hok
      simp [hun]
    · rw [handled_eq, allRules_append]
      apply and_congr_right
      intro _
      cases weighed with
      | some weighed =>
        obtain ⟨at_, since⟩ := weighed
        have hun := hclear (.refusing c exc (some (at_, since)) todo) (by simp)
        obtain ⟨hcls, hover, hsince⟩ := hpc
        obtain ⟨u, rfl⟩ := Option.ne_none_iff_exists'.mp hsince
        refine iff_of_true ?_ hun
        unfold RefusalRule
        rw [show (logged _ c exc _ _ _).exc.cls = .unexpected from hcls]
        intro _
        rw [moved_refused]
        constructor
        · rintro ⟨r, hr, hselected, hsame⟩
          refine ⟨at_, some u, rfl, hover, r, hr, hselected, ?_⟩
          simpa using Eq.symm (by simpa using hsame)
        · rintro ⟨at', since, hweighed, -, r, hr, hselected, hsame⟩
          cases hweighed
          refine ⟨r, hr, hselected, ?_⟩
          simp only [Option.some.injEq] at hsame
          simp [hsame]
      | none =>
        -- the update was guarded by the selection alone
        have hmoved : Moved (logged ⟨db, .refusing c exc none todo, selected, attempted, log⟩ c exc
            none .refused (db.refuseCampaign c exc.reason none).1) ↔
              ∃ r, db.row? c = some r ∧ r.selected db.now = true := by
          rw [moved_refused]
          simp
        by_cases hcls : exc.cls = .refused
        · have hun : Unraced ⟨db, .refusing c exc none todo, selected, attempted, log⟩
              (.scheduler raises fails) := by
            intro c' exc' todo' heq hne
            cases heq
            exact absurd hcls hne
          refine iff_of_true ?_ hun
          unfold RefusalRule
          rw [show (logged _ c exc _ _ _).exc.cls = .refused from hcls]
          intro _
          exact hmoved
        · have hun : Unraced ⟨db, .refusing c exc none todo, selected, attempted, log⟩
              (.scheduler raises fails) ↔ ¬ ∃ r, db.row? c = some r ∧ r.selected db.now = true := by
            constructor
            · rintro hun ⟨r, hr, hselected⟩
              have hclear := hun c exc todo rfl hcls (by simpa using hfails) r hr
              rw [hselected] at hclear
              cases hclear
            · intro hno c' exc' todo' heq _ _ r hr
              cases heq
              by_contra hselected
              exact hno ⟨r, hr, by simpa using hselected⟩
          rw [hun, ← hmoved]
          constructor
          · intro hrule
            unfold RefusalRule at hrule
            cases hkind : exc.cls with
            | refused => exact absurd hkind hcls
            | retryable =>
              rw [show (logged _ c exc _ _ _).exc.cls = .retryable from hkind] at hrule
              exact hrule
            | unexpected =>
              rw [show (logged _ c exc _ _ _).exc.cls = .unexpected from hkind] at hrule
              intro hmoves
              obtain ⟨at_, since, hweighed, -⟩ := (hrule (by simp [logged])).mp hmoves
              cases hweighed
          · intro hno
            apply rule_of_not_moved hno
            · exact fun hkind => absurd hkind hcls
            · intro _ _ at' since hweighed
              cases hweighed

end advance

/-! ## A run -/

/-- The scheduler's own steps. -/
def isScheduler : SchedulerEvent → Bool
  | .scheduler _ _ => true
  | .write _ _ _ | .create _ _ _ | .wait _ => false

/-- How many steps of the scheduler a tick takes at most from here. -/
def stepsLeft : SchedulerPc → ℕ
  | .idle => 0
  | .attempting todo => 5 * todo.length + 1
  | .raised _ _ todo => 5 * todo.length + 5
  | .clocked _ _ _ todo => 5 * todo.length + 4
  | .noting _ _ _ _ todo => 5 * todo.length + 3
  | .auditing _ _ _ _ todo | .refusing _ _ _ todo => 5 * todo.length + 2

section run

variable {s : SchedulerState} {event : SchedulerEvent} {events : List SchedulerEvent}

/-- A step keeps the terms. -/
theorem terms_step (hs : SchedulerTerms s) : SchedulerTerms (s.step event) := by
  cases event with
  | scheduler raises fails => exact terms_advance hs
  | write campaignId status scheduledFor => exact terms_environment hs (by simp)
  | create campaignId status scheduledFor => exact terms_environment hs (by simp)
  | wait seconds => exact terms_environment hs (by simp)

/-- A step keeps the rule exactly when it does not run into the race. -/
theorem rules_step (hs : SchedulerTerms s) :
    AllRules (s.step event).log ↔ AllRules s.log ∧ Unraced s event := by
  cases event with
  | scheduler raises fails => exact rules_advance hs
  | write campaignId status scheduledFor => simp [SchedulerState.step, Unraced]
  | create campaignId status scheduledFor =>
    simp only [SchedulerState.step, Unraced, and_true]
    split_ifs <;> rfl
  | wait seconds => simp [SchedulerState.step, Unraced]

/-- A step of the scheduler inside a tick brings its end closer; it attempts the campaigns in the
order that they were selected in. -/
theorem advance_within {raises : Option LaunchFailure} {fails : Bool} (hpc : s.pc ≠ .idle) :
    stepsLeft (s.advance raises fails).pc < stepsLeft s.pc ∧
      (s.advance raises fails).selected = s.selected ∧
      (s.advance raises fails).attempted ++ untried (s.advance raises fails).pc =
        s.attempted ++ untried s.pc := by
  obtain ⟨db, pc, selected, attempted, log⟩ := s
  cases pc with
  | idle => exact absurd rfl hpc
  | attempting todo =>
    cases todo with
    | nil => simp [SchedulerState.advance, stepsLeft, untried]
    | cons c todo =>
      cases raises with
      | none => simp [SchedulerState.advance, stepsLeft, untried]
      | some exc =>
        simp [SchedulerState.advance, stepsLeft, untried]
        omega
  | raised c exc todo =>
    simp only [SchedulerState.advance]
    split_ifs <;> simp [SchedulerState.handled, stepsLeft, untried]
  | clocked c exc at_ todo =>
    simp only [SchedulerState.advance]
    split_ifs <;> simp [SchedulerState.handled, stepsLeft, untried]
  | noting c exc at_ details todo =>
    simp only [SchedulerState.advance]
    split_ifs <;> simp [SchedulerState.handled, stepsLeft, untried]
  | auditing c exc at_ details todo =>
    simp only [SchedulerState.advance]
    split_ifs <;> simp [SchedulerState.handled, stepsLeft, untried]
  | refusing c exc weighed todo =>
    simp only [SchedulerState.advance]
    split_ifs <;> simp [SchedulerState.handled, stepsLeft, untried]

/-- The other steps leave the scheduler where it is. -/
theorem step_outside (hevent : isScheduler event = false) : (s.step event).pc = s.pc ∧
    (s.step event).selected = s.selected ∧ (s.step event).attempted = s.attempted := by
  cases event with
  | scheduler raises fails => cases hevent
  | write campaignId status scheduledFor => exact ⟨rfl, rfl, rfl⟩
  | create campaignId status scheduledFor =>
    simp only [SchedulerState.step]
    split_ifs <;> exact ⟨rfl, rfl, rfl⟩
  | wait seconds => exact ⟨rfl, rfl, rfl⟩

/-- A step attempts what was selected, in its order. -/
theorem attempts_step (h : s.selected = s.attempted ++ untried s.pc) :
    (s.step event).selected = (s.step event).attempted ++ untried (s.step event).pc := by
  cases hevent : isScheduler event with
  | false =>
    obtain ⟨hpc, hselected, hattempted⟩ := @step_outside s event hevent
    rw [hpc, hselected, hattempted, h]
  | true =>
    cases event with
    | scheduler raises fails =>
      show (s.advance raises fails).selected = _
      by_cases hpc : s.pc = .idle
      · unfold SchedulerState.step SchedulerState.advance
        rw [hpc]
        dsimp only
        split_ifs
        · rw [h, hpc]
        · rfl
      · obtain ⟨-, hselected, hwaiting⟩ := @advance_within s raises fails hpc
        rw [hselected, h]
        exact hwaiting.symm
    | write campaignId status scheduledFor => cases hevent
    | create campaignId status scheduledFor => cases hevent
    | wait seconds => cases hevent

/-- One event more is one step more. -/
theorem after_succ {k : ℕ} (hk : k < events.length) :
    s.after events (k + 1) = (s.after events k).step events[k] := by
  unfold SchedulerState.after
  rw [List.take_add_one, List.getElem?_eq_getElem hk, Option.toList_some, List.foldl_append]
  rfl

/-- With enough steps of the scheduler a tick ends, with every campaign it selected attempted. -/
theorem tick_ends (k : ℕ) (hk : k ≤ events.length)
    (hsteps : stepsLeft (s.after events k).pc ≤ (events.drop k).countP isScheduler) :
    ∃ j, k ≤ j ∧ j ≤ events.length ∧ (s.after events j).pc = .idle ∧
      (s.after events j).selected = (s.after events k).selected := by
  induction hn : events.length - k generalizing k with
  | zero =>
    have hnil : events.drop k = [] := List.drop_eq_nil_of_le (by omega)
    rw [hnil, List.countP_nil] at hsteps
    refine ⟨k, Nat.le_refl k, hk, ?_, rfl⟩
    cases hpc : (s.after events k).pc with
    | idle => rfl
    | _ =>
      rw [hpc] at hsteps
      simp [stepsLeft] at hsteps
  | succ n ih =>
    by_cases hidle : (s.after events k).pc = .idle
    · exact ⟨k, Nat.le_refl k, hk, hidle, rfl⟩
    · have hlt : k < events.length := by omega
      rw [List.drop_eq_getElem_cons hlt, List.countP_cons] at hsteps
      have hstep : stepsLeft (s.after events (k + 1)).pc ≤
          (events.drop (k + 1)).countP isScheduler ∧
            (s.after events (k + 1)).selected = (s.after events k).selected := by
        rw [after_succ hlt]
        cases hevent : isScheduler events[k] with
        | false =>
          obtain ⟨hpc, hselected, -⟩ := @step_outside (s.after events k) events[k] hevent
          rw [hpc, hselected]
          rw [hevent] at hsteps
          exact ⟨by simpa using hsteps, rfl⟩
        | true =>
          rw [hevent] at hsteps
          cases hat : events[k] with
          | scheduler raises fails =>
            obtain ⟨hleft, hselected, -⟩ := @advance_within (s.after events k) raises fails hidle
            refine ⟨?_, hselected⟩
            simp only [if_true] at hsteps
            exact Nat.le_of_lt_succ (hleft.trans_le hsteps)
          | write campaignId status scheduledFor =>
            rw [hat] at hevent
            cases hevent
          | create campaignId status scheduledFor =>
            rw [hat] at hevent
            cases hevent
          | wait seconds =>
            rw [hat] at hevent
            cases hevent
      obtain ⟨j, hkj, hj, hpc, hselected⟩ := ih (k + 1) hlt hstep.1 (by omega)
      exact ⟨j, by omega, hj, hpc, hselected.trans hstep.2⟩

end run

/-- In every run from an empty terminal, every launch that raised met the rule exactly when no
refusal was raced, and no campaign that a tick selects is skipped: those attempted and those that
wait are the selected ones, and every tick comes to its end. -/
theorem refusal_rule_iff (events : List SchedulerEvent) :
    (AllRules (SchedulerState.after {} events events.length).log ↔
      ∀ k (hk : k < events.length), Unraced (SchedulerState.after {} events k) events[k]) ∧
    ∀ k ≤ events.length,
      (SchedulerState.after {} events k).selected =
        (SchedulerState.after {} events k).attempted ++
          untried (SchedulerState.after {} events k).pc ∧
      (stepsLeft (SchedulerState.after {} events k).pc ≤ (events.drop k).countP isScheduler →
        ∃ j, k ≤ j ∧ j ≤ events.length ∧ (SchedulerState.after {} events j).pc = .idle ∧
          (SchedulerState.after {} events j).attempted =
            (SchedulerState.after {} events k).selected) := by
  have hterms : ∀ k ≤ events.length, SchedulerTerms (SchedulerState.after {} events k) := by
    intro k
    induction k with
    | zero =>
      intro _
      refine ⟨⟨?_, ?_, ?_, ?_⟩, trivial, ?_⟩
      · exact fun r hr => absurd hr List.not_mem_nil
      · exact fun r hr => absurd hr List.not_mem_nil
      · intro c since begun hbegun
        cases hbegun
      · intro c last hlast
        cases hlast
      · exact fun c hc => absurd hc List.not_mem_nil
    | succ k ih =>
      intro hk
      rw [after_succ hk]
      exact terms_step (ih (by omega))
  have hrules : ∀ k ≤ events.length, (AllRules (SchedulerState.after {} events k).log ↔
      ∀ i (hi : i < k) (hlen : i < events.length),
        Unraced (SchedulerState.after {} events i) events[i]) := by
    intro k
    induction k with
    | zero =>
      intro _
      refine iff_of_true ?_ (fun i hi => absurd hi (Nat.not_lt_zero i))
      intro i hi
      exact absurd hi (Nat.not_lt_zero i)
    | succ k ih =>
      intro hk
      rw [after_succ hk, rules_step (hterms k (by omega)), ih (by omega)]
      constructor
      · rintro ⟨hbefore, hlast⟩ i hi hlen
        by_cases hik : i = k
        · subst hik
          exact hlast
        · exact hbefore i (by omega) hlen
      · intro h
        exact ⟨fun i hi hlen => h i (by omega) hlen, h k (by omega) hk⟩
  have hattempts : ∀ k ≤ events.length, (SchedulerState.after {} events k).selected =
      (SchedulerState.after {} events k).attempted ++
        untried (SchedulerState.after {} events k).pc := by
    intro k
    induction k with
    | zero => exact fun _ => rfl
    | succ k ih =>
      intro hk
      rw [after_succ hk]
      exact attempts_step (ih (by omega))
  constructor
  · rw [hrules events.length (Nat.le_refl _)]
    exact ⟨fun h i hi => h i hi hi, fun h i hi _ => h i hi⟩
  · intro k hk
    refine ⟨hattempts k hk, ?_⟩
    intro hsteps
    obtain ⟨j, hkj, hj, hpc, hselected⟩ := tick_ends k hk hsteps
    have hall := hattempts j hj
    rw [hpc, hselected] at hall
    refine ⟨j, hkj, hj, hpc, ?_⟩
    simpa [untried] using hall.symm

/-- A campaign that is paused while its launch waits, and put on the schedule again between the
look at its status and the refusal. -/
private def racedRun : List SchedulerEvent :=
  [.create 1 .scheduled (.time 0), .scheduler none false,
    .write 1 .paused (.time 0),
    .scheduler (some ⟨.retryable, "contact(s) are locked", "LaunchRetryable"⟩) false,
    .scheduler none false, .write 1 .tested (.time 0), .write 1 .scheduled (.time 1), .wait 1,
    .scheduler none false]

/-- The `LaunchRetryable` moves it. -/
theorem retryable_moved_by_race :
    ¬ AllRules (SchedulerState.after {} racedRun racedRun.length).log := by
  have hlen : 0 < (SchedulerState.after {} racedRun racedRun.length).log.length := by
    decide +kernel
  have hmoved : ∀ e ∈ (SchedulerState.after {} racedRun racedRun.length).log,
      e.exc.cls = .retryable ∧ Moved e := by
    unfold Moved
    decide +kernel
  intro h
  have hrule := h 0 hlen
  obtain ⟨hcls, hfailed⟩ := hmoved _ (List.getElem_mem hlen)
  unfold RefusalRule at hrule
  rw [hcls] at hrule
  exact hrule hfailed

end Mailman.Analysis
