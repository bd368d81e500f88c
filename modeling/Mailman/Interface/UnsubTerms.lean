import Mailman.Model.UnsubLog

/-!
# What the unsubscribe log owes to a terminal

A cursor that only moves forward is a promise that nothing lands behind it. `NothingBehind` is that
promise for one step: a log row lands behind what has been served only if the terminal blocks
its hash already, no query passes over a row, no `all` row is overwritten before it is merged,
and a call that writes no log row finds one. The code does not keep it by itself; what follows
from it is in `Analysis.UnsubDelivery`.
-/

set_option autoImplicit false

namespace Mailman.Interface

open Mailman.Library Mailman.Model

/-- The table blocks a hash for at least this scope: promotional mail, and for `all`
transactional mail too. -/
def Covers (t : Suppressions) (h : String) (scope : UnsubScope) : Prop :=
  (suppressedMap .promotional t h).isSome ∧
    (scope = .all → (suppressedMap .transactional t h).isSome)

instance (t : Suppressions) (h : String) (scope : UnsubScope) : Decidable (Covers t h scope) :=
  inferInstanceAs (Decidable (_ ∧ _))

/-- `b` blocks at least what `a` does. -/
def ScopeLe (a b : UnsubScope) : Prop := a = .promotional ∨ b = .all

instance (a b : UnsubScope) : Decidable (ScopeLe a b) := inferInstanceAs (Decidable (_ ∨ _))

/-- The log has a row for the call that a pull can still deliver. -/
def Logged (log : List UnsubLogRow) (c : String × UnsubScope) : Prop :=
  ∃ r ∈ log, r.emailHash = c.1 ∧ ScopeLe c.2 r.scope

instance (log : List UnsubLogRow) (c : String × UnsubScope) : Decidable (Logged log c) :=
  inferInstanceAs (Decidable (∃ r ∈ log, _))

/-- The promise on one step. -/
structure NothingBehind (s t : UnsubWorld) : Prop where
  landing : ∀ r ∈ t.log, r ∉ s.log → (∃ q ∈ s.served, r.key ≤ q.key) →
    Covers s.table r.emailHash r.scope
  kept : ∀ r ∈ s.log, r ∉ t.log → r.scope = .all → Covers s.table r.emailHash .all
  logged : ∀ c ∈ t.done, c ∉ s.done → Covers s.table c.1 c.2 ∨ Logged t.log c
  seen : ∀ r ∈ t.missed, r ∉ s.missed → Covers s.table r.emailHash r.scope

instance (s t : UnsubWorld) : Decidable (NothingBehind s t) :=
  decidable_of_iff
    ((∀ r ∈ t.log, r ∉ s.log → (∃ q ∈ s.served, r.key ≤ q.key) →
        Covers s.table r.emailHash r.scope) ∧
      (∀ r ∈ s.log, r ∉ t.log → r.scope = .all → Covers s.table r.emailHash .all) ∧
      (∀ c ∈ t.done, c ∉ s.done → Covers s.table c.1 c.2 ∨ Logged t.log c) ∧
      ∀ r ∈ t.missed, r ∉ s.missed → Covers s.table r.emailHash r.scope)
    ⟨fun ⟨h₁, h₂, h₃, h₄⟩ => ⟨h₁, h₂, h₃, h₄⟩, fun h => ⟨h.landing, h.kept, h.logged, h.seen⟩⟩

/-- A step that leaves the log and its history alone keeps the promise. -/
theorem NothingBehind.of_eq {s t : UnsubWorld} (hlog : t.log = s.log) (hdone : t.done = s.done)
    (hmissed : t.missed = s.missed) : NothingBehind s t := by
  constructor
  · intro r hr hn
    exact absurd (hlog ▸ hr) hn
  · intro r hr hn
    exact absurd (hlog ▸ hr) hn
  · intro c hc hn
    exact absurd (hdone ▸ hc) hn
  · intro r hr hn
    exact absurd (hmissed ▸ hr) hn

/-- What the log and the terminal always satisfy: a returned call is blocked or still logged,
and whatever is behind the cursor is blocked. -/
structure UnsubInv (s : UnsubWorld) : Prop where
  keys : (s.log.map UnsubLogRow.key).Nodup
  done : ∀ c ∈ s.done, Covers s.table c.1 c.2 ∨ Logged s.log c
  passed : ∀ r ∈ s.log, r.emailHash ≠ "" → pastCursor s.cursor r = false →
    Covers s.table r.emailHash r.scope
  missed : ∀ r ∈ s.missed, Covers s.table r.emailHash r.scope
  reached : ∀ c ∈ s.cursor, ∃ q ∈ s.served, q.key = c

/-- What a waiting program may rely on. -/
structure UnsubLater (s t : UnsubWorld) : Prop where
  table : ∀ h scope, Covers s.table h scope → Covers t.table h scope
  served : ∀ q ∈ s.served, q ∈ t.served
  missed : ∀ r ∈ s.missed, r ∈ t.missed
  log : ∀ r ∈ t.log, r ∈ s.log ∨
    ((∃ q ∈ s.served, r.key ≤ q.key) → Covers t.table r.emailHash r.scope)

/-- What one request or transaction may do. -/
inductive UnsubStep (s t : UnsubWorld) : Prop where
  | cloud (htable : t.table = s.table) (hcursor : t.cursor = s.cursor)
      (hserved : t.served = s.served) (hmissed : t.missed = s.missed)
      (hlog : t.log = s.log ∨ ∃ row, t.log = (s.putLog row).log)
  | query (htable : t.table = s.table) (hcursor : t.cursor = s.cursor) (hlog : t.log = s.log)
      (hdone : t.done = s.done) (hserved : ∀ q ∈ s.served, q ∈ t.served)
      (hmissed : ∀ r ∈ s.missed, r ∈ t.missed)
  | merge (htable : ∀ h scope, Covers s.table h scope → Covers t.table h scope)
      (hcursor : t.cursor = s.cursor) (hlog : t.log = s.log) (hdone : t.done = s.done)
      (hserved : t.served = s.served) (hmissed : t.missed = s.missed)
  | advance (key : UnsubKey) (htable : t.table = s.table) (hcursor : t.cursor = some key)
      (hlog : t.log = s.log) (hdone : t.done = s.done) (hserved : t.served = s.served)
      (hmissed : t.missed = s.missed) (hreached : ∃ q ∈ s.served, q.key = key)
      (hcovers : ∀ r ∈ s.log, r.emailHash ≠ "" → r.key ≤ key →
        Covers s.table r.emailHash r.scope)

/-- What covers a scope covers a smaller one. -/
theorem Covers.mono {t : Suppressions} {h : String} {a b : UnsubScope} (hb : Covers t h b)
    (hab : ScopeLe a b) : Covers t h a := by
  refine ⟨hb.1, fun ha => ?_⟩
  rcases hab with rfl | rfl
  · cases ha
  · exact hb.2 rfl

/-- A world follows itself. -/
theorem UnsubLater.refl (s : UnsubWorld) : UnsubLater s s :=
  ⟨fun _ _ => id, fun _ => id, fun _ => id, fun _ => .inl⟩

/-- Later is transitive. -/
theorem UnsubLater.trans {s t u : UnsubWorld} (h : UnsubLater s t) (h' : UnsubLater t u) :
    UnsubLater s u where
  table k scope hk := h'.table k scope (h.table k scope hk)
  served q hq := h'.served q (h.served q hq)
  missed r hr := h'.missed r (h.missed r hr)
  log r hr := by
    rcases h'.log r hr with hr | hnew
    · rcases h.log r hr with hr | hnew
      · exact .inl hr
      · exact .inr fun hq => h'.table _ _ (hnew hq)
    · refine .inr fun ⟨q, hq, hle⟩ => hnew ⟨q, h.served q hq, hle⟩

/-- A step that keeps the promise takes nothing back. -/
theorem UnsubStep.later {s t : UnsubWorld} (h : UnsubStep s t) (hc : NothingBehind s t) :
    UnsubLater s t := by
  cases h with
  | cloud htable hcursor hserved hmissed hlog =>
    refine ⟨fun _ _ hk => htable ▸ hk, fun _ hq => hserved ▸ hq, fun _ hr => hmissed ▸ hr, ?_⟩
    intro r hr
    by_cases hold : r ∈ s.log
    · exact .inl hold
    · exact .inr fun hq => htable ▸ hc.landing r hr hold hq
  | query htable hcursor hlog hdone hserved hmissed =>
    exact ⟨fun _ _ hk => htable ▸ hk, hserved, hmissed, fun r hr => .inl (hlog ▸ hr)⟩
  | merge htable hcursor hlog hdone hserved hmissed =>
    exact ⟨htable, fun _ hq => hserved ▸ hq, fun _ hr => hmissed ▸ hr,
      fun r hr => .inl (hlog ▸ hr)⟩
  | advance key htable hcursor hlog hdone hserved hmissed =>
    exact ⟨fun _ _ hk => htable ▸ hk, fun _ hq => hserved ▸ hq, fun _ hr => hmissed ▸ hr,
      fun r hr => .inl (hlog ▸ hr)⟩

/-- The log after a put is the row and the rows of other keys. -/
theorem mem_putLog {s : UnsubWorld} {row r : UnsubLogRow} :
    r ∈ (s.putLog row).log ↔ r = row ∨ (r ∈ s.log ∧ r.key ≠ row.key) := by
  simp [UnsubWorld.putLog]

/-- A row that is not past the cursor has a key up to it. -/
theorem pastCursor_eq_false {cursor : Option UnsubKey} {r : UnsubLogRow}
    (h : pastCursor cursor r = false) : ∃ c, cursor = some c ∧ r.key ≤ c := by
  cases cursor with
  | none => cases h
  | some c => exact ⟨c, rfl, by simpa [pastCursor] using h⟩

/-- **One step keeps the terms**, if it keeps the promise. -/
theorem UnsubStep.inv {s t : UnsubWorld} (h : UnsubStep s t) (hs : UnsubInv s)
    (hc : NothingBehind s t) : UnsubInv t := by
  have hlater := h.later hc
  cases h with
  | cloud htable hcursor hserved hmissed hlog =>
    refine ⟨?_, ?_, ?_, ?_, by rw [hcursor, hserved]; exact hs.reached⟩
    · rcases hlog with hlog | ⟨row, hlog⟩
      · rw [hlog]; exact hs.keys
      · rw [hlog]
        simp only [UnsubWorld.putLog, List.map_cons, List.nodup_cons]
        refine ⟨by simp, hs.keys.sublist (List.filter_sublist.map _)⟩
    · intro c hct
      by_cases hold : c ∈ s.done
      · rcases hs.done c hold with hcov | ⟨r, hr, hh, hle⟩
        · exact .inl (hlater.table _ _ hcov)
        by_cases hrt : r ∈ t.log
        · exact .inr ⟨r, hrt, hh, hle⟩
        rcases hle with hpromo | hall
        · -- a promotional row gives way only to another row of its hash
          rcases hlog with hlog | ⟨row, hlog⟩
          · exact absurd (hlog ▸ hr) hrt
          · have hkey : r.key = row.key := by
              by_contra hne
              exact hrt (hlog ▸ mem_putLog.mpr (.inr ⟨hr, hne⟩))
            have hhash : r.emailHash = row.emailHash :=
              congrArg (fun k : UnsubKey => (ofLex k).2) hkey
            exact .inr ⟨row, hlog ▸ mem_putLog.mpr (.inl rfl), hhash ▸ hh, .inl hpromo⟩
        · have hcov := hc.kept r hr hrt hall
          rw [hh] at hcov
          exact .inl (hlater.table _ _ (hcov.mono (.inr rfl)))
      · rcases hc.logged c hct hold with hcov | hlogged
        · exact .inl (hlater.table _ _ hcov)
        · exact .inr hlogged
    · intro r hr h0 hpast
      rw [hcursor] at hpast
      by_cases hold : r ∈ s.log
      · exact hlater.table _ _ (hs.passed r hold h0 hpast)
      · obtain ⟨c, hcur, hle⟩ := pastCursor_eq_false hpast
        obtain ⟨q, hq, rfl⟩ := hs.reached c hcur
        exact hlater.table _ _ (hc.landing r hr hold ⟨q, hq, hle⟩)
    · intro r hr
      exact hlater.table _ _ (hs.missed r (hmissed ▸ hr))
  | query htable hcursor hlog hdone hserved hmissed =>
    refine ⟨hlog ▸ hs.keys, ?_, ?_, ?_, ?_⟩
    · rw [htable, hlog, hdone]; exact hs.done
    · rw [htable, hlog, hcursor]; exact hs.passed
    · intro r hr
      rw [htable]
      by_cases hold : r ∈ s.missed
      · exact hs.missed r hold
      · exact hc.seen r hr hold
    · intro c hcur
      obtain ⟨q, hq, hk⟩ := hs.reached c (hcursor ▸ hcur)
      exact ⟨q, hserved q hq, hk⟩
  | merge htable hcursor hlog hdone hserved hmissed =>
    refine ⟨hlog ▸ hs.keys, ?_, ?_, ?_, by rw [hcursor, hserved]; exact hs.reached⟩
    · intro c hct
      rcases hs.done c (hdone ▸ hct) with hcov | hlogged
      · exact .inl (htable _ _ hcov)
      · exact .inr (hlog ▸ hlogged)
    · intro r hr h0 hpast
      exact htable _ _ (hs.passed r (hlog ▸ hr) h0 (hcursor ▸ hpast))
    · intro r hr
      exact htable _ _ (hs.missed r (hmissed ▸ hr))
  | advance key htable hcursor hlog hdone hserved hmissed hreached hcovers =>
    refine ⟨hlog ▸ hs.keys, ?_, ?_, ?_, ?_⟩
    · rw [htable, hlog, hdone]; exact hs.done
    · intro r hr h0 hpast
      rw [hcursor] at hpast
      obtain ⟨c, hcur, hle⟩ := pastCursor_eq_false hpast
      cases hcur
      rw [htable]
      exact hcovers r (hlog ▸ hr) h0 hle
    · rw [htable, hmissed]; exact hs.missed
    · intro c hcur
      rw [hcursor] at hcur
      cases hcur
      rw [hserved]
      exact hreached

end Mailman.Interface
