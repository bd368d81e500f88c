import Mailman.Model.UnsubLog

/-!
# Unsubscribes that were answered

`put_unsub` writes the cache item first and the log item after it, and for the promotional scope
it writes the log item only when the cache item is new. What it answers ok is in the log, but for
a promotional call that finds a cache item whose own log write did not happen.
-/

set_option autoImplicit false

namespace Mailman.Analysis

open Mailman.Library Mailman.Model

variable {s s' : UnsubWorld} {h : String} {scope : UnsubScope}

/-- The log has an entry for the hash that covers the scope. -/
def UnsubWorldLogs (s : UnsubWorld) (h : String) (scope : UnsubScope) : Prop :=
  ∃ row ∈ s.log, row.emailHash = h ∧ (row.scope = scope ∨ row.scope = .all)

/-- The log after the last write of a call. -/
theorem putUnsub_write {now : ℕ} {isNew r : Bool} {is : List UnsubInput}
    (hrun : ((Proc.modify fun s (_ : UnsubInput) =>
      { s.putLog ⟨now, h, scope⟩ with done := (h, scope) :: s.done }).bind fun _ =>
        .ret isNew).alone s is = (s', .ret r)) : s'.log = (s.putLog ⟨now, h, scope⟩).log := by
  obtain ⟨i, js, hrest⟩ := Proc.alone_act_bind hrun
  rw [Proc.alone_ret hrest]

/-- What a call that ran to its end did to the log. -/
theorem putUnsub_log {is : List UnsubInput} {isNew : Bool}
    (hrun : (putUnsub h scope).alone s is = (s', .ret isNew)) :
    ((s.cache h = none ∨ scope = .all) ∧ ∃ now, s'.log = (s.putLog ⟨now, h, scope⟩).log) ∨
      (s.cache h ≠ none ∧ scope = .promotional ∧ s'.log = s.log) := by
  unfold putUnsub readClock at hrun
  obtain ⟨i, is, hrun⟩ := Proc.alone_act_bind hrun
  obtain ⟨j, is, hrun⟩ := Proc.alone_act_bind hrun
  dsimp only at hrun
  cases hcache : s.cache h with
  | none =>
    rw [hcache] at hrun
    simp only [Bool.true_eq_false, false_and, if_false, true_or, if_true, Proc.pure_eq,
      Proc.bind_eq] at hrun
    left
    have hlog := putUnsub_write hrun
    exact ⟨.inl rfl, s.clock + i.tick, hlog⟩
  | some old =>
    rw [hcache] at hrun
    cases scope with
    | promotional =>
      right
      rw [Proc.alone_ret hrun]
      simp
    | all =>
      simp only [and_self, if_true, or_true] at hrun
      obtain ⟨k, is, hrun⟩ := Proc.alone_act_bind hrun
      have hlog := putUnsub_write hrun
      exact .inl ⟨.inr rfl, s.clock + i.tick, hlog⟩

/-- A call that answered ok is in the log, unless it found the cache item alone. -/
theorem post_logged_iff {c : UnsubCall} (hok : (s.post c).2 = true) :
    UnsubWorldLogs (s.post c).1 c.hash c.scope ↔
      (c.scope = .promotional → s.cache c.hash ≠ none → ∃ row ∈ s.log, row.emailHash = c.hash) := by
  unfold UnsubWorld.post at hok ⊢
  cases hrun : (putUnsub c.hash c.scope).alone s c.requests with
  | mk s' left =>
    rw [hrun] at hok
    cases left with
    | atom upd next => cases hok
    | ret isNew =>
      dsimp only
      cases putUnsub_log hrun with
      | inl hwrote =>
        obtain ⟨hnew, now, hlog⟩ := hwrote
        have hlogged : UnsubWorldLogs s' c.hash c.scope := by
          refine ⟨⟨now, c.hash, c.scope⟩, ?_, rfl, .inl rfl⟩
          rw [hlog]
          exact List.mem_cons_self
        refine ⟨fun _ hscope hcache => ?_, fun _ => hlogged⟩
        cases hnew with
        | inl hnone => exact absurd hnone hcache
        | inr hall =>
          rw [hall] at hscope
          cases hscope
      | inr hskipped =>
        obtain ⟨hcache, hscope, hlog⟩ := hskipped
        unfold UnsubWorldLogs
        rw [hlog, hscope]
        constructor
        · rintro ⟨row, hrow, hhash, -⟩ - -
          exact ⟨row, hrow, hhash⟩
        · intro hentry
          obtain ⟨row, hrow, hhash⟩ := hentry rfl hcache
          refine ⟨row, hrow, hhash, ?_⟩
          cases row.scope with
          | promotional => exact .inl rfl
          | all => exact .inr rfl

/-- A promotional call that finds the cache item answers ok when its clock and its put have been
reached and answered. -/
theorem post_ok_iff {c : UnsubCall} (hscope : c.scope = .promotional)
    (hcache : s.cache c.hash ≠ none) :
    (s.post c).2 = true ↔ 2 ≤ c.requests.length ∧ c.answered = true := by
  obtain ⟨old, hold⟩ := Option.ne_none_iff_exists'.mp hcache
  obtain ⟨hash, scope, requests, answered⟩ := c
  cases hscope
  match requests with
  | [] => exact iff_of_false Bool.false_ne_true fun h => absurd h.1 (Nat.not_succ_le_zero 1)
  | [_] => exact iff_of_false Bool.false_ne_true fun h => absurd h.1 (Nat.not_succ_le_self 1)
  | i :: j :: is =>
    have hends : ((putUnsub hash .promotional).alone s (i :: j :: is)).2 = .ret false := by
      simp only [putUnsub, readClock, Proc.act, Proc.bind_eq, Proc.bind, Proc.alone]
      simp only [show s.cache hash = some old from hold, reduceCtorEq, and_false, if_false, or_false,
        Bool.false_eq_true, Proc.pure_eq, Proc.alone]
    unfold UnsubWorld.post
    dsimp only
    rw [hends]
    simp

/-- In every sequence of calls, what is answered ok is in the log, exactly when no promotional call
whose two requests are answered finds the cache item and no log item of its hash. -/
theorem answered_logged_iff (s : UnsubWorld) (calls : List UnsubCall) :
    s.Along (fun s c => (s.post c).2 = true → UnsubWorldLogs (s.post c).1 c.hash c.scope) calls ↔
      s.Along (fun s c => c.scope = .promotional → 2 ≤ c.requests.length → c.answered = true →
        s.cache c.hash ≠ none → ∃ row ∈ s.log, row.emailHash = c.hash) calls := by
  induction calls generalizing s with
  | nil => exact Iff.rfl
  | cons c calls ih =>
    unfold UnsubWorld.Along
    rw [ih]
    apply and_congr_left
    intro
    constructor
    · intro h hscope hreached hanswered hcache
      have hok := (post_ok_iff hscope hcache).mpr ⟨hreached, hanswered⟩
      exact (post_logged_iff hok).mp (h hok) hscope hcache
    · intro h hok
      apply (post_logged_iff hok).mpr
      intro hscope hcache
      obtain ⟨hreached, hanswered⟩ := (post_ok_iff hscope hcache).mp hok
      exact h hscope hreached hanswered hcache

/-- The log write of the first call fails; the second finds the cache item and answers ok. -/
theorem retry_not_logged :
    ¬ ({} : UnsubWorld).Along
      (fun s c => (s.post c).2 = true → UnsubWorldLogs (s.post c).1 c.hash c.scope)
      [⟨"ab", .promotional, [{}, {}], true⟩, ⟨"ab", .promotional, [{}, {}, {}], true⟩] := by
  rintro ⟨-, hsecond, -⟩
  obtain ⟨row, hrow, -⟩ := hsecond rfl
  have hlog : (((({} : UnsubWorld).post ⟨"ab", .promotional, [{}, {}], true⟩).1).post
      ⟨"ab", .promotional, [{}, {}, {}], true⟩).1.log = [] := rfl
  rw [hlog] at hrow
  cases hrow

end Mailman.Analysis
