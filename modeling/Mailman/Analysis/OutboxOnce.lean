import Mailman.Analysis.SyncDelivery

/-!
# Outbox to inbox, exactly once

Whatever is enqueued, pushed again after a lost answer, pulled in part or pulled again, and
whichever program stops where: the duplicate key of the inbox decides, and an outbox row is
marked only with the ids of its own event.
-/

set_option autoImplicit false

namespace Mailman.Analysis

open Mailman.Library Mailman.Model Mailman.Interface

/-- Where nobody is watched every run meets the condition. -/
theorem hubDiscipline_unwatched (p : Pool SyncHub HubInput) (es : List (Event HubOp HubInput)) :
    p.Steps hubCode (hubDiscipline fun _ => False).cond es :=
  Pool.steps_of_forall _ (fun _ _ _ h => h.elim) p es

/-- Going again through events that have been gone through changes no row. -/
theorem storeEvents_passed {s : SyncHub} {a : Actor} (hs : SideOk s.log (s.side a)) (i : HubInput)
    (P : List EventItem) (hP : ∀ e ∈ P, e ∈ (s.side a).passed) :
    ((storeEvents a P).result s i).2 = true ∧
      (((storeEvents a P).result s i).1.side a).inbox = (s.side a).inbox := by
  induction P generalizing s with
  | nil => exact ⟨rfl, rfl⟩
  | cons e P ih =>
    obtain ⟨r, hr, hkey⟩ := hs.passed e (hP e (List.mem_cons_self ..))
    have hstore := storeEvent_of_mem hr hkey (hs.bindable r hr)
    have hok : SideOk s.log ((s.setSide a fun d => { d with passed := e :: d.passed }).side a) := by
      rw [setSide_self]
      refine ⟨hs.outbox_nodup, hs.outbox_le, hs.pushed, hs.distinct, hs.bindable, hs.inbox,
        fun e' he' => ?_⟩
      rcases List.mem_cons.mp he' with rfl | he'
      · exact ⟨r, hr, hkey⟩
      · exact hs.passed e' he'
    have hnext := ih (s := s.setSide a fun d => { d with passed := e :: d.passed }) hok
      fun e' he' => by
        rw [setSide_self]
        exact List.mem_cons_of_mem _ (hP e' (List.mem_cons_of_mem _ he'))
    rw [setSide_self] at hnext
    have hrun : (storeEvents a (e :: P)).result s i = (storeEvents a P).result
        (s.setSide a fun d => { d with passed := e :: d.passed }) i := by
      simp [storeEvents, Proc.act, Proc.bind, Proc.result, hstore, SyncHub.setSide]
    rw [hrun]
    exact hnext

/-- Going through a page of the log, of which any part may have been stored before, only adds rows,
makes no duplicate, and if no event raises each event of the page has its row. -/
theorem storeEvents_page {s : SyncHub} {a : Actor} (hs : SideOk s.log (s.side a)) (i : HubInput)
    (P : List EventItem) (hP : ∀ e ∈ P, e ∈ s.log) :
    (s.side a).inbox <+: (((storeEvents a P).result s i).1.side a).inbox ∧
      (((storeEvents a P).result s i).1.side a).inbox.Pairwise (fun r r' => ¬ SameKey r r') ∧
      (((storeEvents a P).result s i).2 = true →
        ∀ e ∈ P, ∃ r ∈ (((storeEvents a P).result s i).1.side a).inbox, r.sameKey e = true) := by
  induction P generalizing s with
  | nil => exact ⟨List.prefix_rfl, hs.distinct, fun _ e he => absurd he List.not_mem_nil⟩
  | cons e P ih =>
    have he : e ∈ s.log := hP e (List.mem_cons_self ..)
    cases hstore : storeEvent (s.side a).inbox e with
    | none =>
      have hrun : (storeEvents a (e :: P)).result s i = (s, false) := by
        simp [storeEvents, Proc.act, Proc.bind, Proc.result, hstore]
      rw [hrun]
      exact ⟨List.prefix_rfl, hs.distinct, fun h => absurd h Bool.false_ne_true⟩
    | some inbox =>
      have hrun : (storeEvents a (e :: P)).result s i = (storeEvents a P).result
          (s.setSide a fun d => { d with inbox := inbox, passed := e :: d.passed }) i := by
        simp [storeEvents, Proc.act, Proc.bind, Proc.result, hstore]
      have hstep : SideStep False s.log (s.side a)
          { s.side a with inbox := inbox, passed := e :: (s.side a).passed } :=
        .store e inbox he hstore
      have hnext := hstep.ok hs
      obtain ⟨hgrown, hdistinct, hall⟩ := ih (s := s.setSide a fun d =>
        { d with inbox := inbox, passed := e :: d.passed }) (by rw [setSide_self]; exact hnext)
        fun e' he' => hP e' (List.mem_cons_of_mem _ he')
      rw [setSide_self] at hgrown
      have hadded : (s.side a).inbox <+: inbox := by
        rcases storeEvent_cases hstore with ⟨rfl, -⟩ | ⟨rfl, -⟩
        · exact List.prefix_rfl
        · exact List.prefix_append _ _
      rw [hrun]
      refine ⟨hadded.trans hgrown, hdistinct, fun hend e' he' => ?_⟩
      rcases List.mem_cons.mp he' with rfl | he'
      · obtain ⟨r, hr, hkey⟩ := hnext.passed e' (List.mem_cons_self ..)
        exact ⟨r, hgrown.subset hr, hkey⟩
      · exact hall hend e' he'

/-- **Exactly once under retries.** In every run of enqueues, pushes, pulls, other writers and the
materialiser, with any program stopped anywhere, for each terminal: no two rows of its inbox have
one (table, row id, revision), and each event it has gone through has one; going through such
events again changes nothing in the inbox, and going through any page of the log, of which any
part has been stored before, only adds rows, again without a duplicate, and one for each event if
none raises; its pull cursor never goes back; and the event of every outbox row marked pushed is
in the log under the id assigned to it.
SOURCE: terminal/sync_client.py:152-236, 270-319, cloud/sync.py:91-153 -/
theorem outbox_exactly_once (es fs : List (Event HubOp HubInput)) (a : Actor) :
    ((hubRun es).state.side a).inbox.Pairwise (fun r r' => ¬ SameKey r r') ∧
    (∀ e ∈ ((hubRun es).state.side a).passed,
      ∃ r ∈ ((hubRun es).state.side a).inbox, r.sameKey e = true) ∧
    (∀ P i, (∀ e ∈ P, e ∈ ((hubRun es).state.side a).passed) →
      (((storeEvents a P).result (hubRun es).state i).1.side a).inbox =
        ((hubRun es).state.side a).inbox) ∧
    (∀ P i, (∀ e ∈ P, e ∈ (hubRun es).state.log) →
      ((hubRun es).state.side a).inbox <+:
          (((storeEvents a P).result (hubRun es).state i).1.side a).inbox ∧
        (((storeEvents a P).result (hubRun es).state i).1.side a).inbox.Pairwise
          (fun r r' => ¬ SameKey r r') ∧
        (((storeEvents a P).result (hubRun es).state i).2 = true → ∀ e ∈ P,
          ∃ r ∈ (((storeEvents a P).result (hubRun es).state i).1.side a).inbox,
            r.sameKey e = true)) ∧
    ((hubRun es).state.side a).cursor ≤ ((hubRun (es ++ fs)).state.side a).cursor ∧
    ∀ r ∈ ((hubRun es).state.side a).outbox, r.pushedAt ≠ none →
      ∃ item ∈ (hubRun es).state.log, r.assignedEventId = some item.eventId ∧
        item.toEventBody = r.wire.body := by
  have hsound : (hubDiscipline fun _ => False).Sound (hubRun es) :=
    hubRun_sound es (hubDiscipline_unwatched _ es)
  have hside := hsound.1.side a
  refine ⟨hside.distinct, hside.passed, fun P i hP => (storeEvents_passed hside i P hP).2,
    fun P i hP => storeEvents_page hside i P hP, ?_, fun r hr hne => ?_⟩
  · have hstable := Discipline.run_stable (fun n op s _ => hubCode_safe n op s)
      (T := fun s t => (s.side a).cursor ≤ (t.side a).cursor) (fun _ => Nat.le_refl _)
      (fun _ _ _ => Nat.le_trans) (fun _ _ _ _ h _ => h.cursor a) hsound fs
      (hubDiscipline_unwatched _ fs)
    unfold hubRun at hstable ⊢
    rw [Pool.run_append]
    exact hstable
  · obtain ⟨id, hid, item, hitem, rfl, hbody⟩ := hside.pushed r hr hne
    exact ⟨item, hitem, hid, hbody⟩

end Mailman.Analysis
