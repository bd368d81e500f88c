import Mailman.Interface.SyncLogTerms

/-!
# Delivery through the event log

Every request of the writers, the push rounds and the pulls is a `HubStep`, so a run whose
steps are in order for a terminal leaves nothing of the log behind its cursor, and enough
further pulls deliver all of it when all of it can be stored. A writer that lands late breaks
the order, and what it wrote is never served; an event that cannot be stored ends every pull
that comes to it.
-/

set_option autoImplicit false

namespace Mailman.Analysis

open Mailman.Library Mailman.Model Mailman.Interface

/-- The terms on which the programs share the log and the terminals' tables. -/
def hubDiscipline (watched : Actor → Prop) : Discipline SyncHub where
  inv := HubInv watched
  rely := HubRely
  guar := HubStep
  cond s t := ∀ a, watched a → InOrder a s t ∧ LandsStorable s t
  rely_refl := .refl
  rely_trans _ _ _ _ := .trans
  guar_rely _ _ _ _ hmn hs h _ := h.rely hs hmn
  keep _ _ _ hs h hc := h.inv hs hc

/-- What only grows. -/
structure HubGrows (s t : SyncHub) : Prop where
  log : ∀ e ∈ s.log, e ∈ t.log
  requests : s.requests <+: t.requests

/-- The terms of the hub go onward. -/
theorem hub_grows (watched : Actor → Prop) : (hubDiscipline watched).Grows HubGrows where
  refl s := ⟨fun _ he => he, List.prefix_rfl⟩
  trans s t u h h' := ⟨fun e he => h'.log e (h.log e he), h.requests.trans h'.requests⟩
  rely n s t h := ⟨h.log, h.requests⟩
  guar n s t _ h := by
    have hself : HubGrows s s := ⟨fun _ he => he, List.prefix_rfl⟩
    cases h with
    | stay | take | reply | side => exact ⟨hself.log, hself.requests⟩
    | append e => exact ⟨fun _ he => List.mem_cons_of_mem _ he, hself.requests⟩
    | request r => exact ⟨hself.log, List.prefix_append _ _⟩

/-! ## One rule for each request -/

section requests

variable {watched : Actor → Prop} {α β : Type} {n : ℕ} {Q : β → SyncHub → Prop} {s : SyncHub}

/-- A read may be followed by what is safe on every later hub. -/
theorem safe_hubGet {f : SyncHub → HubInput → α} {k : α → HubProc β}
    (h : ∀ t i, HubRely n s t → HubInv watched t →
      (hubDiscipline watched).Safe n (k (f t i)) Q t) :
    (hubDiscipline watched).Safe n ((Proc.get f).bind k) Q s :=
  Discipline.Safe.act fun t hr hi i => ⟨.stay, h t i hr hi⟩

/-- An appended event is in the log under its id. -/
theorem safe_appendEvent {body : EventBody} {k : ℕ → HubProc β}
    (h : ∀ t id, HubGrows s t → (∃ item ∈ t.log, item.eventId = id ∧ item.toEventBody = body) →
      (hubDiscipline watched).Safe n (k id) Q t) :
    (hubDiscipline watched).Safe n ((appendEvent n body).bind k) Q s := by
  refine Discipline.Safe.bind (Discipline.Safe.act fun t ht hi i => ⟨HubStep.take, ?_⟩)
  -- nobody else may write the id that was just taken
  have hfresh : ∀ e ∈ t.log, e.eventId ≠ t.seq + 1 := by
    intro e he heq
    have hle := hi.owned _ (hi.log_owned e he)
    omega
  refine Discipline.Safe.act fun u hu hiu j => ?_
  obtain ⟨hown, hnew⟩ := hu.own (t.seq + 1) (Function.update_self ..)
  refine ⟨.append _ hown (hnew hfresh), h _ _ ?_ ?_⟩
  · exact ⟨fun e he => List.mem_cons_of_mem _ (hu.log e (ht.log e he)),
      ht.requests.trans hu.requests⟩
  · exact ⟨_, List.mem_cons_self .., rfl, rfl⟩

/-- The loop of a push has stored what it has gone through. -/
theorem safe_syncPushLoop {actor : Actor} (events : List SyncEventIn) (done : List SyncEventIn)
    (ids : List ℕ) (hdone : List.Forall₂ (Stored s.log) done ids) :
    (hubDiscipline watched).Safe n (syncPushLoop n actor events ids)
      (fun r t => ∀ ids', r = some ids' → List.Forall₂ (Stored t.log) (done ++ events) ids') s := by
  induction events generalizing s done ids with
  | nil =>
    intro ids' hids
    cases hids
    simpa using hdone
  | cons e events ih =>
    unfold syncPushLoop
    split
    · refine safe_appendEvent fun t id hgrow hstored => ?_
      have hnext : List.Forall₂ (Stored t.log) (done ++ [e]) (ids ++ [id]) :=
        List.rel_append (HubInv.forall₂_mono hgrow.log hdone) (.cons hstored .nil)
      simpa using ih (done ++ [e]) (ids ++ [id]) hnext
    · intro ids' hids
      cases hids

/-- A push on the cloud keeps the terms. -/
theorem safe_syncPush (request : ℕ) :
    (hubDiscipline watched).Safe n (syncPush n request) (fun _ _ => True) s := by
  unfold syncPush
  refine safe_hubGet fun t i _ _ => ?_
  cases hreq : t.requests[request]? with
  | none => trivial
  | some body =>
    obtain ⟨actor, events⟩ := body
    refine Discipline.Safe.bind ((Discipline.Safe.remember (hub_grows watched)
      ((hub_grows watched).refl t) (safe_syncPushLoop events [] [] .nil)).weaken ?_)
    rintro assigned u ⟨hgrow, hstored⟩
    cases assigned with
    | none => trivial
    | some ids =>
      refine Discipline.Safe.act fun v hv _ j => ⟨?_, trivial⟩
      have hbody := getElem?_of_prefix (hgrow.requests.trans hv.requests) hreq
      exact .reply request ids actor events hbody
        (HubInv.forall₂_mono hv.log (hstored ids rfl))

/-- A transaction of one terminal. -/
theorem safe_side {a : Actor} {f : SyncHub → HubInput → SyncSide → SyncSide}
    (h : ∀ t i, HubRely n s t → HubInv watched t →
      SideStep (n = pullNumber a) t.log (t.side a) (f t i (t.side a))) :
    (hubDiscipline watched).Safe n (Proc.modify fun t i => t.setSide a (f t i))
      (fun _ _ => True) s :=
  Discipline.Safe.act fun t hr hi i => ⟨.side a _ (h t i hr hi), trivial⟩

/-- The marks of a push are those of the rows it drained, under the ids of their events. -/
theorem mem_zip_assigned {log : List EventItem} {outbox : List OutboxRow} {assigned : List ℕ}
    (h : List.Forall₂ (Stored log) (outbox.map (·.wire)) assigned) :
    ∀ mark ∈ (outbox.map (·.outboxId)).zip assigned, ∃ r ∈ outbox, r.outboxId = mark.1 ∧
      Stored log r.wire mark.2 := by
  induction outbox generalizing assigned with
  | nil => intro mark hmark; cases hmark
  | cons r outbox ih =>
    cases h with
    | cons hr hrest =>
      intro mark hmark
      rcases List.mem_cons.mp hmark with rfl | hmark
      · exact ⟨r, List.mem_cons_self .., rfl, hr⟩
      · obtain ⟨r', hr', heq⟩ := ih hrest mark hmark
        exact ⟨r', List.mem_cons_of_mem _ hr', heq⟩

/-- A round of pushing keeps the terms. -/
theorem safe_pushRound (a : Actor) :
    (hubDiscipline watched).Safe n (pushRound a) (fun _ _ => True) s := by
  unfold pushRound
  refine safe_hubGet fun t i _ _ => ?_
  have hdrained : ∀ r ∈ (t.side a).drainOutbox, r ∈ (t.side a).outbox := fun r hr =>
    List.mem_of_mem_filter (mem_of_mem_page hr)
  generalize (t.side a).drainOutbox = outbox at hdrained
  split
  · trivial
  refine Discipline.Safe.act fun u hu _ j => ⟨.request _, safe_hubGet fun v j' hv hiv => ?_⟩
  dsimp only
  split
  · trivial
  · next assigned hassigned =>
    have hreply : v.replies u.requests.length = some assigned := by
      split at hassigned
      · cases hassigned
      · exact hassigned
    obtain ⟨a', events, hreq, hstored⟩ := hiv.replies _ _ hreply
    have hmine := getElem?_of_prefix hv.requests (k := u.requests.length)
      (x := (a, outbox.map (·.wire))) (by simp)
    rw [hmine] at hreq
    cases hreq
    refine safe_side fun w i' hw hiw => .pushed _ _ fun mark hmark r hr hid => ?_
    obtain ⟨r₀, hr₀, hid₀, hstored₀⟩ := mem_zip_assigned hstored mark hmark
    -- the row with this number is the one that was drained
    obtain ⟨r₁, hr₁, h₁⟩ := (hu.side a).outbox r₀ (hdrained r₀ hr₀)
    obtain ⟨r₂, hr₂, h₂⟩ := (hv.side a).outbox r₁ hr₁
    obtain ⟨r₃, hr₃, h₃⟩ := (hw.side a).outbox r₂ hr₂
    have hsame := (h₁.trans h₂).trans h₃
    have heq : r = r₃ := List.inj_on_of_nodup_map (hiw.side a).outbox_nodup hr hr₃
      (hid.trans (hid₀.symm.trans hsame.1.symm))
    rw [heq, hsame.wire]
    exact hstored₀.mono hw.log

/-! ## The pull -/

/-- The loop of the one pull of terminal `a` leaves its cursor and its pages alone. -/
theorem safe_storeEvents {a : Actor} (hn : n = pullNumber a) {c : ℕ} {S : List (List EventItem)}
    (events done : List EventItem) (hlog : ∀ e ∈ events, e ∈ s.log)
    (hcursor : (s.side a).cursor = c) (hseen : (s.side a).seen = S)
    (hdone : ∀ e ∈ done, e ∈ (s.side a).passed) :
    (hubDiscipline watched).Safe n (storeEvents a events) (fun r t =>
      (t.side a).cursor = c ∧ (t.side a).seen = S ∧
        (r = true → ∀ e ∈ done ++ events, e ∈ (t.side a).passed)) s := by
  induction events generalizing s done with
  | nil => exact ⟨hcursor, hseen, fun _ e he => hdone e (by simpa using he)⟩
  | cons e events ih =>
    refine Discipline.Safe.act fun t ht _ i => ?_
    obtain ⟨hcursor', hseen'⟩ := (ht.side a).pull hn
    have hlog' : ∀ e' ∈ e :: events, e' ∈ t.log := fun e' he' => ht.log e' (hlog e' he')
    cases hstore : storeEvent (t.side a).inbox e with
    | none =>
      exact ⟨.stay, hcursor'.trans hcursor, hseen'.trans hseen, fun h => by cases h⟩
    | some inbox =>
      refine ⟨.side a _ (.store e inbox (hlog' e (List.mem_cons_self ..)) hstore), ?_⟩
      have hnext := ih (s := t.setSide a fun d => { d with inbox := inbox, passed := e :: d.passed })
        (done ++ [e]) (fun e' he' => hlog' e' (List.mem_cons_of_mem _ he')) ?_ ?_ ?_
      · simpa using hnext
      · rw [setSide_self]
        exact hcursor'.trans hcursor
      · rw [setSide_self]
        exact hseen'.trans hseen
      · intro e' he'
        rw [setSide_self]
        rcases List.mem_append.mp he' with he' | he'
        · exact List.mem_cons_of_mem _ ((ht.side a).passed e' (hdone e' he'))
        · rw [List.mem_singleton.mp he']
          exact List.mem_cons_self ..

/-- The items a query returns are in the log, past the cursor and in order. -/
theorem queryEvents_spec (s : SyncHub) (since : ℕ) (i : HubInput) :
    (∀ e ∈ s.queryEvents since i, e ∈ s.log ∧ since < e.eventId) ∧
    (s.queryEvents since i).Pairwise fun e e' => e.eventId ≤ e'.eventId := by
  refine ⟨fun e he => ?_, pairwise_page⟩
  obtain ⟨hlog, hpast⟩ := List.mem_filter.mp (mem_of_mem_page he)
  simp only [Bool.and_eq_true, decide_eq_true_eq] at hpast
  exact ⟨hlog, hpast.1⟩

/-- In an upward list nothing is above the last. -/
theorem le_getLast_of_pairwise {P : List EventItem} {last : EventItem}
    (hP : P.Pairwise fun e e' => e.eventId ≤ e'.eventId) (hlast : P.getLast? = some last) :
    ∀ e ∈ P, e.eventId ≤ last.eventId := by
  obtain ⟨init, rfl⟩ := List.getLast?_eq_some_iff.mp hlast
  intro e he
  rcases List.mem_append.mp he with he | he
  · exact (List.pairwise_append.mp hP).2.2 e he last (List.mem_singleton_self _)
  · rw [List.mem_singleton.mp he]

/-- A round of pulling keeps the terms. -/
theorem safe_pullRoundOf {a : Actor} (hn : n = pullNumber a) :
    (hubDiscipline watched).Safe n (pullRoundOf a) (fun _ _ => True) s := by
  unfold pullRoundOf
  refine safe_hubGet fun t i _ _ => Discipline.Safe.act fun u hu _ j => ?_
  obtain ⟨hcursor, -⟩ := (hu.side a).pull hn
  obtain ⟨hpage, hsorted⟩ := queryEvents_spec u (t.side a).cursor j
  refine ⟨.side a _ (.serve _ hn), ?_⟩
  dsimp only
  generalize u.queryEvents (t.side a).cursor j = P at hpage hsorted
  have hloop := @safe_storeEvents watched _ (u.setSide a fun d => { d with seen := P :: d.seen }) a
    hn (t.side a).cursor (P :: (u.side a).seen) P []
    (fun e he => (hpage e he).1) (by rw [setSide_self]; exact hcursor) (by rw [setSide_self])
    (by simp)
  refine Discipline.Safe.bind (hloop.weaken fun stored v hv => ?_)
  obtain ⟨hcursor', hseen, hpassed⟩ := hv
  cases stored with
  | false => trivial
  | true =>
    cases hlast : P.getLast? with
    | none => trivial
    | some last =>
      refine safe_side fun w i' hw _ => ?_
      obtain ⟨hcw, hsw⟩ := (hw.side a).pull hn
      have hmem := List.mem_of_getLast? hlast
      refine .advance P last hn (by rw [hsw, hseen]; rfl) hmem
        (le_getLast_of_pairwise hsorted hlast) (fun e he => ?_) ?_
      · exact (hw.side a).passed e (hpassed rfl e he)
      · rw [hcw, hcursor']
        exact (hpage last hmem).2.le

end requests

/-- Every operation keeps the terms. -/
theorem hubCode_safe {watched : Actor → Prop} (n : ℕ) (op : HubOp) (s : SyncHub) :
    (hubDiscipline watched).Safe n (hubCode n op) (fun _ _ => True) s := by
  cases op with
  | enqueue a body =>
    refine Discipline.Safe.act fun t _ _ i => ⟨?_, trivial⟩
    dsimp only
    split
    · exact .side a _ (.enqueue body)
    · exact .stay
  | push a => exact safe_pushRound a
  | servePush request => exact safe_syncPush request
  | put body => exact safe_appendEvent fun _ _ _ _ => trivial
  | pull a =>
    change (hubDiscipline watched).Safe n (if n = pullNumber a then pullRoundOf a else pure ()) _ s
    split
    · next hn => exact safe_pullRoundOf hn
    · trivial
  | mark a eventId => exact safe_side fun t i _ _ => .mark eventId i.nowText

/-- The invariant holds after every run whose steps are in order for the watched terminals. -/
theorem hubRun_sound {watched : Actor → Prop} (es : List (Event HubOp HubInput))
    (hC : (Pool.idle {}).Steps hubCode (hubDiscipline watched).cond es) :
    (hubDiscipline watched).Sound (hubRun es) := by
  have h0 : (hubDiscipline watched).Sound (Pool.idle {} : Pool SyncHub HubInput) :=
    Discipline.sound_idle hubInv_empty
  exact Discipline.run_sound (fun n op s _ => hubCode_safe n op s) h0 es hC

/-! ## Complete pulls -/

/-- The items of the log that the next pulls of terminal `a` can serve. -/
def unserved (a : Actor) (s : SyncHub) : List EventItem :=
  s.log.filter fun e => (s.side a).cursor < e.eventId

/-- One pull of terminal `a`, with nothing in between and to the end: at most 500 events, the
reads and the cursor. -/
def fullPull (a : Actor) (i : HubInput) : List (Event HubOp HubInput) :=
  .stop (pullNumber a) :: .start (pullNumber a) (.pull a) ::
    (List.replicate 503 i).map (.step (pullNumber a))

section pulls

variable {watched : Actor → Prop} {s : SyncHub} {a : Actor} {i : HubInput}

/-- A storable event of the log is never an error. -/
theorem storeEvent_of_log (hs : HubInv watched s) {e : EventItem} (he : e ∈ s.log)
    (hfit : e.storable = true) : ∃ inbox, storeEvent (s.side a).inbox e = some inbox := by
  obtain ⟨hbind, hcomplete⟩ := (Bool.and_eq_true _ _).mp hfit
  unfold storeEvent
  rw [hbind, hcomplete, Bool.not_true, if_neg Bool.false_ne_true, Bool.false_or]
  split
  · exact ⟨_, rfl⟩
  · next hnew =>
    split
    · next hid =>
      obtain ⟨r, hr, hid⟩ := List.any_eq_true.mp hid
      obtain ⟨e', he', heq, hkey⟩ := (hs.side a).inbox r hr
      have hsame : e' = e := List.inj_on_of_nodup_map hs.log_nodup he' he
        (heq.trans (of_decide_eq_true hid))
      exact absurd (List.any_eq_true.mpr ⟨r, hr, hsame ▸ hkey⟩) hnew
    · exact ⟨_, rfl⟩

/-- A step that serves no page and lands no item is in order. -/
theorem inOrder_of_eq {t : SyncHub} (hlog : t.log = s.log)
    (hseen : (t.side a).seen = (s.side a).seen) : InOrder a s t := by
  refine ⟨fun e he hnot => absurd (hlog ▸ he) hnot, fun P hP => ?_⟩
  simp [newPages, hseen] at hP

/-- A step that leaves the log alone lands nothing. -/
theorem landsStorable_of_eq {t : SyncHub} (hlog : t.log = s.log) : LandsStorable s t :=
  fun _ he hnot => absurd (hlog ▸ he) hnot

/-- The step of `_apply_event` that goes well. -/
theorem hubInv_store (hs : HubInv watched s) {e : EventItem} {inbox : List PulledRow}
    (he : e ∈ s.log) (h : storeEvent (s.side a).inbox e = some inbox) :
    HubInv watched (s.setSide a fun d => { d with inbox := inbox, passed := e :: d.passed }) := by
  have hstep : HubStep (pullNumber a) s
      (s.setSide a fun d => { d with inbox := inbox, passed := e :: d.passed }) :=
    .side a _ (.store e inbox he h)
  refine hstep.inv hs fun b _ => ⟨inOrder_of_eq rfl ?_, landsStorable_of_eq rfl⟩
  by_cases hb : b = a
  · subst hb
    rw [setSide_self]
  · rw [setSide_ne s _ hb]

/-- The loop over storable events of the log, alone: it stores them all and moves no cursor. -/
theorem alone_storeEvents (hs : HubInv watched s) (P : List EventItem)
    (hP : ∀ e ∈ P, e ∈ s.log ∧ e.storable = true) :
    ∃ t, t.log = s.log ∧ (t.side a).cursor = (s.side a).cursor ∧
      (P = [] → (t.side a).inbox = (s.side a).inbox) ∧
      ∀ (k : Bool → HubProc Unit) is, ((storeEvents a P).bind k).alone s
        (List.replicate P.length i ++ is) = (k true).alone t is := by
  induction P generalizing s with
  | nil => exact ⟨s, rfl, rfl, fun _ => rfl, fun k is => rfl⟩
  | cons e P ih =>
    obtain ⟨he, hfit⟩ := hP e (List.mem_cons_self ..)
    obtain ⟨inbox, hstore⟩ := storeEvent_of_log (a := a) hs he hfit
    obtain ⟨t, hlog, hcursor, -, hrun⟩ := ih (hubInv_store hs he hstore)
      fun e' he' => hP e' (List.mem_cons_of_mem _ he')
    rw [setSide_self] at hcursor
    refine ⟨t, hlog, hcursor, fun h => absurd h (List.cons_ne_nil _ _), fun k is => ?_⟩
    rw [← hrun k is]
    simp only [storeEvents, Proc.act, Proc.bind_eq, Proc.bind, List.length_cons, List.replicate_succ,
      List.cons_append, Proc.alone, hstore, if_true]

/-- What a pull of terminal `a` leaves, alone. -/
theorem alone_pullRoundOf (hs : HubInv watched s) (hfit : ∀ e ∈ s.log, e.storable = true) :
    ((pullRoundOf a).alone s (List.replicate 503 i)).1.log = s.log ∧
    (s.queryEvents (s.side a).cursor i = [] →
      (((pullRoundOf a).alone s (List.replicate 503 i)).1.side a).inbox = (s.side a).inbox ∧
      (((pullRoundOf a).alone s (List.replicate 503 i)).1.side a).cursor = (s.side a).cursor) ∧
    ∀ last, (s.queryEvents (s.side a).cursor i).getLast? = some last →
      (((pullRoundOf a).alone s (List.replicate 503 i)).1.side a).cursor = last.eventId := by
  obtain ⟨hpage, -⟩ := queryEvents_spec s (s.side a).cursor i
  have hshort : (s.queryEvents (s.side a).cursor i).length ≤ 500 :=
    Nat.le_trans length_page_le (Nat.min_le_left _ _)
  have hserve : ∀ P, HubInv (fun _ => False) (s.setSide a fun d => { d with seen := P :: d.seen }) := by
    intro P
    have hstep : HubStep (pullNumber a) s (s.setSide a fun d => { d with seen := P :: d.seen }) :=
      .side a _ (.serve P rfl)
    exact hstep.inv ⟨hs.log_nodup, hs.owned, hs.log_owned, hs.replies, hs.side,
      fun _ h => h.elim⟩ fun _ h => h.elim
  -- two reads, then as many steps as there are events, then the cursor
  have hsplit : List.replicate 503 i = i :: i ::
      (List.replicate (s.queryEvents (s.side a).cursor i).length i ++
        List.replicate (501 - (s.queryEvents (s.side a).cursor i).length) i) := by
    rw [List.replicate_append_replicate, ← List.replicate_succ, ← List.replicate_succ]
    congr 1
    omega
  have hrest : ∃ m, 501 - (s.queryEvents (s.side a).cursor i).length = m + 1 :=
    ⟨500 - (s.queryEvents (s.side a).cursor i).length, by omega⟩
  obtain ⟨m, hm⟩ := hrest
  rw [hsplit, hm]
  unfold pullRoundOf
  simp only [Proc.get, Proc.act, Proc.bind_eq, Proc.bind, Proc.alone]
  generalize s.queryEvents (s.side a).cursor i = P at hpage
  obtain ⟨t, hlog, hcursor, hinbox, hrun⟩ := alone_storeEvents (a := a) (i := i) (hserve P) P
    fun e he => ⟨(hpage e he).1, hfit e (hpage e he).1⟩
  rw [setSide_self] at hcursor hinbox
  rw [hrun]
  cases hlast : P.getLast? with
  | none =>
    have hnil : P = [] := List.getLast?_eq_none_iff.mp hlast
    exact ⟨hlog, fun _ => ⟨hinbox hnil, hcursor⟩, fun last h => by cases h⟩
  | some last =>
    refine ⟨hlog, fun hnil => ?_, fun last' h => ?_⟩
    · rw [hnil] at hlast
      cases hlast
    · cases h
      simp [Proc.modify, Proc.act, Proc.alone, List.replicate_succ]

/-- Storing events serves no page and lands nothing. -/
theorem every_storeEvents (a : Actor) (P : List EventItem) :
    (storeEvents a P).Every fun s _ t => InOrder a s t ∧ LandsStorable s t := by
  induction P with
  | nil => trivial
  | cons e P ih =>
    refine Proc.Every.bind (Proc.Every.act fun s i => ?_) fun stored => ?_
    · cases storeEvent (s.side a).inbox e with
      | none => exact ⟨inOrder_of_eq rfl rfl, landsStorable_of_eq rfl⟩
      | some inbox =>
        exact ⟨inOrder_of_eq rfl (by rw [setSide_self]), landsStorable_of_eq rfl⟩
    · cases stored with
      | true => exact ih
      | false => trivial

/-- A query that misses nothing serves a page without a gap. -/
theorem inOrder_serve (hs : HubInv watched s) (hi : i.hidden = []) :
    InOrder a s (s.setSide a fun d =>
      { d with seen := s.queryEvents (s.side a).cursor i :: d.seen }) := by
  refine ⟨fun e he hnot => absurd he hnot, fun P hP e he hpast hin => ?_⟩
  have hP : P = s.queryEvents (s.side a).cursor i := by simpa [newPages] using hP
  subst hP
  obtain ⟨e', he', hle⟩ := hin
  by_contra hnot
  have hmem : e ∈ s.log.filter fun e =>
      decide ((s.side a).cursor < e.eventId) && !i.hidden.contains e.eventId :=
    List.mem_filter.mpr ⟨he, by simp [hpast, hi]⟩
  have hge : e'.eventId ≤ e.eventId := le_of_mem_of_notMem_page he' hmem hnot
  have hlog := ((queryEvents_spec s _ i).1 e' he').1
  have heq : e' = e := List.inj_on_of_nodup_map hs.log_nodup hlog he (Nat.le_antisymm hge hle)
  exact hnot (heq ▸ he')

/-- A pull under its number is a round of pulling. -/
theorem hubCode_pull (a : Actor) : hubCode (pullNumber a) (.pull a) = pullRoundOf a := if_pos rfl

/-- A complete pull is in order by itself. -/
theorem steps_fullPull {p : Pool SyncHub HubInput} (hs : HubInv watched p.state)
    (hi : i.hidden = []) :
    p.Steps hubCode (fun s t => InOrder a s t ∧ LandsStorable s t) (fullPull a i) := by
  have hrefl : ∀ s, InOrder a s s ∧ LandsStorable s s := fun s =>
    ⟨inOrder_of_eq rfl rfl, landsStorable_of_eq rfl⟩
  refine Pool.steps_restart _ hrefl p _ _ _ (Pool.steps_loaded _ hrefl p _ _ _ ?_)
  rw [hubCode_pull]
  unfold pullRoundOf
  refine ⟨hrefl _, ⟨inOrder_serve hs hi, landsStorable_of_eq rfl⟩, ?_⟩
  refine Proc.Every.aloneSteps (R := fun s _ t => InOrder a s t ∧ LandsStorable s t) ?_ _
    fun _ _ _ _ h => h
  refine (every_storeEvents a _).bind fun stored => ?_
  dsimp only
  split
  · exact Proc.Every.act fun s j =>
      ⟨inOrder_of_eq rfl (by rw [setSide_self]), landsStorable_of_eq rfl⟩
  · trivial

/-- A full pull is a round of pulling alone. -/
theorem run_fullPull (p : Pool SyncHub HubInput) (a : Actor) (i : HubInput) :
    (p.run hubCode (fullPull a i)).state =
      ((pullRoundOf a).alone p.state (List.replicate 503 i)).1 := by
  unfold fullPull
  rw [Pool.run_restart, hubCode_pull, Pool.run_loaded]
  simp only [Pool.loaded]

/-- A complete pull takes one event at least off what is unserved. -/
theorem length_unserved_fullPull {p : Pool SyncHub HubInput} (hs : HubInv watched p.state)
    (hfit : ∀ e ∈ p.state.log, e.storable = true) (hi : i.hidden = []) :
    (unserved a (p.run hubCode (fullPull a i)).state).length ≤
      (unserved a p.state).length - 1 := by
  obtain ⟨hlog, hempty, hlast⟩ := alone_pullRoundOf (a := a) (i := i) hs hfit
  rw [run_fullPull]
  generalize ((pullRoundOf a).alone p.state (List.replicate 503 i)).1 = t at hlog hempty hlast
  have hsees : p.state.queryEvents (p.state.side a).cursor i =
      page (·.eventId) (min 500 (max 1 i.room)) (unserved a p.state) := by
    simp [SyncHub.queryEvents, unserved, hi]
  rw [hsees] at hempty hlast
  unfold unserved at hempty hlast ⊢
  rw [hlog]
  generalize hu : p.state.log.filter (fun e => decide ((p.state.side a).cursor < e.eventId)) = u
    at hempty hlast
  cases hpage : (page (·.eventId) (min 500 (max 1 i.room)) u).getLast? with
  | none =>
    have hnil := List.getLast?_eq_none_iff.mp hpage
    have hu0 : u = [] := by
      rw [List.eq_nil_iff_forall_not_mem]
      intro e he
      have hmem : e ∈ page (·.eventId) (min 500 (max 1 i.room)) u :=
        mem_page_of_length_lt (by rw [hnil, List.length_nil]; omega) he
      rw [hnil] at hmem
      cases hmem
    rw [(hempty hnil).2, hu, hu0]
    exact Nat.zero_le _
  | some last =>
    have hmem : last ∈ u := mem_of_mem_page (List.mem_of_getLast? hpage)
    have hpast : (p.state.side a).cursor < last.eventId := by
      rw [← hu] at hmem
      simpa using (List.mem_filter.mp hmem).2
    have hshrink : p.state.log.filter (fun e => decide ((t.side a).cursor < e.eventId)) =
        u.filter fun e => last.eventId < e.eventId := by
      rw [← hu, List.filter_filter, hlast last hpage]
      refine List.filter_congr fun e _ => ?_
      rw [Bool.eq_iff_iff]
      simp
      omega
    rw [hshrink]
    have hlt : (u.filter fun e => last.eventId < e.eventId).length < u.length := by
      rw [List.length_filter_lt_length_iff_exists]
      exact ⟨last, hmem, by simp⟩
    omega

/-- After `k` complete pulls at most what `k` events cannot hold is unserved. -/
theorem run_fullPulls {p : Pool SyncHub HubInput} (h : (hubDiscipline (· = a)).Sound p)
    (hi : i.hidden = []) (k : ℕ) :
    (hubDiscipline (· = a)).Sound (p.run hubCode (List.replicate k (fullPull a i)).flatten) ∧
    (p.run hubCode (List.replicate k (fullPull a i)).flatten).state.log = p.state.log ∧
    (unserved a (p.run hubCode (List.replicate k (fullPull a i)).flatten).state).length ≤
      (unserved a p.state).length - k := by
  induction k generalizing p with
  | zero => exact ⟨h, rfl, Nat.le_refl _⟩
  | succ k ih =>
    have hsteps : p.Steps hubCode (hubDiscipline (· = a)).cond (fullPull a i) :=
      (steps_fullPull h.1 hi).mono fun s t hst b hb => hb ▸ hst
    have hnext := Discipline.run_sound (fun n op s _ => hubCode_safe n op s) h _ hsteps
    obtain ⟨hsound, hlog, hlen⟩ := ih hnext
    have hfit := (h.1.full a rfl).storable
    have hround := length_unserved_fullPull (a := a) h.1 hfit hi
    have hsame : (p.run hubCode (fullPull a i)).state.log = p.state.log := by
      rw [run_fullPull]
      exact (alone_pullRoundOf h.1 hfit).1
    rw [List.replicate_succ, List.flatten_cons, Pool.run_append]
    refine ⟨hsound, hlog.trans hsame, ?_⟩
    omega

end pulls

/-- An event that SQLite cannot bind, such as one with a revision of 2^63 or more, has no row in any
inbox, after any run. -/
theorem unbindable_not_stored (es : List (Event HubOp HubInput)) (a : Actor) {e : EventItem}
    (he : e.bindable = false) : ∀ r ∈ ((hubRun es).state.side a).inbox, r.sameKey e = false := by
  have hsound : (hubDiscipline fun _ => False).Sound (hubRun es) :=
    hubRun_sound es (Pool.steps_of_forall _ (fun _ _ _ h => h.elim) _ _)
  intro r hr
  by_contra hkey
  have hbind := bindable_of_sameKey (Bool.eq_true_of_not_eq_false hkey)
    ((hsound.1.side a).bindable r hr)
  rw [he] at hbind
  cases hbind

/-- When nothing of the log is unserved, no pull changes the inbox. -/
theorem run_fullPulls_idle {p : Pool SyncHub HubInput} {a : Actor}
    (h : (hubDiscipline fun _ => False).Sound p) (hfit : ∀ e ∈ p.state.log, e.storable = true)
    (hnone : unserved a p.state = []) (k : ℕ) :
    ((p.run hubCode (List.replicate k (fullPull a {})).flatten).state.side a).inbox =
      (p.state.side a).inbox := by
  induction k generalizing p with
  | zero => rfl
  | succ k ih =>
    have hpage : p.state.queryEvents (p.state.side a).cursor {} = [] := by
      have hsees : p.state.queryEvents (p.state.side a).cursor {} =
          page (·.eventId) 500 (unserved a p.state) := by
        simp [SyncHub.queryEvents, unserved]
      rw [hsees, hnone]
      rfl
    obtain ⟨hlog, hempty, -⟩ := alone_pullRoundOf (a := a) (i := {}) h.1 hfit
    obtain ⟨hinbox, hcursor⟩ := hempty hpage
    rw [← run_fullPull] at hlog hinbox hcursor
    have hnext := Discipline.run_sound (fun n op s _ => hubCode_safe n op s) h (fullPull a {})
      (Pool.steps_of_forall _ (fun _ _ _ h => h.elim) _ _)
    rw [List.replicate_succ, List.flatten_cons, Pool.run_append]
    refine (ih hnext (fun e he => hfit e ?_) ?_).trans hinbox
    · rwa [hlog] at he
    · unfold unserved at hnone ⊢
      rw [hlog, hcursor, hnone]

section witness

/-- A suppression event of the cloud for one hash. -/
private def hubEvent (h : String) : EventBody :=
  ⟨.text "suppression", .text h, 0, .operator, some "t", some "K_op+K_cl", some "c", false⟩

/-- Writer 2 takes id 1 and writer 3 id 2; both land, and then the operator's terminal pulls. -/
private def hubOrder : List (Event HubOp HubInput) :=
  [.start 2 (.put (hubEvent "a")), .start 3 (.put (hubEvent "b")), .step 2 {}, .step 3 {},
    .step 2 {}, .step 3 {}]

/-- The same writers, with a pull before writer 2 lands. -/
private def hubOvertaken : List (Event HubOp HubInput) :=
  [.start 2 (.put (hubEvent "a")), .start 3 (.put (hubEvent "b")), .step 2 {}, .step 3 {},
    .step 3 {}] ++ fullPull .operator {} ++ [.step 2 {}]

end witness

end Mailman.Analysis
