import Mailman.Analysis.CancelScope
import Mailman.Library.Solo
import Mailman.Model.CancelDesk

/-!
# What one cancel call does

A cancel call is followed through any run: its requests are cancels of pending packs of its
campaign or leave the table as it is, what it answers is the number of the cancels, and no pack its
index reads listed is pending any more. The index keys it passes go upward, so it makes at most two
requests for each pack that is stored, and two more.
-/

set_option autoImplicit false

namespace Mailman.Analysis

open Mailman.Library Mailman.Model Mailman.Interface

variable {Id : Type} [LinearOrder Id]

/-- A request takes pack `id` from pending to cancelled and drops its payload; it does nothing
else to the table. -/
def CancelsOne (id : Id) (x : CancelDesk Id × CancelDesk Id) : Prop :=
  ∃ v now, x.1.cloud.lookup id = some v ∧ v.status = .pending ∧
    x.2.cloud = x.1.cloud.store id (Pack.cancelledAt v now)

open Classical in
/-- The transitions from pending to cancelled among some requests. -/
noncomputable def cancelsMade (done : List (CancelDesk Id × CancelDesk Id)) : ℕ :=
  done.countP fun x => ∃ id, CancelsOne id x

/-- The pack is stored and no longer pending. -/
def Settled (w : CancelDesk Id) (id : Id) : Prop :=
  ∃ v, w.cloud.lookup id = some v ∧ v.status ≠ .pending

/-- What a later moment of the desk still shows of an earlier one, as far as call `n` is
concerned. -/
structure DeskLater (n : ℕ) (w u : CancelDesk Id) : Prop where
  life : CloudLater w.cloud u.cloud
  packs : ∀ id, ∀ v ∈ w.cloud.packs id, v ∈ u.cloud.packs id
  listed : u.listed n = w.listed n
  replies : u.replies n = w.replies n

omit [LinearOrder Id] in
/-- An item with a version is stored. -/
theorem lookup_of_mem {s : Cloud Id} {id : Id} {v : Pack Id} (hv : v ∈ s.packs id) :
    ∃ u, s.lookup id = some u := by
  cases hp : s.packs id with
  | nil => simp [hp] at hv
  | cons u l => exact ⟨u, by simp [Cloud.lookup, hp]⟩

/-- A desk follows itself. -/
theorem DeskLater.refl (n : ℕ) (w : CancelDesk Id) : DeskLater n w w :=
  ⟨.refl _, fun _ _ hv => hv, rfl, rfl⟩

/-- Later on the desk is transitive. -/
theorem DeskLater.trans {n : ℕ} {w u v : CancelDesk Id} (h : DeskLater n w u)
    (h' : DeskLater n u v) : DeskLater n w v :=
  ⟨h.life.trans h'.life, fun id p hp => h'.packs id p (h.packs id p hp),
    h'.listed.trans h.listed, h'.replies.trans h.replies⟩

/-- A settled pack stays settled. -/
theorem Settled.later {n : ℕ} {w u : CancelDesk Id} {id : Id} (hw : Settled w id)
    (h : DeskLater n w u) : Settled u id := by
  obtain ⟨v, hv, hst⟩ := hw
  have hlife := life_status w.cloud id hv
  have hstored : (life u.cloud id).status ≠ none := (h.life id).stored (by simp [hlife])
  have hpending : (life u.cloud id).status ≠ some .pending :=
    (h.life id).not_pending (by simp [hlife]) (by simpa [hlife] using hst)
  cases hu : u.cloud.lookup id with
  | none => simp [life, Cloud.status, hu] at hstored
  | some v' =>
    refine ⟨v', hu, ?_⟩
    simpa [life, Cloud.status, hu] using hpending

/-! ## One cancel -/

section cancel

variable {α : Type} {n : ℕ} {R : CancelDesk Id → CancelDesk Id → Prop} {w : CancelDesk Id} {id : Id}
  {k : Bool → DeskProc Id α} {Q : CancelDesk Id → List (CancelDesk Id × CancelDesk Id) → Prop}

/-- A cancel does not take back what it wrote. -/
theorem not_cancelsOne_self {x : CancelDesk Id × CancelDesk Id} (h : x.2.cloud = x.1.cloud)
    (id : Id) : ¬ CancelsOne id x := by
  rintro ⟨v, now, -, -, hstore⟩
  rw [h] at hstore
  have hlen := congrArg (fun s => (s.packs id).length) hstore
  simp at hlen

/-- A request that leaves the table cancels nothing. -/
theorem cancelsMade_cons_self {x : CancelDesk Id × CancelDesk Id} (h : x.2.cloud = x.1.cloud)
    (done : List (CancelDesk Id × CancelDesk Id)) : cancelsMade (x :: done) = cancelsMade done := by
  classical
  have hnone : ¬ ∃ id, CancelsOne id x := fun ⟨id, hx⟩ => not_cancelsOne_self h id hx
  simp [cancelsMade, hnone]

/-- A request that cancels one pack counts once. -/
theorem cancelsMade_cons {x : CancelDesk Id × CancelDesk Id} (h : CancelsOne id x)
    (done : List (CancelDesk Id × CancelDesk Id)) :
    cancelsMade (x :: done) = cancelsMade done + 1 := by
  classical
  have hsome : ∃ id, CancelsOne id x := ⟨id, h⟩
  simp [cancelsMade, hsome]

omit [LinearOrder Id] in
/-- A request of the table, made from the desk. -/
theorem atTable_act {β : Type} (f : Cloud Id → CloudInput Id → Cloud Id × β) :
    atTable (Proc.act f) = Proc.act fun w i =>
      ({ w with cloud := (f w.cloud i.table).1 }, (f w.cloud i.table).2) := rfl

omit [LinearOrder Id] in
/-- Programs of the table are sequenced on the desk as they are at the table. -/
theorem atTable_bind {β γ : Type} (p : CloudProc Id β) (f : β → CloudProc Id γ) :
    atTable (p.bind f) = (atTable p).bind fun a => atTable (f a) := Proc.zoom_bind ..

/-- The rule for a cancel: it is lost on a pack that is not pending, or it is won. -/
theorem traces_cancelPack (hnone : Q w [])
    (hlost : ∀ t, R w t → (∀ v, t.cloud.lookup id = some v → v.status ≠ .pending) →
      (k false).Traces R t fun u done => Q u ((t, t) :: done))
    (hwon : ∀ t t', R w t → CancelsOne id (t, t') → t'.listed = t.listed → t'.replies = t.replies →
      (k true).Traces R t' fun u done => Q u ((t, t') :: done)) :
    ((atTable (cancelPack id)).bind k).Traces R w Q := by
  rw [cancelPack, atTable_act]
  refine Proc.Traces.act hnone fun t i ht => ?_
  cases hv : t.cloud.lookup id with
  | none => exact hlost t ht (by simp [hv])
  | some v =>
    by_cases hst : v.status = .pending
    · simp only [hst, if_true]
      exact hwon t _ ht ⟨v, i.table.now, hv, hst, rfl⟩ rfl rfl
    · simp only [hst, if_false]
      exact hlost t ht (by simp [hv, hst])

/-- A won cancel settles the pack and leaves every version in its place. -/
theorem CancelsOne.later {t t' : CancelDesk Id} (h : CancelsOne id (t, t'))
    (hlisted : t'.listed = t.listed) (hreplies : t'.replies = t.replies) :
    Settled t' id ∧ DeskLater n t t' := by
  obtain ⟨v, now, hv, hst, hstore⟩ := h
  dsimp only at hv hstore
  refine ⟨⟨Pack.cancelledAt v now, ?_, by simp [Pack.cancelledAt]⟩, ?_, ?_, by rw [hlisted],
    by rw [hreplies]⟩
  · rw [hstore, Cloud.lookup, packs_store_self]
    rfl
  · rw [hstore]
    intro id'
    by_cases hid : id' = id
    · subst hid
      rw [life_store_self]
      refine (show LifeStep n True _ _ from .cancel _ ?_).later
      rw [life_status t.cloud id' hv, hst]
    · rw [life_store_ne _ _ _ hid]
      exact .refl _
  · rw [hstore]
    intro id' u hu
    by_cases hid : id' = id
    · subst hid
      rw [packs_store_self]
      exact List.mem_cons_of_mem _ hu
    · rwa [packs_store_ne _ _ _ hid]

end cancel

/-! ## The campaign cancel -/

section campaign

variable {α : Type} {n c : ℕ} {w : CancelDesk Id}

/-- How the states a call meets follow on each other. -/
def DeskLink (n : ℕ) (w u : CancelDesk Id) : Prop :=
  DeskLater n w u ∧ ∀ id, OneCampaign id (u.cloud.packs id)

/-- What call `n` for campaign `c` has done and answered, when it had counted `j` before. -/
structure Exact (n c j : ℕ) (u : CancelDesk Id) (done : List (CancelDesk Id × CancelDesk Id)) :
    Prop where
  own : ∀ x ∈ done, x.2.cloud = x.1.cloud ∨
    ∃ id, CancelsOne id x ∧ ∃ v, x.1.cloud.lookup id = some v ∧ v.campaignId = c
  answer : ∀ r, u.replies n = some r → r = .campaign (j + cancelsMade done) c ∧
    ∀ p ∈ u.listed n, Settled u p.packId

/-- A call without an answer has promised nothing. -/
theorem Exact.silent {j : ℕ} (h : w.replies n = none) : Exact n c j w [] :=
  ⟨by simp, fun r hr => by rw [h] at hr; cases hr⟩

/-- A request that leaves the table keeps a call exact. -/
theorem Exact.cons_self {j : ℕ} {u t t' : CancelDesk Id}
    {done : List (CancelDesk Id × CancelDesk Id)} (ht : t'.cloud = t.cloud)
    (h : Exact n c j u done) : Exact n c j u ((t, t') :: done) where
  own x hx := by
    rcases List.mem_cons.mp hx with rfl | hx
    · exact .inl ht
    · exact h.own x hx
  answer r hr := by
    rw [cancelsMade_cons_self ht]
    exact h.answer r hr

/-- A cancelled pack of the campaign is counted. -/
theorem Exact.cons {j : ℕ} {u t t' : CancelDesk Id} {done : List (CancelDesk Id × CancelDesk Id)}
    {id : Id} {v : Pack Id} (hwon : CancelsOne id (t, t')) (hv : t.cloud.lookup id = some v)
    (hc : v.campaignId = c) (h : Exact n c (j + 1) u done) : Exact n c j u ((t, t') :: done) where
  own x hx := by
    rcases List.mem_cons.mp hx with rfl | hx
    · exact .inr ⟨id, hwon, v, hv, hc⟩
    · exact h.own x hx
  answer r hr := by
    rw [cancelsMade_cons hwon, ← Nat.add_assoc, Nat.add_right_comm]
    exact h.answer r hr

omit [LinearOrder Id] in
/-- A lost cancel leaves a stored pack that is settled. -/
theorem settled_of_lost {id : Id} {u : Pack Id} (hu : u ∈ w.cloud.packs id)
    (hlost : ∀ v, w.cloud.lookup id = some v → v.status ≠ .pending) : Settled w id := by
  obtain ⟨v, hv⟩ := lookup_of_mem hu
  exact ⟨v, hv, hlost v hv⟩

/-- The loop over a page is exact and settles its items. -/
theorem traces_cancelItems {k : ℕ → DeskProc Id α} {items : List (Pack Id)} {cancelled : ℕ}
    (hreply : w.replies n = none)
    (hitems : ∀ p ∈ items, ∃ u ∈ w.cloud.packs p.packId, u.campaignId = c)
    (hlisted : ∀ p ∈ w.listed n, Settled w p.packId ∨ p ∈ items)
    (hk : ∀ t b, t.replies n = none → (∀ p ∈ t.listed n, Settled t p.packId) →
      (k b).Traces (DeskLink n) t (Exact n c b)) :
    ((cancelItems items cancelled).bind k).Traces (DeskLink n) w (Exact n c cancelled) := by
  induction items generalizing w cancelled with
  | nil =>
    apply hk w cancelled hreply
    intro p hp
    exact (hlisted p hp).resolve_right (List.not_mem_nil)
  | cons p ps ih =>
    simp only [cancelItems, Proc.bind_eq, Proc.bind_assoc]
    -- what holds of the rest once this pack is settled
    have hrest : ∀ t, DeskLater n w t → Settled t p.packId →
        (∀ q ∈ ps, ∃ u ∈ t.cloud.packs q.packId, u.campaignId = c) ∧
          ∀ q ∈ t.listed n, Settled t q.packId ∨ q ∈ ps := by
      intro t ht hset
      refine ⟨fun q hq => ?_, fun q hq => ?_⟩
      · obtain ⟨u, hu, hcamp⟩ := hitems q (List.mem_cons_of_mem _ hq)
        exact ⟨u, ht.packs _ u hu, hcamp⟩
      · rw [ht.listed] at hq
        rcases hlisted q hq with hq | hq
        · exact .inl (hq.later ht)
        · rcases List.mem_cons.mp hq with rfl | hq
          · exact .inl hset
          · exact .inr hq
    obtain ⟨u, hu, hcamp⟩ := hitems p (List.mem_cons_self ..)
    refine traces_cancelPack (.silent hreply) (fun t ht hlost => ?_) fun t t' ht hwon hl hr => ?_
    · obtain ⟨hps, hlist⟩ := hrest t ht.1 (settled_of_lost (ht.1.packs _ u hu) hlost)
      have hsilent : t.replies n = none := ht.1.replies.trans hreply
      exact (ih hsilent hps hlist).mono fun _ _ h => h.cons_self rfl
    · obtain ⟨hset, hlater⟩ := hwon.later (n := n) hl hr
      obtain ⟨hps, hlist⟩ := hrest t' (ht.1.trans hlater) hset
      have hsilent : t'.replies n = none := (hlater.replies.trans ht.1.replies).trans hreply
      obtain ⟨v, now, hv, hst, hstore⟩ := hwon
      have hmem : v ∈ t.cloud.packs p.packId := List.mem_of_mem_head? hv
      have hvc : v.campaignId = c :=
        ((ht.2 p.packId u (ht.1.packs _ u hu)).2 v hmem).trans hcamp
      exact (ih hsilent hps hlist).mono fun _ _ h => h.cons ⟨v, now, hv, hst, hstore⟩ hv hvc

/-- What is left to do once the loop has ended. -/
def answerCampaign (n c : ℕ) : Option ℕ → DeskProc Id Unit
  | none => pure ()
  | some k => reply n (.campaign k c)

omit [LinearOrder Id] in
/-- The entries that are evaluated are entries of the index. -/
theorem mem_upward [LinearOrder Id] {start : Option (Stamp ×ₗ Id)} {l : List (Pack Id)} {p : Pack Id}
    (hp : p ∈ upward start l) : p ∈ l := by
  induction l generalizing start with
  | nil => exact hp
  | cons q l ih =>
    simp only [upward] at hp
    split at hp
    · rcases List.mem_cons.mp hp with rfl | hp
      · exact List.mem_cons_self ..
      · exact List.mem_cons_of_mem _ (ih hp)
    · exact List.mem_cons_of_mem _ (ih hp)

/-- An entry that a query evaluates is a version of the pack it names. -/
theorem mem_evaluated {i : DeskInput Id} {start : Option (Stamp ×ₗ Id)} {p : Pack Id}
    (hone : ∀ id, OneCampaign id (w.cloud.packs id)) (hp : p ∈ evaluated w i start) :
    p ∈ w.cloud.packs p.packId := by
  have hpage := (List.mem_filter.mp (mem_upward hp)).1
  obtain ⟨⟨id, lag⟩, -, hshown⟩ := List.mem_filterMap.mp hpage
  have hmem : p ∈ w.cloud.packs id := List.mem_of_getElem? hshown
  rwa [(hone id p hmem).1]

/-- The rule for a query. -/
theorem traces_queryPending {R : CancelDesk Id → CancelDesk Id → Prop}
    {start : Option (Stamp ×ₗ Id)} {k : List (Pack Id) × Option (Stamp ×ₗ Id) → DeskProc Id α}
    {Q : CancelDesk Id → List (CancelDesk Id × CancelDesk Id) → Prop} (hnone : Q w [])
    (h : ∀ t t' items key, R w t → t'.cloud = t.cloud → t'.replies = t.replies →
      t'.listed n = t.listed n ++ items →
      (∀ p ∈ items, p.campaignId = c ∧ ∃ i, p ∈ evaluated t i start) →
      (k (items, key)).Traces R t' fun u done => Q u ((t, t') :: done)) :
    ((queryPending n c start).bind k).Traces R w Q := by
  refine Proc.Traces.act hnone fun t i ht => ?_
  refine h t _ _ _ ht rfl rfl (Function.update_self ..) fun p hp => ?_
  obtain ⟨hp, hcamp⟩ := List.mem_filter.mp hp
  exact ⟨by simpa using hcamp, i, hp⟩

/-- The loop over the pages is exact. -/
theorem traces_cancelFrom (c fuel cancelled : ℕ) (start : Option (Stamp ×ₗ Id))
    (hreply : w.replies n = none) (hlisted : ∀ p ∈ w.listed n, Settled w p.packId) :
    ((cancelFrom n c fuel start cancelled).bind (answerCampaign n c)).Traces (DeskLink n) w
      (Exact n c cancelled) := by
  induction fuel generalizing w start cancelled with
  | zero => exact .ret (.silent hreply)
  | succ fuel ih =>
    simp only [cancelFrom, Proc.bind_eq, Proc.bind_assoc]
    refine traces_queryPending (.silent hreply) fun t t' items key ht hcloud hreplies hnew hitems => ?_
    have hsilent : t'.replies n = none := by rw [hreplies, ht.1.replies, hreply]
    refine (traces_cancelItems (c := c) hsilent (fun p hp => ?_) (fun p hp => ?_)
      fun u b hu hset => ?_).mono fun _ _ h => h.cons_self hcloud
    · obtain ⟨hcamp, i, hp⟩ := hitems p hp
      rw [hcloud]
      exact ⟨p, mem_evaluated ht.2 hp, hcamp⟩
    · rw [hnew] at hp
      rcases List.mem_append.mp hp with hp | hp
      · left
        rw [ht.1.listed] at hp
        obtain ⟨v, hv, hst⟩ := (hlisted p hp).later ht.1
        exact ⟨v, by rw [hcloud, hv], hst⟩
      · exact .inr hp
    · cases key with
      | some key => exact ih _ _ hu hset
      | none =>
        refine Proc.Traces.act (k := .ret) (.silent hu) fun v i hv => .ret ?_
        refine ⟨by simp, fun r hr => ?_⟩
        have hset' : ∀ p ∈ v.listed n, Settled v p.packId := by
          intro p hp
          rw [hv.1.listed] at hp
          exact (hset p hp).later hv.1
        simp only [Function.update_self, Option.some.injEq] at hr
        refine ⟨?_, hset'⟩
        rw [← hr, cancelsMade_cons_self rfl]
        simp [cancelsMade]

end campaign

/-! ## The cancel of one pack -/

section single

variable {n : ℕ} {w : CancelDesk Id} {id : Id}

/-- What call `n` for pack `id` has done and answered. -/
structure Single (n : ℕ) (id : Id) (u : CancelDesk Id)
    (done : List (CancelDesk Id × CancelDesk Id)) : Prop where
  own : ∀ x ∈ done, x.2.cloud = x.1.cloud ∨ CancelsOne id x
  answer : ∀ r, u.replies n = some r →
    ((∃ reason, r = .pack true reason) ↔ ∃ x ∈ done, CancelsOne id x)

/-- A single cancel without an answer has promised nothing. -/
theorem Single.silent (h : w.replies n = none) : Single n id w [] :=
  ⟨by simp, fun r hr => by rw [h] at hr; cases hr⟩

/-- A request that leaves the table keeps a single cancel exact. -/
theorem Single.cons_self {u t t' : CancelDesk Id} {done : List (CancelDesk Id × CancelDesk Id)}
    (ht : t'.cloud = t.cloud) (h : Single n id u done) : Single n id u ((t, t') :: done) where
  own x hx := by
    rcases List.mem_cons.mp hx with rfl | hx
    · exact .inl ht
    · exact h.own x hx
  answer r hr := by
    rw [h.answer r hr]
    simp [not_cancelsOne_self (x := (t, t')) ht id]

/-- An answer that nothing was cancelled is exact. -/
theorem traces_reply {r : CancelReply} (hreply : w.replies n = none)
    (hr : ∀ reason, r ≠ .pack true reason) :
    (reply n r : DeskProc Id Unit).Traces (DeskLink n) w (Single n id) := by
  refine Proc.Traces.act (k := .ret) (.silent hreply) fun t i ht => .ret ?_
  refine Single.cons_self rfl ⟨by simp, fun r' hr' => ?_⟩
  simp only [Function.update_self, Option.some.injEq] at hr'
  simp [← hr', hr]

/-- An answer that the pack was cancelled is exact after a cancel of it. -/
theorem traces_reply_won {t t' : CancelDesk Id} {reason : String} (hreply : t'.replies n = none)
    (hwon : CancelsOne id (t, t')) : (reply n (.pack true reason) : DeskProc Id Unit).Traces
      (DeskLink n) t' fun u done => Single n id u ((t, t') :: done) := by
  refine Proc.Traces.act (k := .ret) ⟨?_, fun r hr => ?_⟩ fun v i hv => .ret ⟨?_, fun r hr => ?_⟩
  · simp [hwon]
  · rw [hreply] at hr
    cases hr
  · simp [hwon]
  · simp only [Function.update_self, Option.some.injEq] at hr
    simp [← hr, hwon]

/-- After a lost cancel the pack is looked up. -/
theorem traces_getPack {α : Type} {k : Option (Pack Id) → DeskProc Id α}
    (hreply : w.replies n = none)
    (h : ∀ t pack, t.replies n = none → (k pack).Traces (DeskLink n) t (Single n id)) :
    ((atTable (getPack id)).bind k).Traces (DeskLink n) w (Single n id) := by
  rw [getPack, Proc.get, atTable_act]
  refine Proc.Traces.act (.silent hreply) fun t i ht => ?_
  have hsilent : t.replies n = none := ht.1.replies.trans hreply
  exact (h t _ hsilent).mono fun _ _ hs => hs.cons_self rfl

/-- A won cancel is answered, a lost one is looked into. -/
theorem traces_cancelThen {k : Bool → DeskProc Id Unit} {reason : String}
    (hreply : w.replies n = none) (hwon : k true = reply n (.pack true reason))
    (hlost : ∀ t, t.replies n = none → (k false).Traces (DeskLink n) t (Single n id)) :
    ((atTable (cancelPack id)).bind k).Traces (DeskLink n) w (Single n id) := by
  refine traces_cancelPack (.silent hreply) (fun t ht _ => ?_) fun t t' ht hone _ hr => ?_
  · have hsilent : t.replies n = none := ht.1.replies.trans hreply
    exact (hlost t hsilent).mono fun _ _ h => h.cons_self rfl
  · rw [hwon]
    have hsilent : t'.replies n = none := by rw [hr, ht.1.replies, hreply]
    exact traces_reply_won hsilent hone

/-- A single cancel is exact. -/
theorem traces_packsCancel (id : Id) (hreply : w.replies n = none) :
    (deskCode n (.cancelPack id)).Traces (DeskLink n) w (Single n id) := by
  simp only [deskCode, packsCancel, Proc.bind_eq, atTable_bind, Proc.bind_assoc]
  refine traces_cancelThen hreply rfl fun t ht => ?_
  simp only [Bool.false_eq_true, if_false, atTable_bind, Proc.bind_assoc]
  refine traces_getPack ht fun u pack hu => ?_
  cases pack with
  | none => exact traces_reply hu (by simp)
  | some pack =>
    dsimp only
    split
    · simp only [atTable_bind, Proc.bind_assoc]
      refine traces_cancelThen hu rfl fun v hv => ?_
      simp only [Bool.false_eq_true, if_false, atTable_bind, Proc.bind_assoc]
      refine traces_getPack hv fun x pack hx => ?_
      cases pack with
      | none => exact traces_reply hx (by simp)
      | some pack =>
        dsimp only
        split
        · exact traces_reply hx (by simp)
        · exact traces_reply hx (by simp)
    · exact traces_reply hu (by simp)

end single

/-! ## The number of its requests -/

section requests

variable {α : Type} {n c : ℕ} {ids : Finset Id} {sendAt : Id → Stamp} {w : CancelDesk Id}

/-- Every version of the table is of one of these packs, and of its one `send_at`. -/
def StoredWithin (ids : Finset Id) (sendAt : Id → Stamp) (w : CancelDesk Id) : Prop :=
  ∀ id, ∀ v ∈ w.cloud.packs id, id ∈ ids ∧ v.packId = id ∧ v.sendAt = sendAt id

/-- The packs whose index key is past the start key. -/
def past (ids : Finset Id) (sendAt : Id → Stamp) (start : Option (Stamp ×ₗ Id)) : Finset Id :=
  ids.filter fun id => start.all fun key => key < toLex (sendAt id, id)

/-- What a query evaluates is no longer past the key it stops at. -/
theorem length_upward_le (start : Option (Stamp ×ₗ Id)) {l : List (Pack Id)}
    (hl : ∀ p ∈ l, p.packId ∈ ids ∧ p.sendAt = sendAt p.packId) :
    (upward start l).length +
      (past ids sendAt (((upward start l).getLast?.map indexKey).or start)).card ≤
        (past ids sendAt start).card := by
  induction l generalizing start with
  | nil => simp [upward]
  | cons p l ih =>
    have hrest : ∀ q ∈ l, q.packId ∈ ids ∧ q.sendAt = sendAt q.packId :=
      fun q hq => hl q (List.mem_cons_of_mem _ hq)
    obtain ⟨hmem, hat⟩ := hl p (List.mem_cons_self ..)
    simp only [upward]
    split
    · next hstart =>
      have hkey : indexKey p = toLex (sendAt p.packId, p.packId) := by rw [indexKey, hat]
      -- the entry itself is past the start key and not past its own
      have hone : (past ids sendAt (some (indexKey p))).card + 1 ≤ (past ids sendAt start).card := by
        apply Finset.card_lt_card
        refine Finset.ssubset_iff_of_subset ?_ |>.mpr ⟨p.packId, ?_, ?_⟩
        · intro id hid
          obtain ⟨hid, hlt⟩ := Finset.mem_filter.mp hid
          refine Finset.mem_filter.mpr ⟨hid, ?_⟩
          cases start with
          | none => rfl
          | some key =>
            simp only [Option.all_some, decide_eq_true_eq] at hstart hlt ⊢
            exact hstart.trans hlt
        · refine Finset.mem_filter.mpr ⟨hmem, ?_⟩
          rw [← hkey]
          exact hstart
        · simp [past, hkey]
      have hnext := ih (some (indexKey p)) hrest
      have hlast : ((p :: upward (some (indexKey p)) l).getLast?.map indexKey).or start =
          ((upward (some (indexKey p)) l).getLast?.map indexKey).or (some (indexKey p)) := by
        rw [List.getLast?_cons]
        cases (upward (some (indexKey p)) l).getLast? <;> rfl
      rw [hlast, List.length_cons]
      omega
    · exact ih _ hrest

/-- How the states a call meets are linked, when no more than these packs are stored. -/
def Bounded (ids : Finset Id) (sendAt : Id → Stamp) (_ u : CancelDesk Id) : Prop :=
  StoredWithin ids sendAt u

/-- The loop over a page makes a request for each item. -/
theorem finishes_cancelItems {k : ℕ → DeskProc Id α} {items : List (Pack Id)} {cancelled m : ℕ}
    {Q : CancelDesk Id → Prop} (hk : ∀ t b, (k b).Finishes (Bounded ids sendAt) t m Q) :
    ((cancelItems items cancelled).bind k).Finishes (Bounded ids sendAt) w (items.length + m) Q := by
  induction items generalizing w cancelled with
  | nil =>
    rw [List.length_nil, Nat.zero_add]
    exact hk w cancelled
  | cons p ps ih =>
    simp only [cancelItems, Proc.bind_eq, Proc.bind_assoc]
    rw [List.length_cons, Nat.add_right_comm, cancelPack, atTable_act]
    exact Proc.Finishes.act fun t i _ => ih

/-- The loop over the pages makes two requests at most for each pack that is left. -/
theorem finishes_cancelFrom (w : CancelDesk Id) (fuel cancelled : ℕ)
    (start : Option (Stamp ×ₗ Id))
    (hfuel : (past ids sendAt start).card < fuel) :
    ((cancelFrom n c fuel start cancelled).bind (answerCampaign n c)).Finishes (Bounded ids sendAt) w
      (2 * (past ids sendAt start).card + 2) fun u => ∃ k, u.replies n = some (.campaign k c) := by
  induction fuel generalizing w start cancelled with
  | zero => exact absurd hfuel (Nat.not_lt_zero _)
  | succ fuel ih =>
    simp only [cancelFrom, Proc.bind_eq, Proc.bind_assoc]
    refine Proc.Finishes.act (m := 2 * (past ids sendAt start).card + 1) fun t i ht => ?_
    have hpage : ∀ p ∈ t.cloud.page i.table fun p => p.status = .pending,
        p.packId ∈ ids ∧ p.sendAt = sendAt p.packId := by
      intro p hp
      obtain ⟨⟨id, lag⟩, -, hshown⟩ := List.mem_filterMap.mp (List.mem_filter.mp hp).1
      obtain ⟨hid, hfiled, hat⟩ := ht id p (List.mem_of_getElem? hshown)
      rw [hfiled]
      exact ⟨hid, hat⟩
    have hle := length_upward_le start hpage
    have hitems := List.length_filter_le (fun p : Pack Id => p.campaignId = c) (evaluated t i start)
    change _ + (past ids sendAt (((evaluated t i start).getLast?.map indexKey).or start)).card ≤ _ at hle
    change (evaluated t i start).length + _ ≤ _ at hle
    dsimp only
    cases hkey : if i.more then (evaluated t i start).getLast?.map indexKey else none with
    | none =>
      refine (finishes_cancelItems (m := 1) fun u b => ?_).mono (by omega)
      exact Proc.Finishes.act (k := .ret) fun v j _ => .ret ⟨b, Function.update_self ..⟩
    | some key =>
      obtain ⟨last, hlast, rfl⟩ : ∃ p, (evaluated t i start).getLast? = some p ∧ indexKey p = key := by
        split at hkey
        · simpa using hkey
        · cases hkey
      have hne : 0 < (evaluated t i start).length := by
        apply List.length_pos_iff.mpr
        intro hnil
        rw [hnil] at hlast
        cases hlast
      rw [hlast, Option.map_some, Option.some_or] at hle
      have hnext : (past ids sendAt (some (indexKey last))).card < fuel := by omega
      refine (finishes_cancelItems fun u b => ih u b _ hnext).mono ?_
      omega

end requests

/-! ## The run -/

section runs

variable {n : ℕ}

/-- What the desk always satisfies. -/
structure DeskInv (w : CancelDesk Id) : Prop where
  cloud : CloudInv w.cloud
  record : RecordInv w.cloud
  campaign : ∀ id, OneCampaign id (w.cloud.packs id)
  sendAt : ∀ id, OneSendAt (w.cloud.packs id)

/-- The history of the other calls stays as it is. -/
def OthersKept (n : ℕ) (w u : CancelDesk Id) : Prop :=
  ∀ m, m ≠ n → u.listed m = w.listed m ∧ u.replies m = w.replies m

/-- The terms of the desk: those of the pack table, and each call writes its own history. -/
def deskDiscipline : Discipline (CancelDesk Id) where
  inv := DeskInv
  rely n w u := CloudRely n w.cloud u.cloud
  guar n w u := CloudStep (fun _ => True) n w.cloud u.cloud ∧ OthersKept n w u
  cond w u := SomeWrite w.cloud u.cloud
  rely_refl n w := (cloudDiscipline fun _ => True).rely_refl n w.cloud
  rely_trans n w u v := (cloudDiscipline fun _ => True).rely_trans n w.cloud u.cloud v.cloud
  guar_rely m n w u hmn hw h _ :=
    (cloudDiscipline fun _ => True).guar_rely m n _ _ hmn hw.cloud h.1 trivial
  keep n w u hw h hwrite := by
    obtain ⟨hcloud, hrecord⟩ := recordDiscipline.keep n _ _ ⟨hw.cloud, hw.record⟩ h.1 hwrite
    obtain ⟨now, hwrite⟩ := hwrite
    exact ⟨hcloud, hrecord, fun id => (hwrite id).oneCampaign (hw.campaign id),
      fun id => (hwrite id).oneSendAt (hw.sendAt id)⟩

/-- One request of a cancel call. -/
def CallWrite (n : ℕ) (w : CancelDesk Id) (_ : DeskInput Id) (u : CancelDesk Id) : Prop :=
  (u.cloud = w.cloud ∨ ∃ id, CancelsOne id (w, u)) ∧ OthersKept n w u

/-- A cancel of one pack is a write of a call. -/
theorem every_cancelAt (id : Id) : (atTable (cancelPack id)).Every (CallWrite n) := by
  rw [cancelPack, atTable_act]
  refine Proc.Every.act fun w i => ?_
  cases hv : w.cloud.lookup id with
  | none => exact ⟨.inl rfl, fun _ _ => ⟨rfl, rfl⟩⟩
  | some v =>
    by_cases hst : v.status = .pending
    · simp only [hst, if_true]
      exact ⟨.inr ⟨id, v, i.table.now, hv, hst, rfl⟩, fun _ _ => ⟨rfl, rfl⟩⟩
    · simp only [hst, if_false]
      exact ⟨.inl rfl, fun _ _ => ⟨rfl, rfl⟩⟩

/-- An answer is a write of a call. -/
theorem every_reply (r : CancelReply) : (reply n r : DeskProc Id Unit).Every (CallWrite n) :=
  Proc.Every.act fun _ _ => ⟨.inl rfl, fun _ hm => ⟨rfl, Function.update_of_ne hm ..⟩⟩

/-- The loop over a page makes writes of a call. -/
theorem every_cancelItems (items : List (Pack Id)) (cancelled : ℕ) :
    (cancelItems items cancelled).Every (CallWrite n) := by
  induction items generalizing cancelled with
  | nil => trivial
  | cons p ps ih => exact (every_cancelAt p.packId).bind fun _ => ih _

/-- The loop over the pages makes writes of a call. -/
theorem every_cancelFrom (c fuel : ℕ) (start : Option (Stamp ×ₗ Id)) (cancelled : ℕ) :
    (cancelFrom n c fuel start cancelled).Every (CallWrite n) := by
  induction fuel generalizing start cancelled with
  | zero => trivial
  | succ fuel ih =>
    have hquery : (queryPending n c start : DeskProc Id _).Every (CallWrite n) :=
      Proc.Every.act fun _ _ => ⟨.inl rfl, fun _ hm => ⟨Function.update_of_ne hm .., rfl⟩⟩
    refine hquery.bind fun a => (every_cancelItems a.1 cancelled).bind fun b => ?_
    obtain ⟨items, key⟩ := a
    cases key with
    | none => trivial
    | some key => exact ih _ _

/-- A campaign's cancel makes writes of a call. -/
theorem every_cancelCampaignReq (fuel : ℕ) (c : Option ℕ) :
    (packsCancelCampaignReq n fuel c : DeskProc Id Unit).Every (CallWrite n) := by
  cases c with
  | none => exact every_reply _
  | some c =>
    refine (every_cancelFrom c fuel none 0).bind fun r => ?_
    cases r with
    | none => trivial
    | some k => exact every_reply _

/-- A single cancel makes writes of a call. -/
theorem every_packsCancel (id : Id) : (atTable (packsCancel id)).Every (CallWrite n) := by
  have hget : (atTable (getPack id)).Every (CallWrite n) := by
    rw [getPack, Proc.get, atTable_act]
    exact Proc.Every.act fun w i => ⟨.inl rfl, fun _ _ => ⟨rfl, rfl⟩⟩
  simp only [packsCancel, Proc.bind_eq, atTable_bind]
  refine (every_cancelAt id).bind fun won => ?_
  cases won with
  | true => trivial
  | false =>
    simp only [Bool.false_eq_true, if_false, atTable_bind]
    refine hget.bind fun pack => ?_
    cases pack with
    | none => trivial
    | some pack =>
      dsimp only
      split
      · simp only [atTable_bind]
        refine (every_cancelAt id).bind fun won => ?_
        cases won with
        | true => trivial
        | false =>
          simp only [Bool.false_eq_true, if_false, atTable_bind]
          refine hget.bind fun pack => ?_
          cases pack with
          | none => trivial
          | some pack =>
            dsimp only
            split <;> trivial
      · trivial

/-- A cancel of a pending pack is a request of the pack table. -/
theorem CallWrite.step {w u : CancelDesk Id} {i : DeskInput Id} (h : CallWrite n w i u)
    (hw : CloudInv w.cloud) : CloudStep (fun _ => True) n w.cloud u.cloud := by
  rcases h.1 with heq | ⟨id, v, now, hv, hst, hstore⟩
  · rw [heq]
    exact .refl _ n _
  · dsimp only at hv hstore
    rw [hstore]
    have hfiled : v.packId = id := packId_of_lookup w.cloud id hw hv
    refine cloudStep_store w.cloud id _ hfiled (.cancel _ ?_)
    rw [life_status w.cloud id hv, hst]

/-- A write of a call is a write of the table. -/
theorem CallWrite.some {w u : CancelDesk Id} {i : DeskInput Id} (h : CallWrite n w i u) :
    SomeWrite w.cloud u.cloud := by
  rcases h.1 with heq | ⟨id, v, now, hv, hst, hstore⟩
  · rw [heq]
    exact .refl _
  · dsimp only at hv hstore
    rw [hstore]
    exact ⟨now, TableWrite.store (i := { now := now }) hv fun l => .cancel v l hst⟩

/-- Every request of the desk is a write of the pack record. -/
theorem every_deskCode (n : ℕ) (op : DeskOp Id) :
    (deskCode n op).Every fun w _ u => SomeWrite w.cloud u.cloud := by
  cases op with
  | table op => exact Proc.Every.zoom (every_cloudCode n op) fun _ i _ h => ⟨i.table.now, h⟩
  | cancelCampaign fuel c =>
    exact (every_cancelCampaignReq fuel c).mono (fun _ _ _ h => h.some) fun _ h => h
  | cancelPack id =>
    exact ((every_packsCancel id).bind fun r => every_reply r).mono (fun _ _ _ h => h.some)
      fun _ h => h

/-- Every operation keeps the terms of the desk. -/
theorem safe_deskCode (n : ℕ) (op : DeskOp Id) (w : CancelDesk Id) :
    deskDiscipline.Safe n (deskCode n op) (fun _ _ => True) w := by
  have hcall : ∀ {p : DeskProc Id Unit}, p.Every (CallWrite n) →
      deskDiscipline.Safe n p (fun _ _ => True) w :=
    fun h => Discipline.Safe.of_every h fun _ _ _ hw hwrite => ⟨hwrite.step hw.cloud, hwrite.2⟩
  cases op with
  | table op =>
    have hgrows : deskDiscipline.Grows fun _ _ : CancelDesk Id => True :=
      ⟨fun _ => trivial, fun _ _ _ _ _ => trivial, fun _ _ _ _ => trivial, fun _ _ _ _ _ => trivial⟩
    have hcloud : (cloudDiscipline fun _ : Id => True).Safe n (cloudCode n op) (fun _ _ => True)
        w.cloud := cloudCode_safe n op w.cloud fun _ _ _ => trivial
    change deskDiscipline.Safe n (atTable (cloudCode n op)) _ w
    unfold atTable
    refine Discipline.Safe.zoom (D := cloudDiscipline fun _ => True) (r := w) hgrows (fun _ _ _ => rfl)
      (fun _ _ h => h) (fun _ h => h.cloud) (fun t i s _ _ h => ?_) trivial hcloud
    exact ⟨h, fun _ _ => ⟨rfl, rfl⟩⟩
  | cancelCampaign fuel c => exact hcall (every_cancelCampaignReq fuel c)
  | cancelPack id => exact hcall ((every_packsCancel id).bind fun r => every_reply r)

/-- What a request leaves of the table: every pack at a later moment, every version in place. -/
def TableLater (s t : Cloud Id) : Prop :=
  CloudLater s t ∧ ∀ id, ∀ v ∈ s.packs id, v ∈ t.packs id

/-- A step of the cloud leaves the table later. -/
theorem CloudStep.tableLater {s t : Cloud Id} (h : CloudStep (fun _ => True) n s t) :
    TableLater s t := by
  refine ⟨h.later, fun id v hv => ?_⟩
  rcases (h id).2 with heq | ⟨w, -, heq⟩
  · rwa [heq]
  · rw [heq]
    exact List.mem_cons_of_mem _ hv

/-- The steps of a run meet the terms of the desk. -/
theorem deskRun_steps (es : List (Event (DeskOp Id) (DeskInput Id)))
    {p : Pool (CancelDesk Id) (DeskInput Id)}
    (hp : ∀ m, (p.running m).Every fun w _ u => SomeWrite w.cloud u.cloud) :
    p.Steps deskCode (deskDiscipline : Discipline (CancelDesk Id)).cond es :=
  Pool.steps_of_every every_deskCode (fun w => .refl w.cloud) (fun _ _ _ h => h) hp es

/-- Whatever is under way in a run writes the table. -/
theorem deskRun_every (es : List (Event (DeskOp Id) (DeskInput Id))) (m : ℕ) :
    ((deskRun es).running m).Every fun w _ u => SomeWrite w.cloud u.cloud :=
  Pool.every_run every_deskCode (p := Pool.idle { cloud := .empty }) (fun _ => trivial) es m

/-- Every run keeps the terms of the desk. -/
theorem deskRun_sound (es : List (Event (DeskOp Id) (DeskInput Id))) :
    deskDiscipline.Sound (deskRun es) := by
  have h0 : deskDiscipline.Sound (Pool.idle { cloud := .empty } : Pool (CancelDesk Id) (DeskInput Id)) :=
    Discipline.sound_idle ⟨cloudInv_empty, fun _ => .inl rfl, by simp [Cloud.empty, OneCampaign],
      by simp [Cloud.empty, OneSendAt]⟩
  exact Discipline.run_sound (fun n op s _ => safe_deskCode n op s) h0 es
    (deskRun_steps es fun _ => trivial)

/-- The table of a longer run is later. -/
theorem deskRun_later (es fs : List (Event (DeskOp Id) (DeskInput Id))) :
    TableLater (deskRun es).state.cloud (deskRun (es ++ fs)).state.cloud := by
  have h := Discipline.run_stable (fun n op s _ => safe_deskCode n op s)
    (T := fun w u : CancelDesk Id => TableLater w.cloud u.cloud)
    (fun _ => ⟨.refl _, fun _ _ hv => hv⟩)
    (fun _ _ _ h h' => ⟨h.1.trans h'.1, fun id v hv => h'.2 id v (h.2 id v hv)⟩)
    (fun _ _ _ _ h _ => h.1.tableLater) (deskRun_sound es) fs
    (deskRun_steps fs (deskRun_every es))
  unfold deskRun at h ⊢
  rwa [Pool.run_append]

/-- Nothing of these events starts or stops number `n`. -/
def Unused (n : ℕ) (es : List (Event (DeskOp Id) (DeskInput Id))) : Prop :=
  (∀ op, .start n op ∉ es) ∧ .stop n ∉ es

/-- The states and inputs that the requests of call `n` meet, when it is started after `es` and
`fs` follows. -/
def metBy (n : ℕ) (op : DeskOp Id) (es fs : List (Event (DeskOp Id) (DeskInput Id))) :
    List (CancelDesk Id × DeskInput Id) :=
  ((deskRun es).exec deskCode (.start n op)).met deskCode n fs

/-- What those requests do. -/
def requestsOf (n : ℕ) (op : DeskOp Id) (es fs : List (Event (DeskOp Id) (DeskInput Id))) :
    List (CancelDesk Id × CancelDesk Id) :=
  (deskCode n op).wrote (metBy n op es fs)

section call

variable {op : DeskOp Id} {es fs : List (Event (DeskOp Id) (DeskInput Id))}

/-- A run with a call is what follows the start of the call. -/
theorem deskRun_call (n : ℕ) (op : DeskOp Id) (es fs : List (Event (DeskOp Id) (DeskInput Id))) :
    deskRun (es ++ .start n op :: fs) =
      ((deskRun es).exec deskCode (.start n op)).run deskCode fs := by
  unfold deskRun
  rw [Pool.run_append, Pool.run_cons]

/-- What happens to the desk between the requests of call `n`. -/
theorem deskRun_undisturbed (n : ℕ) (es fs : List (Event (DeskOp Id) (DeskInput Id))) :
    (deskRun es).Undisturbed deskCode (DeskLater n) n fs := by
  refine Pool.undisturbed_of_sound deskCode (.refl n) (fun m op s _ => safe_deskCode m op s)
    (fun m w u hm _ h => ?_) (deskRun_sound es) (deskRun_steps fs (deskRun_every es))
  obtain ⟨hlisted, hreplies⟩ := h.2 n (Ne.symm hm)
  exact ⟨h.1.tableLater.1, h.1.tableLater.2, hlisted, hreplies⟩

/-- A call that was never started has no history, and its number is free. -/
theorem deskRun_unused (hes : Unused n es) :
    (deskRun es).running n = .ret () ∧ (deskRun es).state.listed n = [] ∧
      (deskRun es).state.replies n = none := by
  have hrun : (deskRun es).running n = .ret () := by
    unfold deskRun
    rw [Pool.run_follow deskCode n hes.1 hes.2]
    exact Proc.follow_ret ..
  have hlink := (Pool.linked_met deskCode (.refl n) (fun _ _ _ => .trans)
    (p := Pool.idle { cloud := Cloud.empty }) (.refl n _) (deskRun_undisturbed n [] es) hes.1 hes.2).2
  change DeskLater n ((Proc.ret ()).leaves _ _) _ at hlink
  rw [Proc.leaves_ret] at hlink
  exact ⟨hrun, hlink.listed, hlink.replies⟩

/-- A call starts under its number and leaves the desk as it is. -/
theorem exec_start (op : DeskOp Id) (hes : Unused n es) :
    ((deskRun es).exec deskCode (.start n op)).state = (deskRun es).state ∧
      ((deskRun es).exec deskCode (.start n op)).running n = deskCode n op := by
  simp [Pool.exec, (deskRun_unused hes).1]

/-- The states a call meets are linked, and so is what it leaves to the end of the run. -/
theorem metBy_linked (op : DeskOp Id) (hes : Unused n es) (hfs : Unused n fs) :
    (deskCode n op).Linked (DeskLater n) (deskRun es).state (metBy n op es fs) ∧
      DeskLater n ((deskCode n op).leaves (deskRun es).state (metBy n op es fs))
        (deskRun (es ++ .start n op :: fs)).state := by
  obtain ⟨hstate, hrun⟩ := exec_start op hes
  have hstart : DeskLater n (deskRun es).state ((deskRun es).exec deskCode (.start n op)).state := by
    rw [hstate]
    exact .refl n _
  have hundisturbed := deskRun_undisturbed n (es ++ [.start n op]) fs
  rw [deskRun_call] at hundisturbed
  have h := Pool.linked_met deskCode (.refl n) (fun _ _ _ => .trans) hstart hundisturbed hfs.1 hfs.2
  rw [hrun] at h
  rw [deskRun_call]
  exact h

/-- A state that a call meets is one of the run, and the table only grows after it. -/
theorem metBy_state {x : CancelDesk Id × DeskInput Id} (hx : x ∈ metBy n op es fs) :
    DeskInv x.1 ∧ TableLater x.1.cloud (deskRun (es ++ .start n op :: fs)).state.cloud := by
  obtain ⟨fs₁, fs₂, rfl, hstate⟩ := Pool.mem_met deskCode hx
  rw [← deskRun_call] at hstate
  rw [hstate]
  refine ⟨(deskRun_sound _).1, ?_⟩
  have h := deskRun_later (es ++ .start n op :: fs₁) (.step n x.2 :: fs₂)
  rwa [List.append_assoc, List.cons_append] at h

/-- A state that a request of a call leaves is one of the run. -/
theorem requestsOf_state (hes : Unused n es) (hfs : Unused n fs)
    {x : CancelDesk Id × CancelDesk Id} (hx : x ∈ requestsOf n op es fs) :
    TableLater x.2.cloud (deskRun (es ++ .start n op :: fs)).state.cloud := by
  unfold requestsOf metBy at hx
  rw [← (exec_start op hes).2] at hx
  obtain ⟨fs₁, i, fs₂, rfl, -, hleft⟩ := Pool.mem_wrote_met deskCode hfs.1 hfs.2 hx
  rw [← deskRun_call] at hleft
  rw [hleft]
  have h := deskRun_later (es ++ .start n op :: (fs₁ ++ [.step n i])) fs₂
  simpa using h

/-- A pack that a request of a call cancelled is cancelled at the end of the run, without payload. -/
theorem cancelled_after (hes : Unused n es) (hfs : Unused n fs) {id : Id} {v : Pack Id}
    {x : CancelDesk Id × CancelDesk Id} (hx : x ∈ requestsOf n op es fs) (hone : CancelsOne id x)
    (hv : (deskRun (es ++ .start n op :: fs)).state.cloud.lookup id = some v) :
    v.status = .cancelled ∧ v.encryptedPayload = none := by
  have hcancelled : (life x.2.cloud id).status = some .cancelled := by
    obtain ⟨u, now, -, -, hstore⟩ := hone
    rw [hstore, life_store_self]
    rfl
  have hsame := ((requestsOf_state hes hfs hx).1 id).dead .cancelled (.inr (.inr rfl)) hcancelled
  have hst : v.status = .cancelled := by
    have hlife := life_status _ id hv
    rw [hsame, hcancelled] at hlife
    exact (Option.some.inj hlife).symm
  refine ⟨hst, ?_⟩
  obtain ⟨l, hl⟩ := List.head?_eq_some_iff.mp hv
  have hist : PackHistory (v :: l) := by
    rw [← hl]
    exact ((deskRun_sound _).1.record id).resolve_left (by rw [hl]; exact List.cons_ne_nil _ _)
  obtain ⟨p, pushedBy, now, hlast⟩ := hist.put
  exact (hist.record _ v hlast rfl).gone (.inr (.inr (.inl hst)))

omit [LinearOrder Id] in
/-- A campaign's cancel is the loop and its answer. -/
theorem deskCode_cancelCampaign [LinearOrder Id] (n fuel c : ℕ) :
    (deskCode n (.cancelCampaign fuel (some c)) : DeskProc Id Unit) =
      (cancelFrom n c fuel none 0).bind (answerCampaign n c) := rfl

/-- What a campaign cancel has done and answered. -/
theorem exact_cancelCampaign (hes : Unused n es) (hfs : Unused n fs) (fuel c : ℕ) :
    Exact n c 0 (deskRun (es ++ .start n (.cancelCampaign fuel (some c)) :: fs)).state
      (requestsOf n (.cancelCampaign fuel (some c)) es fs) := by
  obtain ⟨hlinked, hleft⟩ := metBy_linked (.cancelCampaign fuel (some c)) hes hfs
  obtain ⟨-, hlisted, hreplies⟩ := deskRun_unused hes
  have htrace := traces_cancelFrom c fuel 0 none hreplies (by simp [hlisted])
  rw [← deskCode_cancelCampaign] at htrace
  have hexact := htrace _ (hlinked.and_of_mem fun x hx => (metBy_state hx).1.campaign)
  refine ⟨hexact.own, fun r hr => ?_⟩
  rw [hleft.replies] at hr
  obtain ⟨hcount, hsettled⟩ := hexact.answer r hr
  refine ⟨hcount, fun p hp => ?_⟩
  rw [hleft.listed] at hp
  exact (hsettled p hp).later hleft

/-- What a cancel of one pack has done and answered. -/
theorem single_packsCancel (hes : Unused n es) (hfs : Unused n fs) (id : Id) :
    Single n id (deskRun (es ++ .start n (.cancelPack id) :: fs)).state
      (requestsOf n (.cancelPack id) es fs) := by
  obtain ⟨hlinked, hleft⟩ := metBy_linked (.cancelPack id) hes hfs
  have htrace := traces_packsCancel id (deskRun_unused hes).2.2
  have hsingle := htrace _ (hlinked.and_of_mem fun x hx => (metBy_state hx).1.campaign)
  refine ⟨hsingle.own, fun r hr => hsingle.answer r ?_⟩
  rwa [hleft.replies] at hr

/-- A campaign cancel answers. -/
theorem answers_cancelCampaign (hes : Unused n es) (hfs : Unused n fs) {fuel c : ℕ} {ids : Finset Id}
    (hids : ∀ id, id ∉ ids →
      (deskRun (es ++ .start n (.cancelCampaign fuel (some c)) :: fs)).state.cloud.packs id = [])
    (hfuel : ids.card < fuel)
    (hsteps : 2 * ids.card + 2 ≤ (metBy n (.cancelCampaign fuel (some c)) es fs).length) :
    ∃ k, (deskRun (es ++ .start n (.cancelCampaign fuel (some c)) :: fs)).state.replies n =
      some (.campaign k c) := by
  obtain ⟨hlinked, hleft⟩ := metBy_linked (.cancelCampaign fuel (some c)) hes hfs
  let after := (deskRun (es ++ .start n (.cancelCampaign fuel (some c)) :: fs)).state
  let sendAt : Id → Stamp := fun id => ((after.cloud.packs id).head?.map (·.sendAt)).getD 0
  have hall : ∀ x ∈ metBy n (.cancelCampaign fuel (some c)) es fs, StoredWithin ids sendAt x.1 := by
    intro x hx id v hv
    obtain ⟨hinv, hlater⟩ := metBy_state hx
    have hmem : v ∈ after.cloud.packs id := hlater.2 id v hv
    refine ⟨?_, hinv.cloud.keyed id v hv, ?_⟩
    · by_contra hid
      rw [hids id hid] at hmem
      cases hmem
    · obtain ⟨u, hu⟩ := lookup_of_mem hmem
      have hhead : (after.cloud.packs id).head? = some u := hu
      simp only [sendAt, hhead, Option.map_some, Option.getD_some]
      exact (deskRun_sound _).1.sendAt id v hmem u (List.mem_of_mem_head? hhead)
  have hpast : (past ids sendAt none).card = ids.card := by simp [past]
  have hfuel' : (past ids sendAt none).card < fuel := by rwa [hpast]
  have hfinish := finishes_cancelFrom (deskRun es).state fuel 0 none (n := n) (c := c) hfuel'
  rw [hpast, ← deskCode_cancelCampaign] at hfinish
  have hbounded := (hlinked.and_of_mem hall).mono fun _ _ h => h.2
  obtain ⟨k, hk⟩ := hfinish _ hbounded hsteps
  exact ⟨k, by rw [hleft.replies, hk]⟩

/-- **What a cancel call does**, in every run of pushes, deliveries, cancels and sweeps with any
other instance stopped anywhere and any index pages. Of `cancel-campaign`: its every request cancels
one pending pack of its campaign or leaves the table as it is; its answer is the number of those
cancels; a pack its index reads listed is afterwards cancelled by it and without payload, or it was
claimed or resolved and the call has not touched it; and it answers within two requests for each pack
that is stored, and two more. Of `DELETE /packs/{pack_id}`: its every request cancels that pack or
leaves the table as it is, and it answers that it did exactly when one of them did.
SOURCE: cloud/dynamo.py:515-542, 761-777, cloud/packs.py:121-149 -/
theorem cancel_exact (es fs : List (Event (DeskOp Id) (DeskInput Id))) (n : ℕ)
    (hes : Unused n es) (hfs : Unused n fs) :
    (∀ fuel c : ℕ,
      let after := (deskRun (es ++ .start n (.cancelCampaign fuel (some c)) :: fs)).state
      let own := requestsOf n (.cancelCampaign fuel (some c)) es fs
      (∀ x ∈ own, x.2.cloud = x.1.cloud ∨
        ∃ id, CancelsOne id x ∧ ∃ v, x.1.cloud.lookup id = some v ∧ v.campaignId = c) ∧
      (∀ r, after.replies n = some r → r = .campaign (cancelsMade own) c ∧
        ∀ p ∈ after.listed n, ∃ v, after.cloud.lookup p.packId = some v ∧
          (((∃ x ∈ own, CancelsOne p.packId x) ∧ v.status = .cancelled ∧
              v.encryptedPayload = none) ∨
            ((∀ x ∈ own, x.2.cloud.packs p.packId = x.1.cloud.packs p.packId) ∧
              v.status ≠ .pending))) ∧
      ∀ ids : Finset Id, (∀ id, id ∉ ids → after.cloud.packs id = []) → ids.card < fuel →
        2 * ids.card + 2 ≤ (metBy n (.cancelCampaign fuel (some c)) es fs).length →
        ∃ k, after.replies n = some (.campaign k c)) ∧
    ∀ id : Id,
      let after := (deskRun (es ++ .start n (.cancelPack id) :: fs)).state
      let own := requestsOf n (.cancelPack id) es fs
      (∀ x ∈ own, x.2.cloud = x.1.cloud ∨ CancelsOne id x) ∧
      ∀ r, after.replies n = some r →
        ((∃ reason, r = .pack true reason) ↔ ∃ x ∈ own, CancelsOne id x) := by
  refine ⟨fun fuel c => ?_, fun id => ?_⟩
  · intro after own
    have hexact := exact_cancelCampaign hes hfs fuel c
    refine ⟨hexact.own, fun r hr => ?_, fun ids => answers_cancelCampaign hes hfs⟩
    obtain ⟨hcount, hsettled⟩ := hexact.answer r hr
    refine ⟨by rwa [Nat.zero_add] at hcount, fun p hp => ?_⟩
    obtain ⟨v, hv, hst⟩ := hsettled p hp
    refine ⟨v, hv, ?_⟩
    by_cases hown : ∃ x ∈ own, CancelsOne p.packId x
    · left
      obtain ⟨x, hx, hone⟩ := hown
      exact ⟨⟨x, hx, hone⟩, cancelled_after hes hfs hx hone hv⟩
    · right
      refine ⟨fun x hx => ?_, hst⟩
      rcases hexact.own x hx with hsame | ⟨id, hone, -⟩
      · rw [hsame]
      · have hid : p.packId ≠ id := by
          intro hid
          exact hown ⟨x, hx, hid ▸ hone⟩
        obtain ⟨u, now, -, -, hstore⟩ := hone
        rw [hstore, packs_store_ne _ _ _ hid]
  · have hsingle := single_packsCancel hes hfs id
    exact ⟨hsingle.own, hsingle.answer⟩

end call

end runs

section witness

/-- Packs 7 to 10 of campaign 1 are stored, and the last is cancelled. -/
private def deskBefore : List (Event (DeskOp ℕ) (DeskInput ℕ)) :=
  ([7, 8, 9, 10].map fun id =>
    [.start id (.table (.putPack ⟨id, 1, "", "", 0, "", .garbage ""⟩ .operator)), .step id {}]).flatten ++
      [.start 0 (.table (.cancelPack 10)), .step 0 {}]

/-- The first page stops after pack 8, which a dispatcher claims before the call comes to it. The
second page still shows pack 10 as pending. -/
private def deskAfter : List (Event (DeskOp ℕ) (DeskInput ℕ)) :=
  [.step 1 { table := { listed := [(7, 0), (8, 0)] }, more := true },
    .start 2 (.table (.deliver 8)), .step 2 {}, .step 2 {}, .step 1 {}, .step 1 {},
    .step 1 { table := { listed := [(9, 0), (10, 1)] } }, .step 1 {}, .step 1 {}, .step 1 {}]

/-- The call cancels two of the packs and answers so, and it leaves none of them pending. -/
theorem cancel_exact_demo :
    cancelsMade (requestsOf 1 (.cancelCampaign 3 (some 1)) deskBefore deskAfter) = 2 ∧
      ∀ id ∈ [7, 8, 9, 10], ∃ v, (deskRun (deskBefore ++
        .start 1 (.cancelCampaign 3 (some 1)) :: deskAfter)).state.cloud.lookup id = some v ∧
          v.status ≠ .pending := by
  have hbefore : Unused 1 deskBefore := ⟨by simp [deskBefore], by simp [deskBefore]⟩
  have hafter : Unused 1 deskAfter := ⟨by simp [deskAfter], by simp [deskAfter]⟩
  have hreply : (deskRun (deskBefore ++ .start 1 (.cancelCampaign 3 (some 1)) ::
      deskAfter)).state.replies 1 = some (.campaign 2 1) := by decide +kernel
  obtain ⟨hcount, hlisted⟩ := ((cancel_exact deskBefore deskAfter 1 hbefore hafter).1 3 1).2.1 _ hreply
  refine ⟨(CancelReply.campaign.inj hcount).1.symm, fun id hid => ?_⟩
  have hmem : ((deskRun (deskBefore ++ .start 1 (.cancelCampaign 3 (some 1)) ::
      deskAfter)).state.listed 1).map (·.packId) = [7, 8, 9, 10] := by decide +kernel
  rw [← hmem] at hid
  obtain ⟨p, hp, rfl⟩ := List.mem_map.mp hid
  obtain ⟨v, hv, hst⟩ := hlisted p hp
  refine ⟨v, hv, ?_⟩
  rcases hst with ⟨-, hst, -⟩ | ⟨-, hst⟩
  · rw [hst]
    decide
  · exact hst

end witness

end Mailman.Analysis
