import Mailman.Analysis.PackRecords
import Mailman.Model.SharedCloud

/-!
# What a cancel of one campaign changes

`cancel-campaign` acts on the campaign id alone. Its every request leaves a pack as it is or
cancels one that is pending under that id, whoever pushed it; two terminals that give one id
to two campaigns cancel each other's mail.
-/

set_option autoImplicit false

namespace Mailman.Analysis

open Mailman.Library Mailman.Model Mailman.Interface

variable {Id : Type} [LinearOrder Id]

/-- The version a cancel writes over `v`. -/
def Pack.cancelledAt (v : Pack Id) (now : Stamp) : Pack Id :=
  { v with status := .cancelled, encryptedPayload := none, resolvedAt := some now }

/-- Every pack stays as it is, or was pending under campaign id `c` and is cancelled. -/
def Cancels (c : ℕ) (s t : Cloud Id) : Prop :=
  ∀ id, t.packs id = s.packs id ∨ ∃ v now, s.lookup id = some v ∧ v.status = .pending ∧
    v.campaignId = c ∧ t.packs id = Pack.cancelledAt v now :: s.packs id

omit [LinearOrder Id] in
/-- Doing nothing cancels within the campaign. -/
theorem Cancels.refl (c : ℕ) (s : Cloud Id) : Cancels c s s := fun _ => .inl rfl

omit [LinearOrder Id] in
/-- Doing nothing is a write of somebody. -/
theorem SomeWrite.refl (s : Cloud Id) : SomeWrite s s := ⟨0, fun _ => .same _⟩

/-- The terms on which the numbers in `who` cancel campaign `c` beside anything else. -/
def cancelDiscipline (c : ℕ) (who : ℕ → Prop) : Discipline (Cloud Id) where
  inv s := ∀ id, OneCampaign id (s.packs id)
  rely _ s t := ∀ id, ∀ v ∈ s.packs id, v ∈ t.packs id
  guar n s t := SomeWrite s t ∧ (who n → Cancels c s t)
  rely_refl _ _ _ _ hv := hv
  rely_trans _ _ _ _ h h' id v hv := h' id v (h id v hv)
  guar_rely _ _ _ _ _ _ h _ id _ hv := by
    obtain ⟨⟨now, hw⟩, -⟩ := h
    exact (hw id).mem hv
  keep _ _ _ hs h _ id := by
    obtain ⟨⟨now, hw⟩, -⟩ := h
    exact (hw id).oneCampaign (hs id)

section requests

variable {c n : ℕ} {who : ℕ → Prop} {s : Cloud Id}

/-- The listed packs are known to be of campaign `c`. -/
def Listed (c : ℕ) (s : Cloud Id) (items : List (Pack Id)) : Prop :=
  ∀ p ∈ items, ∃ u ∈ s.packs p.packId, u.campaignId = c

/-- A cancel of a pack of the campaign keeps the terms. -/
theorem safe_cancelOne {p : Pack Id} {α : Type} {k : Bool → CloudProc Id α}
    {Q : α → Cloud Id → Prop} (hp : ∃ u ∈ s.packs p.packId, u.campaignId = c)
    (h : ∀ t b, (∀ id, ∀ v ∈ s.packs id, v ∈ t.packs id) → (cancelDiscipline c who).Safe n (k b) Q t) :
    (cancelDiscipline c who).Safe n ((cancelPack p.packId).bind k) Q s := by
  refine Discipline.Safe.act fun t ht hi i => ?_
  have hstay : (cancelDiscipline c who).guar n t t := ⟨.refl t, fun _ => .refl c t⟩
  cases hv : t.lookup p.packId with
  | none => exact ⟨hstay, h t _ ht⟩
  | some v =>
    by_cases hst : v.status = .pending
    · simp only [hst, if_true]
      obtain ⟨u, hu, hcamp⟩ := hp
      have hmem : v ∈ t.packs p.packId := List.mem_of_mem_head? hv
      have hvc : v.campaignId = c := ((hi p.packId u (ht _ u hu)).2 v hmem).trans hcamp
      have hwrite : TableWrite t i (t.store p.packId (Pack.cancelledAt v i.now)) :=
        TableWrite.store hv fun l => .cancel v l hst
      refine ⟨⟨⟨i.now, hwrite⟩, fun _ id => ?_⟩, h _ _ fun id w hw => ?_⟩
      · by_cases hid : id = p.packId
        · subst hid
          exact .inr ⟨v, i.now, hv, hst, hvc, packs_store_self ..⟩
        · exact .inl (packs_store_ne _ _ _ hid)
      · exact (hwrite id).mem (ht id w hw)
    · simp only [hst, if_false]
      exact ⟨hstay, h t _ ht⟩

/-- Cancelling a page of the campaign keeps the terms. -/
theorem safe_cancelItems (items : List (Pack Id)) (cancelled : ℕ) (hitems : Listed c s items) :
    (cancelDiscipline c who).Safe n (cancelListed items cancelled) (fun _ _ => True) s := by
  induction items generalizing s cancelled with
  | nil => trivial
  | cons p ps ih =>
    refine safe_cancelOne (hitems p (List.mem_cons_self ..)) fun t b ht => ih _ fun q hq => ?_
    obtain ⟨u, hu, hcamp⟩ := hitems q (List.mem_cons_of_mem _ hq)
    exact ⟨u, ht _ u hu, hcamp⟩

/-- Cancelling all pages of the campaign keeps the terms. -/
theorem safe_cancelAll (pages cancelled : ℕ) :
    (cancelDiscipline c who).Safe n (cancelPages c pages cancelled) (fun _ _ => True) s := by
  induction pages generalizing s cancelled with
  | zero => trivial
  | succ pages ih =>
    refine Discipline.Safe.act fun t _ hi i => ⟨⟨.refl t, fun _ => .refl c t⟩, ?_⟩
    refine Discipline.Safe.bind ((safe_cancelItems _ cancelled fun p hp => ?_).weaken
      fun _ _ _ => ih _)
    obtain ⟨hlisted, hp⟩ := List.mem_filter.mp hp
    obtain ⟨⟨id, lag⟩, -, hshown⟩ := List.mem_filterMap.mp hlisted
    have hmem : p ∈ t.packs id := List.mem_of_getElem? hshown
    have hcamp : p.campaignId = c := by
      simp only [decide_eq_true_eq] at hp
      exact hp.2
    rw [(hi id p hmem).1]
    exact ⟨p, hmem, hcamp⟩

/-- The request keeps the terms, whoever makes it. -/
theorem safe_packsCancelCampaign (a : Actor) :
    (cancelDiscipline c who).Safe n (packsCancelCampaign a c) (fun _ _ => True) s := by
  refine Discipline.Safe.bind ?_
  refine Discipline.Safe.act fun t _ _ i => ⟨⟨.refl t, fun _ => .refl c t⟩, ?_⟩
  exact (safe_cancelAll _ 0).weaken fun _ _ _ => trivial

/-- A push makes writes of the table. -/
theorem every_packsPush (a : Actor) (packs : List (PackIn Id)) :
    (packsPush a packs).Every TableWrite := by
  refine Proc.Every.bind every_get fun now => ?_
  have hloop : ∀ (packs : List (PackIn Id)) (ack : PushAck Id),
      (packsPushLoop now a packs ack).Every TableWrite := by
    intro packs
    induction packs with
    | nil => exact fun _ => trivial
    | cons p packs ih =>
      intro ack
      refine (every_putPack p a).bind fun inserted => ?_
      cases inserted with
      | true => exact ih _
      | false => exact Proc.Every.bind every_get fun cur => ih _
  exact hloop packs _

/-- Every request of either terminal or the cloud is a write of the pack record. -/
theorem every_sharedCode (n : ℕ) (op : SharedOp Id) :
    (sharedCode n op).Every fun s i t => TableWrite s.cloud i t.cloud := by
  have hzoom : ∀ {p : CloudProc Id Unit}, p.Every TableWrite →
      (onTable p).Every fun s i t => TableWrite s.cloud i t.cloud :=
    fun h => Proc.Every.zoom h fun _ _ _ hs => hs
  cases op with
  | createCampaign a => exact Proc.Every.act fun s i => .refl _ i
  | push a packs =>
    refine Proc.Every.bind (Proc.Every.get fun s i => .refl _ i) fun own => ?_
    cases own with
    | true => exact hzoom ((every_packsPush a packs).bind fun _ => trivial)
    | false => trivial
  | cancelCampaign a c =>
    refine hzoom (Proc.Every.bind (Proc.Every.bind every_get fun pages => ?_) fun _ => trivial)
    exact every_cancelPages c pages 0
  | deliver id => exact hzoom (every_cloudCode n (.deliver id))
  | cancelPack id => exact hzoom (every_cloudCode n (.cancelPack id))
  | expireStaleClaims o l => exact hzoom (every_cloudCode n (.expireStaleClaims o l))

end requests

section runs

variable {c : ℕ} {who : ℕ → Prop}

/-- Numbers that are not watched may run anything. -/
theorem safe_sharedCode {n : ℕ} (hn : ¬ who n) (op : SharedOp Id) (s : SharedCloud Id) :
    ((cancelDiscipline c who).along (·.cloud)).Safe n (sharedCode n op) (fun _ _ => True) s :=
  Discipline.Safe.of_every (every_sharedCode n op) fun _ i _ _ hw =>
    ⟨⟨i.now, hw⟩, fun hwho => absurd hwho hn⟩

omit [LinearOrder Id] in
/-- What keeps terms of the table keeps them where the table is shared. -/
theorem safe_onTable {α : Type} {n : ℕ} {D : Discipline (Cloud Id)} {p : CloudProc Id α}
    {Q : α → Cloud Id → Prop} {s : SharedCloud Id} (h : D.Safe n p Q s.cloud) :
    (D.along (·.cloud)).Safe n (onTable p) (fun a t => Q a t.cloud) s := by
  unfold onTable
  exact Discipline.Safe.along (fun _ _ _ => rfl) h

/-- Before the cancel is started nothing is watched. -/
theorem sharedRun_oneCampaign (es : List (Event (SharedOp Id) (CloudInput Id))) (id : Id) :
    OneCampaign id ((sharedRun es).state.cloud.packs id) := by
  let D : Discipline (SharedCloud Id) := (cancelDiscipline 0 fun _ => False).along (·.cloud)
  have h0 : D.Sound (Pool.idle { cloud := .empty } : Pool _ (CloudInput Id)) :=
    Discipline.sound_idle fun id v hv => nomatch hv
  have hcode : ∀ n op s, D.inv s → D.Safe n (sharedCode n op) (fun _ _ => True) s :=
    fun n op s _ => safe_sharedCode (fun h => h) op s
  exact (Discipline.run_sound hcode h0 es (Pool.steps_of_forall _ (fun _ _ => trivial) _ _)).1 id

/-- A pool of the run in which only number `n` is watched, and number `n` is idle. -/
theorem sharedRun_sound (es : List (Event (SharedOp Id) (CloudInput Id))) {n : ℕ}
    (hidle : (sharedRun es).running n = .ret ()) :
    ((cancelDiscipline c (· = n)).along (·.cloud)).Sound (sharedRun es) := by
  refine ⟨sharedRun_oneCampaign es, fun m => ?_⟩
  rcases eq_or_ne m n with rfl | hm
  · rw [hidle]
    trivial
  · have hevery := Pool.every_run every_sharedCode (p := Pool.idle { cloud := .empty })
      (fun _ => trivial) es m
    exact Discipline.Safe.of_every hevery fun _ i _ _ hw =>
      ⟨⟨i.now, hw⟩, fun hwho => absurd hwho hm⟩

/-- **What a cancel of one campaign changes**, in every run of both terminals and the cloud: a
step of a `cancel-campaign` request leaves the versions of a pack as they are, or the pack is
pending under the requested campaign id and is cancelled, whichever terminal pushed it.
SOURCE: cloud/packs.py:141-149, cloud/dynamo.py:515-542 -/
theorem cancel_campaign_scope (es fs : List (Event (SharedOp Id) (CloudInput Id))) (n : ℕ)
    (a : Actor) (c : ℕ) (hidle : (sharedRun es).running n = .ret ())
    (hfs : ∀ op, .start n op ∉ fs) (i : CloudInput Id) (id : Id) :
    let before := sharedRun (es ++ .start n (.cancelCampaign a c) :: fs)
    let after := before.exec sharedCode (.step n i)
    after.state.cloud.packs id = before.state.cloud.packs id ∨
      ∃ v now, before.state.cloud.lookup id = some v ∧ v.status = .pending ∧ v.campaignId = c ∧
        after.state.cloud.packs id =
          Pack.cancelledAt v now :: before.state.cloud.packs id := by
  intro before after
  let D : Discipline (SharedCloud Id) := (cancelDiscipline c (· = n)).along (·.cloud)
  have hsound : D.Sound before := by
    change D.Sound (Pool.run sharedCode _ _)
    rw [Pool.run_append]
    refine Discipline.run_sound_on (sharedRun_sound es hidle) _ (fun m op hop s hs => ?_)
      (Pool.steps_of_forall _ (fun _ _ => trivial) _ _)
    rcases List.mem_cons.mp hop with heq | hop
    · obtain ⟨rfl, rfl⟩ : m = n ∧ op = .cancelCampaign a c := by simpa using heq
      exact safe_onTable (safe_packsCancelCampaign a)
    · have hm : ¬ m = n := fun hm => hfs op (hm ▸ hop)
      have hsafe := @safe_sharedCode Id _ c (· = n) m hm op s
      exact hsafe
  rcases Discipline.step_guar sharedCode hsound n i with heq | ⟨-, hcancels⟩
  · left
    change (before.exec sharedCode (.step n i)).state.cloud.packs id = _
    rw [heq]
  · exact hcancels rfl id

end runs

section witness

/-- Each terminal creates its first campaign, and the client pushes a pack of its own. -/
private def sharedSetup : List (Event (SharedOp ℕ) (CloudInput ℕ)) :=
  [.start 0 (.createCampaign .operator), .step 0 {}, .start 1 (.createCampaign .client), .step 1 {},
    .start 2 (.push .client [⟨7, 1, "", "", 0, "", .garbage ""⟩]), .step 2 {}, .step 2 {}, .step 2 {}]

/-- The operator cancels its campaign 1. -/
private def sharedCancel : List (Event (SharedOp ℕ) (CloudInput ℕ)) :=
  sharedSetup ++ .start 3 (.cancelCampaign .operator 1) ::
    [.step 3 { pages := 1 }, .step 3 { listed := [(7, 0)] }]

/-- One more step of the operator's cancel and the client's pack is cancelled. -/
theorem cancel_campaign_scope_demo :
    ∃ v now, (sharedRun sharedCancel).state.cloud.lookup 7 = some v ∧ v.pushedBy = .client ∧
      v.campaignId = 1 ∧
      ((sharedRun sharedCancel).exec sharedCode (.step 3 {})).state.cloud.packs 7 =
        Pack.cancelledAt v now :: (sharedRun sharedCancel).state.cloud.packs 7 := by
  have hne : ((sharedRun sharedCancel).exec sharedCode (.step 3 {})).state.cloud.packs 7 ≠
      (sharedRun sharedCancel).state.cloud.packs 7 := by decide +kernel
  have hby : ((sharedRun sharedCancel).state.cloud.lookup 7).map (·.pushedBy) = some .client := by
    decide +kernel
  obtain ⟨v, now, hv, -, hc, hpacks⟩ := (cancel_campaign_scope sharedSetup
    [.step 3 { pages := 1 }, .step 3 { listed := [(7, 0)] }] 3 .operator 1 rfl
    (by simp) {} 7).resolve_left hne
  refine ⟨v, now, hv, ?_, hc, hpacks⟩
  have hv' : (sharedRun sharedCancel).state.cloud.lookup 7 = some v := hv
  simpa [hv'] using hby

/-- The cancel that the operator asks for changes a pack that the client pushed. -/
theorem cancel_campaign_other_actor :
    ∃ v w, (sharedRun sharedCancel).state.cloud.lookup 7 = some v ∧ v.pushedBy = .client ∧
      v.status = .pending ∧ v.encryptedPayload ≠ none ∧
      ((sharedRun sharedCancel).exec sharedCode (.step 3 {})).state.cloud.lookup 7 = some w ∧
      w.status = .cancelled ∧ w.encryptedPayload = none := by
  refine ⟨_, _, rfl, ?_, ?_, ?_, rfl, ?_, ?_⟩ <;> decide +kernel

end witness

end Mailman.Analysis
