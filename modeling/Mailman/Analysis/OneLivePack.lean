import Mathlib.Data.String.Basic
import Mailman.Analysis.LifecycleSafe

/-!
# At most one live pack for a contact and a generation

The ledger holds after every run of the terminal and the cloud, with any interleaving and
any failure. Two packs of one campaign, generation and contact are both chosen sends of the
same `created_at`, and the one with the smaller ordinal was gone before the other was
chosen; that gives the uniqueness of the live pack. What was gone was never accepted by the
provider, so nobody who may have been mailed is mailed again.
-/

set_option autoImplicit false

namespace Mailman.Analysis

open Mailman.Library Mailman.Model Mailman.Interface

variable {Id : Type} [LinearOrder Id] {env : Setup Id}

omit [LinearOrder Id] in
/-- A start keeps the ledger. -/
theorem ledger_start (t : Terminal Id) : Ledger env (World.start t) where
  stored id hid := absurd rfl hid
  chosen k hk := by cases hk
  requests r hr := by cases hr
  replies n ack h := by cases h
  jobs j hj := by cases hj
  reports r hr := by cases hr
  keys kid item h := by cases h

/-- Every run keeps the terms of the ledger. -/
theorem lifecycleRun_sound (env : Setup Id) (t : Terminal Id)
    (es : List (Event (LifecycleOp Id) (WorldInput Id))) :
    (worldDiscipline env).Sound ((Pool.idle (World.start t)).run (lifecycleCode env id) es) := by
  have h0 : (worldDiscipline env).Sound
      (Pool.idle (World.start t) : Pool _ (WorldInput Id)) :=
    Discipline.sound_idle ⟨cloudInv_empty, ledger_start t⟩
  exact Discipline.run_sound (fun n op s _ => lifecycleCode_safe n op s) h0 es
    (Pool.steps_of_forall _ (fun _ _ => trivial) _ _)

/-- Every run keeps the ledger. -/
theorem lifecycleRun_ledger (env : Setup Id) (t : Terminal Id)
    (es : List (Event (LifecycleOp Id) (WorldInput Id))) : Ledger env (lifecycleRun env t es) :=
  (lifecycleRun_sound env t es).1.2

/-- In every run the life of a pack is in order. -/
theorem lifecycleRun_life (env : Setup Id) (t : Terminal Id)
    (es : List (Event (LifecycleOp Id) (WorldInput Id))) (id : Id) :
    (life (lifecycleRun env t es).cloud id).Ok :=
  (lifecycleRun_sound env t es).1.1.ok id

/-- A longer run has only gone on. -/
theorem lifecycleRun_onward (env : Setup Id) (t : Terminal Id)
    (es fs : List (Event (LifecycleOp Id) (WorldInput Id))) :
    Onward (lifecycleRun env t es) (lifecycleRun env t (es ++ fs)) := by
  have h := Discipline.run_stable (fun n op s _ => lifecycleCode_safe n op s) (T := Onward) .refl
    (fun _ _ _ => .trans) (fun _ _ _ _ h _ => h.2.1) (lifecycleRun_sound env t es) fs
    (Pool.steps_of_forall _ (fun _ _ => trivial) _ _)
  unfold lifecycleRun
  rw [Pool.run_append]
  exact h

/-! ## One live pack -/

/-- The packs of a campaign, a generation and a contact, with any `created_at` and ordinal,
whose status is none that lets the operator mail again. -/
def livePacks (env : Setup Id) (w : World Id) (campaignId : ℕ) (sendKey : SendKey)
    (contactId : ℕ) : Set Id :=
  {id | ∃ createdAt ordinal,
    id = env.ids.packId ⟨campaignId, createdAt, sendKey, contactId, ordinal⟩ ∧
    ∃ st, w.cloud.status id = some st ∧ ¬ Dead st}

omit [LinearOrder Id] in
/-- A live pack is a chosen send with the `created_at` of its campaign. -/
theorem Ledger.chosen_of_live {w : World Id} (hw : Ledger env w) {campaignId contactId : ℕ}
    {sendKey : SendKey} {id : Id} (h : id ∈ livePacks env w campaignId sendKey contactId) :
    ∃ createdAt ordinal, createdAt? w campaignId = some createdAt ∧
      id = env.ids.packId ⟨campaignId, createdAt, sendKey, contactId, ordinal⟩ ∧
      (⟨campaignId, createdAt, sendKey, contactId, ordinal⟩ : SendId) ∈ w.chosen := by
  obtain ⟨createdAt, ordinal, hid, st, hst, -⟩ := h
  have hstored : Stored w.cloud id := by
    intro hnone
    rw [hst] at hnone
    cases hnone
  have hchosen := hw.stored id hstored _ hid
  exact ⟨createdAt, ordinal, (hw.chosen _ hchosen).created, hid, hchosen⟩

omit [LinearOrder Id] in
/-- A live pack is not gone. -/
theorem not_gone_of_live {w : World Id} {campaignId contactId : ℕ} {sendKey : SendKey} {id : Id}
    (h : id ∈ livePacks env w campaignId sendKey contactId) : ¬ Gone w.cloud id := by
  obtain ⟨-, -, -, st, hst, hlive⟩ := h
  rintro ⟨st', hdead, hst'⟩
  rw [hst, Option.some.injEq] at hst'
  exact hlive (hst' ▸ hdead)

/-- **At most one live pack for each contact and generation**, in every run.
SOURCE: terminal/launch.py:541-568, 844-882; terminal/sync_client.py:348-425 -/
theorem at_most_one_live_pack (env : Setup Id) (t : Terminal Id)
    (es : List (Event (LifecycleOp Id) (WorldInput Id))) (campaignId : ℕ) (sendKey : SendKey)
    (contactId : ℕ) :
    (livePacks env (lifecycleRun env t es) campaignId sendKey contactId).Subsingleton := by
  have hw := lifecycleRun_ledger env t es
  -- the smaller of two ordinals was gone before the larger was chosen
  have hle : ∀ createdAt a b,
      (⟨campaignId, createdAt, sendKey, contactId, b⟩ : SendId) ∈ (lifecycleRun env t es).chosen →
      env.ids.packId ⟨campaignId, createdAt, sendKey, contactId, a⟩ ∈
        livePacks env (lifecycleRun env t es) campaignId sendKey contactId → b ≤ a := by
    intro createdAt a b hb ha
    by_contra hlt
    exact not_gone_of_live ha ((hw.chosen _ hb).before a (not_le.mp hlt))
  intro id hid id' hid'
  obtain ⟨createdAt, a, hcreated, rfl, ha⟩ := hw.chosen_of_live hid
  obtain ⟨createdAt', b, hcreated', rfl, hb⟩ := hw.chosen_of_live hid'
  rw [hcreated, Option.some.injEq] at hcreated'
  subst hcreated'
  have hab : a = b := le_antisymm (hle createdAt b a ha hid') (hle createdAt a b hb hid)
  rw [hab]

/-! ## Nobody who may have been mailed -/

/-- The provider refused every POST of a gone pack, if there was one. -/
theorem Life.rejected_of_gone {l : Life} (hl : l.Ok) {st : PackStatus} (hd : Dead st)
    (hst : l.status = some st) : ∀ a ∈ l.answers, Rejected a := by
  have hnone : l.posts = 0 → ∀ a ∈ l.answers, Rejected a := by
    intro hp a ha
    have hle := hl.answers_le
    rw [hp] at hle
    rw [List.eq_nil_of_length_eq_zero (Nat.le_zero.mp hle)] at ha
    cases ha
  rcases hd with rfl | rfl | rfl
  · exact hl.failed hst
  · exact hnone (hl.stuck hst)
  · exact hnone (hl.fresh (hl.unclaimed (.inr (.inr hst)))).1

/-- An accepted POST whose finalizing write landed leaves the pack sent. -/
theorem Life.sent_of_accepted {l : Life} (hl : l.Ok) {a : HttpAnswer} (ha : a ∈ l.answers)
    (hacc : Accepted a) (hlanded : l.landed ≠ 0) : l.status = some .sent := by
  obtain ⟨st, hst, hfin⟩ := hl.landed hlanded
  rcases hfin with ⟨-, hnil, -⟩ | ⟨b, m, f, -, hone, hread⟩
  · rw [hnil] at ha
    cases ha
  · rw [hone, List.mem_singleton] at ha
    subst ha
    rw [hst, readAnswer_of_accepted hacc hread]

/-- The answers in a life are those to its pack. -/
theorem mem_answers_life {s : Cloud Id} {id : Id} {a : HttpAnswer} :
    a ∈ (life s id).answers ↔ (id, a) ∈ s.answers := by
  simp [life]

/-- In every run what is gone was answered by refusals alone. -/
theorem lifecycleRun_rejected (env : Setup Id) (t : Terminal Id)
    (es : List (Event (LifecycleOp Id) (WorldInput Id))) {id : Id}
    (h : Gone (lifecycleRun env t es).cloud id) {a : HttpAnswer}
    (ha : (id, a) ∈ (lifecycleRun env t es).cloud.answers) : Rejected a := by
  obtain ⟨st, hd, hst⟩ := h
  exact Life.rejected_of_gone (lifecycleRun_life env t es id) hd hst a (mem_answers_life.mpr ha)

/-- **Retry failed never mails again someone who may have been mailed**, in every run: a pack
of which any read may see a version failed, stuck without a key or cancelled has that status
for good, and all its answers, now and later, are refusals; a chosen ordinal has only such packs
before it; and an accepted POST whose finalizing write landed ends as sent.
SOURCE: cloud/dispatcher_lambda.py:209-260, cloud/dynamo.py:820-855,
terminal/sync_client.py:348-425, terminal/launch.py:541-568 -/
theorem never_mailed_again (env : Setup Id) (t : Terminal Id)
    (es fs : List (Event (LifecycleOp Id) (WorldInput Id))) :
    (∀ id, ∀ v ∈ (lifecycleRun env t es).cloud.packs id, Dead v.status →
      (lifecycleRun env t (es ++ fs)).cloud.status id = some v.status ∧
      ∀ a, (id, a) ∈ (lifecycleRun env t (es ++ fs)).cloud.answers → Rejected a) ∧
    (∀ k ∈ (lifecycleRun env t es).chosen, ∀ a < k.ordinal,
      Gone (lifecycleRun env t es).cloud (env.ids.packId { k with ordinal := a }) ∧
      ∀ b, (env.ids.packId { k with ordinal := a }, b) ∈
        (lifecycleRun env t (es ++ fs)).cloud.answers → Rejected b) ∧
    (∀ id a, (id, a) ∈ (lifecycleRun env t es).cloud.answers → Accepted a →
      id ∈ (lifecycleRun env t es).cloud.landed →
      (lifecycleRun env t (es ++ fs)).cloud.status id = some .sent) := by
  have hon := lifecycleRun_onward env t es fs
  refine ⟨fun id v hv hd => ?_, fun k hk a ha => ?_, fun id a ha hacc hland => ?_⟩
  · have hst := (lifecycleRun_sound env t es).1.1.dead id v hv hd
    have hst' : (lifecycleRun env t (es ++ fs)).cloud.status id = some v.status :=
      status_of_dead hd hst hon.lives
    exact ⟨hst', fun a ha => lifecycleRun_rejected env t (es ++ fs) ⟨v.status, hd, hst'⟩ ha⟩
  · have hgone := ((lifecycleRun_ledger env t es).chosen k hk).before a ha
    exact ⟨hgone, fun b hb => lifecycleRun_rejected env t (es ++ fs) (hgone.later hon.lives) hb⟩
  · have hcount : (lifecycleRun env t es).cloud.landed.count id ≠ 0 :=
      Nat.ne_of_gt (List.count_pos_iff.mpr hland)
    have hsent := Life.sent_of_accepted (lifecycleRun_life env t es id) (mem_answers_life.mpr ha)
      hacc hcount
    exact (hon.lives id).sent hsent

section witness

/-- A campaign with one recipient. -/
private def sendTerminal : Terminal (ℕ ×ₗ String) where
  contacts := [{ id := 1, email := "a@x" }]
  recipients := [{ id := 1, campaignId := 1, contactId := 1 }]
  campaigns := [{ id := 1, createdAt := "c", templateId := 1, kind := .transactional }]
  templates := [{ id := 1, subject := "s", htmlBody := "", templateHash := "" }]
  settings := { resendApiKey := "re_key" }
  bearer := some .operator

private abbrev SendEvent := Event (LifecycleOp (ℕ ×ₗ String)) (WorldInput (ℕ ×ₗ String))

private def sendSteps (n k : ℕ) (i : WorldInput (ℕ ×ₗ String)) : List SendEvent :=
  List.replicate k (.step n i)

/-- The pack of the first Re-launch and ordinal `a`. -/
private def sendPack (a : ℕ) : ℕ ×ₗ String := Setup.plain.ids.packId ⟨1, "c", .relaunch 1, 1, a⟩

/-- A Re-launch is stopped after recording; its pack is cancelled in the cloud, the outcome is
polled, and Retry failed makes the recipient queued again. -/
private def sendCancelled : List SendEvent :=
  let read : PollRead (ℕ ×ₗ String) :=
    { now := 0, lag := fun _ _ => 0, visited := fun _ => [[sendPack 0]] }
  .start 0 (.world (.relaunch 1 none)) :: sendSteps 0 28 {} ++
  .start 1 (.world (.servePush 0)) :: sendSteps 1 4 {} ++ sendSteps 0 3 {} ++ .stop 0 ::
  .start 2 (.world (.cancelPack (sendPack 0))) :: sendSteps 2 1 {} ++
  .start 3 (.world .pollOutcomes) :: sendSteps 3 4 { tick := 20, read := read } ++
  .start 4 (.world (.retryFailed 1)) :: sendSteps 4 2 {}

/-- The Re-launch is pressed again and sends under the next ordinal, which is delivered. -/
private def sendAgain : List SendEvent :=
  sendCancelled ++
  .start 5 (.world (.relaunch 1 none)) :: sendSteps 5 24 {} ++
  .start 6 (.world (.servePush 1)) :: sendSteps 6 4 {} ++ sendSteps 5 4 {} ++
  .start 7 (.world (.deliver (sendPack 1))) :: sendSteps 7 10
    { cloud := { key := some ⟨0⟩, answer := .response 200 (.object (some "m") none) } }

/-- A cancelled pack is not mailed by a second launch. -/
theorem never_mailed_again_demo :
    (lifecycleRun Setup.plain sendTerminal (sendAgain ++ sendAgain)).cloud.status (sendPack 0) =
      some .cancelled ∧
    Gone (lifecycleRun Setup.plain sendTerminal sendAgain).cloud (sendPack 0) ∧
    (lifecycleRun Setup.plain sendTerminal (sendAgain ++ sendAgain)).cloud.status (sendPack 1) =
      some .sent := by
  obtain ⟨hdead, hchosen, hsent⟩ :=
    never_mailed_again Setup.plain sendTerminal sendAgain sendAgain
  obtain ⟨v, hv, hstatus⟩ : ∃ v ∈ (lifecycleRun Setup.plain sendTerminal sendAgain).cloud.packs
      (sendPack 0), v.status = .cancelled := by decide +kernel
  have hcancelled := hdead (sendPack 0) v hv (.inr (.inr hstatus))
  rw [hstatus] at hcancelled
  refine ⟨hcancelled.1, ?_, ?_⟩
  · exact (hchosen ⟨1, "c", .relaunch 1, 1, 1⟩ (by decide +kernel) 0 Nat.one_pos).1
  · exact hsent (sendPack 1) (.response 200 (.object (some "m") none)) (by decide +kernel)
      (show 200 < 400 by decide) (by decide +kernel)

/-- In that run the contact has one live pack. -/
example : sendPack 1 ∈ livePacks Setup.plain (lifecycleRun Setup.plain sendTerminal sendAgain) 1
    (.relaunch 1) 1 := by
  refine ⟨"c", 1, rfl, .sent, by decide +kernel, ?_⟩
  rintro (h | h | h) <;> cases h

end witness

end Mailman.Analysis
