import Mailman.Analysis.DispatcherSafe

/-!
# At most one POST for a pack

The invariant of the pack table holds after every run, and any later table is a later
moment in the life of every pack. The four parts of the at-most-once guarantee are read
off these two facts.
-/

set_option autoImplicit false

namespace Mailman.Analysis

open Mailman.Library Mailman.Model Mailman.Interface

variable {Id : Type} [DecidableEq Id]

/-- Every run keeps the terms of the pack table. -/
theorem cloudRun_sound (es : List (Event (CloudOp Id) (CloudInput Id))) :
    (cloudDiscipline fun _ : Id => True).Sound ((Pool.idle Cloud.empty).run cloudCode es) := by
  have h0 : (cloudDiscipline fun _ : Id => True).Sound (Pool.idle Cloud.empty : Pool _ (CloudInput Id)) :=
    Discipline.sound_idle cloudInv_empty
  exact Discipline.run_sound (fun n op s _ => cloudCode_safe n op s fun _ _ _ => trivial) h0 es
    (Pool.steps_of_forall _ (fun _ _ => trivial) _ _)

/-- The table invariant holds after every run. -/
theorem cloudRun_inv (es : List (Event (CloudOp Id) (CloudInput Id))) :
    CloudInv (cloudRun es) :=
  (cloudRun_sound es).1

/-- A longer run shows every pack at a later moment of its life. -/
theorem cloudRun_later (es fs : List (Event (CloudOp Id) (CloudInput Id))) (id : Id) :
    LifeLater (life (cloudRun es) id) (life (cloudRun (es ++ fs)) id) := by
  have h := Discipline.run_stable (fun n op s _ => cloudCode_safe n op s fun _ _ _ => trivial)
    (T := CloudLater) .refl (fun _ _ _ h h' => h.trans h') (fun _ _ _ _ h _ => h.later)
    (cloudRun_sound es) fs
    (Pool.steps_of_forall _ (fun _ _ => trivial) _ _)
  unfold cloudRun
  rw [Pool.run_append]
  exact h id

/-- A POSTed pack has been claimed, so it is none of the statuses an unclaimed pack has. -/
theorem Life.status_of_posted {l : Life} (hl : l.Ok) (hp : l.posts ≠ 0) :
    l.status ≠ some .pending ∧ l.status ≠ some .cancelled ∧ l.status ≠ some .stuckNoKey := by
  have howned : l.owner ≠ none := fun h => hp (hl.fresh h).1
  refine ⟨fun h => howned (hl.unclaimed (.inr (.inl h))), fun h => ?_, fun h => hp (hl.stuck h)⟩
  exact howned (hl.unclaimed (.inr (.inr h)))

/-- **At most one POST for a pack**, in every run of pushes, deliveries, cancels and sweeps,
with any instance stopped anywhere: a pack is POSTed at most once; a cancelled pack stays
cancelled and is not POSTed any more; a POSTed pack is at no later time pending, cancelled
or stuck without a key; and no pack becomes pending again.
SOURCE: cloud/dispatcher_lambda.py:120-176, cloud/dynamo.py:468-498, 761-855 -/
theorem post_at_most_once (es fs : List (Event (CloudOp Id) (CloudInput Id))) (id : Id) :
    (cloudRun es).posts.count id ≤ 1 ∧
    ((cloudRun es).status id = some .cancelled →
      (cloudRun (es ++ fs)).status id = some .cancelled ∧
      (cloudRun (es ++ fs)).posts.count id = (cloudRun es).posts.count id) ∧
    (id ∈ (cloudRun es).posts →
      (cloudRun (es ++ fs)).status id ≠ some .pending ∧
      (cloudRun (es ++ fs)).status id ≠ some .cancelled ∧
      (cloudRun (es ++ fs)).status id ≠ some .stuckNoKey) ∧
    ((cloudRun es).status id ≠ none → (cloudRun es).status id ≠ some .pending →
      (cloudRun (es ++ fs)).status id ≠ some .pending) := by
  have hs := (cloudRun_inv es).ok id
  have ht := (cloudRun_inv (es ++ fs)).ok id
  have hlater := cloudRun_later es fs id
  refine ⟨hs.posts_le, fun hc => ?_, fun hp => ?_, fun hn hp => hlater.not_pending hn hp⟩
  · have heq := hlater.dead .cancelled (.inr (.inr rfl)) hc
    exact ⟨(congrArg Life.status heq).trans hc, congrArg Life.posts heq⟩
  · have hpos : 0 < (cloudRun es).posts.count id := List.count_pos_iff.mpr hp
    have hle : (cloudRun es).posts.count id ≤ (cloudRun (es ++ fs)).posts.count id := hlater.posts
    exact Life.status_of_posted ht (show (cloudRun (es ++ fs)).posts.count id ≠ 0 by omega)

section witness

/-- A pack as a terminal pushes it, sealed under the key `⟨1⟩`. -/
private def demoPack (id : ℕ) : PackIn ℕ where
  packId := id
  campaignId := 1
  recipientHash := ""
  contentHash := ""
  sendAt := 0
  keyId := ""
  encryptedBlob := .sealed ⟨1⟩ (.ok
    { resendApiKey := some "re_key", mail := some ⟨"a@x", "b@y", "s", "<p>", "t"⟩ })

/-- Pack 0 is stored, claimed and POSTed; pack 1 is stored and cancelled. -/
private def demoRun : List (Event (CloudOp ℕ) (CloudInput ℕ)) :=
  [.start 0 (.putPack (demoPack 0) .operator), .step 0 {},
   .start 1 (.putPack (demoPack 1) .operator), .step 1 {},
   .start 2 (.cancelPack 1), .step 2 {},
   .start 3 (.deliver 0), .step 3 {}, .step 3 {}, .step 3 {}, .step 3 { key := some ⟨1⟩ },
   .step 3 {}]

/-- Both packs are delivered again, and the first dispatcher finishes. -/
private def demoRest : List (Event (CloudOp ℕ) (CloudInput ℕ)) :=
  [.start 4 (.deliver 0), .step 4 { lag := 1 }, .step 4 {},
   .start 5 (.deliver 1), .step 5 { lag := 1 }, .step 5 {},
   .step 3 { answer := .response 200 (.object (some "m") none) }, .step 3 {}, .step 3 {}]

/-- Two packs, one delivered and one cancelled, are never pending again. -/
theorem post_at_most_once_demo :
    (cloudRun (demoRun ++ demoRest)).status 0 ≠ some .pending ∧
    (cloudRun (demoRun ++ demoRest)).status 1 = some .cancelled ∧
    (cloudRun (demoRun ++ demoRest)).status 1 ≠ some .pending :=
  ⟨((post_at_most_once demoRun demoRest 0).2.2.1 (by decide)).1,
    ((post_at_most_once demoRun demoRest 1).2.1 (by decide)).1,
    (post_at_most_once demoRun demoRest 1).2.2.2 (by decide) (by decide)⟩

/-- In that run the first pack ends up sent. -/
example : (cloudRun (demoRun ++ demoRest)).status 0 = some .sent := by decide

end witness

end Mailman.Analysis
