import Mailman.Analysis.LaunchSafe

/-!
# What a plan chooses

A round of `_plan_sends` leaves the chosen sends as they are, or adds the first ordinal of the
contact that is not recorded yet. `Plans` is what that says of the whole plan.
-/

set_option autoImplicit false

namespace Mailman.Analysis

open Mailman.Library Mailman.Model Mailman.Interface

variable {Id : Type} [LinearOrder Id] {env : Setup Id} {c : ℕ} {createdAt : String}
  {sendKey : SendKey} {blocked : String → Option SuppressionReason} {jobs : List (Job Id)}

/-- A chosen send: the first ordinal that is not recorded, and past the first one only for a
queued recipient. -/
structure Picked (env : Setup Id) (jobs : List (Job Id)) (c : ℕ) (createdAt : String)
    (sendKey : SendKey) (x : Candidate × SendId) : Prop where
  allowed : Allowed env jobs c createdAt x.2
  sendKey : x.2.sendKey = sendKey
  contact : x.2.contactId = x.1.contactId
  fresh : ∀ j ∈ jobs, j.jobId ≠ env.ids.packId x.2
  queued : x.2.ordinal ≠ 0 → x.1.status = .queued

/-- The first send of the contact is recorded. -/
def FirstRecorded (env : Setup Id) (jobs : List (Job Id)) (c : ℕ) (createdAt : String)
    (sendKey : SendKey) (contactId : ℕ) : Prop :=
  ∃ j ∈ jobs, j.jobId = env.ids.packId ⟨c, createdAt, sendKey, contactId, 0⟩

omit [LinearOrder Id] in
/-- The ordinal that is found is free. -/
theorem nextOrdinal_fresh {recorded : ℕ → Bool} {left a b : ℕ}
    (h : nextOrdinal recorded left a = some b) : recorded b = false := by
  induction left generalizing a with
  | zero =>
    unfold nextOrdinal at h
    split at h
    · cases h
    · next hrec =>
      cases h
      simpa using hrec
  | succ left ih =>
    unfold nextOrdinal at h
    split at h
    · exact ih h
    · next hrec =>
      cases h
      simpa using hrec

omit [LinearOrder Id] in
/-- A job that is not found is not recorded. -/
theorem jobOf_none {id : Id} [DecidableEq Id] (h : (jobs.find? (·.jobId = id)).isSome = false) :
    ∀ j ∈ jobs, j.jobId ≠ id := by
  intro j hj hid
  have hsome : (jobs.find? (·.jobId = id)).isSome = true :=
    List.find?_isSome.mpr ⟨j, hj, by simpa using hid⟩
  rw [h] at hsome
  cases hsome

/-- One round: the plan's sends stay, or one is added. -/
theorem planSend_cases {plan plan' : SendPlan} {r : Candidate}
    (h : planSend env c createdAt sendKey blocked jobs plan r = .ok plan') :
    plan'.sends = plan.sends ∧ (blocked (env.emailHash r.email) ≠ none ∨
        FirstRecorded env jobs c createdAt sendKey r.contactId) ∨
      blocked (env.emailHash r.email) = none ∧ ∃ k, plan'.sends = plan.sends ++ [(r, k)] ∧
        Picked env jobs c createdAt sendKey (r, k) := by
  unfold planSend at h
  split at h
  · next hblocked =>
    cases h
    refine .inl ⟨rfl, .inl ?_⟩
    rw [hblocked]
    exact nofun
  · next hblocked =>
    dsimp only at h
    split at h
    · cases h
    · next a hnext =>
      have hfirst : a ≠ 0 → FirstRecorded env jobs c createdAt sendKey r.contactId := by
        intro ha
        have hrec := (nextOrdinal_spec hnext).2 0 (Nat.zero_le _) (Nat.pos_of_ne_zero ha)
        obtain ⟨j, hj⟩ := Option.isSome_iff_exists.mp hrec
        exact ⟨j, jobOf_some hj⟩
      split at h
      · next hgo =>
        cases h
        exact .inl ⟨rfl, .inr (hfirst hgo.1)⟩
      · next hgo =>
        cases h
        refine .inr ⟨hblocked, ⟨c, createdAt, sendKey, r.contactId, a⟩, rfl, ?_⟩
        have hfresh := jobOf_none (nextOrdinal_fresh hnext)
        refine ⟨?_, rfl, rfl, hfresh, fun ha => ?_⟩
        · -- the send that is added is none of those before it, or was allowed already
          have hgo' : Allowed env jobs c createdAt ⟨c, createdAt, sendKey, r.contactId, a⟩ := by
            have hsend : planSend env c createdAt sendKey blocked jobs {} r =
                .ok { sends := [(r, ⟨c, createdAt, sendKey, r.contactId, a⟩)] } := by
              unfold planSend
              rw [hblocked]
              dsimp only
              rw [hnext]
              dsimp only
              rw [if_neg hgo]
              rfl
            refine (planSend_sends hsend _ (List.mem_singleton_self _)).resolve_left ?_
            exact List.not_mem_nil
          exact hgo'
        · by_contra hq
          exact hgo ⟨ha, fun h => hq h.1⟩

/-- What a plan is to the candidates it was made for. -/
structure Plans (env : Setup Id) (jobs : List (Job Id)) (c : ℕ) (createdAt : String)
    (sendKey : SendKey) (blocked : String → Option SuppressionReason)
    (candidates : List Candidate) (sends : List (Candidate × SendId)) : Prop where
  sublist : (sends.map (·.1)).Sublist candidates
  picked : ∀ x ∈ sends, blocked (env.emailHash x.1.email) = none ∧
    Picked env jobs c createdAt sendKey x
  covers : ∀ r ∈ candidates, blocked (env.emailHash r.email) = none →
    r ∈ sends.map (·.1) ∨ FirstRecorded env jobs c createdAt sendKey r.contactId

/-- The sends of a plan are planned one by one. -/
theorem planSend_plans (candidates : List Candidate) {plan plan' : SendPlan}
    (h : candidates.foldlM (planSend env c createdAt sendKey blocked jobs) plan = .ok plan') :
    ∃ new, plan'.sends = plan.sends ++ new ∧
      Plans env jobs c createdAt sendKey blocked candidates new := by
  induction candidates generalizing plan with
  | nil =>
    cases h
    exact ⟨[], by simp, List.Sublist.refl _, by simp, by simp⟩
  | cons r candidates ih =>
    rw [List.foldlM_cons] at h
    cases hr : planSend env c createdAt sendKey blocked jobs plan r with
    | error e =>
      rw [hr] at h
      cases h
    | ok plan₁ =>
      rw [hr] at h
      obtain ⟨new, hnew, hplans⟩ := ih h
      rcases planSend_cases hr with ⟨heq, hskip⟩ | ⟨hfree, k, heq, hpicked⟩
      · refine ⟨new, by rw [hnew, heq], hplans.sublist.cons r, hplans.picked, ?_⟩
        intro r' hr' hblocked
        rcases List.mem_cons.mp hr' with rfl | hr'
        · exact .inr (hskip.resolve_left fun h => h hblocked)
        · exact hplans.covers r' hr' hblocked
      · refine ⟨(r, k) :: new, by rw [hnew, heq, List.append_assoc, List.singleton_append],
          hplans.sublist.cons_cons r, fun x hx => ?_, fun r' hr' hblocked => ?_⟩
        · rcases List.mem_cons.mp hx with rfl | hx
          · exact ⟨hfree, hpicked⟩
          · exact hplans.picked x hx
        · rcases List.mem_cons.mp hr' with rfl | hr'
          · exact .inl (by simp)
          · exact (hplans.covers r' hr' hblocked).imp_left (List.mem_cons_of_mem _)

/-- **The plan for the candidates.** -/
theorem plans_of_foldlM {candidates : List Candidate} {plan : SendPlan}
    (h : candidates.foldlM (planSend env c createdAt sendKey blocked jobs) {} = .ok plan) :
    Plans env jobs c createdAt sendKey blocked candidates plan.sends := by
  obtain ⟨new, hnew, hplans⟩ := planSend_plans candidates h
  rw [List.nil_append] at hnew
  exact hnew ▸ hplans

end Mailman.Analysis
