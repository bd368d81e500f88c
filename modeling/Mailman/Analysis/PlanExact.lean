import Mathlib.Algebra.Order.Ring.Nat
import Mathlib.Order.Bounds.Defs
import Mathlib.Data.Finset.Card
import Mathlib.Data.Finset.Image
import Mailman.Analysis.PlanTerms

/-!
# The plan of a press

The ordinals of one contact name pairwise different packs, so of the first `n + 1` at most `n` can
be among `n` recorded jobs: the search stops at the least ordinal that is free, before its guard.
The whole plan is then the plans of the single candidates side by side (`PlannedAs`), each of which
says one thing of its candidate and reads no other.
-/

set_option autoImplicit false

namespace Mailman.Analysis

open Mailman.Library Mailman.Model

variable {Id : Type} [LinearOrder Id] {env : Setup Id} {c : ℕ} {createdAt : String}
  {sendKey : SendKey} {blocked : String → Option SuppressionReason} {jobs : List (Job Id)}

/-- The ids of the recorded jobs. -/
def jobIds (jobs : List (Job Id)) : Finset Id := (jobs.map (·.jobId)).toFinset

/-- The ordinals of a contact whose pack is not recorded. -/
def freeOrdinals (env : Setup Id) (c : ℕ) (createdAt : String) (sendKey : SendKey)
    (jobs : List (Job Id)) (contactId : ℕ) : Set ℕ :=
  {a | env.ids.packId ⟨c, createdAt, sendKey, contactId, a⟩ ∉ jobIds jobs}

/-- What one candidate's plan says: that it is suppressed, that it is recorded already, or one
send under the least ordinal that is free. -/
inductive PlannedAs (env : Setup Id) (c : ℕ) (createdAt : String) (sendKey : SendKey)
    (blocked : String → Option SuppressionReason) (jobs : List (Job Id)) (r : Candidate) :
    SendPlan → Prop where
  | suppressed (reason : SuppressionReason) (h : blocked (env.emailHash r.email) = some reason) :
      PlannedAs env c createdAt sendKey blocked jobs r { suppressed := [(r.contactId, reason)] }
  | recorded (a : ℕ) (h : blocked (env.emailHash r.email) = none)
      (hleast : IsLeast (freeOrdinals env c createdAt sendKey jobs r.contactId) a) (ha : a ≠ 0)
      (hdone : ¬ (r.status = .queued ∧
        (jobOf jobs (env.ids.packId ⟨c, createdAt, sendKey, r.contactId, a - 1⟩)).any
          (·.status.retryable))) :
      PlannedAs env c createdAt sendKey blocked jobs r { recorded := 1 }
  | send (a : ℕ) (h : blocked (env.emailHash r.email) = none)
      (hleast : IsLeast (freeOrdinals env c createdAt sendKey jobs r.contactId) a)
      (hgo : a = 0 ∨ r.status = .queued ∧
        (jobOf jobs (env.ids.packId ⟨c, createdAt, sendKey, r.contactId, a - 1⟩)).any
          (·.status.retryable)) :
      PlannedAs env c createdAt sendKey blocked jobs r
        { sends := [(r, ⟨c, createdAt, sendKey, r.contactId, a⟩)] }

/-! ## The search -/

section search

omit [LinearOrder Id] in
/-- No ordinal is found only where all of them are recorded. -/
theorem nextOrdinal_none {recorded : ℕ → Bool} {left a : ℕ}
    (h : nextOrdinal recorded left a = none) : ∀ b, a ≤ b → b ≤ a + left → recorded b = true := by
  induction left generalizing a with
  | zero =>
    unfold nextOrdinal at h
    split at h
    · next hrec =>
      intro b hab hba
      rwa [Nat.le_antisymm hba hab]
    · cases h
  | succ left ih =>
    unfold nextOrdinal at h
    split at h
    · next hrec =>
      intro b hab hba
      rcases Nat.eq_or_lt_of_le hab with rfl | hlt
      · exact hrec
      · exact ih h b hlt (by omega)
    · cases h

/-- A send is recorded when its id is among the jobs. -/
theorem recorded_iff {id : Id} : (jobOf jobs id).isSome = true ↔ id ∈ jobIds jobs := by
  simp [jobOf, jobIds]

/-- Recorded ordinals below `n` are no more than the recorded jobs. -/
theorem le_card_of_recorded {contactId n : ℕ} (h : ∀ a < n,
    env.ids.packId ⟨c, createdAt, sendKey, contactId, a⟩ ∈ jobIds jobs) : n ≤ (jobIds jobs).card := by
  have hinj : Function.Injective fun a => env.ids.packId ⟨c, createdAt, sendKey, contactId, a⟩ := by
    intro a b hab
    have hsend := env.ids.packId_injective hab
    simpa using hsend
  rw [← Finset.card_range n, ← Finset.card_image_of_injective _ hinj]
  apply Finset.card_le_card
  intro id hid
  obtain ⟨a, ha, rfl⟩ := Finset.mem_image.mp hid
  exact h a (Finset.mem_range.mp ha)

/-- The search of one contact ends at its least free ordinal, within the number of recorded
jobs. -/
theorem nextOrdinal_least (env : Setup Id) (c : ℕ) (createdAt : String) (sendKey : SendKey)
    (jobs : List (Job Id)) (contactId : ℕ) : ∃ a,
      nextOrdinal (fun a =>
        (jobOf jobs (env.ids.packId ⟨c, createdAt, sendKey, contactId, a⟩)).isSome) jobs.length 0 =
          some a ∧
      IsLeast (freeOrdinals env c createdAt sendKey jobs contactId) a ∧ a ≤ (jobIds jobs).card := by
  have hcard : (jobIds jobs).card ≤ jobs.length := by
    rw [← List.length_map (·.jobId)]
    exact List.toFinset_card_le _
  cases hnext : nextOrdinal (fun a =>
      (jobOf jobs (env.ids.packId ⟨c, createdAt, sendKey, contactId, a⟩)).isSome) jobs.length 0 with
  | none =>
    have hall := nextOrdinal_none hnext
    have hle : jobs.length + 1 ≤ (jobIds jobs).card :=
      le_card_of_recorded fun a ha => recorded_iff.mp (hall a (Nat.zero_le a) (by omega))
    omega
  | some a =>
    have hbefore : ∀ b < a, env.ids.packId ⟨c, createdAt, sendKey, contactId, b⟩ ∈ jobIds jobs :=
      fun b hb => recorded_iff.mp ((nextOrdinal_spec hnext).2 b (Nat.zero_le b) hb)
    refine ⟨a, rfl, ⟨?_, fun b hb => ?_⟩, le_card_of_recorded hbefore⟩
    · intro hin
      have hrec := recorded_iff.mpr hin
      rw [nextOrdinal_fresh hnext] at hrec
      cases hrec
    · by_contra hlt
      exact hb (hbefore b (Nat.lt_of_not_le hlt))

end search

/-! ## The plan -/

section plan

/-- One plan after another. -/
def appended (plan p : SendPlan) : SendPlan :=
  { sends := plan.sends ++ p.sends
    recorded := plan.recorded + p.recorded
    suppressed := plan.suppressed ++ p.suppressed }

/-- A round appends the plan of its candidate, whatever was planned before. -/
theorem planSend_single (env : Setup Id) (c : ℕ) (createdAt : String) (sendKey : SendKey)
    (blocked : String → Option SuppressionReason) (jobs : List (Job Id)) (r : Candidate) :
    ∃ p, PlannedAs env c createdAt sendKey blocked jobs r p ∧ ∀ plan,
      planSend env c createdAt sendKey blocked jobs plan r = .ok (appended plan p) := by
  unfold planSend
  cases hblocked : blocked (env.emailHash r.email) with
  | some reason => exact ⟨_, .suppressed reason hblocked, fun plan => by simp [appended]⟩
  | none =>
    obtain ⟨a, hnext, hleast, -⟩ := nextOrdinal_least env c createdAt sendKey jobs r.contactId
    dsimp only
    rw [hnext]
    dsimp only
    by_cases hgo : a ≠ 0 ∧ ¬ (r.status = .queued ∧
        (jobOf jobs (env.ids.packId ⟨c, createdAt, sendKey, r.contactId, a - 1⟩)).any
          (·.status.retryable))
    · refine ⟨_, .recorded a hblocked hleast hgo.1 hgo.2, fun plan => ?_⟩
      rw [if_pos hgo]
      simp [appended]
    · have hsend : a = 0 ∨ r.status = .queued ∧
          (jobOf jobs (env.ids.packId ⟨c, createdAt, sendKey, r.contactId, a - 1⟩)).any
            (·.status.retryable) := by
        by_cases ha : a = 0
        · exact .inl ha
        · exact .inr (Classical.byContradiction fun h => hgo ⟨ha, h⟩)
      refine ⟨_, .send a hblocked hleast hsend, fun plan => ?_⟩
      rw [if_neg hgo]
      simp [appended]

/-- Rounds that each append their candidate's plan append the plans of all. -/
theorem foldlM_appended {single : Candidate → SendPlan}
    (h : ∀ r plan, planSend env c createdAt sendKey blocked jobs plan r =
      .ok (appended plan (single r))) (candidates : List Candidate) (plan : SendPlan) :
    candidates.foldlM (planSend env c createdAt sendKey blocked jobs) plan =
      .ok { sends := plan.sends ++ candidates.flatMap fun r => (single r).sends
            recorded := plan.recorded + (candidates.map fun r => (single r).recorded).sum
            suppressed := plan.suppressed ++ candidates.flatMap fun r => (single r).suppressed } := by
  induction candidates generalizing plan with
  | nil => simp [pure, Except.pure]
  | cons r candidates ih =>
    rw [List.foldlM_cons, h]
    change candidates.foldlM _ (appended plan (single r)) = _
    rw [ih]
    simp [appended, List.append_assoc, Nat.add_assoc]

/-- A candidate is sent to, suppressed or recorded. -/
theorem PlannedAs.length {r : Candidate} {p : SendPlan}
    (h : PlannedAs env c createdAt sendKey blocked jobs r p) :
    p.sends.length + p.suppressed.length + p.recorded = 1 := by
  cases h <;> rfl

/-- A planned send is the candidate's and not recorded. -/
theorem PlannedAs.sends {r : Candidate} {p : SendPlan}
    (h : PlannedAs env c createdAt sendKey blocked jobs r p) {x : Candidate × SendId}
    (hx : x ∈ p.sends) : x.2.contactId = x.1.contactId ∧ env.ids.packId x.2 ∉ jobIds jobs := by
  cases h with
  | suppressed => cases hx
  | recorded => cases hx
  | send a h hleast hgo =>
    obtain rfl := List.mem_singleton.mp hx
    exact ⟨rfl, hleast.1⟩

/-- The plans of all candidates count each once. -/
theorem length_singles {single : Candidate → SendPlan}
    (h : ∀ r, PlannedAs env c createdAt sendKey blocked jobs r (single r))
    (candidates : List Candidate) :
    (candidates.flatMap fun r => (single r).sends).length +
      (candidates.flatMap fun r => (single r).suppressed).length +
        (candidates.map fun r => (single r).recorded).sum = candidates.length := by
  induction candidates with
  | nil => rfl
  | cons r candidates ih =>
    have hr := (h r).length
    simp only [List.flatMap_cons, List.length_append, List.map_cons, List.sum_cons, List.length_cons]
    omega

/-- The search of every contact ends at its least free ordinal before its guard, and so a plan
never fails: it is the plans of its candidates side by side, each of which is settled without the
others; the three parts add up to the candidates, no planned id is recorded, and different
contacts get different ids. -/
theorem plan_exact (env : Setup Id) (c : ℕ) (createdAt : String) (sendKey : SendKey)
    (blocked : String → Option SuppressionReason) (jobs : List (Job Id)) :
    (∀ contactId, ∃ a, nextOrdinal (fun a =>
        (jobOf jobs (env.ids.packId ⟨c, createdAt, sendKey, contactId, a⟩)).isSome) jobs.length 0 =
          some a ∧
      IsLeast (freeOrdinals env c createdAt sendKey jobs contactId) a ∧ a ≤ (jobIds jobs).card) ∧
    ∃ single : Candidate → SendPlan,
      (∀ r, PlannedAs env c createdAt sendKey blocked jobs r (single r)) ∧
      ∀ candidates : List Candidate, ∃ plan : SendPlan,
        candidates.foldlM (planSend env c createdAt sendKey blocked jobs) {} = .ok plan ∧
        plan.sends = candidates.flatMap (fun r => (single r).sends) ∧
        plan.suppressed = candidates.flatMap (fun r => (single r).suppressed) ∧
        plan.recorded = (candidates.map fun r => (single r).recorded).sum ∧
        plan.sends.length + plan.suppressed.length + plan.recorded = candidates.length ∧
        (∀ x ∈ plan.sends, env.ids.packId x.2 ∉ jobIds jobs) ∧
        ∀ x ∈ plan.sends, ∀ y ∈ plan.sends, x.1.contactId ≠ y.1.contactId →
          env.ids.packId x.2 ≠ env.ids.packId y.2 := by
  refine ⟨nextOrdinal_least env c createdAt sendKey jobs, ?_⟩
  choose single hsingle happend using planSend_single env c createdAt sendKey blocked jobs
  refine ⟨single, hsingle, fun candidates => ⟨_, foldlM_appended happend candidates {}, ?_⟩⟩
  have hsends : ∀ x ∈ candidates.flatMap (fun r => (single r).sends),
      x.2.contactId = x.1.contactId ∧ env.ids.packId x.2 ∉ jobIds jobs := by
    intro x hx
    obtain ⟨r, -, hxr⟩ := List.mem_flatMap.mp hx
    exact (hsingle r).sends hxr
  simp only [List.nil_append, Nat.zero_add]
  refine ⟨trivial, trivial, trivial, length_singles hsingle candidates, fun x hx => (hsends x hx).2,
    fun x hx y hy hne heq => ?_⟩
  have hsame := env.ids.packId_injective heq
  rw [← (hsends x hx).1, ← (hsends y hy).1, hsame] at hne
  exact hne rfl

end plan

end Mailman.Analysis
