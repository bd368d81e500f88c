import Mathlib.Data.Prod.Lex
import Mathlib.Data.String.Basic
import Mailman.Analysis.PlanExact
import Mailman.Analysis.PushAttempts

/-!
# Retries of a push

Each attempt stores what its chunks get to and records what was acknowledged, or nothing. Along any
sequence of attempts a recorded id is stored (`PushSound`), and while the rest of the system stays
out of the generation, the contacts that are planned are exactly those that are not recorded, under
the ids they were planned with before (`Underway`). So the attempt that succeeds leaves the stored
ids and the recorded ones the same.
-/

set_option autoImplicit false

namespace Mailman.Analysis

open Mailman.Library Mailman.Model

variable {Id : Type} [LinearOrder Id]

/-! ## The attempts of a generation -/

section generation

variable {env : Setup Id} {g : Generation}

/-- What holds of the desk whatever happens between two attempts: the jobs of the campaign are
stored, every job is the planned send of its id, and the keys of the tables are unique. -/
structure PushSound (env : Setup Id) (c : ℕ) (d : PushDesk Id) : Prop where
  filed : Filed d.cloud
  stored : ∀ j ∈ d.terminal.jobs, j.campaignId = c → Stored d.cloud j.jobId
  own : ∀ j ∈ d.terminal.jobs, ∃ k, jobKey j = (env.ids.packId k, k.campaignId, k.contactId)
  nodup : (d.terminal.jobs.map (·.jobId)).Nodup
  unique : ((d.terminal.recipients.filter (·.campaignId = c)).map (·.contactId)).Nodup

omit [LinearOrder Id] in
/-- A candidate is a recipient's row with its contact. -/
theorem mem_candidates {t : Terminal Id} {c : ℕ} {p : Recipient → Bool} {r : Candidate} :
    r ∈ t.candidates c p ↔ ∃ row ∈ t.recipients, (row.campaignId = c ∧ p row = true) ∧
      ∃ contact, t.contacts.find? (·.id = row.contactId) = some contact ∧
        ⟨row.contactId, row.status, contact.email, contact.name⟩ = r := by
  unfold Terminal.candidates
  rw [mem_orderBy]
  simp only [List.mem_filterMap, List.mem_filter, Option.map_eq_some_iff, decide_eq_true_eq,
    and_assoc]

omit [LinearOrder Id] in
/-- A contact is a candidate once. -/
theorem nodup_candidates {t : Terminal Id} {c : ℕ} (p : Recipient → Bool)
    (h : ((t.recipients.filter (·.campaignId = c)).map (·.contactId)).Nodup) :
    ((t.candidates c p).map (·.contactId)).Nodup := by
  unfold Terminal.candidates
  apply ((perm_orderBy _).map _).nodup_iff.mpr
  apply List.Nodup.sublist _ h
  generalize t.recipients = rows
  induction rows with
  | nil => exact List.Sublist.refl _
  | cons row rows ih =>
    by_cases hcamp : row.campaignId = c
    · rw [List.filter_cons_of_pos (p := fun r : Recipient => decide (r.campaignId = c))
        (decide_eq_true hcamp), List.map_cons]
      by_cases hp : p row = true
      · rw [List.filter_cons_of_pos
          (p := fun r : Recipient => decide (r.campaignId = c ∧ p r = true))
          (decide_eq_true ⟨hcamp, hp⟩), List.filterMap_cons]
        cases t.contacts.find? (·.id = row.contactId) with
        | none => exact ih.cons _
        | some contact => exact ih.cons_cons _
      · rw [List.filter_cons_of_neg (by simp [hp])]
        exact ih.cons _
    · rw [List.filter_cons_of_neg (by simp [hcamp]),
        List.filter_cons_of_neg (p := fun r : Recipient => decide (r.campaignId = c))
          (by simp [hcamp])]
      exact ih

omit [LinearOrder Id] in
/-- The jobs of an attempt's contacts are those of its sends. -/
theorem recordable_built (ctx : SendCtx) (targets : List Target) (draw : ℕ → ℕ)
    (hrows : ∀ t ∈ targets, ∀ k, t.send = some k → t.row.contactId = some k.contactId) :
    (recordable ((buildPacks env ctx targets draw).map (·.2))).map
        (fun j => (j.packId, j.contactId)) =
      (targets.filterMap (·.send)).map fun k => (env.ids.packId k, some k.contactId) := by
  induction targets generalizing draw with
  | nil => rfl
  | cons t targets ih =>
    have hrest := ih (fun n => draw (n + 1)) fun t' ht' => hrows t' (List.mem_cons_of_mem _ ht')
    have hcons : (buildPacks env ctx (t :: targets) draw).map (·.2) =
        (buildPack env ctx t.row t.sendAt t.send.isNone (t.send.map env.ids.packId) (draw 0)).2 ::
          (buildPacks env ctx targets fun n => draw (n + 1)).map (·.2) := by
      unfold buildPacks
      rw [List.mapIdx_cons, List.map_cons]
    rw [hcons]
    unfold recordable at hrest ⊢
    cases hsend : t.send with
    | none =>
      rw [List.filter_cons_of_neg (by simp [buildPack]), List.filterMap_cons_none hsend]
      exact hrest
    | some k =>
      have hrow := hrows t (List.mem_cons_self ..) k hsend
      rw [List.filter_cons_of_pos (by simp [buildPack, hrow]), List.filterMap_cons_some hsend,
        List.map_cons, List.map_cons, hrest]
      simp [buildPack, hrow]

omit [LinearOrder Id] in
/-- A built pack and its job have one id, that of the send. -/
theorem ids_built (ctx : SendCtx) (targets : List Target) (draw : ℕ → ℕ) :
    ∀ b ∈ buildPacks env ctx targets draw, b.1.packId = b.2.packId ∧
      ((∃ t ∈ targets, ∃ k, t.send = some k ∧ b.1.packId = env.ids.packId k) ∨
        ∃ n, b.1.packId = env.ids.uuid4 n) := by
  intro b hb
  unfold buildPacks at hb
  obtain ⟨n, hn, rfl⟩ := List.mem_mapIdx.mp hb
  refine ⟨rfl, ?_⟩
  cases hsend : (targets[n]).send with
  | none => exact Or.inr ⟨draw n, by simp [buildPack]⟩
  | some k => exact Or.inl ⟨_, List.getElem_mem hn, k, hsend, by simp [buildPack]⟩

/-- The plan's sends of an attempt: none of them is recorded, and there is one for a contact. -/
structure FreshSends (env : Setup Id) (g : Generation) (t : Terminal Id) (sends : List SendId) :
    Prop where
  campaign : ∀ k ∈ sends, k.campaignId = g.campaignId
  fresh : ∀ k ∈ sends, env.ids.packId k ∉ t.jobs.map (·.jobId)
  nodup : sends.Nodup

/-- The sends of a plan are fresh. -/
theorem freshSends_of_plan {d : PushDesk Id} (hs : PushSound env g.campaignId d) {plan : SendPlan}
    (hplan : g.plan env d.terminal = .ok plan) :
    FreshSends env g d.terminal (plan.sends.map (·.2)) := by
  have hplans := plans_of_foldlM hplan
  constructor
  · intro k hk
    obtain ⟨x, hx, rfl⟩ := List.mem_map.mp hk
    exact (hplans.picked x hx).2.allowed.campaign
  · intro k hk hold
    obtain ⟨x, hx, rfl⟩ := List.mem_map.mp hk
    obtain ⟨j, hj, hid⟩ := List.mem_map.mp hold
    have hpicked := (hplans.picked x hx).2
    obtain ⟨k, hkey⟩ := hs.own j hj
    simp only [jobKey, Prod.mk.injEq] at hkey
    have hsame : k = x.2 := env.ids.packId_injective (hkey.1.symm.trans hid)
    apply hpicked.fresh j _ hid
    rw [List.mem_filter]
    exact ⟨hj, decide_eq_true (hkey.2.1.trans (hsame ▸ hpicked.allowed.campaign))⟩
  · have hcontacts : (plan.sends.map fun x => x.2.contactId).Nodup := by
      have hsub := (hplans.sublist.map (·.contactId)).nodup (nodup_candidates _ hs.unique)
      rw [List.map_map] at hsub
      have heq : plan.sends.map (fun x => x.2.contactId) =
          plan.sends.map ((fun r : Candidate => r.contactId) ∘ fun x => x.1) :=
        List.map_congr_left fun x hx => (hplans.picked x hx).2.contact
      exact heq ▸ hsub
    exact List.Nodup.of_map (·.contactId) (by rw [List.map_map]; exact hcontacts)

/-- The packs and jobs built for a fresh plan fit. -/
theorem fits_of_plan {d : PushDesk Id} (hs : PushSound env g.campaignId d) {plan : SendPlan}
    (hplan : g.plan env d.terminal = .ok plan) {a : PushTry Id} (hbuilds : a.Builds plan) :
    Fits env g.campaignId (a.built env) d.terminal := by
  have hfresh := freshSends_of_plan hs hplan
  have hjobs := @recordable_built _ env a.ctx a.targets a.draw hbuilds.rows
  rw [hbuilds.sends] at hjobs
  have hids := congrArg (List.map Prod.fst) hjobs
  rw [List.map_map, List.map_map] at hids
  have hone : ∀ j ∈ recordable ((a.built env).map (·.2)), ∃ k ∈ plan.sends.map (·.2),
      (j.packId, j.contactId) = (env.ids.packId k, some k.contactId) := by
    intro j hj
    have hin := List.mem_map_of_mem (f := fun j : JobIn Id => (j.packId, j.contactId)) hj
    unfold PushTry.built at hin
    rw [hjobs] at hin
    obtain ⟨k, hk, heq⟩ := List.mem_map.mp hin
    exact ⟨k, hk, heq.symm⟩
  constructor
  · exact fun b hb => (@ids_built _ env a.ctx a.targets a.draw b hb).1
  · intro j hj
    obtain ⟨k, hk, heq⟩ := hone j hj
    simp only [Prod.mk.injEq] at heq
    refine ⟨k, ?_⟩
    unfold newKey
    rw [heq.1, heq.2, hfresh.campaign k hk]
    rfl
  · unfold PushTry.built
    have hmap : (recordable ((buildPacks env a.ctx a.targets a.draw).map (·.2))).map (·.packId) =
        (plan.sends.map (·.2)).map env.ids.packId := hids
    rw [hmap]
    exact hfresh.nodup.map env.ids.packId_injective
  · intro j hj hold
    obtain ⟨k, hk, heq⟩ := hone j hj
    rw [(Prod.mk.inj heq).1] at hold
    exact hfresh.fresh k hk hold

omit [LinearOrder Id] in
/-- What an attempt leaves is sound. -/
theorem PushSound.attempted {c : ℕ} {d d' : PushDesk Id} (hs : PushSound env c d)
    {built : List (PackIn Id × JobIn Id)} (hfits : Fits env c built d.terminal)
    {packs : List (PackIn Id)} {new : List (JobIn Id)}
    (hnew : new.Sublist (recordable (built.map (·.2))))
    (h : Attempted c packs new d d') : PushSound env c d' := by
  have hkeys := h.keys
  have hids := congrArg (List.map Prod.fst) hkeys
  rw [List.map_append, List.map_map, List.map_map, List.map_map] at hids
  change d'.terminal.jobs.map (·.jobId) =
    d.terminal.jobs.map (·.jobId) ++ new.map (·.packId) at hids
  -- a job of the new desk is one of the old, or has just been recorded
  have hcases : ∀ j ∈ d'.terminal.jobs, (∃ j₀ ∈ d.terminal.jobs, jobKey j₀ = jobKey j) ∨
      ∃ i ∈ new, newKey c i = jobKey j := by
    intro j hj
    have hin : jobKey j ∈ d'.terminal.jobs.map jobKey := List.mem_map_of_mem hj
    rw [hkeys] at hin
    rcases List.mem_append.mp hin with hin | hin
    · exact Or.inl (List.mem_map.mp hin)
    · exact Or.inr (List.mem_map.mp hin)
  refine ⟨h.filed, fun j hj hc => ?_, fun j hj => ?_, ?_, ?_⟩
  · rcases hcases j hj with ⟨j₀, hj₀, heq⟩ | ⟨i, hi, heq⟩
    · simp only [jobKey, Prod.mk.injEq] at heq
      exact h.keeps _ (heq.1 ▸ hs.stored j₀ hj₀ (heq.2.1.trans hc))
    · simp only [jobKey, newKey, Prod.mk.injEq] at heq
      exact heq.1 ▸ h.reached i hi
  · rcases hcases j hj with ⟨j₀, hj₀, heq⟩ | ⟨i, hi, heq⟩
    · obtain ⟨k, hk⟩ := hs.own j₀ hj₀
      exact ⟨k, heq.symm.trans hk⟩
    · obtain ⟨k, hk⟩ := hfits.sends i (hnew.subset hi)
      exact ⟨k, heq.symm.trans hk⟩
  · rw [hids]
    apply List.nodup_append'.mpr
    refine ⟨hs.nodup, (hnew.map _).nodup hfits.nodup, fun id hold hin => ?_⟩
    obtain ⟨i, hi, rfl⟩ := List.mem_map.mp hin
    exact hfits.fresh i (hnew.subset hi) hold
  · obtain ⟨f, heq, hf⟩ := h.rows
    have hsame : (d'.terminal.recipients.filter (·.campaignId = c)).map (·.contactId) =
        (d.terminal.recipients.filter (·.campaignId = c)).map (·.contactId) := by
      rw [heq, List.filter_map, List.map_map]
      have hfilter : d.terminal.recipients.filter ((fun r => decide (r.campaignId = c)) ∘ f) =
          d.terminal.recipients.filter (·.campaignId = c) :=
        List.filter_congr fun r _ => by simp only [Function.comp_apply, (hf r).1]
      rw [hfilter]
      exact List.map_congr_left fun r _ => (hf r).2.1
    rw [hsame]
    exact hs.unique

/-- What the rest of the system does between two attempts: packs stay stored, the jobs of the
campaign stay, and the keys of the tables stay unique. -/
structure PushAside (env : Setup Id) (c : ℕ) (d d' : PushDesk Id) : Prop where
  filed : Filed d'.cloud
  keeps : ∀ id, Stored d.cloud id → Stored d'.cloud id
  jobs : ∀ j ∈ d'.terminal.jobs, (∃ j₀ ∈ d.terminal.jobs, jobKey j₀ = jobKey j) ∨
    j.campaignId ≠ c ∧ ∃ k, jobKey j = (env.ids.packId k, k.campaignId, k.contactId)
  nodup : (d'.terminal.jobs.map (·.jobId)).Nodup
  unique : ((d'.terminal.recipients.filter (·.campaignId = c)).map (·.contactId)).Nodup

/-- The first send of the contact is recorded. -/
def Recorded (env : Setup Id) (g : Generation) (t : Terminal Id) (contactId : ℕ) : Prop :=
  env.ids.packId (g.sendId contactId 0) ∈ t.jobs.map (·.jobId)

/-- The same, when no suppression changes, nobody else pushes for the generation, and the
recipients that are not recorded stay as they are; those that are recorded are not put back into
the queue. -/
structure PushQuiet (env : Setup Id) (g : Generation) (d d' : PushDesk Id) : Prop extends
    PushAside env g.campaignId d d' where
  kept : ∀ j ∈ d.terminal.jobs, ∃ j' ∈ d'.terminal.jobs, jobKey j' = jobKey j
  stored : ∀ k n, Stored d'.cloud (env.ids.packId (g.sendId k n)) →
    Stored d.cloud (env.ids.packId (g.sendId k n))
  suppressions : d'.terminal.suppressions = d.terminal.suppressions
  contacts : d'.terminal.contacts = d.terminal.contacts
  rows : RowsMoved g.campaignId (Recorded env g d.terminal) d.terminal.recipients
    d'.terminal.recipients
  pushing : d'.terminal.pushing g.campaignId = d.terminal.pushing g.campaignId

/-- The desks that attempts of the generation lead to, with anything that `Between` allows in
between. -/
inductive PushReach (env : Setup Id) (g : Generation) (Between : PushDesk Id → PushDesk Id → Prop)
    (d₀ : PushDesk Id) : PushDesk Id → Prop where
  | start : PushReach env g Between d₀ d₀
  | attempt {d : PushDesk Id} (a : PushTry Id) (h : PushReach env g Between d₀ d)
      (ha : a.Fresh env g d) : PushReach env g Between d₀ (a.run env g d).1
  | between {d d' : PushDesk Id} (h : PushReach env g Between d₀ d) (hd : Between d d') :
      PushReach env g Between d₀ d'

omit [LinearOrder Id] in
/-- What happens aside keeps a desk sound. -/
theorem PushSound.aside {c : ℕ} {d d' : PushDesk Id} (hs : PushSound env c d)
    (h : PushAside env c d d') : PushSound env c d' := by
  refine ⟨h.filed, fun j hj hc => ?_, fun j hj => ?_, h.nodup, h.unique⟩
  · rcases h.jobs j hj with ⟨j₀, hj₀, heq⟩ | ⟨hne, -⟩
    · simp only [jobKey, Prod.mk.injEq] at heq
      exact h.keeps _ (heq.1 ▸ hs.stored j₀ hj₀ (heq.2.1.trans hc))
    · exact absurd hc hne
  · rcases h.jobs j hj with ⟨j₀, hj₀, heq⟩ | ⟨-, k, hk⟩
    · obtain ⟨k, hk⟩ := hs.own j₀ hj₀
      exact ⟨k, heq.symm.trans hk⟩
    · exact ⟨k, hk⟩

/-- A fresh attempt fits its terminal. -/
theorem fits_of_fresh {a : PushTry Id} {d : PushDesk Id} (ha : a.Fresh env g d)
    (hs : PushSound env g.campaignId d) : Fits env g.campaignId (a.built env) d.terminal := by
  obtain ⟨plan, hplan, hbuilds⟩ := ha
  exact fits_of_plan hs hplan hbuilds

/-- A fresh attempt does what an attempt does. -/
theorem attempted_of_fresh {a : PushTry Id} {d : PushDesk Id} (ha : a.Fresh env g d)
    (hs : PushSound env g.campaignId d) :
    Attempted g.campaignId ((a.built env).map (·.1)) (newJobs env a.faults (a.built env)) d
      (a.run env g d).1 :=
  pushAttempt_attempted hs.filed (fits_of_fresh ha hs)

/-- Along every run the jobs of the campaign are stored. -/
theorem PushReach.sound {d₀ d : PushDesk Id} (hs : PushSound env g.campaignId d₀)
    (h : PushReach env g (PushAside env g.campaignId) d₀ d) : PushSound env g.campaignId d := by
  induction h with
  | start => exact hs
  | attempt a h ha ih =>
    exact ih.attempted (fits_of_fresh ha ih) (newJobs_sublist _ _) (attempted_of_fresh ha ih)
  | between h hd ih => exact ih.aside hd

/-- What one attempt promises. -/
structure AttemptMeets (env : Setup Id) (g : Generation) (a : PushTry Id) (d : PushDesk Id) :
    Prop where
  stored : ∀ d', PushMoment env a.faults a.actor g.campaignId (a.built env) d d' →
    ∀ j ∈ d'.terminal.jobs, j.campaignId = g.campaignId → Stored d'.cloud j.jobId
  /-- the error of the push is what is raised -/
  failed : ∀ e, pushFailure env a.faults ((a.built env).map (·.1)) = some e →
    (a.run env g d).2 = .error e
  /-- a push that succeeds is acknowledged to its last pack -/
  succeeded : pushFailure env a.faults ((a.built env).map (·.1)) = none →
    ackedCount env a.faults ((a.built env).map (·.1)) = (a.built env).length ∧
    (a.faults.recordFails = true → ∃ e, (a.run env g d).2 = .error e) ∧
    (a.faults.recordFails = false → ∃ ack, (a.run env g d).2 = .ok ack)
  recorded : a.faults.recordFails = false →
    (a.run env g d).1.terminal.jobs.map (·.jobId) = d.terminal.jobs.map (·.jobId) ++
      (recordable (((a.built env).map (·.2)).take
        (ackedCount env a.faults ((a.built env).map (·.1))))).map (·.packId)
  unrecorded : a.faults.recordFails = true →
    (a.run env g d).1.terminal.jobs.map (·.jobId) = d.terminal.jobs.map (·.jobId)
  pushing : (a.run env g d).1.terminal.pushing = d.terminal.pushing

omit [LinearOrder Id] in
/-- An attempt appends its jobs. -/
theorem Attempted.ids {c : ℕ} {packs : List (PackIn Id)} {new : List (JobIn Id)}
    {d d' : PushDesk Id} (h : Attempted c packs new d d') : d'.terminal.jobs.map (·.jobId) =
      d.terminal.jobs.map (·.jobId) ++ new.map (·.packId) := by
  have hids := congrArg (List.map Prod.fst) h.keys
  rwa [List.map_append, List.map_map, List.map_map, List.map_map] at hids

/-- A fresh attempt meets its terms. -/
theorem attempt_meets {a : PushTry Id} {d : PushDesk Id} (ha : a.Fresh env g d)
    (hs : PushSound env g.campaignId d) : AttemptMeets env g a d := by
  have hfits := fits_of_fresh ha hs
  have hids := (attempted_of_fresh ha hs).ids
  obtain ⟨hfailed, hsucceeded⟩ :=
    @pushAttempt_result _ _ _ _ _ hs.filed a.faults a.actor _ hfits
  refine ⟨fun d' hmoment => ?_, hfailed, fun hnone => ⟨?_, hsucceeded hnone⟩, fun hrec => ?_,
    fun hrec => ?_, pushAttempt_pushing hs.filed hfits⟩
  · obtain ⟨new, hnew, hdone⟩ := moment_attempted hs.filed hfits hmoment
    exact (hs.attempted hfits hnew hdone).stored
  · rw [ackedCount_all hnone, List.length_map]
  · rw [hids, newJobs, hrec, if_neg Bool.false_ne_true]
  · rw [hids, newJobs, hrec, if_pos rfl]
    exact List.append_nil _

/-! ### The attempts converge -/

/-- The contact is due a send of the generation: a candidate that no suppression blocks. -/
def Eligible (env : Setup Id) (g : Generation) (t : Terminal Id) (contactId : ℕ) : Prop :=
  ∃ r ∈ g.candidates t, r.contactId = contactId ∧
    suppressedMap g.kind t.suppressions (env.emailHash r.email) = none

/-- Nothing of the generation is stored, and no push of the campaign is in flight. -/
structure Unsent (env : Setup Id) (g : Generation) (d : PushDesk Id) : Prop where
  stored : ∀ k n, ¬ Stored d.cloud (env.ids.packId (g.sendId k n))
  idle : d.terminal.pushing g.campaignId = 0

/-- Where the attempts have got to: what is stored are first sends of contacts that were eligible
at the start, and all but the recorded recipients are as they were. -/
structure Underway (env : Setup Id) (g : Generation) (d₀ d : PushDesk Id) : Prop where
  suppressions : d.terminal.suppressions = d₀.terminal.suppressions
  contacts : d.terminal.contacts = d₀.terminal.contacts
  rows : RowsMoved g.campaignId (Recorded env g d.terminal) d₀.terminal.recipients
    d.terminal.recipients
  out : ∀ r ∈ d.terminal.recipients, r.campaignId = g.campaignId →
    Recorded env g d.terminal r.contactId → r.status ≠ .queued
  stored : ∀ k n, Stored d.cloud (env.ids.packId (g.sendId k n)) →
    n = 0 ∧ Eligible env g d₀.terminal k
  idle : d.terminal.pushing g.campaignId = 0

/-- What the attempts converge to: the recorded sends of the generation are the stored ones, the
first send of every eligible contact, each recorded once. -/
structure Converged (env : Setup Id) (g : Generation) (t₀ : Terminal Id) (d : PushDesk Id) :
    Prop where
  agree : ∀ k n, Stored d.cloud (env.ids.packId (g.sendId k n)) ↔
    env.ids.packId (g.sendId k n) ∈ d.terminal.jobs.map (·.jobId)
  eligible : ∀ k n, env.ids.packId (g.sendId k n) ∈ d.terminal.jobs.map (·.jobId) ↔
    n = 0 ∧ Eligible env g t₀ k
  once : (d.terminal.jobs.map (·.jobId)).Nodup
  idle : d.terminal.pushing g.campaignId = 0

variable {d₀ d d' : PushDesk Id}

omit [LinearOrder Id] in
/-- A recorded send is stored. -/
theorem stored_of_recorded (hs : PushSound env g.campaignId d) {k n : ℕ}
    (h : env.ids.packId (g.sendId k n) ∈ d.terminal.jobs.map (·.jobId)) :
    Stored d.cloud (env.ids.packId (g.sendId k n)) := by
  obtain ⟨j, hj, hid⟩ := List.mem_map.mp h
  obtain ⟨k', hkey⟩ := hs.own j hj
  simp only [jobKey, Prod.mk.injEq] at hkey
  have hsame : k' = g.sendId k n := env.ids.packId_injective (hkey.1.symm.trans hid)
  rw [← hid]
  apply hs.stored j hj
  rw [hkey.2.1, hsame]
  rfl

omit [LinearOrder Id] in
/-- A generation starts with nothing sent. -/
theorem Underway.start (hs : PushSound env g.campaignId d₀) (h : Unsent env g d₀) :
    Underway env g d₀ d₀ := by
  refine ⟨rfl, rfl, .refl _ _ _, fun r _ _ hrec => ?_, fun k n hstored => ?_, h.idle⟩
  · exact absurd (stored_of_recorded hs hrec) (h.stored _ _)
  · exact absurd hstored (h.stored k n)

omit [LinearOrder Id] in
/-- What is quiet keeps the generation under way. -/
theorem Underway.quiet (hu : Underway env g d₀ d) (h : PushQuiet env g d d') :
    Underway env g d₀ d' := by
  have hmono : ∀ k, Recorded env g d.terminal k → Recorded env g d'.terminal k := by
    intro k hk
    obtain ⟨j, hj, hid⟩ := List.mem_map.mp hk
    obtain ⟨j', hj', hkey⟩ := h.kept j hj
    exact List.mem_map.mpr ⟨j', hj', (congrArg Prod.fst hkey).trans hid⟩
  have hback : ∀ k, Recorded env g d'.terminal k → Recorded env g d.terminal k := by
    intro k hk
    obtain ⟨j', hj', hid⟩ := List.mem_map.mp hk
    rcases h.jobs j' hj' with ⟨j, hj, hkey⟩ | ⟨hne, k', hkey⟩
    · exact List.mem_map.mpr ⟨j, hj, (congrArg Prod.fst hkey).trans hid⟩
    · simp only [jobKey, Prod.mk.injEq] at hkey
      have hsame : k' = g.sendId k 0 := env.ids.packId_injective (hkey.1.symm.trans hid)
      exact absurd (hkey.2.1.trans (hsame ▸ rfl)) hne
  refine ⟨h.suppressions.trans hu.suppressions, h.contacts.trans hu.contacts,
    (hu.rows.mono hmono).trans (h.rows.mono hmono), fun r hr hc hrec => ?_,
    fun k n hstored => hu.stored k n (h.stored k n hstored), h.pushing.trans hu.idle⟩
  obtain ⟨f, heq, hf⟩ := h.rows
  rw [heq] at hr
  obtain ⟨r₀, hr₀, rfl⟩ := List.mem_map.mp hr
  obtain ⟨hcamp, hcontact, -, hqueued⟩ := hf r₀
  intro hq
  exact hu.out r₀ hr₀ (hcamp.symm.trans hc) (hcontact ▸ hback _ hrec) (hqueued hq)

omit [LinearOrder Id] in
/-- A recipient that is not recorded is a candidate as it was at the start. -/
theorem Underway.candidate_iff (hu : Underway env g d₀ d) {r : Candidate}
    (hrec : ¬ Recorded env g d.terminal r.contactId) :
    r ∈ g.candidates d.terminal ↔ r ∈ g.candidates d₀.terminal := by
  obtain ⟨f, heq, hf⟩ := hu.rows
  unfold Generation.candidates
  rw [mem_candidates, mem_candidates, hu.contacts, heq]
  constructor
  · rintro ⟨row, hrow, hsel, contact, hfind, rfl⟩
    obtain ⟨row₀, hrow₀, rfl⟩ := List.mem_map.mp hrow
    obtain ⟨hcamp, hcontact, hsame, -⟩ := hf row₀
    rw [hsame (hcamp ▸ hsel.1) (hcontact ▸ hrec)] at hsel hfind ⊢
    exact ⟨row₀, hrow₀, hsel, contact, hfind, rfl⟩
  · rintro ⟨row, hrow, hsel, contact, hfind, rfl⟩
    exact ⟨row, List.mem_map.mpr ⟨row, hrow, (hf row).2.2.1 hsel.1 hrec⟩, hsel, contact, hfind, rfl⟩

/-- The sends of a fresh plan: first sends of eligible contacts, of all that are not recorded. -/
theorem Underway.plan (hu : Underway env g d₀ d) (hs : PushSound env g.campaignId d)
    {plan : SendPlan} (hplan : g.plan env d.terminal = .ok plan) :
    (∀ k ∈ plan.sends.map (·.2), k = g.sendId k.contactId 0 ∧
      Eligible env g d₀.terminal k.contactId) ∧
    ∀ k, Eligible env g d₀.terminal k → Recorded env g d.terminal k ∨
      g.sendId k 0 ∈ plan.sends.map (·.2) := by
  have hplans := plans_of_foldlM hplan
  have hrecorded : ∀ {id : Id}, (∃ j ∈ d.terminal.jobs.filter (·.campaignId = g.campaignId),
      j.jobId = id) → id ∈ d.terminal.jobs.map (·.jobId) := by
    rintro id ⟨j, hj, rfl⟩
    exact List.mem_map_of_mem (List.mem_of_mem_filter hj)
  have hfirst : ∀ x ∈ plan.sends, x.2 = g.sendId x.1.contactId 0 := by
    intro x hx
    have hpicked := (hplans.picked x hx).2
    have hzero : x.2.ordinal = 0 := by
      by_contra hne
      -- a later ordinal is for a recipient that is queued again
      have hqueued := hpicked.queued hne
      have hrec := hrecorded (hpicked.allowed.recorded 0 (Nat.pos_of_ne_zero hne))
      have hin := hplans.sublist.subset (List.mem_map_of_mem hx)
      unfold Generation.candidates at hin
      obtain ⟨row, hrow, hsel, contact, -, heq⟩ := mem_candidates.mp hin
      have hcontact : row.contactId = x.1.contactId := by rw [← heq]
      have hstatus : row.status = x.1.status := by rw [← heq]
      apply hu.out row hrow hsel.1 _ (hstatus.trans hqueued)
      unfold Recorded Generation.sendId
      rw [hcontact, ← hpicked.contact, ← hpicked.allowed.campaign, ← hpicked.allowed.created,
        ← hpicked.sendKey]
      exact hrec
    rw [SendId.mk.injEq]
    exact ⟨hpicked.allowed.campaign, hpicked.allowed.created, hpicked.sendKey, hpicked.contact,
      hzero⟩
  refine ⟨fun k hk => ?_, fun k helig => ?_⟩
  · obtain ⟨x, hx, rfl⟩ := List.mem_map.mp hk
    have hpicked := (hplans.picked x hx).2
    have hrec : ¬ Recorded env g d.terminal x.1.contactId := by
      unfold Recorded
      rw [← hfirst x hx]
      exact (freshSends_of_plan hs hplan).fresh x.2 hk
    rw [hpicked.contact]
    refine ⟨hfirst x hx, x.1, (hu.candidate_iff hrec).mp
      (hplans.sublist.subset (List.mem_map_of_mem hx)), rfl, ?_⟩
    rw [← hu.suppressions]
    exact (hplans.picked x hx).1
  · by_cases hrec : Recorded env g d.terminal k
    · exact Or.inl hrec
    · obtain ⟨r, hr, rfl, hfree⟩ := helig
      rw [← hu.suppressions] at hfree
      rcases hplans.covers r ((hu.candidate_iff hrec).mpr hr) hfree with hin | hdone
      · obtain ⟨x, hx, rfl⟩ := List.mem_map.mp hin
        exact Or.inr (List.mem_map.mpr ⟨x, hx, hfirst x hx⟩)
      · exact Or.inl (hrecorded hdone)

/-- A pack of the attempt that is a planned send is the first send of an eligible contact. -/
theorem Underway.pack (hu : Underway env g d₀ d) (hs : PushSound env g.campaignId d)
    {a : PushTry Id} (ha : a.Fresh env g d) {p : PackIn Id}
    (hp : p ∈ (a.built env).map (·.1)) {k : SendId} (hk : p.packId = env.ids.packId k) :
    k = g.sendId k.contactId 0 ∧ Eligible env g d₀.terminal k.contactId := by
  obtain ⟨plan, hplan, hbuilds⟩ := ha
  obtain ⟨b, hb, rfl⟩ := List.mem_map.mp hp
  rcases (@ids_built _ env a.ctx a.targets a.draw b hb).2 with
    ⟨t, ht, k', hsend, hid⟩ | ⟨n, hid⟩
  · have hsame : k = k' := env.ids.packId_injective (hk.symm.trans hid)
    subst hsame
    apply (hu.plan hs hplan).1
    rw [← hbuilds.sends]
    exact List.mem_filterMap.mpr ⟨t, ht, hsend⟩
  · exact absurd (hk.symm.trans hid) (env.ids.packId_ne_uuid4 k n)

/-- An attempt keeps the generation under way. -/
theorem Underway.attempt (hu : Underway env g d₀ d) (hs : PushSound env g.campaignId d)
    {a : PushTry Id} (ha : a.Fresh env g d) : Underway env g d₀ (a.run env g d).1 := by
  have hdone := attempted_of_fresh ha hs
  have hs' := hs.attempted (fits_of_fresh ha hs) (newJobs_sublist _ _) hdone
  have hids := hdone.ids
  have hmono : ∀ k, Recorded env g d.terminal k → Recorded env g (a.run env g d).1.terminal k := by
    intro k hk
    unfold Recorded
    rw [hids]
    exact List.mem_append_left _ hk
  refine ⟨hdone.suppressions.trans hu.suppressions, hdone.contacts.trans hu.contacts,
    (hu.rows.mono hmono).trans (hdone.rows.mono ?_), fun r hr hc hrec => ?_,
    fun k n hstored => ?_, ?_⟩
  · -- a recipient that moves has a job of the generation
    rintro k ⟨j, hj, ⟨p, hp, hid⟩, hcamp, rfl⟩
    obtain ⟨k', hkey⟩ := hs'.own j hj
    simp only [jobKey, Prod.mk.injEq] at hkey
    obtain ⟨hfirst, -⟩ := hu.pack hs ha hp (hid.trans hkey.1)
    refine List.mem_map.mpr ⟨j, hj, ?_⟩
    rw [hkey.1, hkey.2.2, ← hfirst]
  · unfold Recorded at hrec
    rw [hids] at hrec
    rcases List.mem_append.mp hrec with hold | hnew
    · obtain ⟨f, heq, hf⟩ := hdone.rows
      rw [heq] at hr
      obtain ⟨r₀, hr₀, rfl⟩ := List.mem_map.mp hr
      obtain ⟨hcamp, hcontact, -, hqueued⟩ := hf r₀
      intro hq
      rw [hcontact] at hold
      exact hu.out r₀ hr₀ (hcamp.symm.trans hc) hold (hqueued hq)
    · obtain ⟨j, hj, hid⟩ := List.mem_map.mp hnew
      obtain ⟨k', hkey⟩ := (fits_of_fresh ha hs).sends j ((newJobs_sublist _ _).subset hj)
      simp only [newKey, Prod.mk.injEq] at hkey
      have hsame : k' = g.sendId r.contactId 0 := env.ids.packId_injective (hkey.1.symm.trans hid)
      apply hdone.sent r hr hc
      refine ⟨j, hj, ?_⟩
      obtain ⟨k, hk⟩ := contact_of_recordable ((newJobs_sublist _ _).subset hj)
      rw [hk, Option.getD_some, hsame] at hkey
      rw [hk, hkey.2.2]
      rfl
  · rcases hdone.only _ hstored with hold | ⟨p, hp, hid⟩
    · exact hu.stored k n hold
    · obtain ⟨hfirst, helig⟩ := hu.pack hs ha hp hid
      have hzero : n = 0 := congrArg SendId.ordinal hfirst
      exact ⟨hzero, helig⟩
  · exact (congrFun (pushAttempt_pushing hs.filed (fits_of_fresh ha hs)) g.campaignId).trans hu.idle

/-- Along every quiet run. -/
theorem PushReach.underway (hs : PushSound env g.campaignId d₀) (h₀ : Unsent env g d₀)
    (h : PushReach env g (PushQuiet env g) d₀ d) :
    PushSound env g.campaignId d ∧ Underway env g d₀ d := by
  induction h with
  | start => exact ⟨hs, .start hs h₀⟩
  | attempt a h ha ih =>
    have hfits := fits_of_fresh ha ih.1
    exact ⟨ih.1.attempted hfits (newJobs_sublist _ _) (attempted_of_fresh ha ih.1),
      ih.2.attempt ih.1 ha⟩
  | between h hd ih => exact ⟨ih.1.aside hd.toPushAside, ih.2.quiet hd⟩

/-- An attempt that succeeds records every eligible contact that was left. -/
theorem Underway.recorded (hu : Underway env g d₀ d) (hs : PushSound env g.campaignId d)
    {a : PushTry Id} (ha : a.Fresh env g d) {ack : PushAck Id}
    (hok : (a.run env g d).2 = .ok ack) {k : ℕ} (helig : Eligible env g d₀.terminal k) :
    Recorded env g (a.run env g d).1.terminal k := by
  have hmeets := attempt_meets ha hs
  have hnone : pushFailure env a.faults ((a.built env).map (·.1)) = none := by
    cases hfailure : pushFailure env a.faults ((a.built env).map (·.1)) with
    | none => rfl
    | some e =>
      rw [hmeets.failed e hfailure] at hok
      cases hok
  obtain ⟨hcount, hfails, -⟩ := hmeets.succeeded hnone
  have hrec : a.faults.recordFails = false := by
    cases hfail : a.faults.recordFails with
    | false => rfl
    | true =>
      obtain ⟨e, he⟩ := hfails hfail
      rw [he] at hok
      cases hok
  unfold Recorded
  rw [hmeets.recorded hrec, hcount, List.take_of_length_le (by rw [List.length_map])]
  obtain ⟨plan, hplan, hbuilds⟩ := ha
  rcases (hu.plan hs hplan).2 k helig with hold | hplanned
  · exact List.mem_append_left _ hold
  · apply List.mem_append_right
    have hjobs := @recordable_built _ env a.ctx a.targets a.draw hbuilds.rows
    have hids := congrArg (List.map Prod.fst) hjobs
    rw [List.map_map, List.map_map, hbuilds.sends] at hids
    change (recordable ((a.built env).map (·.2))).map (·.packId) =
      (plan.sends.map (·.2)).map env.ids.packId at hids
    rw [hids]
    exact List.mem_map_of_mem hplanned

/-- Whatever goes wrong in the attempts of a generation, and whatever happens between them, the
recorded jobs of the campaign are stored, at every moment of every attempt; an attempt records the
packs that were acknowledged, or none when the recording raises, and the error of its push is what
it raises. When nothing else touches the generation from its first attempt on, the attempt that
succeeds leaves the stored sends and the recorded ones the same: the first send of every contact
that was eligible at the start, recorded once. -/
theorem retries_converge (env : Setup Id) (g : Generation) {d₀ : PushDesk Id}
    (hs : PushSound env g.campaignId d₀) :
    (∀ d, PushReach env g (PushAside env g.campaignId) d₀ d →
      (∀ j ∈ d.terminal.jobs, j.campaignId = g.campaignId → Stored d.cloud j.jobId) ∧
      ∀ a : PushTry Id, a.Fresh env g d → AttemptMeets env g a d) ∧
    (Unsent env g d₀ → ∀ d, PushReach env g (PushQuiet env g) d₀ d →
      ∀ a : PushTry Id, a.Fresh env g d → ∀ ack, (a.run env g d).2 = .ok ack →
        Converged env g d₀.terminal (a.run env g d).1) := by
  refine ⟨fun d hd => ?_, fun h₀ d hd a ha ack hok => ?_⟩
  · have hsound := hd.sound hs
    exact ⟨hsound.stored, fun a ha => attempt_meets ha hsound⟩
  · obtain ⟨hsound, hu⟩ := hd.underway hs h₀
    have hsound' := hsound.attempted (fits_of_fresh ha hsound) (newJobs_sublist _ _)
      (attempted_of_fresh ha hsound)
    have hu' := hu.attempt hsound ha
    have hall : ∀ k n, Stored (a.run env g d).1.cloud (env.ids.packId (g.sendId k n)) →
        env.ids.packId (g.sendId k n) ∈ (a.run env g d).1.terminal.jobs.map (·.jobId) := by
      intro k n hstored
      obtain ⟨rfl, helig⟩ := hu'.stored k n hstored
      exact hu.recorded hsound ha hok helig
    refine ⟨fun k n => ⟨hall k n, stored_of_recorded hsound'⟩, fun k n => ⟨fun hrec => ?_, ?_⟩,
      hsound'.nodup, hu'.idle⟩
    · exact hu'.stored k n (stored_of_recorded hsound' hrec)
    · rintro ⟨rfl, helig⟩
      exact hu.recorded hsound ha hok helig

end generation

section witness

/-- A plan never fails. -/
theorem exists_plan (env : Setup Id) (g : Generation) (t : Terminal Id) :
    ∃ plan, g.plan env t = .ok plan := by
  choose single hsingle happend using planSend_single env g.campaignId g.createdAt g.sendKey
    (suppressedMap g.kind t.suppressions) (t.jobs.filter (·.campaignId = g.campaignId))
  exact ⟨_, foldlM_appended happend (g.candidates t) {}⟩

/-- The attempt of the plan at a desk. -/
def tryPlan (env : Setup Id) (g : Generation) (ctx : SendCtx) (faults : PushFaults Id)
    (d : PushDesk Id) : PushTry Id where
  actor := .operator
  ctx := ctx
  targets := ((g.plan env d.terminal).toOption.getD {}).sends.map fun s => ⟨s.1.row, some s.2, 0⟩
  draw := id
  faults := faults

/-- An attempt of a plan that was just made is fresh. -/
theorem fresh_tryPlan (env : Setup Id) (g : Generation) (ctx : SendCtx) (faults : PushFaults Id)
    (d : PushDesk Id) : (tryPlan env g ctx faults d).Fresh env g d := by
  obtain ⟨plan, hplan⟩ := exists_plan env g d.terminal
  have htargets : (tryPlan env g ctx faults d).targets =
      plan.sends.map fun s => ⟨s.1.row, some s.2, 0⟩ := by
    unfold tryPlan
    rw [hplan]
    rfl
  refine ⟨plan, hplan, ?_, ?_⟩
  · rw [htargets, List.filterMap_map, ← List.filterMap_eq_map]
    rfl
  · intro t ht k hk
    rw [htargets] at ht
    obtain ⟨x, hx, rfl⟩ := List.mem_map.mp ht
    cases hk
    show some x.1.contactId = some x.2.contactId
    rw [((plans_of_foldlM hplan).picked x hx).2.contact]

private def retriedDesk : PushDesk (ℕ ×ₗ String) where
  cloud := { packs := fun _ => [] }
  terminal :=
    { contacts := [{ id := 1, email := "a@x" }, { id := 2, email := "b@x" }]
      recipients := [{ id := 1, campaignId := 1, contactId := 1 },
        { id := 2, campaignId := 1, contactId := 2 }] }

private def retriedGen : Generation :=
  ⟨1, "c", .promotional, .main, fun r => r.status.sendable⟩

private def retriedCtx : SendCtx where
  camp := { id := 1, createdAt := "c", templateId := 1, kind := .promotional }
  tmpl := { id := 1, subject := "s", htmlBody := "", templateHash := "" }
  sender := ⟨"re_key", "", ""⟩
  publicHost := ""
  companyName := none
  kTemp := ⟨0⟩
  keyId := "K_temp_k"
  bearer := .operator

/-- The second chunk is stored but its answer is lost, and then the recording raises. -/
private def retriedFaults : PushFaults (ℕ ×ₗ String) where
  fate n := if n = 1 then .raised 1 ⟨.push, "ReadTimeout"⟩ else .answered
  recordFails := true

/-- After that attempt, one that succeeds records both packs. -/
theorem retries_converge_demo :
    let d := ((tryPlan Setup.plain retriedGen retriedCtx retriedFaults retriedDesk).run Setup.plain
      retriedGen retriedDesk).1
    Converged Setup.plain retriedGen retriedDesk.terminal
      ((tryPlan Setup.plain retriedGen retriedCtx {} d).run Setup.plain retriedGen d).1 := by
  intro d
  have hs : PushSound Setup.plain retriedGen.campaignId retriedDesk :=
    ⟨by simp [Filed, retriedDesk], by simp [retriedDesk], by simp [retriedDesk],
      by simp [retriedDesk], by decide⟩
  have hreach : PushReach Setup.plain retriedGen (PushQuiet Setup.plain retriedGen) retriedDesk d :=
    .attempt _ .start (fresh_tryPlan _ _ _ _ _)
  have hunsent : Unsent Setup.plain retriedGen retriedDesk :=
    ⟨fun k n h => h rfl, rfl⟩
  obtain ⟨ack, hack⟩ : ∃ ack, ((tryPlan Setup.plain retriedGen retriedCtx {} d).run Setup.plain
      retriedGen d).2 = .ok ack := by
    have hsound := (hreach.underway hs hunsent).1
    have hmeets := attempt_meets (fresh_tryPlan Setup.plain retriedGen retriedCtx {} d) hsound
    exact (hmeets.succeeded (pushError_answered (fun _ => rfl) 0 _)).2.2 rfl
  exact (retries_converge Setup.plain retriedGen hs).2 hunsent d hreach _
    (fresh_tryPlan _ _ _ _ _) ack hack

end witness

end Mailman.Analysis
