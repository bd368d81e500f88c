import Mailman.Library.Solo
import Mailman.Analysis.PlanTerms
import Mailman.Analysis.ProgramTurns
import Mailman.Interface.Marks

/-!
# A program whose terminal nobody else writes

The terms under which a press runs alone, and the rules for what a program of the terminal ends
in under them. The cloud may do whatever it likes meanwhile, and so may every program that
writes nothing on the terminal.
-/

set_option autoImplicit false

namespace Mailman.Analysis

open Mailman.Library Mailman.Model Mailman.Interface

variable {Id : Type} {env : Setup Id} {may : ℕ → WriteKind → Prop} {ok : PackIn Id → Prop}
  {α β : Type} {c : ℕ} {t : Terminal Id}

/-- What the others do leaves the terminal as it is, and the program pushes packs that are `ok`. -/
def soloDiscipline (ok : PackIn Id → Prop) : Discipline (World Id) where
  inv _ := True
  rely _ s t := t.terminal = s.terminal
  guar _ s t := ∀ actor packs, t.requests = s.requests ++ [(actor, packs)] → ∀ p ∈ packs, ok p
  cond s t := t.terminal = s.terminal
  rely_refl _ _ := rfl
  rely_trans _ _ _ _ h h' := h'.trans h
  guar_rely _ _ _ _ _ _ _ h := h
  keep _ _ _ _ _ _ := trivial

/-- From the terminal `t` on the program pushes packs that are `ok`, and where it returns, `Q`
holds of its result and of the terminal it leaves. -/
def Ends (ok : PackIn Id → Prop) (Q : α → Terminal Id → Prop) (p : LaunchProc Id α)
    (t : Terminal Id) : Prop :=
  ∀ n s, s.terminal = t → (soloDiscipline ok).SafeOr n p (fun a u => Q a u.terminal) s

section rules

variable {Q : α → Terminal Id → Prop} {R : β → Terminal Id → Prop} {P : α → Prop}

/-- The terms of a run alone allow whatever comes later. -/
theorem soloDiscipline_grows (ok : PackIn Id → Prop) :
    (soloDiscipline ok).Grows fun _ _ => True where
  refl _ := trivial
  trans _ _ _ _ _ := trivial
  rely _ _ _ _ := trivial
  guar _ _ _ _ _ := trivial

/-- A sequence ends as its second part does where its first part ends. -/
theorem Ends.bind {p : LaunchProc Id α} {k : α → LaunchProc Id β} (h : Ends ok Q p t)
    (hk : ∀ a u, Q a u → Ends ok R (k a) u) : Ends ok R (p >>= k) t := by
  intro n s hs
  apply Discipline.SafeOr.bind (soloDiscipline_grows ok) (h n s hs)
  intro a u _ hq
  exact hk a u.terminal hq n u rfl

/-- Returning ends where the terminal is. -/
theorem Ends.pure {a : α} (h : Q a t) : Ends ok Q (pure a) t := by
  intro n s hs
  apply Discipline.SafeOr.pure
  rw [hs]
  exact h

/-- An exception ends nowhere. -/
theorem Ends.throw {e : LaunchError} : Ends ok Q (throw e) t :=
  fun _ _ _ => Discipline.SafeOr.throw

/-- What ends with a goal ends with a weaker one. -/
theorem Ends.mono {Q' : α → Terminal Id → Prop} {p : LaunchProc Id α} (h : Ends ok Q p t)
    (hQ : ∀ a u, Q a u → Q' a u) : Ends ok Q' p t :=
  fun n s hs => (h n s hs).weaken fun a u => hQ a u.terminal

/-- A request that is no push keeps the terms. -/
theorem guar_of_requests {n : ℕ} {s u : World Id} (h : u.requests = s.requests) :
    (soloDiscipline ok).guar n s u := by
  intro actor packs heq
  rw [h] at heq
  have hlen := congrArg List.length heq
  simp at hlen

/-- A step that only asks. -/
theorem Ends.ask {f : World Id → WorldInput Id → World Id × Except LaunchError α}
    (hf : ∀ w i, (f w i).1 = w) (h : ∀ w i a, w.terminal = t → (f w i).2 = .ok a → Q a t) :
    Ends ok Q (Fallible.act f) t := by
  intro n s hs
  apply Discipline.SafeOr.act
  intro u hu _ i
  have hut : u.terminal = t := Eq.trans hu hs
  rw [hf]
  refine ⟨guar_of_requests rfl, fun a ha => ?_⟩
  rw [hut]
  exact h u i a hut ha

/-- A session ends in what it makes of the terminal. -/
theorem Ends.session {f : Terminal Id → WorldInput Id → Terminal Id × α}
    (h : ∀ i, Q (f t i).2 (f t i).1) : Ends ok Q (session f) t := by
  intro n s hs
  apply Discipline.SafeOr.act
  intro u hu _ i
  have hut : u.terminal = t := Eq.trans hu hs
  split
  · exact ⟨guar_of_requests rfl, fun a ha => by cases ha⟩
  · refine ⟨guar_of_requests rfl, fun a ha => ?_⟩
    rw [Except.ok.injEq, hut] at ha
    rw [hut]
    exact ha ▸ h i

/-- A query ends where the terminal is. -/
theorem Ends.query {f : Terminal Id → α} (h : Q (f t) t) : Ends ok Q (query f) t :=
  Ends.session fun _ => h

/-- A commit ends in what it makes of the terminal. -/
theorem Ends.commit {f : Terminal Id → WorldInput Id → Terminal Id} {Q : Unit → Terminal Id → Prop}
    (h : ∀ i, Q () (f t i)) : Ends ok Q (commit f) t := Ends.session h

/-- Past a requirement its condition holds, and nothing has changed. -/
theorem Ends.require {p : Prop} [Decidable p] {e : LaunchError} :
    Ends ok (fun _ u => p ∧ u = t) (Fallible.require p e : LaunchProc Id Unit) t := by
  unfold Fallible.require
  split
  · next hp => exact Ends.pure ⟨hp, rfl⟩
  · exact Ends.throw

/-- What is done only under a condition ends as it does, or where it was. -/
theorem Ends.onlyIf {p : Prop} [Decidable p] {q : LaunchProc Id Unit} {Q : Unit → Terminal Id → Prop}
    (h : p → Ends ok Q q t) (hnot : ¬ p → Q () t) : Ends ok Q (Fallible.onlyIf p q) t := by
  unfold Fallible.onlyIf
  split
  · next hp => exact h hp
  · next hp => exact Ends.pure (hnot hp)

/-- A program all of whose turns keep a view of the terminal. -/
theorem Ends.turns (env : Setup Id) {γ : Type} {view : Terminal Id → γ} {p : LaunchProc Id α}
    (h : Turns env may ok P p) (hview : ∀ t u, TerminalTurn may t u → view u = view t) :
    Ends ok (fun a u => P a ∧ view u = view t) p t := by
  intro n s hs
  have hsafe := Discipline.Safe.of_yields (D := soloDiscipline ok) (n := n)
    (G := fun s u => view u.terminal = view s.terminal) (fun _ => rfl)
    (fun _ _ _ h h' => h'.trans h) (fun _ _ h => congrArg view h) (fun s i u hsu => ?_) h s
  · apply Discipline.Safe.weaken hsafe
    rintro r u ⟨hr, hu⟩ a rfl
    exact ⟨hr a rfl, hs ▸ hu⟩
  · refine ⟨?_, hview _ _ hsu.terminal⟩
    rcases hsu.requests with heq | ⟨actor, packs, heq, hok⟩
    · exact guar_of_requests heq
    · intro actor' packs' heq'
      rw [heq] at heq'
      have hsame := List.append_cancel_left heq'
      simp only [List.cons.injEq, Prod.mk.injEq, and_true] at hsame
      exact hsame.2 ▸ hok

end rules

/-! ## Views -/

/-- The marks of a campaign, and the contact tables. -/
def seen (c : ℕ) (t : Terminal Id) : Marks × Db Id := (marksOf c t, t.toDb)

/-- A claim, and whatever is not followed. -/
def calm : ℕ → WriteKind → Prop := fun _ k => k = .claim

/-- The contact tables only. -/
def onlyDb : ℕ → WriteKind → Prop := fun _ k => k = .db

/-- A calm turn leaves what is seen of the campaign. -/
theorem seen_calm (t u : Terminal Id) (h : TerminalTurn calm t u) : seen c u = seen c t := by
  have hmarks : marksOf c u = marksOf c t := marks_turn h nofun nofun nofun nofun
  have hdb : u.toDb = t.toDb := h.db.resolve_left fun ⟨_, hc⟩ => nomatch hc
  unfold seen
  rw [hmarks, hdb]

/-- The first part of a sequence keeps what is seen. -/
theorem Ends.calm (env : Setup Id) {P : α → Prop} {R : β → Terminal Id → Prop}
    {m : Marks × Db Id} {p : LaunchProc Id α} {k : α → LaunchProc Id β}
    (h : Turns env calm ok P p) (hm : seen c t = m)
    (hk : ∀ a u, P a → seen c u = m → Ends ok R (k a) u) : Ends ok R (p >>= k) t := by
  apply (Ends.turns env h seen_calm).bind
  rintro a u ⟨ha, hu⟩
  exact hk a u ha (hu.trans hm)

/-- A turn of jobs and recipients leaves the marks. -/
theorem marks_onlyDb (t u : Terminal Id) (h : TerminalTurn onlyDb t u) :
    marksOf c u = marksOf c t := marks_turn h nofun nofun nofun nofun

/-! ## What may be pushed -/

section sends

variable [LinearOrder Id]

/-- A send that a press of generation `gen` may push, where `t` was the terminal before it. -/
structure Sendable (env : Setup Id) (t : Terminal Id) (c gen : ℕ) (k : SendId) : Prop where
  campaign : k.campaignId = c
  sendKey : k.sendKey = genKeyFor gen
  fresh : ∀ j ∈ t.jobs, j.campaignId = c → j.jobId ≠ env.ids.packId k
  queued : k.ordinal ≠ 0 → ∃ r ∈ t.recipients, r.campaignId = c ∧ r.contactId = k.contactId ∧
    r.status = .queued
  retryable : ∀ a, a + 1 = k.ordinal → ∃ j ∈ t.jobs, j.campaignId = c ∧
    j.jobId = env.ids.packId { k with ordinal := a } ∧ j.status.retryable = true

/-- A pack of such a send, or a seed. -/
def Pushable (env : Setup Id) (t : Terminal Id) (c gen : ℕ) (p : PackIn Id) : Prop :=
  ∀ k, p.packId = env.ids.packId k → Sendable env t c gen k

/-- The candidates are recipients of the campaign. -/
def AreRecipients (t : Terminal Id) (c : ℕ) (candidates : List Candidate) : Prop :=
  ∀ x ∈ candidates, ∃ r ∈ t.recipients, r.campaignId = c ∧ r.contactId = x.contactId ∧
    r.status = x.status

omit [LinearOrder Id] in
/-- The candidates are recipients. -/
theorem areRecipients_candidates (t : Terminal Id) (c : ℕ) (p : Recipient → Bool) :
    AreRecipients t c (t.candidates c p) := by
  intro x hx
  unfold Terminal.candidates at hx
  obtain ⟨r, hr, hfound⟩ := List.mem_filterMap.mp (mem_orderBy.mp hx)
  obtain ⟨contact, -, rfl⟩ := Option.map_eq_some_iff.mp hfound
  obtain ⟨hmem, hp⟩ := List.mem_filter.mp hr
  have hcamp : r.campaignId = c := by
    simp only [decide_eq_true_eq] at hp
    exact hp.1
  exact ⟨r, hmem, hcamp, rfl, rfl⟩

omit [LinearOrder Id] in
/-- The sends of a plan can be sent. -/
theorem Plans.sendable {createdAt : String} {gen : ℕ}
    {blocked : String → Option SuppressionReason} {candidates : List Candidate}
    {sends : List (Candidate × SendId)}
    (h : Plans env (t.jobs.filter (·.campaignId = c)) c createdAt (genKeyFor gen) blocked
      candidates sends) (hcand : AreRecipients t c candidates) :
    ∀ x ∈ sends, Sendable env t c gen x.2 := by
  intro x hx
  have hpicked := (h.picked x hx).2
  have hmem : x.1 ∈ candidates := h.sublist.subset (List.mem_map_of_mem hx)
  refine ⟨hpicked.allowed.campaign, hpicked.sendKey, fun j hj hc => ?_, fun ha => ?_, fun a ha => ?_⟩
  · apply hpicked.fresh j
    exact List.mem_filter.mpr ⟨hj, by simpa using hc⟩
  · obtain ⟨r, hr, hcamp, hcontact, hstatus⟩ := hcand x.1 hmem
    exact ⟨r, hr, hcamp, hcontact.trans hpicked.contact.symm, hstatus.trans (hpicked.queued ha)⟩
  · obtain ⟨j, hj, hid, hretry⟩ := hpicked.allowed.retryable a ha
    obtain ⟨hj, hc⟩ := List.mem_filter.mp hj
    exact ⟨j, hj, by simpa using hc, hid, hretry⟩

omit [LinearOrder Id] in
/-- The packs of such sends can be pushed. -/
theorem pushable_buildPacks {gen : ℕ} {ctx : SendCtx} {targets : List Target} {draw : ℕ → ℕ}
    (htargets : ∀ x ∈ targets, ∀ k, x.send = some k → Sendable env t c gen k) :
    ∀ p ∈ (buildPacks env ctx targets draw).map (·.1), Pushable env t c gen p := by
  intro p hp k hk
  obtain ⟨b, hb, rfl⟩ := List.mem_map.mp hp
  obtain ⟨target, htarget, m, rfl⟩ := mem_buildPacks hb
  cases hsend : target.send with
  | none =>
    -- a seed has a random id
    simp only [buildPack, hsend, Option.map_none, Option.getD_none] at hk
    exact absurd hk.symm (env.ids.packId_ne_uuid4 _ _)
  | some k' =>
    simp only [buildPack, hsend, Option.map_some, Option.getD_some] at hk
    rw [← env.ids.packId_injective hk]
    exact htargets target htarget k' hsend

/-- A plan ends where the terminal is, with sends that are planned. -/
theorem ends_planSends (createdAt : String) (kind : SendKind) (sendKey : SendKey)
    (candidates : List Candidate) :
    Ends ok (fun plan u => u = t ∧ ∃ blocked, Plans env (t.jobs.filter (·.campaignId = c)) c
        createdAt sendKey blocked candidates plan.sends)
      (planSends env c createdAt kind sendKey candidates) t := by
  apply Ends.bind (Q := fun _ u => u = t) (Ends.query rfl)
  rintro blocked u rfl n s hs
  apply Discipline.SafeOr.act
  intro v hv _ i
  have hut : v.terminal = u := Eq.trans hv hs
  split
  · exact ⟨guar_of_requests rfl, fun a ha => by cases ha⟩
  · dsimp only
    split
    · exact ⟨guar_of_requests rfl, fun a ha => by cases ha⟩
    · next plan hfold =>
      refine ⟨guar_of_requests rfl, fun a ha => ?_⟩
      rw [Except.ok.injEq] at ha
      rw [hut] at hfold
      exact ⟨hut, blocked, ha ▸ plans_of_foldlM hfold⟩

end sends

end Mailman.Analysis
