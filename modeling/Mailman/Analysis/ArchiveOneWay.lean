import Mathlib.Data.Prod.Lex
import Mathlib.Data.String.Basic
import Mailman.Analysis.LifecycleTurns
import Mailman.Library.Solo

/-!
# Archive is one-way, but for four writers

While a campaign is archived every path that sends for it is refused at its first check, and
what writes its status with a look at the old one leaves it alone. Four writers do not look:
`mark_tested`, `cancel_campaign` (on its own or called by a second `archive_campaign`),
`retry_failed` once it has found a failed row, and the `UPDATE` of a pause or a resume whose check
came before the archive. `BlindWrite` names each by the operation that makes it and by what it
finds; a run in which none is made keeps the campaign archived and pushes nothing of it, and any
of them ends that.
-/

set_option autoImplicit false

namespace Mailman.Analysis

open Mailman.Library Mailman.Model Mailman.Interface

variable {Id : Type} {env : Setup Id} {c : ℕ} {s t : World Id}

/-- The campaign is archived. -/
def Archived (c : ℕ) (s : World Id) : Prop :=
  (s.terminal.campaign? c).map (·.status) = some .archived

instance (c : ℕ) (s : World Id) : Decidable (Archived c s) := by
  unfold Archived
  infer_instance

/-- The writers of a status that do not look at the old one: what is left of the operation when
it is about to write, and what of the terminal lets it. -/
inductive BlindWrite (c : ℕ) : WorldProc Id Unit → Terminal Id → Prop where
  /-- `mark_tested`, with the template there. SOURCE: terminal/routes_admin.py:482-501 -/
  | markTested {t x} (hrow : t.campaign? c = some x)
      (htemplate : (t.template? x.templateId).isSome = true) : BlindWrite c (press (markTested c)) t
  /-- `retry_failed`, with a failed row. SOURCE: terminal/routes_admin.py:880-901 -/
  | retryFailed {t r} (hr : r ∈ t.recipients) (hc : r.campaignId = c)
      (hfailed : r.status = .failed) : BlindWrite c (press (retryFailed c)) t
  /-- `cancel_campaign`, with the cloud's answer. SOURCE: terminal/routes_admin.py:1718-1732 -/
  | cancel (cloudOk t) : BlindWrite c (press (cancelCommit c cloudOk)) t
  /-- The same, called by an `archive_campaign`. SOURCE: terminal/routes_admin.py:1429-1437 -/
  | archive (cloudOk t) :
      BlindWrite c (press (do cancelCommit c cloudOk; archiveCommit c)) t
  /-- A pause or a resume past its check. SOURCE: terminal/routes_admin.py:853-856, 871-874 -/
  | setStatus (status t) (h : status ∈ [.paused, .tested, .draft]) :
      BlindWrite c (press (setStatus c status)) t

/-- A request that overwrites the status of the campaign: one of the blind writers, and its
transaction does not fail. -/
def Overwrites (c : ℕ) (q : WorldProc Id Unit) (s : World Id) (i : WorldInput Id) : Prop :=
  i.fails = false ∧ BlindWrite c q s.terminal

/-- The kinds of writes that set the status whatever it was. -/
def unguarded : List WriteKind := [.tested, .cancel, .retry, .pause]

/-- A turn that writes nothing of the campaign blindly. -/
def Looks (env : Setup Id) (c : ℕ) (s t : World Id) : Prop :=
  WorldTurn env (fun c' k => c' = c → k ∉ unguarded) (fun _ => True) s t

/-- Every pack that was posted between the two states is of another campaign. -/
def NothingPushed (c : ℕ) (s t : World Id) : Prop :=
  ∃ sent, t.requests = s.requests ++ sent ∧ ∀ r ∈ sent, ∀ p ∈ r.2, p.campaignId ≠ c

/-- A turn that neither marks the campaign dispatched nor posts a pack of it. -/
def Spared (env : Setup Id) (c : ℕ) (s t : World Id) : Prop :=
  WorldTurn env (fun c' k => c' = c → k ≠ .dispatch) (fun p => p.campaignId ≠ c) s t

/-- What is left of a program that launches nothing of the campaign: as long as that is
archived, its requests spare it. -/
def Spares (env : Setup Id) (c : ℕ) : WorldProc Id Unit → Prop
  | .ret _ => True
  | .atom upd next => ∀ s i, Archived c s → Spared env c s (upd s i) ∧ Spares env c (next s i)

/-! ## One step -/

/-- A write of the row that looks at the status leaves an archived one, unless it dispatches. -/
theorem archived_looks {x y : Campaign} (hw : CampaignWrite (· ∉ unguarded) x y)
    (hx : x.status = .archived) : y.status = .archived ∨ y.status = .dispatched := by
  cases hw with
  | cancel _ h | retry h | pause _ h | tested _ _ h => simp [unguarded] at h
  | dispatch => exact .inr rfl
  | change st scheduledFor _ hguard => exact absurd hx hguard
  | archive => exact .inl rfl
  | claim | openGen | closeGen | edit | confirm => exact .inl hx

/-- A write of an archived row that does not dispatch it does not make it dispatched. -/
theorem not_dispatched_spared {x y : Campaign} (hw : CampaignWrite (· ≠ .dispatch) x y)
    (hx : x.status = .archived) : y.status ≠ .dispatched := by
  cases hw with
  | dispatch now h => exact absurd rfl h
  | pause st _ hst =>
    rintro rfl
    simp at hst
  | change st scheduledFor _ hguard => exact absurd hx hguard
  | cancel | retry | archive => simp
  | tested => simp [hx]
  | claim | openGen | closeGen | edit | confirm => simp [hx]

/-- A turn that spares an archived campaign and does not write it blindly keeps it archived. -/
theorem archived_spared (h : Spared env c s t) (hs : Archived c s) (hlooks : Looks env c s t) :
    Archived c t := by
  have hrow := h.terminal.rows c
  have hrow' := hlooks.terminal.rows c
  unfold Archived at hs ⊢
  generalize s.terminal.campaign? c = x at hrow hrow' hs
  generalize t.terminal.campaign? c = y at hrow hrow' ⊢
  cases hrow with
  | same => exact hs
  | create => cases hs
  | write x y hw =>
    have hx : x.status = .archived := Option.some.inj hs
    have hnot : y.status ≠ .dispatched :=
      not_dispatched_spared (hw.mono fun k hk => hk rfl) hx
    cases hrow' with
    | same => exact hs
    | write _ _ hw' =>
      have hy := archived_looks (hw'.mono fun k hk => hk rfl) hx
      exact congrArg some (hy.resolve_right hnot)

/-- The row of an archived campaign after its status was set to something else. -/
theorem not_archived_updated {t : Terminal Id} {f : Campaign → Campaign} (hid : ∀ x, (f x).id = x.id)
    (hf : ∀ x, x.status = .archived → (f x).status ≠ .archived)
    (ht : (t.campaign? c).map (·.status) = some .archived) :
    ((t.updateCampaign c (fun _ => true) f).campaign? c).map (·.status) ≠ some .archived := by
  obtain ⟨x, hx, hstatus⟩ := Option.map_eq_some_iff.mp ht
  rw [campaign?_updateCampaign hid, hx]
  simpa [campaign?_id hx] using hf x hstatus

/-- The state after the first session of a press. -/
theorem after_press_session {α β : Type} {f : Terminal Id → WorldInput Id → Terminal Id × α}
    {k : α → LaunchProc Id β} {i : WorldInput Id} (hi : i.fails = false) :
    ((press (session f >>= k)).after s i).terminal = (f s.terminal i).1 := by
  change (if i.fails = true then (s, _) else (_, _)).1.terminal = _
  rw [hi]
  rfl

/-- A commit that does not fail changes the terminal as it says. -/
theorem after_press_commit {f : Terminal Id → WorldInput Id → Terminal Id} {i : WorldInput Id}
    (hi : i.fails = false) : ((press (commit f)).after s i).terminal = f s.terminal i := by
  change (if i.fails = true then (s, _) else (_, _)).1.terminal = _
  rw [hi]
  rfl

/-- The update of a cancel takes an archived campaign out of the archive. -/
theorem not_archived_cancelCommit {t : Terminal Id} (cloudOk : Bool)
    (ht : (t.campaign? c).map (·.status) = some .archived) :
    ((t.updateCampaign c (fun _ => true) fun x =>
      { x with status := .cancelled
               relaunchOpen := !(cloudOk && t.pushing c = 0) && x.relaunchOpen }).campaign? c).map
        (·.status) ≠ some .archived := by
  apply not_archived_updated ?_ ?_ ht
  · exact fun _ => rfl
  · exact fun _ _ => by simp

/-- **Each of the writers ends it**: after its request the campaign is not archived. -/
theorem not_archived_overwritten {q : WorldProc Id Unit} {i : WorldInput Id}
    (h : Overwrites c q s i) (hs : Archived c s) : ¬ Archived c (q.after s i) := by
  obtain ⟨hruns, hwrite⟩ := h
  unfold Archived at hs ⊢
  generalize hterminal : s.terminal = t at hwrite hs
  cases hwrite with
  | @markTested _ x hrow htemplate =>
    obtain ⟨tmpl, htmpl⟩ := Option.isSome_iff_exists.mp htemplate
    unfold markTested
    rw [after_press_session hruns, hterminal, hrow]
    simp only [Option.bind_some, htmpl]
    refine not_archived_updated ?_ ?_ hs
    · exact fun _ => rfl
    · intro y hy
      simp [hy]
  | @retryFailed _ r hr hc hfailed =>
    unfold retryFailed
    rw [after_press_session hruns, hterminal]
    have hsome : (t.campaign? c).isSome = true := by
      obtain ⟨x, hx, -⟩ := Option.map_eq_some_iff.mp hs
      rw [hx]
      rfl
    have hany : (t.recipients.any fun r => r.campaignId = c ∧ r.status = .failed) = true :=
      List.any_eq_true.mpr ⟨r, hr, by simp [hc, hfailed]⟩
    rw [if_pos hsome]
    dsimp only
    rw [if_pos hany]
    refine not_archived_updated ?_ ?_ hs
    · exact fun _ => rfl
    · exact fun _ _ => by simp
  | cancel cloudOk =>
    unfold cancelCommit
    rw [after_press_commit hruns, hterminal]
    dsimp only
    split <;> exact not_archived_cancelCommit cloudOk hs
  | archive cloudOk =>
    unfold cancelCommit commit
    rw [after_press_session hruns, hterminal]
    dsimp only
    split <;> exact not_archived_cancelCommit cloudOk hs
  | setStatus status _ hstatus =>
    unfold setStatus
    rw [after_press_commit hruns, hterminal]
    refine not_archived_updated ?_ ?_ hs
    · exact fun _ => rfl
    · rintro x - rfl
      simp at hstatus

/-- Doing nothing pushes nothing. -/
theorem nothingPushed_refl (s : World Id) : NothingPushed c s s := ⟨[], by simp⟩

/-- Two steps that push nothing push nothing. -/
theorem nothingPushed_trans {u : World Id} (h : NothingPushed c s t) (h' : NothingPushed c t u) :
    NothingPushed c s u := by
  obtain ⟨sent, heq, hsent⟩ := h
  obtain ⟨sent', heq', hsent'⟩ := h'
  refine ⟨sent ++ sent', by rw [heq', heq, List.append_assoc], fun r hr => ?_⟩
  rcases List.mem_append.mp hr with hr | hr
  · exact hsent r hr
  · exact hsent' r hr

/-- A step that spares the campaign pushes nothing of it. -/
theorem nothingPushed_spared (h : Spared env c s t) : NothingPushed c s t := by
  rcases h.requests with heq | ⟨actor, packs, heq, hpacks⟩
  · exact ⟨[], by simp [heq]⟩
  · exact ⟨[(actor, packs)], heq, by simpa using hpacks⟩

/-! ## The terms -/

/-- The terms on which the programs run while the campaign is archived. -/
def archiveTerms (env : Setup Id) (c : ℕ) : Discipline (World Id) where
  inv := Archived c
  rely _ _ _ := True
  guar _ := Spared env c
  cond := Looks env c
  rely_refl _ _ := trivial
  rely_trans _ _ _ _ _ _ := trivial
  guar_rely _ _ _ _ _ _ _ _ := trivial
  keep _ _ _ hs hg hc := archived_spared hg hs hc

/-- A program that spares the campaign keeps the terms. -/
theorem Spares.safe {p : WorldProc Id Unit} (h : Spares env c p) (n : ℕ) (s : World Id) :
    (archiveTerms env c).Safe n p (fun _ _ => True) s := by
  induction p generalizing s with
  | ret r => trivial
  | atom upd next ih =>
    intro t _ ht i
    obtain ⟨hstep, hnext⟩ := h t i ht
    exact ⟨hstep, ih t i hnext _⟩

section rules

variable {α β : Type} {n : ℕ} {Q : α → Prop} {P : β → Prop}

/-- The terms allow whatever comes later. -/
theorem archiveTerms_grows : (archiveTerms env c).Grows fun _ _ => True where
  refl _ := trivial
  trans _ _ _ _ _ := trivial
  rely _ _ _ _ := trivial
  guar _ _ _ _ _ := trivial

/-- While the campaign is archived the program spares it, and where it returns, `Q` holds. -/
def Sparing (env : Setup Id) (c : ℕ) (Q : α → Prop) (p : LaunchProc Id α) : Prop :=
  ∀ n s, (archiveTerms env c).SafeOr n p (fun a _ => Q a) s

/-- A sequence spares the campaign where both parts do. -/
theorem Sparing.bind {p : LaunchProc Id α} {k : α → LaunchProc Id β} (h : Sparing env c Q p)
    (hk : ∀ a, Q a → Sparing env c P (k a)) : Sparing env c P (p >>= k) := by
  intro n s
  apply Discipline.SafeOr.bind archiveTerms_grows (h n s)
  intro a t _ ha
  exact hk a ha n t

/-- Returning spares the campaign. -/
theorem Sparing.pure {a : α} (h : Q a) : Sparing env c Q (pure a) :=
  fun _ _ => Discipline.SafeOr.pure h

/-- A program that spares the campaign in any state. -/
theorem Sparing.of_turns {may : ℕ → WriteKind → Prop} {post : PackIn Id → Prop}
    {p : LaunchProc Id α} (h : Turns env may post Q p) (hmay : ∀ k, may c k → k ≠ .dispatch)
    (hpost : ∀ x, post x → x.campaignId ≠ c) : Sparing env c Q p := by
  intro n s
  have hsafe := Discipline.Safe.of_yields (D := archiveTerms env c) (n := n) (G := fun _ _ => True)
    (fun _ => trivial) (fun _ _ _ _ _ => trivial) (fun _ _ _ => trivial) (fun s i t hst => ?_) h s
  · exact hsafe.weaken fun r t hr => hr.1
  · refine ⟨hst.mono ?_ hpost, trivial⟩
    rintro c' k hk rfl
    exact hmay k hk

/-- A question about the terminal, where the campaign is archived. -/
theorem Sparing.ask {f : World Id → WorldInput Id → World Id × Except LaunchError α}
    (hf : ∀ w i, (f w i).1 = w) (h : ∀ w i a, Archived c w → (f w i).2 = .ok a → Q a) :
    Sparing env c Q (Fallible.act f) := by
  intro n s
  apply Discipline.SafeOr.act
  intro t _ ht i
  rw [hf]
  exact ⟨.refl t, fun a ha => h t i a ht ha⟩

/-- A session that reads the archived campaign spares it. -/
theorem Sparing.session {f : Terminal Id → WorldInput Id → α}
    (h : ∀ w : World Id, Archived c w → ∀ i, Q (f w.terminal i)) :
    Sparing env c Q (session fun t i => (t, f t i)) := by
  apply Sparing.ask
  · intro w i
    split <;> rfl
  · intro w i a hw ha
    split at ha
    · cases ha
    · rw [Except.ok.injEq] at ha
      exact ha ▸ h w hw i

/-- An attempt spares the campaign as its program does. -/
theorem Sparing.attempt {p : LaunchProc Id α} (h : Sparing env c Q p) :
    Sparing env c (fun r => ∀ a, r = .ok a → Q a) p.attempt :=
  fun n s => Discipline.SafeOr.attempt (h n s)

/-- Past a requirement its condition holds. -/
theorem Sparing.require {p : Prop} [Decidable p] {e : LaunchError} :
    Sparing env c (fun _ => p) (Fallible.require p e : LaunchProc Id Unit) :=
  fun _ _ => Discipline.SafeOr.require

/-- What is done only under a condition need spare the campaign only there. -/
theorem Sparing.onlyIf {p : Prop} [Decidable p] {q : LaunchProc Id Unit}
    (h : p → Sparing env c (fun _ => True) q) :
    Sparing env c (fun _ => True) (Fallible.onlyIf p q) :=
  fun n s => Discipline.SafeOr.onlyIf fun hp => h hp n s

/-- After a check that refuses nothing more is done. -/
theorem Sparing.refused {p : LaunchProc Id α} {k : α → LaunchProc Id β}
    (h : Sparing env c (fun _ => False) p) : Sparing env c P (p >>= k) :=
  h.bind fun _ ha => ha.elim

/-- A press of a program that spares the campaign. -/
theorem Sparing.spares {p : LaunchProc Id α} (h : Sparing env c Q p) : Spares env c (press p) := by
  suffices hall : ∀ q : WorldProc Id Unit,
      (∀ n s, (archiveTerms env c).Safe n q (fun _ _ => True) s) → Spares env c q by
    apply hall
    intro n s
    exact Discipline.Safe.bind (Discipline.Safe.weaken (h n s) fun _ _ _ => trivial)
  intro q hq
  induction q with
  | ret r => trivial
  | atom upd next ih =>
    intro s i hs
    obtain ⟨hstep, hnext⟩ := hq 0 s s trivial hs i
    refine ⟨hstep, ih s i fun n u => ?_⟩
    -- nothing is remembered of the state the rest starts from
    exact Discipline.Safe.rely (hq n s s trivial hs i).2 trivial

end rules

/-! ## What is refused -/

section refused

variable {α : Type} {Q : α → Prop}

/-- An archived campaign has a row that says so. -/
theorem archived_row (hs : Archived c s) : ∃ x, s.terminal.campaign? c = some x ∧
    x.status = .archived := by
  unfold Archived at hs
  exact Option.map_eq_some_iff.mp hs

/-- The refusal of closed campaigns refuses an archived one. -/
theorem sparing_refuseClosed {closed : List CampaignStatus} (hclosed : .archived ∈ closed) :
    Sparing env c (fun _ => False) (refuseClosed c closed : LaunchProc Id Unit) := by
  unfold refuseClosed
  apply Sparing.bind (Q := fun status => status = some CampaignStatus.archived)
  · apply Sparing.session
    intro w hw _
    exact hw
  · rintro _ rfl
    unfold Fallible.require
    rw [if_neg (by simpa using hclosed)]
    exact fun _ _ => Discipline.SafeOr.throw

variable [LinearOrder Id]

/-- A batch of an archived campaign is not dispatched. -/
theorem sparing_dispatchBatch (b : ℕ) (ctx : Option SendCtx) :
    Sparing env c (fun _ => False) (dispatchBatch env id c b ctx) :=
  (sparing_refuseClosed (by simp [closedToAll])).refused

/-- An approve spares an archived campaign. -/
theorem sparing_approveBatch (b : ℕ) :
    Sparing env c (fun _ => True) (approveBatch env id c b) := by
  unfold approveBatch
  apply Sparing.bind (Q := fun _ => True) (Sparing.session fun _ _ _ => trivial)
  rintro ⟨row, prev, now⟩ _
  apply Sparing.require.bind
  intro _ _
  apply Sparing.require.bind
  intro _ _
  apply Sparing.require.bind
  intro _ _
  exact (sparing_dispatchBatch b none).refused

omit [LinearOrder Id] in
/-- The gates of a normal launch. -/
theorem loadLaunch_archived (hs : Archived c s) (override : Option ℕ) {row}
    (h : s.terminal.loadLaunch c override false false = .ok row) : False := by
  obtain ⟨x, hx, hstatus⟩ := archived_row hs
  unfold Terminal.loadLaunch at h
  rw [hx] at h
  simp [hstatus] at h

/-- A launch is refused for an archived campaign. -/
theorem sparing_launchCampaign (override stageId : Option ℕ) (relaunch : Bool)
    (expectedSeq : Option ℕ) : Sparing env c (fun _ => False)
      (launchCampaign env id c override stageId relaunch expectedSeq) := by
  unfold launchCampaign
  cases relaunch with
  | true => exact (sparing_refuseClosed (by simp [closedToAll])).refused
  | false =>
    apply Sparing.bind (Q := fun _ => True) (Sparing.pure trivial)
    intro _ _
    cases stageId with
    | some stageId => exact (sparing_refuseClosed (by simp [closedToStages])).refused
    | none =>
      apply Sparing.bind (Q := fun _ => True) (Sparing.pure trivial)
      intro _ _
      have hbearer : Turns env (fun _ _ => False) (fun _ => False) (fun _ => True)
          (readBearer .retryable : LaunchProc Id Actor) := turn_readBearer _
      apply Sparing.bind (Sparing.of_turns hbearer nofun nofun)
      intro bearer _
      apply Sparing.refused
      apply Sparing.ask
      · intro w i
        split <;> rfl
      · intro w i a hw ha
        split at ha
        · cases ha
        · exact loadLaunch_archived hw override ha

/-- A due launch spares an archived campaign. -/
theorem sparing_launchDue : Sparing env c (fun _ => True) (launchDue env id c) := by
  unfold launchDue
  apply Sparing.bind (Q := fun due => due = false)
  · apply Sparing.session
    intro w hw i
    obtain ⟨x, hx, hstatus⟩ := archived_row hw
    simp [hx, hstatus]
  · rintro _ rfl
    exact Sparing.onlyIf nofun

/-- A stage of an archived campaign is not due. -/
theorem sparing_launchStage (stageId : ℕ) : Sparing env c (fun _ => True) (launchStage env id stageId) := by
  unfold launchStage
  apply Sparing.bind (Q := fun row => ∀ x, row = some x → x.campaignId ≠ c)
  · apply Sparing.session
    intro w hw _ row hrow hc
    obtain ⟨x, hx, hstatus⟩ := archived_row hw
    have hdue := List.find?_some hrow
    rw [hc, hx] at hdue
    simp [hstatus] at hdue
  · intro row hrow
    cases row with
    | none => exact Sparing.pure trivial
    | some row =>
      have hne : row.campaignId ≠ c := hrow row rfl
      have hmay : LaunchMay (fun c' k => c' = row.campaignId ∧ k ∈ [WriteKind.choose, .db])
          (fun p : PackIn Id => p.campaignId = row.campaignId) row.campaignId false
          (some stageId) := by
        constructor <;> simp
      have hspare : ∀ {q : LaunchProc Id Unit},
          Turns env (fun c' k => c' = row.campaignId ∧ k ∈ [WriteKind.choose, .db])
            (fun p => p.campaignId = row.campaignId) (fun _ => True) q →
          Sparing env c (fun _ => True) q := by
        intro q hq
        apply Sparing.of_turns hq
        · intro k hk
          exact absurd hk.1.symm hne
        · intro p hp
          exact hp ▸ hne
      apply hspare
      apply turn_read.bind
      intro stillDue _
      apply Fallible.Yields.onlyIf
      intro _
      apply (turn_attempt (turn_launchCampaign _ _ _ _ nofun nofun hmay)).bind
      intro result _
      cases result with
      | ok _ => exact Fallible.Yields.pure trivial
      | error e => exact Fallible.Yields.onlyIf fun _ => turn_stages

end refused

/-! ## All operations -/

section all

variable [LinearOrder Id]

omit [LinearOrder Id] in
/-- Requests that are turns of other kinds, or of other campaigns. -/
theorem spares_of_every {p : WorldProc Id Unit} {may : ℕ → WriteKind → Prop}
    {post : PackIn Id → Prop} (h : p.Every fun s _ t => WorldTurn env may post s t)
    (hmay : ∀ k, may c k → k ≠ .dispatch) (hpost : ∀ x, post x → x.campaignId ≠ c) :
    Spares env c p := by
  induction p with
  | ret r => trivial
  | atom upd next ih =>
    intro s i _
    obtain ⟨hstep, hnext⟩ := h s i
    refine ⟨hstep.mono ?_ hpost, ih s i hnext⟩
    rintro c' k hk rfl
    exact hmay k hk

/-- **Whatever is started spares an archived campaign.** -/
theorem spares_lifecycleCode (c n : ℕ) (op : LifecycleOp Id) :
    Spares env c (lifecycleCode env id n op) := by
  have hturns := @turn_lifecycleCode Id env _ n op
  -- a press of the campaign itself is refused; one of another writes other rows
  have hother : (∀ k, lifecycleWrites op c k → k ≠ .dispatch) →
      (∀ p, lifecyclePosts op p → p.campaignId ≠ c) → Spares env c (lifecycleCode env id n op) :=
    spares_of_every hturns
  cases op with
  | world op =>
    cases op with
    | launch c' =>
      by_cases hc : c' = c
      · subst hc
        exact Sparing.spares (sparing_launchCampaign _ _ _ _)
      · apply hother
        · exact fun k hk => absurd hk.1.symm hc
        · exact fun p hp => fun h => hc (hp.symm.trans h)
    | relaunch c' seq =>
      by_cases hc : c' = c
      · subst hc
        exact Sparing.spares (sparing_launchCampaign _ _ _ _)
      · apply hother
        · exact fun k hk => absurd hk.1.symm hc
        · exact fun p hp => fun h => hc (hp.symm.trans h)
    | approve c' b =>
      by_cases hc : c' = c
      · subst hc
        exact Sparing.spares (sparing_approveBatch b)
      · apply hother
        · exact fun k hk => absurd hk.1.symm hc
        · exact fun p hp => fun h => hc (hp.symm.trans h)
    | stage stageId => exact Sparing.spares (sparing_launchStage stageId)
    | retryFailed | pause | resume | cancel | archive | markTested | createCampaign | addRecipients
    | pollOutcomes | webhook | servePush | deliver | cancelPack | expireStaleClaims | revokeKey =>
      apply hother
      · rintro k hk rfl
        simp [lifecycleWrites, opWrites] at hk
      · simp [lifecyclePosts, opPosts]
  | launchDue c' =>
    by_cases hc : c' = c
    · subst hc
      exact Sparing.spares sparing_launchDue
    · apply hother
      · exact fun k hk => absurd hk.1.symm hc
      · exact fun p hp => fun h => hc (hp.symm.trans h)
  | clone | schedule | edit | addStage | updateStage | deleteStage | confirmElapsedLocks
  | drainBatches | refuseUnreadable | failStage | cancelClosedStage =>
    apply hother
    · simp [lifecycleWrites]
    · simp [lifecyclePosts]

/-! ## Who writes blindly -/

/-- What a press goes on with after a first part. -/
def pressThen {α β : Type} (k : α → LaunchProc Id β) : Except LaunchError α → WorldProc Id Unit
  | .ok a => press (k a)
  | .error _ => .ret ()

omit [LinearOrder Id] in
/-- A press is its first part, and the rest where that returns. -/
theorem press_then {α β : Type} (p : LaunchProc Id α) (k : α → LaunchProc Id β) :
    press (p >>= k) = p.run.bind (pressThen k) := by
  unfold press
  rw [Fallible.run_bind, Proc.bind_assoc]
  congr 1
  funext r
  cases r <;> rfl

/-- A request of what is left of a program: it looks, or it is one of the blind writers. -/
def LooksOr (env : Setup Id) (c : ℕ) (q : WorldProc Id Unit) (s : World Id)
    (i : WorldInput Id) : Prop :=
  Overwrites c q s i ∨ Looks env c s (q.after s i)

section blind

variable {α β : Type} {may : ℕ → WriteKind → Prop} {post : PackIn Id → Prop} {Q : α → Prop}

omit [LinearOrder Id] in
/-- A turn without blind writes looks. -/
theorem looks_turn (hmay : ∀ k, may c k → k ∉ unguarded) (h : WorldTurn env may post s t) :
    Looks env c s t := by
  refine h.mono ?_ fun _ _ => trivial
  rintro c' k hk rfl
  exact hmay k hk

omit [LinearOrder Id] in
/-- A program of turns that look. -/
theorem looks_of_every {p : WorldProc Id Unit}
    (h : p.Every fun s _ t => WorldTurn env may post s t) (hmay : ∀ k, may c k → k ∉ unguarded) :
    p.EveryAs (LooksOr env c) :=
  Proc.EveryAs.of_every h fun _ _ _ hturn => .inr (looks_turn hmay hturn)

omit [LinearOrder Id] in
/-- A press that writes nothing of these tables. -/
theorem looks_ended {p : LaunchProc Id Unit}
    (h : Turns env (fun _ _ => False) (fun _ => True) (fun _ => True) p) :
    (press p).EveryAs (LooksOr env c) :=
  looks_of_every (turn_press h) fun _ hmay => hmay.elim

omit [LinearOrder Id] in
/-- A first part that looks, and the rest of the press. -/
theorem looks_bind {p : LaunchProc Id α} {k : α → LaunchProc Id β}
    (h : Turns env (fun _ _ => False) (fun _ => True) Q p)
    (hk : ∀ a, Q a → (press (k a)).EveryAs (LooksOr env c)) :
    (press (p >>= k)).EveryAs (LooksOr env c) := by
  rw [press_then]
  apply Proc.EveryAs.bind h
  · exact fun _ _ _ hturn => .inr (looks_turn (fun _ hmay => hmay.elim) hturn)
  · intro r hr
    cases r with
    | ok a => exact hk a (hr a rfl)
    | error e => trivial

omit [LinearOrder Id] in
/-- A session, and the rest of the press. -/
theorem looks_session {f : Terminal Id → WorldInput Id → Terminal Id × α} {k : α → LaunchProc Id β}
    (h : ∀ (s : World Id) i, i.fails = false → Overwrites c (press (session f >>= k)) s i ∨
      TerminalTurn (fun c' k => c' = c → k ∉ unguarded) s.terminal (f s.terminal i).1)
    (hk : ∀ a, (press (k a)).EveryAs (LooksOr env c)) :
    (press (session f >>= k)).EveryAs (LooksOr env c) := by
  have hsplit := press_then (session f) k
  rw [hsplit]
  intro s i
  have hturn : (i.fails = true ∨ TerminalTurn (fun c' k => c' = c → k ∉ unguarded) s.terminal
      (f s.terminal i).1) → Looks env c s ((press (session f >>= k)).after s i) := by
    intro hcase
    change Looks env c s (if i.fails = true then (s, _) else (_, _)).1
    split
    · exact .refl s
    · next hi => exact .of_terminal (hcase.resolve_left hi)
  refine ⟨?_, ?_⟩
  · change LooksOr env c ((session f).run.bind _) s i
    rw [← hsplit]
    cases hi : i.fails with
    | true => exact .inr (hturn (.inl hi))
    | false => exact (h s i hi).imp_right fun ht => hturn (.inr ht)
  · change (pressThen k (if i.fails = true then (s, .error _) else (_, .ok _)).2).EveryAs _
    split
    · trivial
    · exact hk _

omit [LinearOrder Id] in
/-- A session that ends the press. -/
theorem looks_commit {f : Terminal Id → WorldInput Id → Terminal Id}
    (h : ∀ (s : World Id) i, i.fails = false → Overwrites c (press (commit f)) s i) :
    (press (commit f)).EveryAs (LooksOr env c) := by
  rw [← Fallible.bind_pure (commit f)] at h ⊢
  exact looks_session (fun s i hi => .inl (h s i hi)) fun _ => trivial

end blind

omit [LinearOrder Id] in
/-- Each request of a test mail looks or is one of the blind writers. -/
theorem looks_markTested : (press (markTested c : LaunchProc Id Unit)).EveryAs (LooksOr env c) := by
  apply looks_session
  · intro s i hi
    split
    · exact .inr (.refl _)
    · next tmpl htmpl =>
      obtain ⟨x, hrow, hfound⟩ := Option.bind_eq_some_iff.mp htmpl
      exact .inl ⟨hi, .markTested hrow (by simp [hfound])⟩
  · intro done
    exact looks_ended turn_require

omit [LinearOrder Id] in
/-- Each request of a retry of the failed looks or is one of the blind writers. -/
theorem looks_retryFailed :
    (press (retryFailed c : LaunchProc Id Unit)).EveryAs (LooksOr env c) := by
  apply looks_session
  · intro s i hi
    by_cases hfailed : (s.terminal.recipients.any fun r =>
        r.campaignId = c ∧ r.status = .failed) = true
    · obtain ⟨r, hr, hmatch⟩ := List.any_eq_true.mp hfailed
      simp only [decide_eq_true_eq] at hmatch
      exact .inl ⟨hi, .retryFailed hr hmatch.1 hmatch.2⟩
    · right
      split
      · dsimp only
        rw [if_neg hfailed]
        exact .db_of c (by simp [unguarded]) rfl rfl (keptJobs_of_eq rfl) rfl
      · exact .refl _
  · intro found
    exact looks_ended turn_require

omit [LinearOrder Id] in
/-- Each request of a change of status looks or is one of the blind writers. -/
theorem looks_changeStatus {allowed : Campaign → Bool} (status : Campaign → CampaignStatus)
    (hst : ∀ x, status x ∈ [.paused, .tested, .draft]) :
    (press (changeStatus c allowed status : LaunchProc Id Unit)).EveryAs (LooksOr env c) := by
  apply looks_bind turn_read
  intro row _
  cases row with
  | none => trivial
  | some camp =>
    apply looks_bind turn_require
    intro _ _
    exact looks_commit fun s i hi => ⟨hi, .setStatus _ _ (hst camp)⟩

/-- The requests of `cancel_campaign` before its transaction look. -/
theorem looks_cancelCampaign (k : Unit → LaunchProc Id Unit)
    (h : ∀ cloudOk, (press (cancelCommit c cloudOk >>= k)).EveryAs (LooksOr env c)) :
    (press (cancelCampaign c >>= k)).EveryAs (LooksOr env c) := by
  unfold cancelCampaign
  rw [Fallible.bind_assoc]
  apply looks_bind turn_read
  intro bearer _
  cases bearer with
  | none => exact h false
  | some actor =>
    dsimp only
    rw [Fallible.bind_assoc]
    have hasked : Turns env (fun _ _ => False) (fun _ => True) (fun _ => True)
        (Fallible.attempt do
          checked
          let _ ← Fallible.lift (onCloud (cancelPendingForCampaign c))
          checked : LaunchProc Id (Except LaunchError Unit)) := by
      apply turn_attempt (Q := fun _ => True)
      apply turn_checked.bind
      intro _ _
      apply (turn_lift (every_onCloud _)).bind
      exact fun _ _ => turn_checked
    exact looks_bind hasked fun r _ => h _

/-- Each request of an archive looks or is one of the blind writers. -/
theorem looks_archiveCampaign :
    (press (archiveCampaign c : LaunchProc Id Unit)).EveryAs (LooksOr env c) := by
  have hlast : (press (archiveCommit c : LaunchProc Id Unit)).EveryAs (LooksOr env c) := by
    have hturns : (press (archiveCommit c : LaunchProc Id Unit)).Every fun s _ t =>
        WorldTurn env (fun c' k => c' = c ∧ k = .archive) (fun _ => True) s t := by
      apply turn_press
      apply turn_commit
      intro t i
      exact .update (fun _ => rfl) fun x _ _ => .archive x ⟨rfl, rfl⟩
    apply looks_of_every hturns
    rintro k ⟨-, rfl⟩
    simp [unguarded]
  unfold archiveCampaign
  apply looks_bind turn_read
  intro camp _
  cases camp with
  | none => trivial
  | some camp =>
    apply looks_bind turn_read
    intro live _
    cases live with
    | false => exact hlast
    | true =>
      apply looks_cancelCampaign fun _ => archiveCommit c
      intro cloudOk
      have hblind : ∀ (s : World Id) (i : WorldInput Id), i.fails = false →
          Overwrites c (press (do cancelCommit c cloudOk; archiveCommit c)) s i :=
        fun s i hi => ⟨hi, .archive cloudOk _⟩
      unfold cancelCommit commit at hblind ⊢
      exact looks_session (fun s i hi => .inl (hblind s i hi)) fun _ => hlast

/-- **Every request of an operation looks at the status, or is one of the blind writers.** -/
theorem looks_lifecycleCode (c n : ℕ) (op : LifecycleOp Id) :
    (lifecycleCode env id n op).EveryAs (LooksOr env c) := by
  -- most operations write none of these kinds, or write them for another campaign
  have hother : (∀ k, lifecycleWrites op c k → k ∉ unguarded) →
      (lifecycleCode env id n op).EveryAs (LooksOr env c) :=
    looks_of_every (@turn_lifecycleCode Id env _ n op)
  cases op with
  | world op =>
    cases op with
    | retryFailed c' =>
      by_cases hc : c' = c
      · subst hc
        exact looks_retryFailed
      · exact hother fun k hk => absurd hk.1.symm hc
    | pause c' =>
      by_cases hc : c' = c
      · subst hc
        exact looks_changeStatus _ (by simp)
      · exact hother fun k hk => absurd hk.1.symm hc
    | resume c' =>
      by_cases hc : c' = c
      · subst hc
        apply looks_changeStatus
        intro x
        split <;> simp
      · exact hother fun k hk => absurd hk.1.symm hc
    | cancel c' =>
      by_cases hc : c' = c
      · subst hc
        have hcancel : (press (cancelCampaign c' >>= (pure : Unit → LaunchProc Id Unit))).EveryAs
            (LooksOr env c') := by
          apply looks_cancelCampaign
          intro cloudOk
          rw [Fallible.bind_pure]
          exact looks_commit fun s i hi => ⟨hi, .cancel cloudOk _⟩
        rwa [Fallible.bind_pure] at hcancel
      · exact hother fun k hk => absurd hk.1.symm hc
    | archive c' =>
      by_cases hc : c' = c
      · subst hc
        exact looks_archiveCampaign
      · exact hother fun k hk => absurd hk.1.symm hc
    | markTested c' =>
      by_cases hc : c' = c
      · subst hc
        exact looks_markTested
      · exact hother fun k hk => absurd hk.1.symm hc
    | launch | relaunch | approve | stage | createCampaign | addRecipients | pollOutcomes | webhook
    | servePush | deliver | cancelPack | expireStaleClaims | revokeKey =>
      apply hother
      intro k
      cases k <;> simp [lifecycleWrites, opWrites, unguarded]
  | launchDue | clone | schedule | edit | addStage | updateStage | deleteStage | confirmElapsedLocks
  | drainBatches | refuseUnreadable | failStage | cancelClosedStage =>
    apply hother
    intro k
    cases k <;> simp [lifecycleWrites, unguarded]

omit [LinearOrder Id] in
/-- What is left of an operation that dispatches nothing of the campaign spares it. -/
theorem spares_rest [LinearOrder Id] {n : ℕ} {op : LifecycleOp Id} {q : WorldProc Id Unit}
    (h : (lifecycleCode env id n op).Rest q) (hmay : ¬ lifecycleWrites op c .dispatch)
    (hpost : ∀ p, lifecyclePosts op p → p.campaignId ≠ c) : Spares env c q := by
  apply spares_of_every ((@turn_lifecycleCode Id env _ n op).rest h)
  · rintro k hk rfl
    exact hmay hk
  · exact hpost

/-- In a run in all of whose states the campaign is archived, nobody has overwritten it. -/
theorem made_of_archived {p : Pool (World Id) (WorldInput Id)}
    {es : List (Event (LifecycleOp Id) (WorldInput Id))}
    (h : ∀ fs, fs <+: es → Archived c (p.run (lifecycleCode env id) fs).state) :
    p.Made (lifecycleCode env id) (fun q s i => ¬ Overwrites c q s i) es := by
  intro fs n i hfs hover
  have hbefore : Archived c (p.run (lifecycleCode env id) fs).state :=
    h fs ((List.prefix_append fs _).trans hfs)
  have hafter := h (fs ++ [.step n i]) hfs
  rw [Pool.run_append, Pool.run_cons, Pool.run_nil, Pool.exec_step_state] at hafter
  exact not_archived_overwritten hover hbefore hafter

/-- **Archive is one-way**, for any run of the terminal's operations in which no launch of the
campaign is left from before: the campaign stays archived in every state of the run, and no
pack of it is pushed, if and only if no request of the run is one of the blind writers'. -/
theorem archive_one_way (env : Setup Id) (c : ℕ) (p : Pool (World Id) (WorldInput Id))
    (hc : Archived c p.state) (hunderway : p.Underway (lifecycleCode env id))
    (hrest : ∀ n, Spares env c (p.running n))
    (es : List (Event (LifecycleOp Id) (WorldInput Id))) :
    (∀ fs, fs <+: es → Archived c (p.run (lifecycleCode env id) fs).state ∧
        NothingPushed c p.state (p.run (lifecycleCode env id) fs).state) ↔
      p.Made (lifecycleCode env id) (fun q s i => ¬ Overwrites c q s i) es := by
  constructor
  · exact fun h => made_of_archived fun fs hfs => (h fs hfs).1
  · rintro hmade fs ⟨gs, rfl⟩
    have hlooks : p.Steps (lifecycleCode env id) (Looks env c) (fs ++ gs) := by
      apply Pool.Made.steps (looks_lifecycleCode c) ?_ ?_ hunderway hmade
      · exact fun s => .refl s
      · exact fun q s i hlooks hnot => hlooks.resolve_left hnot
    have hsound : (archiveTerms env c).Sound p := ⟨hc, fun n => (hrest n).safe n p.state⟩
    have hsafe : ∀ n op s, Archived c s →
        (archiveTerms env c).Safe n (lifecycleCode env id n op) (fun _ _ => True) s :=
      fun n op s _ => (spares_lifecycleCode c n op).safe n s
    have hfirst := ((Pool.steps_append _ _ _ _ _).mp hlooks).1
    refine ⟨(Discipline.run_sound hsafe hsound fs hfirst).1, ?_⟩
    apply Discipline.run_stable hsafe nothingPushed_refl (fun _ _ _ => nothingPushed_trans) ?_
      hsound fs hfirst
    exact fun n s t _ hg _ => nothingPushed_spared hg

end all

section witness

/-- A terminal with a tested campaign whose only recipient has failed. -/
private def failedTerminal : Terminal (ℕ ×ₗ String) where
  contacts := [{ id := 1, email := "a@x" }]
  recipients := [{ id := 1, campaignId := 1, contactId := 1, status := .failed }]
  campaigns := [{ id := 1, createdAt := "c", templateId := 1, kind := .transactional
                  status := .tested, testSentAt := some "t", templateHashAtTest := some "h" }]
  templates := [{ id := 1, subject := "s", htmlBody := "", templateHash := "h" }]
  settings := { resendApiKey := "re_key" }
  bearer := some .operator

/-- An operation and its first steps, run under number `n`. -/
private def pressed (n : ℕ) (op : WorldOp (ℕ ×ₗ String)) (steps : ℕ) :
    List (Event (LifecycleOp (ℕ ×ₗ String)) (WorldInput (ℕ ×ₗ String))) :=
  .start n (.world op) :: List.replicate steps (.step n { sendAts := [0] })

/-- The pool after the campaign was archived. -/
private def archivedPool : Pool (World (ℕ ×ₗ String)) (WorldInput (ℕ ×ₗ String)) :=
  (Pool.idle (World.start failedTerminal)).run (lifecycleCode Setup.plain id)
    (pressed 0 (.archive 1) 3)

/-- Nothing is under way beside the archive. -/
private theorem archivedPool_running (n : ℕ) : archivedPool.running n = .ret () := by
  unfold archivedPool pressed
  by_cases hn : n = 0
  · subst hn
    rfl
  · simp only [List.replicate, Pool.run, List.foldl]
    rw [Pool.exec_running, Pool.exec_running, Pool.exec_running, Pool.exec_running]
    · rfl
    all_goals simp [Ne.symm hn]

/-- A pause has passed its check when the campaign is archived, and waits. -/
private def pausingPool : Pool (World (ℕ ×ₗ String)) (WorldInput (ℕ ×ₗ String)) :=
  (Pool.idle (World.start failedTerminal)).run (lifecycleCode Setup.plain id)
    (pressed 5 (.pause 1) 1 ++ pressed 0 (.archive 1) 3)

/-- Only the pause is under way beside the archive. -/
private theorem pausingPool_running (n : ℕ) : pausingPool.running n =
    if n = 5 then press (setStatus 1 .paused) else .ret () := by
  unfold pausingPool pressed
  by_cases hn : n = 5
  · subst hn
    rfl
  rw [if_neg hn]
  by_cases hn' : n = 0
  · subst hn'
    rfl
  · simp only [List.replicate, List.cons_append, List.nil_append, Pool.run, List.foldl]
    rw [Pool.exec_running, Pool.exec_running, Pool.exec_running, Pool.exec_running,
      Pool.exec_running, Pool.exec_running]
    · rfl
    all_goals simp [Ne.symm hn, Ne.symm hn']

/-- What runs after the archive: a Re-launch that is refused, Retry failed of another campaign,
and the pause, whose transaction fails. -/
private def afterArchive : List (Event (LifecycleOp (ℕ ×ₗ String)) (WorldInput (ℕ ×ₗ String))) :=
  pressed 1 (.relaunch 1 none) 1 ++ pressed 2 (.retryFailed 2) 1 ++ [.step 5 { fails := true }]

/-- A pause that waits past its check does no harm as long as its transaction fails, and a
Re-launch of the archived campaign is refused. -/
theorem archive_one_way_demo :
    let q := pausingPool.run (lifecycleCode Setup.plain id) afterArchive
    Archived 1 q.state ∧ NothingPushed 1 pausingPool.state q.state ∧
      q.state.terminal.campaigns = pausingPool.state.terminal.campaigns := by
  intro q
  have harchived : ∀ fs ∈ afterArchive.inits,
      Archived 1 (pausingPool.run (lifecycleCode Setup.plain id) fs).state := by
    decide +kernel
  have hkept := (archive_one_way Setup.plain 1 pausingPool (by decide +kernel) ?_ ?_
    afterArchive).mpr (made_of_archived fun fs hfs => harchived fs (List.mem_inits _ _ |>.mpr hfs))
    afterArchive (List.prefix_refl _)
  · exact ⟨hkept.1, hkept.2, by decide +kernel⟩
  · apply Pool.run_underway
    exact Pool.underway_idle _ _
  · intro n
    rw [pausingPool_running]
    split
    · have hleft : (lifecycleCode Setup.plain id 5 (.world (.pause 1))).Rest
          (press (setStatus 1 .paused)) :=
        Proc.rest_alone _ (World.start failedTerminal) [({ sendAts := [0] } : WorldInput _)]
      apply spares_rest hleft
      · simp [lifecycleWrites, opWrites]
      · simp [lifecyclePosts, opPosts]
    · trivial

/-- Retry failed makes an archived campaign a tested one, and a launch sends it: no program is
left from before the archive returned, and the campaign ends dispatched with a pack posted. -/
theorem archive_undone :
    let p := (Pool.idle (World.start failedTerminal)).run (lifecycleCode Setup.plain id)
      (pressed 0 (.archive 1) 3)
    let q := p.run (lifecycleCode Setup.plain id)
      (pressed 1 (.retryFailed 1) 2 ++ pressed 2 (.launch 1) 32)
    Archived 1 p.state ∧ (∀ n, p.running n = .ret ()) ∧ ¬ Archived 1 q.state ∧
      ∃ r ∈ q.state.requests.drop p.state.requests.length, ∃ x ∈ r.2, x.campaignId = 1 := by
  intro p q
  have hends : Archived 1 p.state ∧ ¬ Archived 1 q.state ∧
      ∃ r ∈ q.state.requests.drop p.state.requests.length, ∃ x ∈ r.2, x.campaignId = 1 := by
    decide +kernel
  exact ⟨hends.1, archivedPool_running, hends.2⟩

end witness

end Mailman.Analysis
