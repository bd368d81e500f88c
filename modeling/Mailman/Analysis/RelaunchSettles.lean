import Mailman.Analysis.OneLivePack
import Mailman.Analysis.RelaunchClaims
import Mailman.Analysis.SoloTerms

/-!
# Re-launch presses settle

A Re-launch press that runs alone and returns has finished exactly one unfinished send, or,
where there was none, has opened and finished a new generation. What it pushes are sends that
no recorded job stands for.
-/

set_option autoImplicit false

namespace Mailman.Analysis

open Mailman.Library Mailman.Model Mailman.Interface

variable {Id : Type} [LinearOrder Id] {env : Setup Id} {c : ℕ}

/-! ## What one press ends in -/

section programs

variable {t₀ t : Terminal Id} {gen : ℕ} {m : Marks}

/-- A push and its records keep the marks. -/
theorem ends_pushAndRecord (actor : Actor) {ok : PackIn Id → Prop} (packs : List (PackIn Id))
    (jobs : List (JobIn Id)) (hpacks : ∀ p ∈ packs, ok p) (hm : marksOf c t = m) :
    Ends ok (fun _ u => marksOf c u = m) (pushAndRecord env id actor c packs jobs) t := by
  have hturns : Turns env onlyDb ok (fun _ => True) (pushAndRecord env id actor c packs jobs) :=
    turn_pushAndRecord actor packs jobs hpacks rfl
  apply (Ends.turns env hturns marks_onlyDb).mono
  rintro ack u ⟨-, hu⟩
  exact hu.trans hm

/-- The push of a batch ends with its mark cleared. -/
theorem ends_pushBatch {ctx : SendCtx} (b : ℕ) (batchRow : Option CampaignBatch) {plan : SendPlan}
    (seeds : List String) (hsends : ∀ x ∈ plan.sends, Sendable env t₀ c gen x.2) :
    Ends (Pushable env t₀ c gen) (fun _ u => marksOf c u = (marksOf c t).close b)
      (pushBatch env id ctx c b batchRow plan seeds) t := by
  apply Ends.bind (Q := fun _ u => u = t) (Ends.ask (fun w i => ?_) fun _ _ _ _ _ => rfl)
  · rintro ⟨sendAts, draw⟩ u rfl
    apply Ends.calm env turn_checked rfl
    intro _ v _ hv
    have hmarks : marksOf c v = marksOf c u := congrArg Prod.fst hv
    apply Ends.require.bind
    rintro - w ⟨-, rfl⟩
    apply Ends.bind (Q := fun _ u' => (marksOf c u').close b = (marksOf c u).close b)
    · apply Ends.commit
      intro i
      rw [← hmarks]
      exact marksOf_touch fun _ => rfl
    · intro _ u' hu'
      apply (ends_pushAndRecord ctx.bearer _ _ ?_ rfl).bind
      · intro ack w hw
        apply Ends.bind (Q := fun _ u'' => marksOf c u'' = (marksOf c u).close b)
        · apply Ends.commit
          intro i
          have hclear := marksOf_clear (c := c) (b := b) (t := w) (f := fun x =>
            { x with
              status := .sending, windowStart := sendAts.head?, windowEnd := sendAts.getLast?
              loadedAt := some i.nowText, dispatchStartedAt := none }) (fun _ => rfl) fun _ => rfl
          rw [← hu', ← hw]
          exact hclear
        · exact fun _ _ h => Ends.pure h
      · apply pushable_buildPacks
        intro target htarget k hk
        obtain ⟨x, hx, rfl⟩ := send_of_mem_batchTargets htarget hk
        exact hsends x hx
  · split <;> rfl

/-- A batch that is dispatched loses its mark. -/
theorem ends_dispatchSelected {ctx : SendCtx} (b : ℕ) (hseen : seen c t = seen c t₀)
    (hgen : gen = (marksOf c t₀).gen) :
    Ends (Pushable env t₀ c gen) (fun _ u => marksOf c u = (marksOf c t₀).close b)
      (dispatchSelected env id ctx c b) t := by
  have hdb : t.toDb = t₀.toDb := congrArg Prod.snd hseen
  have hmarks : marksOf c t = marksOf c t₀ := congrArg Prod.fst hseen
  apply Ends.bind (Q := fun row u => u = t ∧ AreRecipients t c row.1)
  · exact Ends.query ⟨rfl, areRecipients_candidates _ _ _⟩
  rintro ⟨recips, batchRow⟩ u ⟨rfl, hrecips⟩
  apply Ends.require.bind
  rintro - v ⟨-, rfl⟩
  apply Ends.bind (Q := fun g u => u = v ∧ ∀ x, g = some x → x = gen)
  · apply Ends.query
    refine ⟨rfl, fun x hx => ?_⟩
    have hgen' : (marksOf c v).gen = x := by
      unfold marksOf
      rw [hx]
      rfl
    rw [hgen, ← hmarks, hgen']
  rintro (_ | g) u ⟨rfl, hg⟩
  · exact Ends.throw
  obtain rfl : g = gen := hg g rfl
  apply (ends_planSends _ _ _ _).bind
  rintro plan u' ⟨rfl, blocked, hplans⟩
  have hsends : ∀ x ∈ plan.sends, Sendable env t₀ c g x.2 := by
    intro x hx
    have hsend := hplans.sendable hrecips x hx
    have hjobs : u'.jobs = t₀.jobs := congrArg Db.jobs hdb
    have hrecipients : u'.recipients = t₀.recipients := congrArg Db.recipients hdb
    exact ⟨hsend.campaign, hsend.sendKey, hjobs ▸ hsend.fresh, hrecipients ▸ hsend.queued,
      hjobs ▸ hsend.retryable⟩
  apply Ends.calm env turn_read hseen
  intro seeds v _ hv
  apply Ends.calm env turn_checked hv
  intro _ w _ hw
  have hwm : marksOf c w = marksOf c t₀ := congrArg Prod.fst hw
  apply Ends.bind (Q := fun _ u => marksOf c u = marksOf c t₀)
  · apply Ends.onlyIf
    · intro _
      have hturns : Turns env onlyDb (Pushable env t₀ c g) (fun _ => True)
          (markSuppressed c plan.suppressed : LaunchProc Id Unit) := turn_markSuppressed _ rfl
      apply (Ends.turns env hturns marks_onlyDb).mono
      rintro - x ⟨-, hx⟩
      exact hx.trans hwm
    · exact fun _ => hwm
  intro _ x hx
  rw [← hx]
  split
  · apply Ends.require.bind
    rintro - y ⟨-, rfl⟩
    apply Ends.bind (Q := fun _ u => marksOf c u = (marksOf c y).close b)
    · apply Ends.session
      intro i
      split
      · exact marksOf_clear (fun _ => rfl) fun _ => rfl
      · exact marksOf_clear (fun _ => rfl) fun _ => rfl
    · exact fun _ _ h => Ends.pure h
  · exact ends_pushBatch b batchRow seeds hsends

/-- Finishing an interrupted batch ends with its mark cleared. -/
theorem ends_finishInterruptedBatch (b : ℕ) (hseen : seen c t = seen c t₀)
    (hgen : gen = (marksOf c t₀).gen) :
    Ends (Pushable env t₀ c gen) (fun _ u => marksOf c u = (marksOf c t₀).close b)
      (finishInterruptedBatch env id c b) t := by
  apply Ends.bind (Q := fun _ u => marksOf c u = (marksOf c t₀).close b)
  · apply Ends.calm env (turn_refuseClosed _) hseen
    intro _ u _ hu
    apply Ends.calm env turn_loadSendCtx hu
    exact fun ctx v _ hv => ends_dispatchSelected b hv hgen
  · intro res u hu
    split
    · apply Ends.bind (Q := fun _ v => marksOf c v = (marksOf c t₀).close b)
      · apply Ends.commit
        intro i
        rw [← hu]
        apply Eq.trans (marksOf_keep ?_ ?_)
        · apply marksOf_keep
          · exact fun _ => rfl
          · exact fun _ => rfl
        · exact fun _ => rfl
        · exact fun _ => rfl
      · exact fun _ _ h => Ends.pure h
    · exact Ends.pure hu

/-- The single-shot path closes its generation. -/
theorem ends_launchPlanned {ctx : SendCtx} {recipients : List Candidate} (mode : SendMode)
    (hdb : t.toDb = t₀.toDb) (hrecips : AreRecipients t₀ c recipients)
    (hgen : (marksOf c t).gen = gen) :
    Ends (Pushable env t₀ c gen) (fun _ u => marksOf c u = ⟨gen, false, (marksOf c t).batches⟩)
      (launchPlanned env id ctx c recipients (genKeyFor gen) mode (some gen) fun t _ =>
        t.updateCampaign c (·.relaunchGen = gen) fun x => { x with relaunchOpen := false }) t := by
  have hjobs : t.jobs = t₀.jobs := congrArg Db.jobs hdb
  apply (ends_planSends _ _ _ _).bind
  rintro plan u ⟨rfl, blocked, hplans⟩
  rw [hjobs] at hplans
  have hsends := hplans.sendable hrecips
  apply Ends.bind (Q := fun _ v => v = u) (Ends.ask (fun _ _ => rfl) fun _ _ _ _ _ => rfl)
  rintro draw v rfl
  apply Ends.calm env turn_checked rfl
  intro _ w _ hw
  have hwm : marksOf c w = marksOf c v := congrArg Prod.fst hw
  apply (ends_pushAndRecord ctx.bearer _ _ ?_ hwm).bind
  · intro ack x hx
    apply Ends.bind (Q := fun _ y => marksOf c y = ⟨gen, false, (marksOf c v).batches⟩)
    · apply Ends.commit
      intro i
      rw [← hx] at hgen ⊢
      exact marksOf_closeGen hgen
    · exact fun _ _ h => Ends.pure h
  · apply pushable_buildPacks
    intro target htarget k hk
    obtain ⟨x, hx, rfl⟩ := List.mem_map.mp htarget
    cases hk
    exact hsends x hx

omit [LinearOrder Id] in
/-- A launch loads recipients. -/
theorem loadLaunch_recipients {override : Option ℕ} {isStage relaunch : Bool}
    {row : Campaign × Template × List Candidate}
    (h : t.loadLaunch c override isStage relaunch = .ok row) : AreRecipients t c row.2.2 := by
  unfold Terminal.loadLaunch at h
  split at h
  · cases h
  · dsimp only at h
    repeat' split at h
    all_goals cases h
    all_goals exact areRecipients_candidates _ _ _

/-- A press past the interrupted batches finishes the open generation, or a new one. -/
theorem ends_launchLoaded (bearer : Actor) (hseen : seen c t = seen c t₀)
    (hgen : gen = if (marksOf c t₀).isOpen then (marksOf c t₀).gen else (marksOf c t₀).gen + 1) :
    Ends (Pushable env t₀ c gen) (fun _ u => marksOf c u = ⟨gen, false, (marksOf c t₀).batches⟩)
      (launchLoaded env id c none none true bearer) t := by
  apply Ends.bind (Q := fun row u => u = t ∧ AreRecipients t c row.2.2)
  · apply Ends.ask
    · intro w i
      split <;> rfl
    · rintro w i row rfl hrow
      refine ⟨rfl, ?_⟩
      split at hrow
      · cases hrow
      · exact loadLaunch_recipients hrow
  rintro ⟨camp, tmpl, recipients⟩ u ⟨rfl, hrecips⟩
  have hrecips₀ : AreRecipients t₀ c recipients := by
    have hdb : u.recipients = t₀.recipients := congrArg (Db.recipients ∘ Prod.snd) hseen
    unfold AreRecipients at hrecips ⊢
    rwa [hdb] at hrecips
  apply Ends.calm env turn_read hseen
  intro suppressed a _ ha
  apply Ends.calm env turn_require ha
  intro _ b _ hb
  apply Ends.calm env (P := fun _ => True) (turn_session (fun t _ => .refl t) fun _ _ => trivial)
    hb
  intro conflicts d _ hd
  apply Ends.calm env turn_require hd
  intro _ e _ he
  apply Ends.calm env turn_read he
  intro publicHost f _ hf
  apply Ends.calm env (turn_resolveSender camp) hf
  intro sender g _ hg
  apply Ends.calm env turn_preflight hg
  intro companyName h _ hh
  apply Ends.calm env (turn_ensureKTemp bearer) hh
  intro kTemp i _ hi
  apply Ends.calm env turn_checked hi
  intro _ j _ hj
  have hmarks : marksOf c j = marksOf c t₀ := congrArg Prod.fst hj
  have hdb : j.toDb = t₀.toDb := congrArg Prod.snd hj
  apply Ends.bind (Q := fun row u => u.toDb = t₀.toDb ∧ row.1 = gen ∧
    marksOf c u = ⟨gen, true, (marksOf c t₀).batches⟩)
  · apply Ends.bind (Q := fun row u => u.toDb = t₀.toDb ∧ ∀ x, row = some x → x.1 = gen ∧
      marksOf c u = ⟨gen, true, (marksOf c t₀).batches⟩)
    · have hid : ∀ x : Campaign, ({ x with
          relaunchGen := x.relaunchGen + 1, relaunchOpen := true } : Campaign).id = x.id :=
        fun _ => rfl
      apply Ends.session
      intro _
      refine ⟨hdb, fun x hx => ?_⟩
      obtain ⟨row', hrow', rfl⟩ := Option.map_eq_some_iff.mp hx
      obtain ⟨row, hrow⟩ : ∃ row, j.campaign? c = some row := by
        cases hrow : j.campaign? c with
        | some row => exact ⟨row, rfl⟩
        | none =>
          rw [campaign?_updateCampaign hid, hrow] at hrow'
          cases hrow'
      have hopened := marksOf_openGen hrow
      have hrowm : marksOf c t₀ = ⟨row.relaunchGen, row.relaunchOpen, (marksOf c j).batches⟩ := by
        rw [← hmarks]
        simp [marksOf, hrow]
      have hgen' : row'.relaunchGen = gen := by
        have hfst := congrArg Marks.gen hopened
        simp only [marksOf, hrow', Option.map_some, Option.getD_some] at hfst
        rw [hfst, hgen, hrowm]
      refine ⟨hgen', hopened.trans ?_⟩
      rw [hgen, hrowm]
    · rintro (_ | row) u ⟨hu, hrow⟩
      · exact Ends.throw
      · exact Ends.pure ⟨hu, hrow row rfl⟩
  rintro ⟨g', finishing⟩ u ⟨hu, rfl, hum⟩
  let ctx : SendCtx :=
    { camp, tmpl, sender, publicHost, companyName, kTemp, bearer
      keyId := "K_temp_" ++ env.kTempId kTemp }
  have hlaunch := @ends_launchPlanned Id _ env c t₀ u g' ctx _
    (if finishing then .finishRelaunch else .relaunch) hu hrecips₀ (congrArg Marks.gen hum)
  rw [hum] at hlaunch
  exact hlaunch

/-- **One press**: what it does to the marks, and what it may push. -/
theorem ends_relaunch (t : Terminal Id) (v : Option ℕ) :
    Ends (Pushable env t c (marksOf c t).press.gen) (fun _ u => marksOf c u = (marksOf c t).press)
      (launchCampaign env id c none none true v) t := by
  rw [relaunch_eq]
  apply Ends.calm env (turn_refuseClosed _) rfl
  intro _ a _ ha
  apply Ends.calm env (turn_readBearer _) ha
  intro bearer b _ hb
  apply Ends.calm env (turn_claimRelaunch v rfl) hb
  intro _ d _ hd
  have hmarks : marksOf c d = marksOf c t := congrArg Prod.fst hd
  apply Ends.bind (Q := fun row u => u = d ∧ row = (marksOf c t).batches.min?)
  · apply Ends.query
    rw [interrupted?_eq, hmarks]
    exact ⟨rfl, rfl⟩
  rintro interrupted e ⟨rfl, hmin⟩
  cases interrupted with
  | none =>
    rw [Marks.press_eq_open hmin.symm]
    have hnil := List.min?_eq_none_iff.mp hmin.symm
    have hlaunch := @ends_launchLoaded Id _ env c t e _ bearer hd rfl
    rw [hnil] at hlaunch
    exact hlaunch
  | some batchNo =>
    rw [Marks.press_eq_close hmin.symm]
    apply Ends.bind (ends_finishInterruptedBatch batchNo hd rfl)
    exact fun _ _ h => Ends.pure h

end programs

/-! ## Presses that run alone -/

/-- The batches of a campaign with `dispatch_started_at`, and its open generation. -/
def unfinished (c : ℕ) (w : World Id) : ℕ :=
  ((batchesOf w.terminal c).filter (·.dispatchStartedAt ≠ none)).length + (openOf c w).toNat

/-- A Re-launch press is started as number `n`, nothing but its own steps writes the terminal in
the events `fs` after that, and it returns in them. -/
structure PressAlone (env : Setup Id) (c : ℕ) (p : Pool (World Id) (WorldInput Id)) (n : ℕ)
    (v : Option ℕ) (fs : List (Event (LifecycleOp Id) (WorldInput Id))) : Prop where
  idle : p.running n = .ret ()
  started : ∀ op, .start n op ∉ fs
  stopped : .stop n ∉ fs
  alone : (p.exec (lifecycleCode env id) (.start n (.world (.relaunch c v)))).Undisturbed (lifecycleCode env id)
    (fun s t => t.terminal = s.terminal) n fs
  returned : ∃ summary, (launchCampaign env id c none none true v).run.follow
    ((p.exec (lifecycleCode env id) (.start n (.world (.relaunch c v)))).met (lifecycleCode env id) n fs) =
      .ret (.ok summary)

/-- Presses that run alone, one after another, lead from one pool to another. -/
inductive PressesAlone (env : Setup Id) (c : ℕ) :
    ℕ → Pool (World Id) (WorldInput Id) → Pool (World Id) (WorldInput Id) → Prop
  | none (p) : PressesAlone env c 0 p p
  | press {k p q n v fs} (h : PressAlone env c p n v fs)
      (hq : PressesAlone env c k (p.run (lifecycleCode env id) (.start n (.world (.relaunch c v)) :: fs)) q) :
      PressesAlone env c (k + 1) p q

/-- The job is one of the campaign, for the contact and the generation. -/
def IsJobFor (env : Setup Id) (c : ℕ) (sendKey : SendKey) (contactId : ℕ) (j : Job Id) : Prop :=
  j.campaignId = c ∧ ∃ createdAt ordinal,
    j.jobId = env.ids.packId ⟨c, createdAt, sendKey, contactId, ordinal⟩

omit [LinearOrder Id] in
/-- The unfinished sends are those of the marks. -/
theorem unfinished_eq (c : ℕ) (w : World Id) :
    unfinished c w = (marksOf c w.terminal).unfinished := by
  unfold unfinished Marks.unfinished marksOf markedOf batchesOf openOf
  rw [List.length_map]

section runs

variable {p : Pool (World Id) (WorldInput Id)} {n : ℕ} {v : Option ℕ}
  {fs : List (Event (LifecycleOp Id) (WorldInput Id))}

/-- **A press alone** ends in the marks of one press, and pushes only what it may. -/
theorem PressAlone.ends (h : PressAlone env c p n v fs) :
    marksOf c (p.run (lifecycleCode env id) (.start n (.world (.relaunch c v)) :: fs)).state.terminal =
        (marksOf c p.state.terminal).press ∧
      ∀ x ∈ (lifecycleCode env id n (.world (.relaunch c v))).wrote
          ((p.exec (lifecycleCode env id) (.start n (.world (.relaunch c v)))).met (lifecycleCode env id) n fs),
        ∀ actor packs, x.2.requests = x.1.requests ++ [(actor, packs)] → ∀ pack ∈ packs,
          Pushable env p.state.terminal c (marksOf c p.state.terminal).press.gen pack := by
  obtain ⟨hidle, hstart, hstop, halone, summary, hreturned⟩ := h
  rw [Pool.run_cons]
  have hrun : (p.exec (lifecycleCode env id) (.start n (.world (.relaunch c v)))).running n =
      lifecycleCode env id n (.world (.relaunch c v)) := by simp [Pool.exec, hidle]
  have hstate : (p.exec (lifecycleCode env id) (.start n (.world (.relaunch c v)))).state = p.state := by
    simp [Pool.exec, hidle]
  generalize p.exec (lifecycleCode env id) (.start n (.world (.relaunch c v))) = q at *
  obtain ⟨hlinked, hlast⟩ := Pool.linked_met (lifecycleCode env id)
    (R := fun s t : World Id => t.terminal = s.terminal) (fun _ => rfl)
    (fun _ _ _ h h' => h'.trans h) (s := p.state) (by rw [hstate]) halone hstart hstop
  have hcode : lifecycleCode env id n (.world (.relaunch c v)) =
      (launchCampaign env id c none none true v).run.bind fun _ => .ret () := rfl
  rw [hrun, hcode] at hlinked hlast
  rw [hcode, Proc.wrote_drop]
  rw [Proc.leaves_drop] at hlast
  generalize q.met (lifecycleCode env id) n fs = l at *
  have hsafe := @ends_relaunch Id _ env c p.state.terminal v n p.state rfl
  obtain ⟨hend, hguar⟩ := Discipline.Safe.followed hsafe
    ((Proc.linked_drop hlinked).mono fun s t hst => ⟨hst, trivial⟩)
  rw [hreturned] at hend
  refine ⟨?_, hguar⟩
  rw [hlast]
  exact hend summary rfl

/-- What every request keeps holds of every state of a run. -/
theorem kept_run {I : World Id → Prop} (hI : ∀ s i t, AnyTurn env s i t → I s → I t)
    {w : World Id} (hw : I w) (es : List (Event (LifecycleOp Id) (WorldInput Id))) :
    I ((Pool.idle w).run (lifecycleCode env id) es).state := by
  have hidle : ∀ n, ((Pool.idle w : Pool _ (WorldInput Id)).running n).Every (AnyTurn env) :=
    fun _ => trivial
  have hsteps : (Pool.idle w).Steps (lifecycleCode env id) (fun s t => I s → I t) es :=
    Pool.steps_of_every every_anyTurn (fun _ h => h) hI hidle es
  exact Pool.Steps.related (fun _ h => h) (fun _ _ _ h h' hs => h' (h hs)) hsteps hw

omit [LinearOrder Id] in
/-- What a chosen send rests on stays recorded. -/
theorem chosen_recorded {s u : World Id} {i : WorldInput Id} (h : AnyTurn env s i u)
    (hs : ∀ k ∈ s.chosen, ∀ a < k.ordinal, HasJob env s.terminal { k with ordinal := a }) :
    ∀ k ∈ u.chosen, ∀ a < k.ordinal, HasJob env u.terminal { k with ordinal := a } := by
  intro k hk a ha
  obtain ⟨j, hj, hid, hc⟩ : HasJob env s.terminal { k with ordinal := a } := by
    rcases h.chosen k hk with hold | hnew
    · exact hs k hold a ha
    · exact hnew.2 a ha
  obtain ⟨j', hj', hid', hc'⟩ := h.terminal.jobs j hj
  exact ⟨j', hj', hid'.trans hid, hc'.trans hc⟩

/-- A recorded job of the contact and the generation stands before every send that may be
pushed, and its pack is gone. -/
theorem Sendable.after_job {s u : World Id} {gen : ℕ} {k : SendId} {j : Job Id}
    (hs : Ledger env s) (hu : Ledger env u) (hsu : Onward s u)
    (hrecorded : ∀ k ∈ s.chosen, ∀ a < k.ordinal, HasJob env s.terminal { k with ordinal := a })
    (hk : Sendable env s.terminal c gen k) (hchosen : k ∈ u.chosen) (hj : j ∈ s.terminal.jobs)
    (hjob : IsJobFor env c k.sendKey k.contactId j) :
    k.ordinal ≠ 0 ∧ Gone u.cloud j.jobId := by
  obtain ⟨hjc, createdAt, ordinal, hid⟩ := hjob
  have hjchosen := hs.stored _ (hs.jobs j hj).stored _ hid
  have hcreated := (hs.chosen _ hjchosen).created
  have hcreated' := (hu.chosen k hchosen).created
  rw [hk.campaign, hsu.created _ _ hcreated, Option.some.injEq] at hcreated'
  -- both are sends of one campaign, contact and generation
  have hsame : ∀ a, (⟨c, createdAt, k.sendKey, k.contactId, a⟩ : SendId) =
      { k with ordinal := a } := by
    intro a
    have hcreated' : createdAt = k.createdAt := hcreated'
    rw [hcreated', ← hk.campaign]
  have hlt : ordinal < k.ordinal := by
    by_contra hge
    rcases Nat.eq_or_lt_of_le (not_lt.mp hge) with heq | hgt
    · apply hk.fresh j hj hjc
      rw [hid, hsame, ← heq]
    · obtain ⟨j', hj', hid', hc'⟩ := hrecorded _ hjchosen k.ordinal hgt
      apply hk.fresh j' hj' hc'
      rw [hid']
      dsimp only
      rw [hsame]
  refine ⟨Nat.ne_of_gt (Nat.zero_lt_of_lt hlt), ?_⟩
  rw [hid, hsame]
  exact (hu.chosen k hchosen).before ordinal hlt

/-- One press alone, and so `k` of them, count the unfinished sends down. -/
theorem PressesAlone.counts {k : ℕ} {q : Pool (World Id) (WorldInput Id)} {w : World Id}
    (h : PressesAlone env c k p q) {es : List (Event (LifecycleOp Id) (WorldInput Id))}
    (hp : p = (Pool.idle w).run (lifecycleCode env id) es)
    (hw : (w.terminal.batches.map batchKey).Nodup) (hk : k ≤ unfinished c p.state) :
    unfinished c q.state + k = unfinished c p.state ∧ genOf c q.state = genOf c p.state := by
  induction h generalizing es with
  | none p => exact ⟨rfl, rfl⟩
  | @press k p q n v fs h _ ih =>
    have hkeys : (p.state.terminal.batches.map batchKey).Nodup :=
      hp ▸ kept_run (fun _ _ _ h => h.terminal.keys) hw es
    have hpos : 0 < (marksOf c p.state.terminal).unfinished := by
      rw [← unfinished_eq]
      omega
    have hpress := Marks.press_unfinished (marked_nodup hkeys) hpos
    rw [← h.ends.1, ← unfinished_eq, ← unfinished_eq] at hpress
    obtain ⟨hone, hgen⟩ := hpress
    have hrun : p.run (lifecycleCode env id) (.start n (.world (.relaunch c v)) :: fs) =
        (Pool.idle w).run (lifecycleCode env id) (es ++ .start n (.world (.relaunch c v)) :: fs) := by
      rw [hp, Pool.run_append]
    have hnext := ih hrun (by omega)
    exact ⟨by omega, hnext.2.trans hgen⟩

/-- **Re-launch presses settle.** From any reachable state, a Re-launch press that runs alone and
returns finishes exactly one unfinished send of the generation there is, or, where there was
none, a new generation; so as many presses as there are unfinished sends leave none. A contact
pack that such a press pushes is of the generation it ends in, and where a job of that contact
and generation was recorded before the press, all packs of such jobs are gone, the last of the
jobs had failed or was cancelled, and the recipient was `queued`.
SOURCE: terminal/launch.py:276-293, 384-409, 607-669, 885-993 -/
theorem relaunch_settles (env : Setup Id) (t : Terminal Id)
    (hkeys : (t.batches.map batchKey).Nodup) (c : ℕ)
    (es : List (Event (LifecycleOp Id) (WorldInput Id))) :
    let code := lifecycleCode env id
    let p := (Pool.idle (World.start t)).run code es
    (∀ n v fs, PressAlone env c p n v fs →
      let q := p.run code (.start n (.world (.relaunch c v)) :: fs)
      (0 < unfinished c p.state → unfinished c q.state + 1 = unfinished c p.state ∧
        genOf c q.state = genOf c p.state) ∧
      (unfinished c p.state = 0 → genOf c q.state = genOf c p.state + 1 ∧
        unfinished c q.state = 0) ∧
      ∀ x ∈ (code n (.world (.relaunch c v))).wrote
          ((p.exec code (.start n (.world (.relaunch c v)))).met code n fs),
        ∀ actor packs, x.2.requests = x.1.requests ++ [(actor, packs)] → ∀ pack ∈ packs,
          ∀ k, pack.packId = env.ids.packId k →
            k.campaignId = c ∧ k.sendKey = genKeyFor (genOf c q.state) ∧
            ∀ j ∈ p.state.terminal.jobs, IsJobFor env c k.sendKey k.contactId j →
              j.jobId ≠ pack.packId ∧ Gone x.2.cloud j.jobId ∧
              (∃ r ∈ p.state.terminal.recipients,
                r.campaignId = c ∧ r.contactId = k.contactId ∧ r.status = .queued) ∧
              ∃ last ∈ p.state.terminal.jobs,
                last.jobId = env.ids.packId { k with ordinal := k.ordinal - 1 } ∧
                (last.status = .failed ∨ last.status = .cancelled)) ∧
    ∀ k q, PressesAlone env c k p q → k ≤ unfinished c p.state →
      unfinished c q.state + k = unfinished c p.state ∧ genOf c q.state = genOf c p.state := by
  intro code p
  have hnodup : (p.state.terminal.batches.map batchKey).Nodup :=
    kept_run (fun _ _ _ h => h.terminal.keys) hkeys es
  refine ⟨fun n v fs h => ?_, fun k q h hk => h.counts rfl hkeys hk⟩
  intro q
  obtain ⟨hmarks, hpushed⟩ := h.ends
  have hgen : genOf c q.state = (marksOf c p.state.terminal).press.gen := congrArg Marks.gen hmarks
  refine ⟨fun hpos => ?_, fun hzero => ?_, fun x hx actor packs hreq pack hpack k hid => ?_⟩
  · rw [unfinished_eq] at hpos
    rw [unfinished_eq, unfinished_eq, hmarks, hgen]
    exact Marks.press_unfinished (marked_nodup hnodup) hpos
  · rw [unfinished_eq] at hzero
    rw [unfinished_eq, hmarks, hgen]
    exact Marks.press_finished hzero
  have hk := hpushed x hx actor packs hreq pack hpack k hid
  refine ⟨hk.campaign, hgen ▸ hk.sendKey, fun j hj hjob => ?_⟩
  -- the request left in a step of the run, so the ledger holds there too
  obtain ⟨es₁, i, es₂, -, -, hx₂⟩ : ∃ es₁ i es₂, fs = es₁ ++ .step n i :: es₂ ∧
      x.1 = ((p.exec code (.start n (.world (.relaunch c v)))).run code es₁).state ∧
      x.2 = ((p.exec code (.start n (.world (.relaunch c v)))).run code (es₁ ++ [.step n i])).state := by
    apply Pool.mem_wrote_met code h.started h.stopped
    have hrun : (p.exec code (.start n (.world (.relaunch c v)))).running n = code n (.world (.relaunch c v)) := by
      simp [Pool.exec, h.idle]
    rwa [hrun]
  have hlater : x.2 = lifecycleRun env t (es ++ .start n (.world (.relaunch c v)) :: (es₁ ++ [.step n i])) := by
    unfold lifecycleRun
    rw [Pool.run_append, Pool.run_cons]
    exact hx₂
  have hu : Ledger env x.2 := hlater ▸ lifecycleRun_ledger env t _
  have hsu : Onward p.state x.2 := hlater ▸ lifecycleRun_onward env t es _
  have hchosen : k ∈ x.2.chosen := by
    apply (hu.requests (actor, packs) ?_ pack hpack).planned k hid
    rw [hreq]
    exact List.mem_append_right _ (List.mem_singleton_self _)
  have hrecorded : ∀ k ∈ p.state.chosen, ∀ a < k.ordinal,
      HasJob env p.state.terminal { k with ordinal := a } := by
    apply kept_run (I := fun w : World Id => ∀ k ∈ w.chosen, ∀ a < k.ordinal,
      HasJob env w.terminal { k with ordinal := a }) fun _ _ _ => chosen_recorded
    intro k hk
    cases hk
  obtain ⟨hpos, hgone⟩ := hk.after_job (lifecycleRun_ledger env t es) hu hsu hrecorded hchosen hj hjob
  obtain ⟨last, hlast, -, hlastid, hretry⟩ := hk.retryable (k.ordinal - 1) (by omega)
  refine ⟨fun heq => hk.fresh j hj hjob.1 (heq.trans hid), hgone, hk.queued hpos, last, hlast,
    hlastid, ?_⟩
  simpa [JobStatus.retryable] using hretry

end runs

section witness

/-- A terminal whose Re-launch was interrupted after it had opened its first generation. -/
private def openTerminal : Terminal (ℕ ×ₗ String) where
  contacts := [{ id := 1, email := "a@x" }]
  recipients := [{ id := 1, campaignId := 1, contactId := 1 }]
  campaigns := [{ id := 1, createdAt := "c", templateId := 1, kind := .transactional
                  relaunchGen := 1, relaunchOpen := true }]
  templates := [{ id := 1, subject := "s", htmlBody := "", templateHash := "" }]
  settings := { resendApiKey := "re_key" }
  bearer := some .operator

/-- One press: the cloud serves its request in time. -/
private def openPress : List (Event (LifecycleOp (ℕ ×ₗ String)) (WorldInput (ℕ ×ₗ String))) :=
  List.replicate 28 (.step 0 {}) ++ .start 1 (.world (.servePush 0)) :: List.replicate 4 (.step 1 {}) ++
    List.replicate 4 (.step 0 {})

/-- The program has returned. -/
private def hasReturned {α : Type} :
    Proc (World (ℕ ×ₗ String)) (WorldInput (ℕ ×ₗ String)) (Except LaunchError α) → Bool
  | .ret (.ok _) => true
  | _ => false

/-- A program that is seen to have returned has. -/
private theorem returned_of_hasReturned {α : Type}
    {q : Proc (World (ℕ ×ₗ String)) (WorldInput (ℕ ×ₗ String)) (Except LaunchError α)}
    (h : hasReturned q = true) : ∃ a, q = .ret (.ok a) := by
  cases q with
  | atom upd next => cases h
  | ret result =>
    cases result with
    | error e => cases h
    | ok a => exact ⟨a, rfl⟩

/-- The interrupted Re-launch is finished by one press. -/
theorem relaunch_settles_demo :
    let p := (Pool.idle (World.start openTerminal)).run (lifecycleCode Setup.plain id)
      (.start 0 (.world (.relaunch 1 none)) :: openPress)
    unfinished 1 p.state = 0 ∧ genOf 1 p.state = 1 := by
  intro p
  have halone : PressAlone Setup.plain 1 (Pool.idle (World.start openTerminal)) 0 none openPress := by
    refine ⟨rfl, by simp [openPress], by simp [openPress], ?_, ?_⟩
    · refine Pool.undisturbed_of_every _ (R := fun s t : World _ => t.terminal = s.terminal)
        (S := CloudSide) (fun _ => rfl) (fun s i t h => h.terminal) ?_ ?_
      · intro m hm
        simp [Pool.exec, Pool.idle, Function.update_of_ne hm, Proc.Yields]
      · intro m op hop
        obtain ⟨rfl, rfl⟩ : m = 1 ∧ op = .world (.servePush 0) := by simpa [openPress] using hop
        exact every_servePush 0
    · have hreturned : hasReturned ((launchCampaign Setup.plain id 1 none none true none).run.follow
          (((Pool.idle (World.start openTerminal)).exec (lifecycleCode Setup.plain id)
            (.start 0 (.world (.relaunch 1 none)))).met (lifecycleCode Setup.plain id) 0 openPress)) = true := by
        decide +kernel
      exact returned_of_hasReturned hreturned
  have hone : unfinished 1 (World.start openTerminal) = 1 := by decide +kernel
  have hsettles := ((relaunch_settles Setup.plain openTerminal (by decide) 1 []).1 0 none openPress
    halone).1 (by rw [Pool.run_nil]; exact hone ▸ Nat.one_pos)
  obtain ⟨hcount, hgen⟩ := hsettles
  refine ⟨?_, hgen.trans (by decide +kernel)⟩
  change unfinished 1 p.state + 1 = unfinished 1 (World.start openTerminal) at hcount
  omega

end witness

end Mailman.Analysis
