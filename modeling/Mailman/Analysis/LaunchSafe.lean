import Mailman.Analysis.PushSafe

/-!
# Every press keeps the ledger

The programs of a launch, from the key it asks the cloud for to the sends it chooses and
the packs it builds, and then everything else that may run. What a launch carries from one
session to the next is `CtxOk`: the campaign's `created_at` and a key name the cloud has
reported. Both only grow, so no interleaving takes them away.
-/

set_option autoImplicit false

namespace Mailman.Analysis

open Mailman.Library Mailman.Model Mailman.Interface

variable {Id : Type} [LinearOrder Id] {env : Setup Id} {n : ℕ} {s : World Id}

/-! ## The pack key -/

/-- The terms of the key table: nobody relies on anything, everybody keeps the items well
formed. -/
def keyDiscipline : Discipline KeyTable where
  inv := KeysOk
  rely _ _ _ := True
  guar _ _ t := KeysOk t
  rely_refl _ _ := trivial
  rely_trans _ _ _ _ _ _ := trivial
  guar_rely _ _ _ _ _ _ _ _ := trivial
  keep _ _ _ _ h _ := h

/-- What keeps the terms of the key table keeps those of the world. -/
theorem safe_onKeys {α : Type} {p : KeyProc α} {Q : α → KeyTable → Prop}
    (h : keyDiscipline.Safe n p Q s.keys) :
    (worldDiscipline env).Safe n (onKeys p) (fun a t => Q a t.keys) s :=
  Discipline.Safe.zoom (worldDiscipline_grows env) (fun _ _ _ => rfl) (fun _ _ _ => trivial)
    (fun _ h => h.2.keys) (fun _ _ _ _ hi hk => guar_keys hi.2 hk) (Onward.refl s) h

/-- A status report is bounded. -/
theorem safe_kTempStatus (keys : KeyTable) :
    keyDiscipline.Safe n kTempStatus
      (fun report _ => ∀ r, report = some r → KTempReport.Bounded r) keys := by
  refine Discipline.Safe.act fun t _ hi _ => ⟨hi, ?_⟩
  dsimp only
  cases t.active with
  | none => exact Discipline.Safe.pure fun r hr => by cases hr
  | some kid =>
    refine Discipline.Safe.act fun u _ hu now => ⟨hu, ?_⟩
    dsimp only
    cases hitem : u.items kid with
    | none => exact Discipline.Safe.pure fun r hr => by cases hr
    | some item =>
      dsimp only
      split
      · exact Discipline.Safe.pure fun r hr => by cases hr
      · next halive =>
        apply Discipline.Safe.pure
        intro r hr
        cases hr
        have hb := (hu kid item hitem).2
        exact ⟨hb.ttl, hb.expires, not_lt.mp halive⟩

/-- An accepted lifetime is positive. -/
theorem ttl_pos {ttl : ℤ} (h : ttl ∈ validTtls) : 0 < ttl := by
  have hcases : ttl = 3600 ∨ ttl = 86400 ∨ ttl = 604800 := by simpa [validTtls] using h
  omega

/-- A provisioned key has its id and is bounded. -/
theorem safe_setKTemp (kTempId : KTemp → String) (k : KTemp) (ttl : ℤ) (setBy : Actor)
    (keys : KeyTable) :
    keyDiscipline.Safe n (setKTemp kTempId k ttl setBy)
      (fun item _ => ∀ i, item = some i → i.keyId = kTempId k ∧ KTempItem.Bounded i) keys := by
  unfold setKTemp
  split
  · next httl =>
    refine Discipline.Safe.act fun t _ hi now => ⟨fun kid item hitem => ?_, ?_⟩
    · dsimp only at hitem
      by_cases hkid : kid = kTempId k
      · subst hkid
        rw [Function.update_self, Option.some.injEq] at hitem
        subst hitem
        exact ⟨rfl, httl, rfl⟩
      · rw [Function.update_of_ne hkid] at hitem
        exact hi kid item hitem
    · refine Discipline.Safe.act fun u _ hu _ => ⟨hu, fun i hi => ?_⟩
      cases hi
      exact ⟨rfl, httl, rfl⟩
  · exact fun i hi => by cases hi

/-- A wipe keeps the terms. -/
theorem safe_wipeKTemp (keys : KeyTable) :
    keyDiscipline.Safe n wipeKTemp (fun _ _ => True) keys := by
  have hlast : ∀ t, keyDiscipline.Safe n
      (Proc.modify fun (s : KeyTable) (_ : Stamp) => { s with active := none })
      (fun _ _ => True) t := fun _ _ _ hu _ => ⟨hu, trivial⟩
  refine Discipline.Safe.act fun t _ hi _ => ⟨hi, ?_⟩
  dsimp only
  cases t.active with
  | none => exact hlast t
  | some kid =>
    refine Discipline.Safe.act fun u _ hu _ => ⟨fun kid' item hitem => ?_, hlast _⟩
    dsimp only at hitem
    by_cases hkid : kid' = kid
    · subst hkid
      rw [Function.update_self] at hitem
      cases hitem
    · rw [Function.update_of_ne hkid] at hitem
      exact hu kid' item hitem

/-- The report of a bounded item is bounded. -/
theorem KTempItem.Bounded.report {item : KTempItem} (h : KTempItem.Bounded item) :
    KTempReport.Bounded (item.report item.setAt) := by
  have hpos := ttl_pos h.ttl
  refine ⟨h.ttl, h.expires, ?_⟩
  change (item.setAt : ℤ) ≤ item.expiresAt
  rw [h.expires]
  omega

/-- A status report is on record. -/
theorem safe_keyStatus :
    (worldDiscipline env).SafeOr n (keyStatus : LaunchProc Id _)
      (fun report t => ∀ r, report = some r → r ∈ t.reports) s := by
  refine safe_bind (Q := fun _ _ => True) (safe_ask (fun w i => ?_) fun _ _ _ _ _ => trivial)
    fun ok t _ _ => ?_
  · split <;> rfl
  split
  · refine safe_bind (Discipline.SafeOr.lift (safe_onKeys (safe_kTempStatus t.keys)))
      fun report u _ hreport => ?_
    have hkeep : (worldDiscipline env).SafeOr n
        (Fallible.lift (Proc.modify fun (w : World Id) (_ : WorldInput Id) =>
          { w with reports := report.toList ++ w.reports }) : LaunchProc Id Unit)
        (fun _ v => ∀ r, report = some r → r ∈ v.reports) u := by
      refine Discipline.SafeOr.lift fun v _ hv _ =>
        ⟨guar_reports hv.2 fun r hr => hreport r (Option.mem_toList.mp hr), fun r hr => ?_⟩
      rw [hr]
      exact List.mem_cons_self ..
    exact safe_bind hkeep fun _ v _ hv => Discipline.SafeOr.pure hv
  · exact Discipline.SafeOr.pure fun r hr => by cases hr

/-- A minted key is on record. -/
theorem safe_mintKTemp (bearer : Actor) :
    (worldDiscipline env).SafeOr n (mintKTemp env bearer)
      (fun k t => KeyReported t ("K_temp_" ++ env.kTempId k)) s := by
  refine safe_bind safe_read fun ttl t _ _ => ?_
  refine safe_bind (safe_ask (Q := fun _ _ => True) (fun _ _ => rfl) fun _ _ _ _ _ => trivial)
    fun k u _ _ => ?_
  refine safe_bind safe_checked fun _ v _ _ => ?_
  refine safe_bind (Discipline.SafeOr.lift (safe_onKeys
    (safe_setKTemp env.kTempId k ttl bearer v.keys))) fun item w _ hitem => ?_
  cases item with
  | none => exact Discipline.SafeOr.throw
  | some item =>
    obtain ⟨hid, hbounded⟩ := hitem item rfl
    have hkeep : (worldDiscipline env).SafeOr n
        (Fallible.lift (Proc.modify fun (w : World Id) (_ : WorldInput Id) =>
          { w with reports := item.report item.setAt :: w.reports }) : LaunchProc Id Unit)
        (fun _ x => KeyReported x ("K_temp_" ++ env.kTempId k)) w := by
      have hreport : ∀ r ∈ [item.report item.setAt], KTempReport.Bounded r := by
        intro r hr
        rw [List.mem_singleton.mp hr]
        exact hbounded.report
      refine Discipline.SafeOr.lift fun x _ hx _ => ⟨guar_reports hx.2 hreport, ?_⟩
      exact ⟨item.report item.setAt, List.mem_cons_self .., by rw [← hid]; rfl⟩
    refine safe_bind hkeep fun _ x _ hx => safe_bind safe_checked fun _ y hxy _ => ?_
    refine safe_bind (safe_commit fun _ _ => ⟨rfl, fun _ _ h => h⟩) fun _ z hyz _ => ?_
    exact Discipline.SafeOr.pure (hx.onward (hxy.trans hyz))

/-- **The key a launch uses has been reported**, as present or as just set. -/
theorem safe_ensureKTemp (bearer : Actor) :
    (worldDiscipline env).SafeOr n (ensureKTemp env bearer)
      (fun k t => KeyReported t ("K_temp_" ++ env.kTempId k)) s := by
  refine safe_bind safe_read fun cached t _ _ => ?_
  cases cached with
  | none => exact safe_mintKTemp bearer
  | some k =>
    refine safe_bind safe_keyStatus fun report u _ hreport => ?_
    split
    · next hmine =>
      obtain ⟨r, hr, hid⟩ := (Option.any_eq_true _ _).mp hmine
      exact Discipline.SafeOr.pure ⟨r, hreport r hr, by rw [of_decide_eq_true hid]⟩
    · refine safe_bind (safe_commit fun _ _ => ⟨rfl, fun _ _ h => h⟩) fun _ _ _ _ => ?_
      exact safe_mintKTemp bearer

/-! ## The context of a send -/

/-- What a launch knows of the campaign it sends for. -/
structure CtxOk (w : World Id) (campaignId : ℕ) (ctx : SendCtx) : Prop where
  created : createdAt? w campaignId = some ctx.camp.createdAt
  key : KeyReported w ctx.keyId

/-- A good context stays good. -/
theorem CtxOk.onward {t : World Id} {campaignId : ℕ} {ctx : SendCtx} (h : CtxOk s campaignId ctx)
    (hst : Onward s t) : CtxOk t campaignId ctx :=
  ⟨hst.created _ _ h.created, h.key.onward hst⟩

/-- Resolving the sender keeps the terms. -/
theorem safe_resolveSender (camp : Campaign) :
    (worldDiscipline env).SafeOr n (resolveSender camp : LaunchProc Id Sender)
      (fun _ _ => True) s := by
  refine safe_bind (Q := fun _ _ => True) (safe_ask (fun w i => ?_) fun _ _ _ _ _ => trivial)
    fun sender _ _ _ => safe_bind safe_require fun _ _ _ _ => Discipline.SafeOr.pure trivial
  split
  · split <;> rfl
  · rfl

/-- The preflight keeps the terms. -/
theorem safe_preflight :
    (worldDiscipline env).SafeOr n (preflight : LaunchProc Id (Option String))
      (fun _ _ => True) s :=
  safe_bind safe_checked fun _ _ _ _ => safe_ask (fun _ _ => rfl) fun _ _ _ _ _ => trivial

/-- The refusal of closed campaigns keeps the terms. -/
theorem safe_refuseClosed (campaignId : ℕ) (closed : List CampaignStatus) :
    (worldDiscipline env).SafeOr n (refuseClosed campaignId closed : LaunchProc Id Unit)
      (fun _ _ => True) s :=
  safe_bind safe_read fun _ _ _ _ => safe_require.weaken fun _ _ _ => trivial

/-- Reading the bearer keeps the terms. -/
theorem safe_readBearer (kind : LaunchErrorKind) :
    (worldDiscipline env).SafeOr n (readBearer kind : LaunchProc Id Actor)
      (fun _ _ => True) s := by
  refine safe_bind safe_read fun bearer _ _ _ => ?_
  cases bearer with
  | none => exact Discipline.SafeOr.throw
  | some actor => exact Discipline.SafeOr.pure trivial

/-- A loaded context is good. -/
theorem safe_loadSendCtx (campaignId : ℕ) :
    (worldDiscipline env).SafeOr n (loadSendCtx env campaignId)
      (fun ctx t => CtxOk t campaignId ctx) s := by
  refine safe_bind (safe_readBearer _) fun bearer t _ _ => ?_
  have hrow : (worldDiscipline env).SafeOr n
      (query fun t => (t.campaign? campaignId).map fun camp => (camp, t.template? camp.templateId))
      (fun row u => ∀ camp tmpl, row = some (camp, tmpl) →
        createdAt? u campaignId = some camp.createdAt) t := by
    refine safe_query fun u _ camp tmpl hrow => ?_
    obtain ⟨camp', hcamp, heq⟩ := Option.map_eq_some_iff.mp hrow
    cases heq
    simp [createdAt?, hcamp]
  refine safe_bind hrow fun row u _ hu => ?_
  match row, hu with
  | none, _ => exact Discipline.SafeOr.throw
  | some (camp, none), _ => exact Discipline.SafeOr.throw
  | some (camp, some tmpl), hu =>
    refine safe_bind safe_read fun publicHost v huv _ => ?_
    refine safe_bind (safe_resolveSender camp) fun sender w hvw _ => ?_
    refine safe_bind safe_preflight fun companyName x hwx _ => ?_
    refine safe_bind (safe_ensureKTemp bearer) fun k y hxy hk => Discipline.SafeOr.pure ?_
    have hgrown := ((huv.trans hvw).trans hwx).trans hxy
    exact ⟨hgrown.created _ _ (hu camp (some tmpl) rfl), hk⟩

/-! ## Choosing the sends -/

/-- The ordinal that is found is the first that is free. -/
theorem nextOrdinal_spec {recorded : ℕ → Bool} {left a b : ℕ}
    (h : nextOrdinal recorded left a = some b) : a ≤ b ∧ ∀ c, a ≤ c → c < b → recorded c = true := by
  induction left generalizing a with
  | zero =>
    unfold nextOrdinal at h
    split at h
    · cases h
    · cases h
      exact ⟨Nat.le_refl _, fun c hac hca => by omega⟩
  | succ left ih =>
    unfold nextOrdinal at h
    split at h
    · next hrec =>
      obtain ⟨hab, hall⟩ := ih h
      refine ⟨by omega, fun c hac hcb => ?_⟩
      rcases Nat.eq_or_lt_of_le hac with rfl | hlt
      · exact hrec
      · exact hall c hlt hcb
    · cases h
      exact ⟨Nat.le_refl _, fun c hac hca => by omega⟩

/-- A send that the recorded jobs allow: all earlier ordinals are recorded, and the last of
them may be tried again. -/
structure Allowed (env : Setup Id) (jobs : List (Job Id)) (campaignId : ℕ) (createdAt : String)
    (k : SendId) : Prop where
  campaign : k.campaignId = campaignId
  created : k.createdAt = createdAt
  recorded : ∀ a < k.ordinal, ∃ j ∈ jobs, j.jobId = env.ids.packId { k with ordinal := a }
  retryable : ∀ a, a + 1 = k.ordinal →
    ∃ j ∈ jobs, j.jobId = env.ids.packId { k with ordinal := a } ∧ j.status.retryable = true

/-- A job that is found is recorded under its id. -/
theorem jobOf_some {jobs : List (Job Id)} {id : Id} {j : Job Id} (h : jobOf jobs id = some j) :
    j ∈ jobs ∧ j.jobId = id :=
  ⟨List.mem_of_find?_eq_some h, by simpa using List.find?_some h⟩

/-- A planned send has a free ordinal. -/
theorem planSend_sends {campaignId : ℕ} {createdAt : String} {sendKey : SendKey}
    {blocked : String → Option SuppressionReason} {jobs : List (Job Id)} {plan plan' : SendPlan}
    {r : Candidate} (h : planSend env campaignId createdAt sendKey blocked jobs plan r = .ok plan') :
    ∀ x ∈ plan'.sends, x ∈ plan.sends ∨ Allowed env jobs campaignId createdAt x.2 := by
  unfold planSend at h
  split at h
  · cases h
    exact fun x hx => .inl hx
  · dsimp only at h
    split at h
    · cases h
    · next a hnext =>
      have hall := (nextOrdinal_spec hnext).2
      split at h
      · cases h
        exact fun x hx => .inl hx
      · next hgo =>
        cases h
        intro x hx
        rcases List.mem_append.mp hx with hold | hnew
        · exact .inl hold
        · rw [List.mem_singleton.mp hnew]
          refine .inr ⟨rfl, rfl, fun b hb => ?_, fun b hb => ?_⟩
          · obtain ⟨j, hj⟩ := Option.isSome_iff_exists.mp (hall b (Nat.zero_le _) hb)
            exact ⟨j, (jobOf_some hj).1, (jobOf_some hj).2⟩
          · -- the ordinal before is a recorded job that may be tried again
            dsimp only at hb
            have hprev : a - 1 = b := by omega
            have hany : (jobOf jobs (env.ids.packId
                ⟨campaignId, createdAt, sendKey, r.contactId, b⟩)).any (·.status.retryable) =
                true := by
              by_contra hno
              refine hgo ⟨by omega, fun hq => hno ?_⟩
              rw [← hprev]
              exact hq.2
            obtain ⟨j, hj, hretry⟩ := (Option.any_eq_true _ _).mp hany
            exact ⟨j, (jobOf_some hj).1, (jobOf_some hj).2, hretry⟩

/-- All planned sends have free ordinals. -/
theorem planSend_all {campaignId : ℕ} {createdAt : String} {sendKey : SendKey}
    {blocked : String → Option SuppressionReason} {jobs : List (Job Id)}
    (candidates : List Candidate) {plan plan' : SendPlan}
    (h : candidates.foldlM (planSend env campaignId createdAt sendKey blocked jobs) plan =
      .ok plan') :
    ∀ x ∈ plan'.sends, x ∈ plan.sends ∨ Allowed env jobs campaignId createdAt x.2 := by
  induction candidates generalizing plan with
  | nil =>
    cases h
    exact fun x hx => .inl hx
  | cons r candidates ih =>
    rw [List.foldlM_cons] at h
    cases hr : planSend env campaignId createdAt sendKey blocked jobs plan r with
    | error e =>
      rw [hr] at h
      cases h
    | ok plan₁ =>
      rw [hr] at h
      intro x hx
      rcases ih h x hx with hold | hnew
      · exact planSend_sends hr x hold
      · exact .inr hnew

omit [LinearOrder Id] in
/-- **What the recorded jobs allow may be chosen**: the job of the last ordinal can be tried
again only if its pack is gone, and that pack was chosen only when all before it were. -/
theorem Allowed.chosenOk {w : World Id} {campaignId : ℕ} {createdAt : String} {k : SendId}
    (h : Allowed env (w.terminal.jobs.filter (·.campaignId = campaignId)) campaignId createdAt k)
    (hw : Ledger env w) (hcreated : createdAt? w campaignId = some createdAt) :
    ChosenOk env w k := by
  have hjob : ∀ j ∈ w.terminal.jobs.filter (·.campaignId = campaignId), JobOk w.cloud j :=
    fun j hj => hw.jobs j (List.mem_of_mem_filter hj)
  refine ⟨by rw [h.campaign, h.created]; exact hcreated, fun a ha => ?_⟩
  obtain ⟨last, hlast⟩ : ∃ last, last + 1 = k.ordinal := ⟨k.ordinal - 1, by omega⟩
  obtain ⟨j, hj, hid, hretry⟩ := h.retryable last hlast
  rcases Nat.lt_or_ge a last with hlt | hge
  · have hstored : Stored w.cloud (env.ids.packId { k with ordinal := last }) :=
      hid ▸ (hjob j hj).stored
    have hchosen := hw.stored _ hstored _ rfl
    exact (hw.chosen _ hchosen).before a hlt
  · have heq : a = last := by omega
    subst heq
    exact hid ▸ (hjob j hj).retryable hretry

/-- A plan is of chosen ids. -/
theorem safe_planSends (campaignId : ℕ) (createdAt : String) (kind : SendKind) (sendKey : SendKey)
    (candidates : List Candidate) (hcreated : createdAt? s campaignId = some createdAt) :
    (worldDiscipline env).SafeOr n (planSends env campaignId createdAt kind sendKey candidates)
      (fun plan t => ∀ x ∈ plan.sends, x.2 ∈ t.chosen) s := by
  refine safe_bind safe_read fun blocked t hst _ => ?_
  refine Discipline.SafeOr.act fun u hr hi i => ?_
  dsimp only
  split
  · exact ⟨guar_refl hi.2, fun plan hplan => by cases hplan⟩
  · split
    · exact ⟨guar_refl hi.2, fun plan hplan => by cases hplan⟩
    · next plan hfold =>
      have hcreated' := (hst.trans hr.2).created _ _ hcreated
      refine ⟨guar_chosen hi.2 fun k hk => ?_, fun plan' hplan => ?_⟩
      · obtain ⟨x, hx, rfl⟩ := List.mem_map.mp hk
        rcases planSend_all candidates hfold x hx with hnone | hallowed
        · cases hnone
        · exact hallowed.chosenOk hi.2 hcreated'
      · cases hplan
        exact fun x hx => List.mem_append_left _ (List.mem_map_of_mem hx)

/-! ## Building the packs -/

omit [LinearOrder Id] in
/-- A built pack is of one of the targets. -/
theorem mem_buildPacks {ctx : SendCtx} {targets : List Target} {draw : ℕ → ℕ}
    {b : PackIn Id × JobIn Id} (h : b ∈ buildPacks env ctx targets draw) :
    ∃ target ∈ targets, ∃ k, b = buildPack env ctx target.row target.sendAt target.send.isNone
      (target.send.map env.ids.packId) (draw k) := by
  unfold buildPacks at h
  obtain ⟨k, hk, rfl⟩ := List.mem_mapIdx.mp h
  exact ⟨targets[k], List.getElem_mem hk, k, rfl⟩

omit [LinearOrder Id] in
/-- Packs and jobs have the same ids. -/
theorem buildPacks_ids (ctx : SendCtx) (targets : List Target) (draw : ℕ → ℕ) :
    ((buildPacks env ctx targets draw).map (·.2)).map (·.packId) =
      ((buildPacks env ctx targets draw).map (·.1)).map (·.packId) := by
  rw [List.map_map, List.map_map]
  refine List.map_congr_left fun b hb => ?_
  obtain ⟨target, -, k, rfl⟩ := mem_buildPacks hb
  rfl

omit [LinearOrder Id] in
/-- The packs of chosen sends, and of seeds, may be pushed. -/
theorem buildPacks_ok {ctx : SendCtx} {targets : List Target} {draw : ℕ → ℕ}
    (hkey : KeyReported s ctx.keyId)
    (htargets : ∀ target ∈ targets, ∀ k, target.send = some k → k ∈ s.chosen) :
    ∀ p ∈ (buildPacks env ctx targets draw).map (·.1), RequestOk env s p := by
  intro p hp
  obtain ⟨b, hb, rfl⟩ := List.mem_map.mp hp
  obtain ⟨target, htarget, m, rfl⟩ := mem_buildPacks hb
  refine ⟨fun k hk => ?_, hkey⟩
  cases hsend : target.send with
  | none =>
    -- a seed has a random id
    simp only [buildPack, hsend, Option.map_none, Option.getD_none] at hk
    exact absurd hk.symm (env.ids.packId_ne_uuid4 _ _)
  | some k' =>
    simp only [buildPack, hsend, Option.map_some, Option.getD_some] at hk
    rw [← env.ids.packId_injective hk]
    exact htargets target htarget k' hsend

end Mailman.Analysis
