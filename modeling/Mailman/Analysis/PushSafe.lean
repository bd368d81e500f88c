import Mailman.Analysis.SendLedger
import Mailman.Interface.OutcomeView

/-!
# Pushing and recording keep the ledger

The rules for one session, one question and one held outcome, and from them the two sides
of a push: the cloud serves a request and answers, the terminal records what was answered
and applies what the cloud held. A chunk that is refused, stored in part or acknowledged
into nothing is a program that stops there, so nothing is recorded that is not stored.
-/

set_option autoImplicit false

namespace Mailman.Analysis

open Mailman.Library Mailman.Model Mailman.Interface

variable {Id : Type} [LinearOrder Id] {env : Setup Id} {n : ℕ} {α β : Type} {s : World Id}

/-! ## Rules -/

/-- Sequencing under the terms of the world. -/
theorem safe_bind {p : LaunchProc Id α} {k : α → LaunchProc Id β} {Q : α → World Id → Prop}
    {R : β → World Id → Prop} (h : (worldDiscipline env).SafeOr n p Q s)
    (hk : ∀ a t, Onward s t → Q a t → (worldDiscipline env).SafeOr n (k a) R t) :
    (worldDiscipline env).SafeOr n (p >>= k) R s :=
  Discipline.SafeOr.bind (worldDiscipline_grows env) h hk

/-- A step that only asks. -/
theorem safe_ask {f : World Id → WorldInput Id → World Id × Except LaunchError α}
    {Q : α → World Id → Prop} (hf : ∀ w i, (f w i).1 = w)
    (h : ∀ t i a, Onward s t → (f t i).2 = .ok a → Q a t) :
    (worldDiscipline env).SafeOr n (Fallible.act f) Q s := by
  refine Discipline.SafeOr.act fun t hr hi i => ?_
  rw [hf]
  exact ⟨guar_refl hi.2, fun a ha => h t i a hr.2 ha⟩

/-- A check of the connection keeps the terms. -/
theorem safe_checked : (worldDiscipline env).SafeOr n checked (fun _ _ => True) s := by
  refine safe_ask (fun w i => ?_) fun _ _ _ _ _ => trivial
  split <;> rfl

/-- A session leaves the jobs alone and no campaign changes its `created_at`. -/
structure KeepsSends (t t' : Terminal Id) : Prop where
  jobs : t'.jobs = t.jobs
  created : ∀ c x, (t.campaign? c).map (·.createdAt) = some x →
    (t'.campaign? c).map (·.createdAt) = some x

/-- A session that keeps the sends keeps the terms. -/
theorem safe_session {f : Terminal Id → WorldInput Id → Terminal Id × α}
    {Q : α → World Id → Prop} (hf : ∀ t i, KeepsSends t (f t i).1)
    (h : ∀ t i, Onward s t → Q (f t.terminal i).2 { t with terminal := (f t.terminal i).1 }) :
    (worldDiscipline env).SafeOr n (session f) Q s := by
  refine Discipline.SafeOr.act fun t hr hi i => ?_
  split
  · exact ⟨guar_refl hi.2, fun a ha => by cases ha⟩
  · have hkeep := hf t.terminal i
    refine ⟨guar_terminal hi.2 rfl (fun j hj => ?_) hkeep.created, fun a ha => ?_⟩
    · rw [hkeep.jobs] at hj
      exact .inl hj
    · rw [Except.ok.injEq] at ha
      exact ha ▸ h t i hr.2

/-- A query keeps the terms. -/
theorem safe_query {f : Terminal Id → α} {Q : α → World Id → Prop}
    (h : ∀ t, Onward s t → Q (f t.terminal) t) :
    (worldDiscipline env).SafeOr n (query f) Q s :=
  safe_session (fun _ _ => ⟨rfl, fun _ _ hx => hx⟩) fun t _ hst => h t hst

/-- A read keeps the terms. -/
theorem safe_read {f : Terminal Id → α} :
    (worldDiscipline env).SafeOr n (query f) (fun _ _ => True) s :=
  safe_query fun _ _ => trivial

/-- A commit that keeps the sends keeps the terms. -/
theorem safe_commit {f : Terminal Id → WorldInput Id → Terminal Id}
    (hf : ∀ t i, KeepsSends t (f t i)) :
    (worldDiscipline env).SafeOr n (commit f) (fun _ _ => True) s :=
  safe_session hf fun _ _ _ => trivial

/-- Past a requirement its condition holds. -/
theorem safe_require {c : Prop} [Decidable c] {e : LaunchError} :
    (worldDiscipline env).SafeOr n (Fallible.require c e : LaunchProc Id Unit) (fun _ _ => c) s :=
  Discipline.SafeOr.require

/-! ## The cloud's side -/

/-- Any program of the pack table that keeps the terms of the table. -/
theorem safe_onCloud {p : CloudProc Id α} {Q : α → Cloud Id → Prop}
    (h : (cloudDiscipline (Planned env s)).Safe n p Q s.cloud) :
    (worldDiscipline env).Safe n (onCloud p) (fun a t => Q a t.cloud) s := by
  refine Discipline.Safe.zoom (worldDiscipline_grows env) (fun _ _ _ => rfl) (fun _ _ h => h.1)
    (fun _ h => h.1) (fun t i c hst hi hc => ?_) (Onward.refl s) h
  refine guar_cloud hi.2 fun id => ⟨?_, (hc id).2⟩
  exact (hc id).1.mono fun hplan => hplan.onward hst

/-- The outcome of a version is true of the table. -/
theorem outcome_truthful {c : Cloud Id} (hc : CloudInv c) {id : Id} {v : Pack Id}
    (hv : v ∈ c.packs id) : Truthful c v.outcome := by
  intro hd
  have hid : v.packId = id := hc.keyed id v hv
  change c.status v.packId = some v.status
  rw [hid]
  exact hc.dead id v hv hd

/-- The loop of a push answers for the packs it has gone through. -/
theorem safe_packsPushLoop {allowed : Id → Prop} (now : Stamp) (actor : Actor)
    (done packs : List (PackIn Id)) (ack : PushAck Id) {c : Cloud Id}
    (hallowed : ∀ p ∈ packs, allowed p.packId) (hc : Answered c done ack) :
    (cloudDiscipline allowed).Safe n (packsPushLoop now actor packs ack)
      (fun ack' c' => Answered c' (done ++ packs) ack') c := by
  induction packs generalizing c done ack with
  | nil =>
    rw [List.append_nil]
    exact hc
  | cons p packs ih =>
    rw [List.append_cons]
    refine safe_putPack (hallowed p (List.mem_cons_self ..)) fun d inserted hlater hstored => ?_
    have hd : Answered d (done ++ [p]) ack := by
      refine ⟨fun q hq => ?_, (hc.later hlater).held⟩
      rcases List.mem_append.mp hq with hold | hnew
      · exact (hc.later hlater).stored q hold
      · rw [List.mem_singleton.mp hnew]
        simpa [Stored, Cloud.status] using hstored
    have hrest : ∀ q ∈ packs, allowed q.packId :=
      fun q hq => hallowed q (List.mem_cons_of_mem _ hq)
    split
    · refine ih (done ++ [p]) _ hrest ⟨hd.stored, ?_⟩
      split <;> exact hd.held
    · refine Discipline.Safe.act fun e hr hi i => ⟨CloudStep.refl allowed n e, ?_⟩
      refine ih (done ++ [p]) _ hrest ⟨(hd.later hr.2).stored, fun o ho => ?_⟩
      rcases List.mem_append.mp ho with hold | hnew
      · exact (hd.later hr.2).held o hold
      · -- an item listed under `held` is some version the table holds
        simp only [Option.mem_toList, Option.map_eq_some_iff] at hnew
        obtain ⟨v, hv, rfl⟩ := hnew
        exact outcome_truthful hi (List.mem_of_getElem? hv)

/-- A push answers for its packs. -/
theorem safe_packsPush {allowed : Id → Prop} (actor : Actor) (packs : List (PackIn Id))
    {c : Cloud Id} (hallowed : ∀ p ∈ packs, allowed p.packId) :
    (cloudDiscipline allowed).Safe n (packsPush actor packs)
      (fun ack c' => Answered c' packs ack) c := by
  refine safe_get fun d now _ => ?_
  exact safe_packsPushLoop now actor [] packs _ hallowed ⟨by simp, by simp⟩

/-- Serving a push keeps the terms. -/
theorem safe_servePush (request : ℕ) :
    (worldDiscipline env).Safe n (servePush request) (fun _ _ => True) s := by
  refine Discipline.Safe.act fun t hr hi i => ⟨guar_refl hi.2, ?_⟩
  dsimp only
  cases hreq : t.requests[request]? with
  | none => trivial
  | some r =>
    obtain ⟨actor, packs⟩ := r
    have hplan : ∀ p ∈ packs, Planned env t p.packId :=
      fun p hp => (hi.2.requests _ (List.mem_of_getElem? hreq) p hp).planned
    have hpush := safe_onCloud (safe_packsPush (n := n) (c := t.cloud) actor packs hplan)
    refine Discipline.Safe.bind ?_
    refine (hpush.remember (worldDiscipline_grows env) (.refl t)).weaken ?_
    rintro ack u ⟨htu, hack⟩
    refine fun v hv hiv j => ⟨guar_reply hiv.2 (getElem?_requests hreq (htu.trans hv.2)) ?_, trivial⟩
    exact hack.later hv.2.lives

/-! ## The terminal's side -/

/-- A request of `/packs` is answered for its part. -/
theorem safe_postPacks (actor : Actor) (part : List (PackIn Id))
    (hpart : ∀ p ∈ part, RequestOk env s p) :
    (worldDiscipline env).SafeOr n (postPacks actor part)
      (fun ack t => Answered t.cloud part ack) s := by
  have hleave : (worldDiscipline env).SafeOr n
      (Fallible.act fun w (_ : WorldInput Id) =>
        ({ w with requests := w.requests ++ [(actor, part)] },
          (.ok w.requests.length : Except LaunchError ℕ)))
      (fun request t => t.requests[request]? = some (actor, part)) s := by
    refine Discipline.SafeOr.act fun t hr hi i => ?_
    refine ⟨guar_request hi.2 fun p hp => (hpart p hp).onward hr.2, fun request hreq => ?_⟩
    rw [Except.ok.injEq] at hreq
    simp [← hreq]
  refine safe_bind hleave fun request t _ hreq => ?_
  refine Discipline.SafeOr.act fun u hr hi i => ⟨guar_refl hi.2, fun ack hack => ?_⟩
  -- an acknowledgement is a reply of the cloud to this very request
  have hreply : u.replies request = some ack := by
    dsimp only at hack
    split at hack
    · cases hack
    · next heq =>
      rw [Except.ok.injEq] at hack
      rw [← hack]
      assumption
    · cases hack
  obtain ⟨r, hr', ha⟩ := hi.2.replies request ack hreply
  rw [getElem?_requests hreq hr.2] at hr'
  cases hr'
  exact ha

/-- What `_push_packs` promises of the packs it was given. -/
def PushedOk (packs : List (PackIn Id)) (c : Cloud Id) : Pushed Id → Prop
  | .done ack => Answered c packs ack
  | .interrupted _ pushed held => Answered c (packs.take pushed) { held := held }

omit [LinearOrder Id] in
/-- Two answers answer for both lists of packs. -/
theorem Answered.add {c : Cloud Id} {packs packs' : List (PackIn Id)} {agg ack : PushAck Id}
    (h : Answered c packs agg) (h' : Answered c packs' ack) :
    Answered c (packs ++ packs') (agg.add ack) := by
  constructor
  · intro p hp
    exact (List.mem_append.mp hp).elim (h.stored p) (h'.stored p)
  · intro o ho
    exact (List.mem_append.mp ho).elim (h.held o) (h'.held o)

/-- A push in parts is answered for all of them. -/
theorem safe_pushParts (actor : Actor) (parts : List (List (PackIn Id))) (done : List (PackIn Id))
    (agg : PushAck Id) (hparts : ∀ p ∈ parts.flatten, RequestOk env s p)
    (hdone : Answered s.cloud done agg) :
    (worldDiscipline env).SafeOr n (pushParts actor parts done.length agg)
      (fun pushed t => PushedOk (done ++ parts.flatten) t.cloud pushed) s := by
  induction parts generalizing s done agg with
  | nil =>
    refine Discipline.SafeOr.pure ?_
    rw [List.flatten_nil, List.append_nil]
    exact hdone
  | cons part parts ih =>
    rw [List.flatten_cons] at hparts
    have hpart : ∀ p ∈ part, RequestOk env s p :=
      fun p hp => hparts p (List.mem_append_left _ hp)
    refine safe_bind (safe_postPacks actor part hpart).attempt fun reply t hst hreply => ?_
    have hd : Answered t.cloud done agg := hdone.later hst.lives
    cases reply with
    | ok ack =>
      have hnext := ih (s := t) (done ++ part) (agg.add ack)
        (fun p hp => (hparts p (List.mem_append_right _ hp)).onward hst)
        (hd.add (hreply ack rfl))
      rwa [List.length_append, List.append_assoc, ← List.flatten_cons] at hnext
    | error e =>
      dsimp only
      split
      · refine Discipline.SafeOr.pure ?_
        simp only [PushedOk, List.take_left]
        exact ⟨hd.stored, hd.held⟩
      · exact Discipline.SafeOr.throw

/-- The slices make up the list. -/
theorem flatten_sliceBy {γ : Type} {size : ℕ} (hsize : 0 < size) (fuel : ℕ) (xs : List γ)
    (h : xs.length ≤ fuel) : (sliceBy size fuel xs).flatten = xs := by
  induction fuel generalizing xs with
  | zero => simp [sliceBy, List.eq_nil_of_length_eq_zero (Nat.le_zero.mp h)]
  | succ fuel ih =>
    cases xs with
    | nil => simp [sliceBy]
    | cons x xs =>
      have hlen : ((x :: xs).drop size).length ≤ fuel := by
        rw [List.length_drop]
        omega
      simp only [sliceBy, List.flatten_cons, ih _ hlen, List.take_append_drop]

/-- A push is answered, or fails after a part. -/
theorem safe_pushPacks (actor : Actor) (packs : List (PackIn Id))
    (hpacks : ∀ p ∈ packs, RequestOk env s p) :
    (worldDiscipline env).SafeOr n (pushPacks env actor packs)
      (fun pushed t => PushedOk packs t.cloud pushed) s := by
  have hflat := flatten_sliceBy env.packPushChunk_pos packs.length packs (Nat.le_refl _)
  have h := safe_pushParts (n := n) actor (sliceBy env.packPushChunk packs.length packs) [] {}
    (by rwa [hflat]) (⟨by simp, by simp⟩ : Answered s.cloud [] {})
  rwa [hflat] at h

/-- Recording jobs adds dispatched jobs of the given packs and changes no campaign. -/
theorem recordJobs_jobs {campaignId : ℕ} {nowText : String} (jobs : List (JobIn Id))
    {t t' : Terminal Id} (h : jobs.foldlM (Terminal.recordJob campaignId nowText) t = some t') :
    t'.campaigns = t.campaigns ∧ ∀ j ∈ t'.jobs, j ∈ t.jobs ∨
      j.status = .dispatched ∧ ∃ job ∈ jobs, j.jobId = job.packId := by
  induction jobs generalizing t with
  | nil =>
    cases h
    exact ⟨rfl, fun j hj => .inl hj⟩
  | cons job jobs ih =>
    simp only [List.foldlM_cons, Option.bind_eq_bind, Option.bind_eq_some_iff] at h
    obtain ⟨t₁, h₁, h⟩ := h
    obtain ⟨hcamp, hjobs⟩ := ih h
    have hfirst : t₁.campaigns = t.campaigns ∧ ∀ j ∈ t₁.jobs, j ∈ t.jobs ∨
        j.status = .dispatched ∧ j.jobId = job.packId := by
      unfold Terminal.recordJob at h₁
      split at h₁
      · cases h₁
        exact ⟨rfl, fun j hj => .inl hj⟩
      · split at h₁
        · cases h₁
          exact ⟨rfl, fun j hj => .inl hj⟩
        · split at h₁
          · cases h₁
          · cases h₁
            refine ⟨rfl, fun j hj => ?_⟩
            rcases List.mem_append.mp hj with hold | hnew
            · exact .inl hold
            · rw [List.mem_singleton.mp hnew]
              exact .inr ⟨rfl, rfl⟩
    refine ⟨hcamp.trans hfirst.1, fun j hj => ?_⟩
    rcases hjobs j hj with hold | ⟨hst, job', hmem, hid⟩
    · rcases hfirst.2 j hold with hold' | ⟨hst, hid⟩
      · exact .inl hold'
      · exact .inr ⟨hst, job, List.mem_cons_self .., hid⟩
    · exact .inr ⟨hst, job', List.mem_cons_of_mem _ hmem, hid⟩

/-- Recording stored packs keeps the terms. -/
theorem safe_recordDispatch (campaignId : ℕ) (jobs : List (JobIn Id)) (held : List (PackOutcome Id))
    (hjobs : ∀ j ∈ jobs, Stored s.cloud j.packId) :
    (worldDiscipline env).SafeOr n (recordDispatch campaignId jobs held) (fun _ _ => True) s := by
  refine Discipline.SafeOr.act fun t hr hi i => ⟨?_, fun _ _ => trivial⟩
  split
  · exact guar_refl hi.2
  · split
    · exact guar_refl hi.2
    · next t' heq =>
      obtain ⟨hcamp, hnew⟩ := recordJobs_jobs jobs heq
      refine guar_terminal hi.2 rfl (fun j hj => ?_) fun c x hx => ?_
      · rcases hnew j hj with hold | ⟨hst, job, hmem, hid⟩
        · exact .inl hold
        · refine .inr ⟨?_, fun hretry => by rw [hst] at hretry; cases hretry⟩
          rw [hid]
          exact (hjobs job hmem).later hr.2.lives
      · unfold createdAt? Terminal.campaign? at hx ⊢
        rw [hcamp]
        exact hx

/-- A resolved outcome makes a job retryable only if the outcome is dead. -/
theorem applyPackOutcome_jobs {nowText : String} {db : Db Id} {p : PackOutcome Id}
    (hp : p.status.resolved = true) {j : Job Id} (hj : j ∈ (applyPackOutcome nowText db p).jobs) :
    ∃ j' ∈ db.jobs, j.jobId = j'.jobId ∧
      (j = j' ∨ (j.status.retryable = true → j.jobId = p.packId ∧ Dead p.status)) := by
  have hsame : j ∈ db.jobs → ∃ j' ∈ db.jobs, j.jobId = j'.jobId ∧
      (j = j' ∨ (j.status.retryable = true → j.jobId = p.packId ∧ Dead p.status)) :=
    fun hj => ⟨j, hj, rfl, .inl rfl⟩
  unfold applyPackOutcome at hj
  dsimp only at hj
  split at hj
  · apply hsame
    unfold applyUnknownOutcome at hj
    split at hj <;> exact hj
  · next hunknown =>
    split at hj
    · exact hsame hj
    · obtain ⟨j', hj', rfl⟩ := mem_updateRows.mp hj
      by_cases hid : j'.jobId = p.packId
      · by_cases hsent : p.status = .sent
        · refine ⟨j', hj', by simp [hid, hsent], .inr fun hretry => ?_⟩
          simp [hid, hsent, JobStatus.retryable] at hretry
        · have hdead : Dead p.status := by
            unfold Dead
            cases hst : p.status <;> simp_all [PackStatus.resolved, resolvedPackStatuses]
          exact ⟨j', hj', by simp [hid, hsent], .inr fun _ => ⟨by simp [hid, hsent], hdead⟩⟩
      · exact ⟨j', hj', by simp [hid], .inl (by simp [hid])⟩

/-- A true outcome is applied within the terms. -/
theorem safe_applyOutcome (p : PackOutcome Id) (hp : p.status.resolved = true)
    (htrue : Truthful s.cloud p) :
    (worldDiscipline env).SafeOr n (applyOutcome p) (fun _ _ => True) s := by
  refine Discipline.SafeOr.act fun t hr hi i => ⟨?_, fun _ _ => trivial⟩
  dsimp only
  split
  · exact guar_refl hi.2
  · refine guar_terminal hi.2 rfl (fun j hj => ?_) fun _ _ hx => hx
    obtain ⟨j', hj', hid, hcase⟩ := applyPackOutcome_jobs hp hj
    rcases hcase with rfl | hretry
    · exact .inl hj'
    · refine .inr ⟨hid ▸ (hi.2.jobs j' hj').stored, fun h => ?_⟩
      obtain ⟨hpack, hdead⟩ := hretry h
      rw [hpack]
      exact ⟨p.status, hdead, htrue.later hr.2.lives hdead⟩

/-- True held outcomes are applied within the terms. -/
theorem safe_applyHeldOutcomes (held : List (PackOutcome Id))
    (htrue : ∀ o ∈ held, Truthful s.cloud o) :
    (worldDiscipline env).SafeOr n (applyHeldOutcomes held) (fun _ _ => True) s := by
  induction held generalizing s with
  | nil => exact Discipline.SafeOr.pure trivial
  | cons o held ih =>
    unfold applyHeldOutcomes
    have hrest : ∀ t, Onward s t → ∀ o' ∈ held, Truthful t.cloud o' :=
      fun t hst o' ho' => (htrue o' (List.mem_cons_of_mem _ ho')).later hst.lives
    split
    · next hres =>
      have ho : (worldDiscipline env).SafeOr n (applyOutcome o) (fun _ _ => True) s :=
        safe_applyOutcome o hres (htrue o (List.mem_cons_self ..))
      exact safe_bind ho.attempt fun _ t hst _ => ih (hrest t hst)
    · exact ih (hrest s (.refl s))

/-- Recording and applying keep the terms. -/
theorem safe_recordAndApply (campaignId : ℕ) (jobs : List (JobIn Id))
    (held : List (PackOutcome Id)) (hjobs : ∀ j ∈ jobs, Stored s.cloud j.packId)
    (htrue : ∀ o ∈ held, Truthful s.cloud o) :
    (worldDiscipline env).SafeOr n (recordAndApply id campaignId jobs held)
      (fun _ _ => True) s :=
  safe_bind (safe_recordDispatch campaignId jobs held hjobs) fun _ _ hst _ =>
    safe_applyHeldOutcomes held fun o ho => (htrue o ho).later hst.lives

/-- Counting a running push keeps the terms. -/
theorem safe_countPush (campaignId : ℕ) (f : ℕ → ℕ) :
    (worldDiscipline env).SafeOr n (countPush campaignId f : LaunchProc Id Unit)
      (fun _ _ => True) s :=
  Discipline.SafeOr.lift fun _ _ hi _ =>
    ⟨guar_terminal hi.2 rfl (fun _ h => .inl h) fun _ _ h => h, trivial⟩

omit [LinearOrder Id] in
/-- The packs of the first `k` jobs are the first `k` packs. -/
theorem mem_take_packs {packs : List (PackIn Id)} {jobs : List (JobIn Id)}
    (hids : jobs.map (·.packId) = packs.map (·.packId)) (k : ℕ) {j : JobIn Id}
    (hj : j ∈ jobs.take k) : ∃ p ∈ packs.take k, p.packId = j.packId := by
  have hmem : j.packId ∈ (packs.take k).map (·.packId) := by
    rw [List.map_take, ← hids, ← List.map_take]
    exact List.mem_map_of_mem hj
  exact List.mem_map.mp hmem

/-- **A push keeps the ledger**, however it ends: only packs the cloud acknowledged are
recorded, and only what the cloud held is applied. -/
theorem safe_pushAndRecord (actor : Actor) (campaignId : ℕ) (packs : List (PackIn Id))
    (jobs : List (JobIn Id)) (hpacks : ∀ p ∈ packs, RequestOk env s p)
    (hids : jobs.map (·.packId) = packs.map (·.packId)) :
    (worldDiscipline env).SafeOr n (pushAndRecord env id actor campaignId packs jobs)
      (fun _ _ => True) s := by
  have hrecord : ∀ t k held, Answered t.cloud (packs.take k) { held := held } →
      (worldDiscipline env).SafeOr n (recordAndApply id campaignId (jobs.take k) held)
        (fun _ _ => True) t := by
    intro t k held ha
    refine safe_recordAndApply campaignId _ held (fun j hj => ?_) ha.held
    obtain ⟨p, hp, hid⟩ := mem_take_packs hids k hj
    exact hid ▸ ha.stored p hp
  have hlen : jobs.length = packs.length := by simpa using congrArg List.length hids
  refine safe_bind (safe_countPush campaignId _) fun _ t hst _ => ?_
  have hpush := safe_pushPacks (n := n) (s := t) actor packs fun p hp => (hpacks p hp).onward hst
  refine safe_bind (Q := fun _ _ => True) ?_ fun result u _ _ => ?_
  · refine (Discipline.SafeOr.attempt (Q := fun _ _ => True) ?_).weaken fun _ _ _ => trivial
    refine safe_bind hpush fun pushed u _ hu => ?_
    cases pushed with
    | interrupted error k held =>
      exact safe_bind (hrecord u k held hu).attempt fun _ _ _ _ => Discipline.SafeOr.throw
    | done ack =>
      have hall := hrecord u packs.length ack.held (by
        rw [List.take_length]
        exact ⟨hu.stored, hu.held⟩)
      rw [← hlen, List.take_length] at hall
      exact safe_bind hall fun _ _ _ _ => Discipline.SafeOr.pure trivial
  · refine safe_bind (safe_countPush campaignId _) fun _ _ _ _ => ?_
    cases result with
    | ok ack => exact Discipline.SafeOr.pure trivial
    | error e => exact Discipline.SafeOr.throw

end Mailman.Analysis
