import Mailman.Interface.PackLife

/-!
# Every request of the code is a step of a pack's life

The terms on which dispatchers, cancels, the stale claim sweep and pushes share the pack
table (`cloudDiscipline`), and the proof that each of their requests keeps them. After
`process` has won the claim it knows `Held`: the claim is its own and the pack is where it
left it, up to the sweep. That is stable while it waits, and every later request of
`processClaimed` is justified from it.
-/

set_option autoImplicit false

namespace Mailman.Analysis

open Mailman.Library Mailman.Model Mailman.Interface

variable {Id : Type} [DecidableEq Id]

/-- The life of one pack of the table. -/
def life (s : Cloud Id) (id : Id) : Life where
  status := s.status id
  owner := s.owner id
  posts := s.posts.count id
  answers := (s.answers.filter (·.1 = id)).map (·.2)
  landed := s.landed.count id

/-- What the pack table always satisfies: every history is well formed, versions are filed
under their own id, and a version with a dead status is still the pack's status. -/
structure CloudInv (s : Cloud Id) : Prop where
  ok : ∀ id, (life s id).Ok
  keyed : ∀ id, ∀ v ∈ s.packs id, v.packId = id
  dead : ∀ id, ∀ v ∈ s.packs id, Dead v.status → s.status id = some v.status

/-- One request under number `n`: a step in the life of every pack, which adds at most one
version to each and stores no pack that is not `allowed`. -/
def CloudStep (allowed : Id → Prop) (n : ℕ) (s t : Cloud Id) : Prop :=
  ∀ id, LifeStep n (allowed id) (life s id) (life t id) ∧
    (t.packs id = s.packs id ∨ ∃ v, v.packId = id ∧ t.packs id = v :: s.packs id)

/-- A later moment in the life of every pack. -/
def CloudLater (s t : Cloud Id) : Prop :=
  ∀ id, LifeLater (life s id) (life t id)

/-- What a program waiting under number `n` may rely on. -/
def CloudRely (n : ℕ) (s t : Cloud Id) : Prop :=
  (∀ id, LifeRely n (life s id) (life t id)) ∧ CloudLater s t

/-- A table follows itself. -/
theorem CloudLater.refl (s : Cloud Id) : CloudLater s s := fun _ => .refl _

/-- Later in the table is transitive. -/
theorem CloudLater.trans {s t u : Cloud Id} (h : CloudLater s t) (h' : CloudLater t u) :
    CloudLater s u := fun id => (h id).trans (h' id)

/-- A step leaves the table later. -/
theorem CloudStep.later {allowed : Id → Prop} {n : ℕ} {s t : Cloud Id}
    (h : CloudStep allowed n s t) : CloudLater s t := fun id => (h id).1.later

/-- No change is a step. -/
theorem CloudStep.refl (allowed : Id → Prop) (n : ℕ) (s : Cloud Id) : CloudStep allowed n s s :=
  fun _ => ⟨.stay _, .inl rfl⟩

/-- A step in the life of every pack keeps the table well formed. -/
theorem CloudStep.inv {allowed : Id → Prop} {n : ℕ} {s t : Cloud Id}
    (h : CloudStep allowed n s t) (hs : CloudInv s) : CloudInv t where
  ok id := (h id).1.ok (hs.ok id)
  keyed id v hv := by
    rcases (h id).2 with heq | ⟨w, hw, heq⟩
    · exact hs.keyed id v (heq ▸ hv)
    · rw [heq] at hv
      rcases List.mem_cons.mp hv with rfl | hv
      · exact hw
      · exact hs.keyed id v hv
  dead id v hv hd := by
    have hold : v ∈ s.packs id → t.status id = some v.status := by
      intro hv
      have hst : (life s id).status = some v.status := hs.dead id v hv hd
      have hlife := (h id).1.later.dead v.status hd hst
      have := congrArg Life.status hlife
      exact this.trans hst
    rcases (h id).2 with heq | ⟨w, hw, heq⟩
    · exact hold (heq ▸ hv)
    · rw [heq] at hv
      rcases List.mem_cons.mp hv with rfl | hv
      · simp [Cloud.status, Cloud.lookup, heq]
      · exact hold hv

/-- The terms on which the programs of the cloud share the pack table, when only `allowed`
packs are pushed. -/
def cloudDiscipline (allowed : Id → Prop) : Discipline (Cloud Id) where
  inv := CloudInv
  rely := CloudRely
  guar := CloudStep allowed
  rely_refl _ s := ⟨fun _ => .refl _ _, .refl s⟩
  rely_trans _ _ _ _ h h' := ⟨fun id => (h.1 id).trans (h'.1 id), h.2.trans h'.2⟩
  guar_rely _ _ _ _ hmn hs h _ := ⟨fun id => (h id).1.rely (hs.ok id) hmn, h.later⟩
  keep _ _ _ hs h _ := h.inv hs

/-- The empty table keeps the invariant. -/
theorem cloudInv_empty : CloudInv (Cloud.empty : Cloud Id) where
  ok _ := Life.ok_none
  keyed id v hv := by simp [Cloud.empty] at hv
  dead id v hv := by simp [Cloud.empty] at hv

/-- A request that touches one pack only. -/
theorem CloudStep.of_single {allowed : Id → Prop} {n : ℕ} {s t : Cloud Id} (id : Id)
    (hid : LifeStep n (allowed id) (life s id) (life t id))
    (hv : t.packs id = s.packs id ∨ ∃ v, v.packId = id ∧ t.packs id = v :: s.packs id)
    (hne : ∀ id', id' ≠ id → life t id' = life s id' ∧ t.packs id' = s.packs id') :
    CloudStep allowed n s t := by
  intro id'
  by_cases h : id' = id
  · subst h; exact ⟨hid, hv⟩
  · obtain ⟨hl, hp⟩ := hne id' h
    exact ⟨hl ▸ .stay _, .inl hp⟩

section store

variable (s : Cloud Id) (id : Id) (p : Pack Id)

/-- A stored version is in front of the older ones. -/
@[simp] theorem packs_store_self : (s.store id p).packs id = p :: s.packs id := by
  simp [Cloud.store]

/-- Storing one item keeps the versions of the others. -/
@[simp] theorem packs_store_ne {id' : Id} (h : id' ≠ id) :
    (s.store id p).packs id' = s.packs id' := by
  simp [Cloud.store, Function.update_of_ne h]

/-- A stored version changes the status in the life of its pack. -/
@[simp] theorem life_store_self :
    life (s.store id p) id = { life s id with status := some p.status } := by
  simp [life, Cloud.status, Cloud.lookup, Cloud.store]

/-- Storing one item keeps the lives of the others. -/
@[simp] theorem life_store_ne {id' : Id} (h : id' ≠ id) :
    life (s.store id p) id' = life s id' := by
  simp [life, Cloud.status, Cloud.lookup, Cloud.store, Function.update_of_ne h]

/-- The status in a life is that of the newest version. -/
theorem life_status {v : Pack Id} (h : s.lookup id = some v) :
    (life s id).status = some v.status := by
  simp [life, Cloud.status, h]

/-- An item is stored under its own id. -/
theorem packId_of_lookup (hs : CloudInv s) {v : Pack Id} (h : s.lookup id = some v) :
    v.packId = id :=
  hs.keyed id v (List.mem_of_mem_head? (by simpa [Cloud.lookup] using h))

/-- Storing one more version of a pack is a request whenever its status change is a step. -/
theorem cloudStep_store {allowed : Id → Prop} {n : ℕ} (hp : p.packId = id)
    (h : LifeStep n (allowed id) (life s id) { life s id with status := some p.status }) :
    CloudStep allowed n s (s.store id p) :=
  .of_single id (by simpa using h) (.inr ⟨p, hp, by simp⟩) fun id' hne => by simp [hne]

end store

/-! ## What a dispatcher knows after its claim -/

/-- Dispatcher `n` holds the claim, has made `posts` POSTs with the given answers, and has
not finalized. -/
structure Held (n : ℕ) (posts : ℕ) (answers : List HttpAnswer) (l : Life) : Prop where
  owner : l.owner = some n
  active : l.Active
  posts : l.posts = posts
  answers : l.answers = answers
  landed : l.landed = 0

/-- A held pack stays held, whatever the others do. -/
theorem Held.rely {n posts : ℕ} {answers : List HttpAnswer} {l l' : Life}
    (h : Held n posts answers l) (hr : LifeRely n l l') : Held n posts answers l' := by
  rcases hr h.owner with rfl | ⟨-, rfl⟩
  · exact h
  · exact ⟨h.owner, .inr rfl, h.posts, h.answers, h.landed⟩

/-- A held pack is stored. -/
theorem Held.lookup {n posts : ℕ} {answers : List HttpAnswer} {s : Cloud Id} {id : Id}
    (h : Held n posts answers (life s id)) : ∃ v, s.lookup id = some v := by
  have hs : s.status id ≠ none := by
    rcases h.active with ha | ha
    · exact fun hn => by rw [show (life s id).status = s.status id from rfl, hn] at ha; cases ha
    · exact fun hn => by rw [show (life s id).status = s.status id from rfl, hn] at ha; cases ha
  unfold Cloud.status at hs
  cases hv : s.lookup id with
  | none => simp [hv] at hs
  | some v => exact ⟨v, rfl⟩

/-! ## One rule for each request -/

section requests

variable {allowed : Id → Prop} {α β : Type} {n : ℕ} {id : Id} {Q : β → Cloud Id → Prop} {s : Cloud Id}

/-- A read may be followed by what is safe in every later table. -/
theorem safe_get {f : Cloud Id → CloudInput Id → α} {k : α → CloudProc Id β}
    (h : ∀ t a, CloudRely n s t → (cloudDiscipline allowed).Safe n (k a) Q t) :
    (cloudDiscipline allowed).Safe n ((Proc.get f).bind k) Q s :=
  Discipline.Safe.act fun t hr _ _ => ⟨CloudStep.refl allowed n t, h t _ hr⟩

/-- A conditional write that changes the status of a stored pack from `old` to the status of
the version it stores is a request, when that change is a step of a life. -/
theorem safe_conditional {cond : Pack Id → Prop} [DecidablePred cond]
    {f : CloudInput Id → Pack Id → Pack Id} {k : Bool → CloudProc Id β}
    (hpack : ∀ i p, (f i p).packId = p.packId)
    (hstep : ∀ (l : Life) i (p : Pack Id), cond p → l.status = some p.status →
      LifeStep n (allowed id) l { l with status := some (f i p).status })
    (h : ∀ t b, (cloudDiscipline allowed).Safe n (k b) Q t) :
    (cloudDiscipline allowed).Safe n
      ((Proc.act fun s i => match s.lookup id with
        | some p => if cond p then (s.store id (f i p), true) else (s, false)
        | none => (s, false)).bind k) Q s := by
  refine Discipline.Safe.act fun t hr hi i => ?_
  cases hv : t.lookup id with
  | none => exact ⟨CloudStep.refl allowed n t, h t _⟩
  | some p =>
    by_cases hc : cond p
    · simp only [hc, if_true]
      refine ⟨cloudStep_store t id _ ?_ ?_, h _ _⟩
      · rw [hpack, packId_of_lookup t id hi hv]
      · exact hstep _ i p hc (life_status t id hv)
    · simp only [hc, if_false]
      exact ⟨CloudStep.refl allowed n t, h t _⟩

/-- A push of an allowed pack leaves it stored. -/
theorem safe_putPack {p : PackIn Id} {pushedBy : Actor} {k : Bool → CloudProc Id β}
    (hp : allowed p.packId)
    (h : ∀ t b, CloudLater s t → t.lookup p.packId ≠ none →
      (cloudDiscipline allowed).Safe n (k b) Q t) :
    (cloudDiscipline allowed).Safe n ((putPack p pushedBy).bind k) Q s := by
  refine Discipline.Safe.act fun t hr hi i => ?_
  cases hv : t.lookup p.packId with
  | some v => exact ⟨CloudStep.refl allowed n t, h t _ hr.2 (by simp [hv])⟩
  | none =>
    have hstep : CloudStep allowed n t (t.store p.packId (p.item pushedBy i.now)) :=
      cloudStep_store t p.packId _ rfl (.put _ (by simp [life, Cloud.status, hv]) hp)
    exact ⟨hstep, h _ _ (hr.2.trans hstep.later) (by simp [Cloud.lookup])⟩

/-- A cancel is safe wherever what follows is. -/
theorem safe_cancelPack {k : Bool → CloudProc Id β}
    (h : ∀ t b, (cloudDiscipline allowed).Safe n (k b) Q t) :
    (cloudDiscipline allowed).Safe n ((cancelPack id).bind k) Q s := by
  refine safe_conditional (fun _ _ => rfl) (fun l i p hc hl => ?_) h
  exact .cancel l (by rw [hl, hc])

/-- The expiry of a claim is safe wherever what follows is. -/
theorem safe_expireClaim {claimedAt : Option Stamp} {k : Bool → CloudProc Id β}
    (h : ∀ t b, (cloudDiscipline allowed).Safe n (k b) Q t) :
    (cloudDiscipline allowed).Safe n ((expireClaim id claimedAt).bind k) Q s := by
  refine safe_conditional (fun _ _ => rfl) (fun l i p hc hl => ?_) h
  exact .expire l (by rw [hl, hc.1])

/-- Who wins the claim holds the pack, with nothing posted. -/
theorem safe_claimPack {k : Bool → CloudProc Id β}
    (hwon : ∀ t, Held n 0 [] (life t id) → (cloudDiscipline allowed).Safe n (k true) Q t)
    (hlost : ∀ t, (cloudDiscipline allowed).Safe n (k false) Q t) :
    (cloudDiscipline allowed).Safe n ((claimPack n id).bind k) Q s := by
  refine Discipline.Safe.act fun t hr hi i => ?_
  cases hv : t.lookup id with
  | none => exact ⟨CloudStep.refl allowed n t, hlost t⟩
  | some p =>
    by_cases hc : p.status = .pending
    · simp only [hc, if_true]
      have hpend : (life t id).status = some .pending := by rw [life_status t id hv, hc]
      have hfresh := (hi.ok id).fresh ((hi.ok id).unclaimed (.inr (.inl hpend)))
      have hans : (life t id).answers = [] := by
        have hle := (hi.ok id).answers_le
        rw [hfresh.1] at hle
        exact List.eq_nil_of_length_eq_zero (Nat.le_zero.mp hle)
      -- the new life, spelled out once: claimed, and owned by this dispatcher
      have hlife : life ({ t.store id { p with status := .claimed, claimedAt := some i.now } with
            owner := Function.update t.owner id (some n) }) id =
          { life t id with status := some .claimed, owner := some n } := by
        simp [life, Cloud.status, Cloud.lookup, Cloud.store]
      have hkey := packId_of_lookup t id hi hv
      refine ⟨.of_single id ?_ (.inr ⟨{ p with status := .claimed, claimedAt := some i.now }, hkey,
        by simp [Cloud.store]⟩) fun id' hne => ?_, hwon _ ?_⟩
      · rw [hlife]; exact .claim _ hpend
      · simp [life, Cloud.status, Cloud.lookup, Cloud.store, Function.update_of_ne hne]
      · rw [hlife]; exact ⟨rfl, .inl rfl, hfresh.1, hans, hfresh.2⟩
    · simp only [hc, if_false]
      exact ⟨CloudStep.refl allowed n t, hlost t⟩

/-- Giving a held pack up before the POST: `update_pack` with `stuck_no_key` or `failed`. -/
theorem safe_giveUp {fields : PackFields} {st : PackStatus} {k : Unit → CloudProc Id β}
    (hst : fields.status = some st) (hs : st = .stuckNoKey ∨ st = .failed)
    (hheld : Held n 0 [] (life s id)) (h : ∀ t, (cloudDiscipline allowed).Safe n (k ()) Q t) :
    (cloudDiscipline allowed).Safe n ((updatePack id fields).bind k) Q s := by
  refine Discipline.Safe.act fun t hr hi i => ?_
  have ht := hheld.rely (hr.1 id)
  obtain ⟨v, hv⟩ := ht.lookup
  have hstamp : ((stampResolved fields i.now).apply v).status = st := by
    simp only [stampResolved, hst]
    split
    · split <;> simp [PackFields.apply, hst]
    · simp [PackFields.apply, hst]
  have hkey := packId_of_lookup t id hi hv
  simp only [Cloud.updatePack, hv]
  refine ⟨cloudStep_store t id _ hkey ?_, h _⟩
  rw [hstamp]
  exact .giveUp _ st ht.owner ht.active ht.posts ht.landed hs

/-- A holder posts once. -/
theorem safe_postSend {k : Unit → CloudProc Id β} (hheld : Held n 0 [] (life s id))
    (h : ∀ t, Held n 1 [] (life t id) → (cloudDiscipline allowed).Safe n (k ()) Q t) :
    (cloudDiscipline allowed).Safe n ((postSend id).bind k) Q s := by
  refine Discipline.Safe.act fun t hr hi i => ?_
  have ht := hheld.rely (hr.1 id)
  have hlife : life { t with posts := id :: t.posts } id = { life t id with posts := 1 } := by
    have := ht.posts
    simp only [life] at this
    simp [life, Cloud.status, Cloud.lookup, this]
  refine ⟨.of_single id (hlife ▸ .post _ ht.owner ht.active ht.posts ht.landed) (.inl rfl)
    fun id' hne => ?_, h _ ?_⟩
  · simp [life, Cloud.status, Cloud.lookup, Ne.symm hne]
  · rw [hlife]; exact ⟨ht.owner, ht.active, rfl, ht.answers, ht.landed⟩

/-- A holder that has posted takes the answer. -/
theorem safe_postAnswer {k : HttpAnswer → CloudProc Id β} (hheld : Held n 1 [] (life s id))
    (h : ∀ t a, Held n 1 [a] (life t id) → (cloudDiscipline allowed).Safe n (k a) Q t) :
    (cloudDiscipline allowed).Safe n ((postAnswer id).bind k) Q s := by
  refine Discipline.Safe.act fun t hr hi i => ?_
  have ht := hheld.rely (hr.1 id)
  have hlife : life { t with answers := (id, i.answer) :: t.answers } id =
      { life t id with answers := [i.answer] } := by
    have := ht.answers
    simp only [life, List.map_eq_nil_iff] at this
    simp [life, Cloud.status, Cloud.lookup, this]
  refine ⟨.of_single id
    (hlife ▸ .answer _ _ ht.owner ht.active ht.posts ht.answers ht.landed) (.inl rfl)
    fun id' hne => ?_, h _ _ ?_⟩
  · simp [life, Cloud.status, Cloud.lookup, Ne.symm hne]
  · rw [hlife]; exact ⟨ht.owner, ht.active, ht.posts, rfl, ht.landed⟩

/-- A holder writes a status that its posts and answers allow. -/
theorem safe_finalize {st : PackStatus} {m f : Option String} {posts : ℕ}
    {answers : List HttpAnswer} {k : Unit → CloudProc Id β}
    (hheld : Held n posts answers (life s id))
    (hfin : ∀ l : Life, l.posts = posts → l.answers = answers → l.Finalizes st)
    (h : ∀ t, (cloudDiscipline allowed).Safe n (k ()) Q t) :
    (cloudDiscipline allowed).Safe n ((finalize id st m f).bind k) Q s := by
  refine Discipline.Safe.bind ?_
  refine Discipline.Safe.act fun t hr hi i => ?_
  have ht := hheld.rely (hr.1 id)
  obtain ⟨v, hv⟩ := ht.lookup
  have hl0 : t.landed.count id = 0 := ht.landed
  have hkey := packId_of_lookup t id hi hv
  constructor
  · simp only [Cloud.updatePack, hv]
    refine .of_single id ?_ (.inr ⟨_, ?_, by simp [Cloud.store]; rfl⟩) fun id' hne => ?_
    · have hf := hfin (life t id) ht.posts ht.answers
      have hstep := @LifeStep.finalize n (allowed id) _ st ht.owner ht.active ht.landed hf
      convert hstep using 1
      simp only [life, Cloud.status, Cloud.lookup, Cloud.store, Function.update_self,
        List.head?_cons, Option.map_some, List.count_cons_self, hl0]
      congr 2
      simp only [stampResolved]
      split <;> simp [PackFields.apply]
    · exact hkey
    · simp [life, Cloud.status, Cloud.lookup, Cloud.store, Function.update_of_ne hne, Ne.symm hne]
  · by_cases hsent : st = .sent
    · simp only [hsent, if_true]
      exact fun u hu hiu i => ⟨fun id' => ⟨.stay _, .inl rfl⟩, h _⟩
    · simp only [hsent, if_false]
      exact h _

/-! ## The programs -/

/-- A holder posts at most once and learns what came of it. -/
theorem safe_sendSync {plain : PlainPack}
    {k : Option (PackStatus × Option String × Option String) → CloudProc Id β}
    (hheld : Held n 0 [] (life s id)) (hnone : ∀ t, (cloudDiscipline allowed).Safe n (k none) Q t)
    (hsome : ∀ t posts answers st m f, Held n posts answers (life t id) →
      (∀ l : Life, l.posts = posts → l.answers = answers → l.Finalizes st) →
      (cloudDiscipline allowed).Safe n (k (some (st, m, f))) Q t) :
    (cloudDiscipline allowed).Safe n ((sendSync id plain).bind k) Q s := by
  unfold sendSync
  split
  · exact hsome s 0 [] _ _ _ hheld fun l hp ha => .inl ⟨hp, ha, rfl⟩
  · cases plain.mail with
    | none => exact hnone s
    | some mail =>
      refine Discipline.Safe.bind (safe_postSend hheld fun t ht => ?_)
      refine safe_postAnswer ht fun u a hu => ?_
      simp only [Proc.pure_eq]
      cases hr : readAnswer a with
      | none => exact hnone u
      | some r =>
        obtain ⟨st, m, f⟩ := r
        exact hsome u 1 [a] st m f hu fun l hp ha => .inr ⟨a, m, f, hp, ha, hr⟩

/-- What a dispatcher does with a claimed pack is safe. -/
theorem safe_processClaimed (hheld : Held n 0 [] (life s id)) :
    (cloudDiscipline allowed).Safe n (processClaimed id) (fun _ _ => True) s := by
  unfold processClaimed
  refine safe_get fun t pack ht => safe_get fun u kTemp hu => ?_
  have held := (hheld.rely (ht.1 id)).rely (hu.1 id)
  cases kTemp with
  | none => exact safe_giveUp rfl (.inl rfl) held fun _ => trivial
  | some key =>
    dsimp only
    cases decryptWithTemp (pack.bind (·.encryptedPayload)) key with
    | error e => exact safe_giveUp rfl (.inr rfl) held fun _ => trivial
    | ok plain =>
      refine safe_sendSync held (fun _ => trivial) fun v posts answers st m f hv hfin => ?_
      refine safe_finalize hv hfin fun w => ?_
      split <;> trivial

/-- A dispatcher is safe. -/
theorem safe_process : (cloudDiscipline allowed).Safe n (process n id) (fun _ _ => True) s := by
  unfold process
  refine safe_get fun t pack ht => ?_
  cases pack with
  | none => trivial
  | some pack =>
    dsimp only
    split
    · trivial
    · exact safe_claimPack (fun t ht => safe_processClaimed ht) fun _ => trivial

/-- Cancelling a page is safe. -/
theorem safe_cancelListed (items : List (Pack Id)) (cancelled : ℕ) :
    (cloudDiscipline allowed).Safe n (cancelListed items cancelled) (fun _ _ => True) s := by
  induction items generalizing s cancelled with
  | nil => trivial
  | cons p ps ih => exact safe_cancelPack fun _ _ => ih _

/-- Cancelling all pages is safe. -/
theorem safe_cancelPages (campaignId pages cancelled : ℕ) :
    (cloudDiscipline allowed).Safe n (cancelPages campaignId pages cancelled)
      (fun _ _ => True) s := by
  induction pages generalizing s cancelled with
  | zero => trivial
  | succ pages ih =>
    refine safe_get fun t items _ => Discipline.Safe.bind ?_
    exact (safe_cancelListed items cancelled).weaken fun _ _ _ => ih _

/-- Expiring a page is safe. -/
theorem safe_expireListed (limit : ℕ) (items : List (Pack Id)) (changed : ℕ) :
    (cloudDiscipline allowed).Safe n (expireListed limit items changed) (fun _ _ => True) s := by
  induction items generalizing s changed with
  | nil => trivial
  | cons p ps ih =>
    unfold expireListed
    split
    · trivial
    · exact safe_expireClaim fun _ _ => ih _

/-- Expiring all pages is safe. -/
theorem safe_expirePages (upper : Stamp) (limit pages changed : ℕ) :
    (cloudDiscipline allowed).Safe n (expirePages upper limit pages changed)
      (fun _ _ => True) s := by
  induction pages generalizing s changed with
  | zero => trivial
  | succ pages ih =>
    unfold expirePages
    split
    · trivial
    · refine safe_get fun t items _ => Discipline.Safe.bind ?_
      exact (safe_expireListed limit items changed).weaken fun _ _ _ => ih _

end requests

/-- Every operation of the cloud keeps the terms of the pack table. -/
theorem cloudCode_safe {allowed : Id → Prop} (n : ℕ) (op : CloudOp Id) (s : Cloud Id)
    (hput : ∀ p a, op = .putPack p a → allowed p.packId) :
    (cloudDiscipline allowed).Safe n (cloudCode n op) (fun _ _ => True) s := by
  cases op with
  | putPack p pushedBy => exact safe_putPack (hput p pushedBy rfl) fun _ _ _ _ => trivial
  | deliver id => exact Discipline.Safe.bind (safe_process.weaken fun _ _ _ => trivial)
  | cancelPack id => exact safe_cancelPack fun _ _ => trivial
  | cancelCampaign c =>
    refine Discipline.Safe.bind (safe_get fun t pages _ => ?_)
    exact (safe_cancelPages c pages 0).weaken fun _ _ _ => trivial
  | expireStaleClaims o l =>
    refine Discipline.Safe.bind (safe_get fun t a _ => ?_)
    exact (safe_expirePages a.1 l a.2 0).weaken fun _ _ _ => trivial

end Mailman.Analysis
