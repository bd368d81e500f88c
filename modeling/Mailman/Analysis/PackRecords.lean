import Mailman.Analysis.DispatcherSafe
import Mailman.Interface.PackRecord

/-!
# The pack record

Every request of the cloud is a `PackWrite` for every pack, whatever state it meets; that a
sent pack is not taken back is what the discipline of the pack table adds.
-/

set_option autoImplicit false

namespace Mailman.Analysis

open Mailman.Library Mailman.Model Mailman.Interface

variable {Id : Type} [DecidableEq Id]

/-- One request at the second its input shows. -/
def TableWrite (s : Cloud Id) (i : CloudInput Id) (t : Cloud Id) : Prop :=
  ∀ id, PackWrite id i.now (s.packs id) (t.packs id)

section writes

variable {α : Type} {s : Cloud Id} {i : CloudInput Id} {id : Id} {v : Pack Id}

omit [DecidableEq Id] in
/-- Doing nothing is a write of the table. -/
theorem TableWrite.refl (s : Cloud Id) (i : CloudInput Id) : TableWrite s i s := fun _ => .same _

/-- A new version of a stored pack is a write of the table. -/
theorem TableWrite.store {v' : Pack Id} (hv : s.lookup id = some v)
    (h : ∀ l, PackWrite id i.now (v :: l) (v' :: v :: l)) : TableWrite s i (s.store id v') := by
  intro id'
  by_cases hid : id' = id
  · subst hid
    obtain ⟨l, hl⟩ := List.head?_eq_some_iff.mp hv
    rw [packs_store_self, hl]
    exact h l
  · simpa [hid] using PackWrite.same _

omit [DecidableEq Id] in
/-- A read writes nothing. -/
theorem every_get {f : Cloud Id → CloudInput Id → α} :
    (Proc.get f : CloudProc Id α).Every TableWrite := Proc.Every.get TableWrite.refl

/-- A push of one pack is a write of the table. -/
theorem every_putPack (p : PackIn Id) (pushedBy : Actor) :
    (putPack p pushedBy).Every TableWrite := by
  refine Proc.Every.act fun s i => ?_
  cases hv : s.lookup p.packId with
  | some v => exact .refl s i
  | none =>
    intro id
    by_cases hid : id = p.packId
    · subst hid
      have hnil : s.packs p.packId = [] := List.head?_eq_none_iff.mp hv
      rw [packs_store_self, hnil]
      exact .put p pushedBy rfl
    · simpa [hid] using PackWrite.same _

/-- A claim is a write of the table. -/
theorem every_claimPack (n : ℕ) (id : Id) : (claimPack n id).Every TableWrite := by
  refine Proc.Every.act fun s i => ?_
  cases hv : s.lookup id with
  | none => exact .refl s i
  | some v =>
    by_cases hst : v.status = .pending
    · simp only [hst, if_true]
      exact TableWrite.store (s := s) hv fun l => .claim v l hst
    · simp only [hst, if_false]
      exact .refl s i

/-- A conditional write of the newest version. -/
theorem every_conditional {cond : Pack Id → Prop} [DecidablePred cond]
    {f : CloudInput Id → Pack Id → Pack Id}
    (h : ∀ i v l, cond v → PackWrite id i.now (v :: l) (f i v :: v :: l)) :
    (Proc.act fun (s : Cloud Id) i => match s.lookup id with
      | some p => if cond p then (s.store id (f i p), true) else (s, false)
      | none => (s, false)).Every TableWrite := by
  refine Proc.Every.act fun s i => ?_
  cases hv : s.lookup id with
  | none => exact .refl s i
  | some v =>
    by_cases hst : cond v
    · simp only [hst, if_true]
      exact TableWrite.store hv fun l => h i v l hst
    · simp only [hst, if_false]
      exact .refl s i

/-- A cancel is a write of the table. -/
theorem every_cancelPack (id : Id) : (cancelPack id).Every TableWrite :=
  every_conditional fun _ v l hst => .cancel v l hst

/-- The expiry of a claim is a write of the table. -/
theorem every_expireClaim (id : Id) (claimedAt : Option Stamp) :
    (expireClaim id claimedAt).Every TableWrite :=
  every_conditional fun _ v l hst => hst.2 ▸ .expire v l hst.1

/-- `update_pack` is a write as soon as its fields, stamped, are one. -/
theorem TableWrite.update {fields : PackFields}
    (h : ∀ (v : Pack Id) l, PackWrite id i.now (v :: l)
      ((stampResolved fields i.now).apply v :: v :: l)) :
    TableWrite s i (s.updatePack id fields i.now) := by
  unfold Cloud.updatePack
  cases hv : s.lookup id with
  | none => exact .refl s i
  | some v => exact TableWrite.store hv (h v)

/-- A final status is a write of the table. -/
theorem every_finalize (id : Id) {st : PackStatus} (msgId failure : Option String)
    (hst : st = .unknown ∨ st = .failed ∨ st = .sent) :
    (finalize id st msgId failure).Every TableWrite := by
  have hres : st.resolved = true := by rcases hst with rfl | rfl | rfl <;> rfl
  refine Proc.Every.bind (Proc.Every.act fun s i => ?_) fun _ => ?_
  · refine TableWrite.update fun v l => ?_
    have hwrite := @PackWrite.finalize Id id i.now v l st msgId failure hst
    simpa [stampResolved, hres, PackFields.apply] using hwrite
  · split
    · exact Proc.Every.act fun s i => .refl s i
    · trivial

/-! ## The programs -/

omit [DecidableEq Id] in
/-- The status `_send_sync` reports is one that `_finalize` may write. -/
theorem every_sendSync {β : Type} (id : Id) (plain : PlainPack)
    {k : Option (PackStatus × Option String × Option String) → CloudProc Id β}
    (hnone : (k none).Every TableWrite)
    (hsome : ∀ st m f, st = .unknown ∨ st = .failed ∨ st = .sent →
      (k (some (st, m, f))).Every TableWrite) : ((sendSync id plain).bind k).Every TableWrite := by
  unfold sendSync
  split
  · exact hsome _ _ _ (by simp)
  · cases plain.mail with
    | none => exact hnone
    | some mail =>
      -- the POST and its answer write no version
      refine fun s i => ⟨fun _ => .same _, fun s' i' => ⟨fun _ => .same _, ?_⟩⟩
      change (k (readAnswer i'.answer)).Every TableWrite
      cases hr : readAnswer i'.answer with
      | none => exact hnone
      | some r =>
        obtain ⟨st, m, f⟩ := r
        exact hsome st m f (readAnswer_status hr)

/-- A dispatcher with a claimed pack makes writes of the table. -/
theorem every_processClaimed (id : Id) : (processClaimed id).Every TableWrite := by
  unfold processClaimed
  refine Proc.Every.bind every_get fun pack => Proc.Every.bind every_get fun kTemp => ?_
  cases kTemp with
  | none =>
    refine Proc.Every.bind (Proc.Every.act fun s i => ?_) fun _ => trivial
    exact TableWrite.update fun v l => .stuck v l _
  | some key =>
    dsimp only
    cases decryptWithTemp (pack.bind (·.encryptedPayload)) key with
    | error e =>
      refine Proc.Every.bind (Proc.Every.act fun s i => ?_) fun _ => trivial
      exact TableWrite.update fun v l => .fail v l _
    | ok plain =>
      refine every_sendSync id plain trivial fun st msgId failure hst => ?_
      refine (every_finalize id msgId failure hst).bind fun _ => ?_
      split <;> trivial

/-- A dispatcher makes writes of the table. -/
theorem every_process (n : ℕ) (id : Id) : (process n id).Every TableWrite := by
  unfold process
  refine Proc.Every.bind every_get fun pack => ?_
  cases pack with
  | none => trivial
  | some pack =>
    dsimp only
    split
    · trivial
    · refine (every_claimPack n id).bind fun claimed => ?_
      cases claimed with
      | true => exact every_processClaimed id
      | false => trivial

/-- Cancelling a page makes writes of the table. -/
theorem every_cancelListed (items : List (Pack Id)) (cancelled : ℕ) :
    (cancelListed items cancelled).Every TableWrite := by
  induction items generalizing cancelled with
  | nil => trivial
  | cons p ps ih => exact (every_cancelPack p.packId).bind fun _ => ih _

/-- Cancelling all pages makes writes of the table. -/
theorem every_cancelPages (campaignId pages cancelled : ℕ) :
    (cancelPages campaignId pages cancelled : CloudProc Id ℕ).Every TableWrite := by
  induction pages generalizing cancelled with
  | zero => trivial
  | succ pages ih =>
    refine Proc.Every.bind every_get fun items => ?_
    exact (every_cancelListed items cancelled).bind fun _ => ih _

/-- Expiring a page makes writes of the table. -/
theorem every_expireListed (limit : ℕ) (items : List (Pack Id)) (changed : ℕ) :
    (expireListed limit items changed).Every TableWrite := by
  induction items generalizing changed with
  | nil => trivial
  | cons p ps ih =>
    unfold expireListed
    split
    · trivial
    · exact (every_expireClaim p.packId p.claimedAt).bind fun _ => ih _

/-- Expiring all pages makes writes of the table. -/
theorem every_expirePages (upper : Stamp) (limit pages changed : ℕ) :
    (expirePages upper limit pages changed : CloudProc Id ℕ).Every TableWrite := by
  induction pages generalizing changed with
  | zero => trivial
  | succ pages ih =>
    unfold expirePages
    split
    · trivial
    · refine Proc.Every.bind every_get fun items => ?_
      exact (every_expireListed limit items changed).bind fun _ => ih _

/-- Every request of the cloud is a write of the pack record. -/
theorem every_cloudCode (n : ℕ) (op : CloudOp Id) : (cloudCode n op).Every TableWrite := by
  cases op with
  | putPack p pushedBy => exact (every_putPack p pushedBy).bind fun _ => trivial
  | deliver id => exact (every_process n id).bind fun _ => trivial
  | cancelPack id => exact (every_cancelPack id).bind fun _ => trivial
  | cancelCampaign c =>
    refine Proc.Every.bind (Proc.Every.bind every_get fun pages => ?_) fun _ => trivial
    exact every_cancelPages c pages 0
  | expireStaleClaims o l =>
    refine Proc.Every.bind (Proc.Every.bind every_get fun a => ?_) fun _ => trivial
    exact every_expirePages a.1 l a.2 0

end writes

/-! ## The run -/

/-- What the versions of every pack satisfy. -/
def RecordInv (s : Cloud Id) : Prop := ∀ id, s.packs id = [] ∨ PackHistory (s.packs id)

/-- One request under some clock. -/
def SomeWrite (s t : Cloud Id) : Prop := ∃ now, ∀ id, PackWrite id now (s.packs id) (t.packs id)

/-- A step in the life of a pack that was sent leaves it sent. -/
theorem CloudStep.sentStays {n : ℕ} {s t : Cloud Id} (h : CloudStep (fun _ => True) n s t)
    (id : Id) : SentStays (s.packs id) (t.packs id) := by
  intro v hv hst
  have hstatus : (life s id).status = some .sent := by
    rw [life_status s id hv, hst]
  have hlater : t.status id = some .sent := (h.later id).sent hstatus
  simpa [Cloud.status, Cloud.lookup] using hlater

/-- The terms of the pack table, with the record of every pack. -/
def recordDiscipline : Discipline (Cloud Id) where
  inv s := CloudInv s ∧ RecordInv s
  rely := CloudRely
  guar := CloudStep fun _ => True
  cond := SomeWrite
  rely_refl := (cloudDiscipline fun _ => True).rely_refl
  rely_trans := (cloudDiscipline fun _ => True).rely_trans
  guar_rely m n s t hmn hs h _ := (cloudDiscipline fun _ => True).guar_rely m n s t hmn hs.1 h trivial
  keep n s t hs h hw := by
    obtain ⟨now, hw⟩ := hw
    exact ⟨h.inv hs.1, fun id => (hw id).history (h.sentStays id) (hs.2 id)⟩

/-- The record of every pack holds after every run. -/
theorem cloudRun_record (es : List (Event (CloudOp Id) (CloudInput Id))) :
    RecordInv (cloudRun es) := by
  have h0 : recordDiscipline.Sound (Pool.idle Cloud.empty : Pool (Cloud Id) (CloudInput Id)) :=
    Discipline.sound_idle ⟨cloudInv_empty, fun _ => .inl rfl⟩
  refine (Discipline.run_sound (fun n op s _ => ?_) h0 es ?_).1.2
  · have hsafe : (cloudDiscipline fun _ => True).Safe n (cloudCode n op) (fun _ _ => True) s :=
      cloudCode_safe n op s fun _ _ _ => trivial
    exact hsafe.of_terms (fun _ h => h.1) (fun _ _ h => h) fun _ _ _ h => h
  · have hidle : ∀ n, ((Pool.idle Cloud.empty : Pool (Cloud Id) _).running n).Every TableWrite :=
      fun _ => trivial
    exact Pool.steps_of_every every_cloudCode (fun s => ⟨0, fun _ => .same _⟩)
      (fun s i t h => ⟨i.now, h⟩) hidle es

/-- **The pack record**, in every run of pushes, deliveries, cancels and sweeps with any instance
stopped anywhere. `v` is the newest version of a stored pack; the oldest is the item `put_pack`
wrote.
SOURCE: cloud/dynamo.py:422-498, 761-855, cloud/dispatcher_lambda.py:138-176 -/
theorem pack_record (es : List (Event (CloudOp Id) (CloudInput Id))) (id : Id) (v : Pack Id)
    (hv : (cloudRun es).lookup id = some v) :
    ∃ p pushedBy now, ((cloudRun es).packs id).getLast? = some (PackIn.item p pushedBy now) ∧
      (v.resolvedAt ≠ none ↔ v.status ∈ resolvedPackStatuses) ∧
      (v.status = .pending ∨ v.status = .claimed → v.encryptedPayload = some p.encryptedBlob) ∧
      (v.status = .sent ∨ v.status = .failed ∨ v.status = .cancelled ∨ v.status = .unknown →
        v.encryptedPayload = none) ∧
      (v.sentAt ≠ none ↔ v.status = .sent) ∧
      (v.claimedAt = none ↔ ∀ u ∈ (cloudRun es).packs id, u.status ≠ .claimed) := by
  have hne : (cloudRun es).packs id ≠ [] := by
    intro hnil
    simp [Cloud.lookup, hnil] at hv
  have hist := (cloudRun_record es id).resolve_left hne
  obtain ⟨p, pushedBy, now, hlast⟩ := hist.put
  have hrec := hist.record _ v hlast hv
  refine ⟨p, pushedBy, now, hlast, ?_, hrec.kept, hrec.gone, hrec.sent, ?_⟩
  · rw [hrec.resolved]
    simp [PackStatus.resolved]
  · rw [hrec.claimed]
    simp

section witness

/-- One pack is stored at second 3, claimed at second 4 and sent at second 9. -/
private def recordRun : List (Event (CloudOp ℕ) (CloudInput ℕ)) :=
  [.start 0 (.putPack ⟨0, 1, "", "", 0, "", .sealed ⟨1⟩ (.ok
      { resendApiKey := some "re_key", mail := some ⟨"a@x", "b@y", "s", "<p>", "t"⟩ })⟩ .operator),
    .step 0 { now := 3 }, .start 1 (.deliver 0), .step 1 {}, .step 1 { now := 4 }, .step 1 {},
    .step 1 { key := some ⟨1⟩ }, .step 1 {},
    .step 1 { answer := .response 200 (.object (some "m") none) }, .step 1 { now := 9 }]

/-- The sent version of that run, with its times and without its payload. -/
theorem pack_record_demo :
    ∃ v, (cloudRun recordRun).lookup 0 = some v ∧ v.status = .sent ∧
      v.encryptedPayload = none ∧ v.resolvedAt = some 9 ∧ v.claimedAt = some 4 := by
  have hv : ∃ v, (cloudRun recordRun).lookup 0 = some v ∧ v.status = .sent ∧
      v.resolvedAt = some 9 ∧ v.claimedAt = some 4 := by
    refine ⟨_, rfl, ?_, ?_, ?_⟩ <;> decide +kernel
  obtain ⟨v, hv, hst, hres, hat⟩ := hv
  obtain ⟨p, pushedBy, now, -, -, -, hgone, -⟩ := pack_record recordRun 0 v hv
  exact ⟨v, hv, hst, hgone (.inl hst), hres, hat⟩

end witness

end Mailman.Analysis
