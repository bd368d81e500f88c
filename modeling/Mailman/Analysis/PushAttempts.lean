import Mailman.Analysis.PushChunks

/-!
# One attempt to push

The transaction that records the acknowledged packs (`Records`) and the outcomes of those that the
cloud had already (`Settles`) move no recipient back into the queue. An attempt is then described
by what it stores and by the jobs that it records (`Attempted`), at every moment of it.
-/

set_option autoImplicit false

namespace Mailman.Analysis

open Mailman.Library Mailman.Model

variable {Id : Type} [LinearOrder Id]

/-! ## The recording -/

section recording

variable {c : ℕ} {nowText : String}

/-- The jobs that `_record_dispatch` records: those of contacts. -/
def recordable (jobs : List (JobIn Id)) : List (JobIn Id) :=
  jobs.filter fun j => j.contactId.isSome && !j.isSeed

omit [LinearOrder Id] in
/-- A recordable job has a contact. -/
theorem contact_of_recordable {jobs : List (JobIn Id)} {j : JobIn Id} (h : j ∈ recordable jobs) :
    ∃ k, j.contactId = some k := by
  have hkept : (j.contactId.isSome && !j.isSeed) = true := (List.mem_filter.mp h).2
  exact Option.isSome_iff_exists.mp (Bool.and_eq_true_iff.mp hkept).1

/-- What identifies a job. -/
def jobKey (j : Job Id) : Id × ℕ × ℕ := (j.jobId, j.campaignId, j.recipientId)

/-- The key of the job that is recorded for a pack. -/
def newKey (c : ℕ) (j : JobIn Id) : Id × ℕ × ℕ := (j.packId, c, j.contactId.getD 0)

/-- The recipients of the campaign have changed for contacts of `K` alone, and nobody is back in
the queue. -/
def RowsMoved (c : ℕ) (K : ℕ → Prop) (rows rows' : List Recipient) : Prop :=
  ∃ f : Recipient → Recipient, rows' = rows.map f ∧ ∀ r, (f r).campaignId = r.campaignId ∧
    (f r).contactId = r.contactId ∧ (r.campaignId = c → ¬ K r.contactId → f r = r) ∧
    ((f r).status = .queued → r.status = .queued)

/-- Rows that stay have moved within any contacts. -/
theorem RowsMoved.refl (c : ℕ) (K : ℕ → Prop) (rows : List Recipient) : RowsMoved c K rows rows :=
  ⟨id, (List.map_id rows).symm, fun _ => ⟨rfl, rfl, fun _ _ => rfl, fun h => h⟩⟩

/-- Two moves of rows are one. -/
theorem RowsMoved.trans {K : ℕ → Prop} {rows₁ rows₂ rows₃ : List Recipient}
    (h : RowsMoved c K rows₁ rows₂) (h' : RowsMoved c K rows₂ rows₃) :
    RowsMoved c K rows₁ rows₃ := by
  obtain ⟨f, rfl, hf⟩ := h
  obtain ⟨g, rfl, hg⟩ := h'
  refine ⟨g ∘ f, List.map_map, fun r => ?_⟩
  obtain ⟨hcamp, hcontact, hsame, hqueued⟩ := hf r
  obtain ⟨hcamp', hcontact', hsame', hqueued'⟩ := hg (f r)
  refine ⟨hcamp'.trans hcamp, hcontact'.trans hcontact, fun hc hk => ?_,
    fun h => hqueued (hqueued' h)⟩
  show g (f r) = r
  rw [hsame' (hcamp.trans hc) (hcontact ▸ hk), hsame hc hk]

/-- A move within fewer contacts is one within more. -/
theorem RowsMoved.mono {K K' : ℕ → Prop} {rows rows' : List Recipient} (hK : ∀ k, K k → K' k)
    (h : RowsMoved c K rows rows') : RowsMoved c K' rows rows' := by
  obtain ⟨f, heq, hf⟩ := h
  refine ⟨f, heq, fun r => ?_⟩
  obtain ⟨hcamp, hcontact, hsame, hqueued⟩ := hf r
  exact ⟨hcamp, hcontact, fun hc hk => hsame hc fun h => hk (hK _ h), hqueued⟩

/-- An update of some rows of the contacts `K` moves those rows. -/
theorem RowsMoved.update {K : ℕ → Prop} (rows : List Recipient) {p : Recipient → Bool}
    {f : Recipient → Recipient}
    (hf : ∀ r, (f r).campaignId = r.campaignId ∧ (f r).contactId = r.contactId ∧
      ((f r).status = .queued → r.status = .queued))
    (hp : ∀ r, p r = true → r.campaignId = c → K r.contactId) :
    RowsMoved c K rows (updateRows rows p f) := by
  refine ⟨fun r => if p r then f r else r, rfl, fun r => ?_⟩
  dsimp only
  split
  · next h => exact ⟨(hf r).1, (hf r).2.1, fun hc hk => absurd (hp r h hc) hk, (hf r).2.2⟩
  · exact ⟨rfl, rfl, fun _ _ => rfl, fun h => h⟩

/-- Everything but the jobs and the recipients. -/
structure SameSide (t t' : Terminal Id) : Prop where
  suppressions : t'.suppressions = t.suppressions
  contacts : t'.contacts = t.contacts
  pushing : t'.pushing = t.pushing

omit [LinearOrder Id] in
/-- A terminal is on its own side. -/
theorem SameSide.refl (t : Terminal Id) : SameSide t t := ⟨rfl, rfl, rfl⟩

omit [LinearOrder Id] in
/-- Being on one side is transitive. -/
theorem SameSide.trans {t t' t'' : Terminal Id} (h : SameSide t t') (h' : SameSide t' t'') :
    SameSide t t'' :=
  ⟨h'.suppressions.trans h.suppressions, h'.contacts.trans h.contacts, h'.pushing.trans h.pushing⟩

/-- What recording `jobs` does. -/
structure Records (c : ℕ) (jobs : List (JobIn Id)) (t t' : Terminal Id) : Prop where
  side : SameSide t t'
  keys : t'.jobs.map jobKey = t.jobs.map jobKey ++ (recordable jobs).map (newKey c)
  rows : RowsMoved c (fun k => ∃ j ∈ recordable jobs, j.contactId = some k) t.recipients
    t'.recipients
  sent : ∀ r ∈ t'.recipients, r.campaignId = c →
    (∃ j ∈ recordable jobs, j.contactId = some r.contactId) → r.status ≠ .queued

/-- An id that is in no job is not found. -/
theorem job?_none {t : Terminal Id} {id : Id} (h : id ∉ t.jobs.map (·.jobId)) :
    (t.job? id).isSome = false := by
  unfold Db.job?
  rw [Bool.eq_false_iff]
  intro hsome
  obtain ⟨j, hj, hid⟩ := List.find?_isSome.mp hsome
  exact h (List.mem_map.mpr ⟨j, hj, of_decide_eq_true hid⟩)

omit [LinearOrder Id] in
/-- The recordable jobs of two lists. -/
theorem recordable_append (jobs jobs' : List (JobIn Id)) :
    recordable (jobs ++ jobs') = recordable jobs ++ recordable jobs' := List.filter_append ..

omit [LinearOrder Id] in
/-- Two records are one. -/
theorem Records.trans {jobs jobs' : List (JobIn Id)} {t₁ t₂ t₃ : Terminal Id}
    (h : Records c jobs t₁ t₂) (h' : Records c jobs' t₂ t₃) : Records c (jobs ++ jobs') t₁ t₃ where
  side := h.side.trans h'.side
  keys := by
    rw [h'.keys, h.keys, recordable_append, List.map_append, List.append_assoc]
  rows := by
    rw [recordable_append]
    apply (h.rows.mono _).trans (h'.rows.mono _)
    · rintro k ⟨j, hj, hk⟩
      exact ⟨j, List.mem_append_left _ hj, hk⟩
    · rintro k ⟨j, hj, hk⟩
      exact ⟨j, List.mem_append_right _ hj, hk⟩
  sent r hr hc := by
    rintro ⟨j, hj, hk⟩
    rw [recordable_append] at hj
    rcases List.mem_append.mp hj with hj | hj
    · -- the row left the queue before, and is not put back
      obtain ⟨f, heq, hf⟩ := h'.rows
      rw [heq] at hr
      obtain ⟨r₁, hr₁, rfl⟩ := List.mem_map.mp hr
      obtain ⟨hcamp, hcontact, -, hqueued⟩ := hf r₁
      intro hq
      exact h.sent r₁ hr₁ (hcamp.symm.trans hc) ⟨j, hj, hcontact ▸ hk⟩ (hqueued hq)
    · exact h'.sent r hr hc ⟨j, hj, hk⟩

omit [LinearOrder Id] in
/-- Jobs that are not recordable record nothing. -/
theorem Records.skip {jobs : List (JobIn Id)} (h : recordable jobs = []) (t : Terminal Id) :
    Records c jobs t t := by
  refine ⟨.refl t, ?_, .refl _ _ _, fun r _ _ hk => ?_⟩
  · rw [h]
    exact (List.append_nil _).symm
  · rw [h] at hk
    obtain ⟨j, hj, -⟩ := hk
    cases hj

/-- One job: a seed is skipped, and a contact's job is recorded under an id that is new. -/
theorem recordJob_records (j : JobIn Id) {t : Terminal Id}
    (hfresh : ∀ i ∈ recordable [j], i.packId ∉ t.jobs.map (·.jobId)) :
    ∃ t', t.recordJob c nowText j = some t' ∧ Records c [j] t t' := by
  unfold Terminal.recordJob
  cases hcontact : j.contactId with
  | none => exact ⟨t, rfl, .skip (by simp [recordable, hcontact]) t⟩
  | some k =>
    dsimp only
    cases hseed : j.isSeed with
    | true => exact ⟨t, rfl, .skip (by simp [recordable, hseed]) t⟩
    | false =>
      have hone : recordable [j] = [j] := by simp [recordable, hcontact, hseed]
      have hnew := hfresh j (by rw [hone]; exact List.mem_singleton_self j)
      rw [if_neg Bool.false_ne_true, if_neg (by rw [job?_none hnew]; exact Bool.false_ne_true)]
      refine ⟨_, rfl, ⟨rfl, rfl, rfl⟩, ?_, ?_, ?_⟩
      · rw [hone]
        simp [Terminal.updateRecipients, jobKey, newKey, hcontact]
      · rw [hone]
        apply RowsMoved.update
        · exact fun r => ⟨rfl, rfl, nofun⟩
        · intro r hr _
          exact ⟨j, List.mem_singleton_self j, by simp_all⟩
      · rw [hone]
        rintro r hr hc ⟨i, hi, hk⟩
        obtain rfl := List.mem_singleton.mp hi
        obtain ⟨r₀, -, hrow⟩ := mem_updateRows.mp hr
        split at hrow
        · rw [← hrow]
          exact nofun
        · next hnot =>
          subst hrow
          refine absurd ?_ hnot
          rw [hcontact] at hk
          simpa using ⟨hc, (Option.some.inj hk).symm⟩

/-- Jobs whose ids are new and distinct are recorded. -/
theorem recordJobs_records (jobs : List (JobIn Id)) {t : Terminal Id}
    (hnodup : ((recordable jobs).map (·.packId)).Nodup)
    (hfresh : ∀ j ∈ recordable jobs, j.packId ∉ t.jobs.map (·.jobId)) :
    ∃ t', jobs.foldlM (Terminal.recordJob c nowText) t = some t' ∧ Records c jobs t t' := by
  induction jobs generalizing t with
  | nil => exact ⟨t, rfl, .skip rfl t⟩
  | cons j jobs ih =>
    have happend : recordable (j :: jobs) = recordable [j] ++ recordable jobs :=
      recordable_append [j] jobs
    rw [happend, List.map_append, List.nodup_append'] at hnodup
    obtain ⟨t₁, hfirst, hrecords⟩ := @recordJob_records _ _ c nowText j t
      fun i hi => hfresh i (happend ▸ List.mem_append_left _ hi)
    obtain ⟨t', hrest, hrecords'⟩ := @ih t₁ hnodup.2.1 fun i hi hold => by
      have hids := congrArg (List.map Prod.fst) hrecords.keys
      rw [List.map_append, List.map_map, List.map_map, List.map_map] at hids
      change t₁.jobs.map (·.jobId) = t.jobs.map (·.jobId) ++ (recordable [j]).map (·.packId) at hids
      rw [hids] at hold
      rcases List.mem_append.mp hold with hold | hold
      · exact hfresh i (happend ▸ List.mem_append_right _ hi) hold
      · exact hnodup.2.2 hold (List.mem_map_of_mem hi)
    refine ⟨t', ?_, hrecords.trans hrecords'⟩
    rw [List.foldlM_cons, hfirst]
    exact hrest

/-- What applying outcomes of the packs `ids` does: jobs keep their keys, and only recipients of
jobs of these packs move, never back into the queue. -/
structure Settles (c : ℕ) (ids : Id → Prop) (t t' : Terminal Id) : Prop where
  side : SameSide t t'
  keys : t'.jobs.map jobKey = t.jobs.map jobKey
  rows : RowsMoved c (fun k => ∃ j ∈ t.jobs, ids j.jobId ∧ j.campaignId = c ∧ j.recipientId = k)
    t.recipients t'.recipients

omit [LinearOrder Id] in
/-- Nothing settles nothing. -/
theorem Settles.refl (c : ℕ) (ids : Id → Prop) (t : Terminal Id) : Settles c ids t t :=
  ⟨.refl t, rfl, .refl _ _ _⟩

omit [LinearOrder Id] in
/-- A key of one list of jobs is a key of the other. -/
theorem exists_of_keys {jobs jobs' : List (Job Id)} (h : jobs'.map jobKey = jobs.map jobKey)
    {j : Job Id} (hj : j ∈ jobs) : ∃ j' ∈ jobs', jobKey j' = jobKey j :=
  List.mem_map.mp (h ▸ List.mem_map_of_mem hj)

omit [LinearOrder Id] in
/-- Two settlements are one. -/
theorem Settles.trans {ids : Id → Prop} {t₁ t₂ t₃ : Terminal Id} (h : Settles c ids t₁ t₂)
    (h' : Settles c ids t₂ t₃) : Settles c ids t₁ t₃ where
  side := h.side.trans h'.side
  keys := h'.keys.trans h.keys
  rows := by
    apply h.rows.trans (h'.rows.mono _)
    rintro k ⟨j, hj, hid, hcamp, hk⟩
    obtain ⟨j', hj', hkey⟩ := exists_of_keys h.keys.symm hj
    simp only [jobKey, Prod.mk.injEq] at hkey
    exact ⟨j', hj', hkey.1 ▸ hid, hkey.2.1.trans hcamp, hkey.2.2.trans hk⟩

/-- An applied outcome settles its job. -/
theorem applyPackOutcome_settles {ids : Id → Prop} (t : Terminal Id) {o : PackOutcome Id}
    (ho : ids o.packId) :
    Settles c ids t { t with toDb := applyPackOutcome nowText t.toDb o } := by
  -- the job that is found is one of the pack
  have hjob : ∀ {p : Recipient → Bool} {job : Job Id}, t.toDb.job? o.packId = some job →
      (∀ r, p r = true → job.isRecipient r = true) → ∀ r, p r = true → r.campaignId = c →
        ∃ j ∈ t.jobs, ids j.jobId ∧ j.campaignId = c ∧ j.recipientId = r.contactId := by
    intro p job hfind hp r hr hc
    have hof := hp r hr
    simp only [Job.isRecipient, decide_eq_true_eq] at hof
    have hid : job.jobId = o.packId := by simpa using List.find?_some hfind
    exact ⟨job, List.mem_of_find?_eq_some hfind, hid ▸ ho, hof.1.symm.trans hc, hof.2.symm⟩
  unfold applyPackOutcome
  dsimp only
  split
  · unfold applyUnknownOutcome
    split
    · exact .refl c ids t
    · next job hfind =>
      refine ⟨⟨rfl, rfl, rfl⟩, rfl, RowsMoved.update _ (fun r => ⟨rfl, rfl, fun h => h⟩) ?_⟩
      apply hjob hfind
      intro r hr
      exact (Bool.and_eq_true_iff.mp hr).1
  · split
    · exact .refl c ids t
    · next job hfind =>
      refine ⟨⟨rfl, rfl, rfl⟩, ?_, RowsMoved.update _ (fun r => ⟨rfl, rfl, fun h => ?_⟩) ?_⟩
      · unfold updateRows
        rw [List.map_map]
        apply List.map_congr_left
        intro j _
        show jobKey (if _ then _ else j) = jobKey j
        split
        · split <;> rfl
        · rfl
      · dsimp only at h
        split at h <;> cases h
      · apply hjob hfind
        intro r hr
        exact (Bool.and_eq_true_iff.mp hr).1

/-- Applied outcomes settle their jobs. -/
theorem applyHeldNow_settles {ids : Id → Prop} (faults : PushFaults Id)
    (held : List (PackOutcome Id)) (t : Terminal Id) (h : ∀ o ∈ held, ids o.packId) :
    Settles c ids t (applyHeldNow faults held t) := by
  induction held generalizing t with
  | nil => exact .refl c ids t
  | cons o held ih =>
    have hrest := fun u : Terminal Id => ih u fun o ho => h o (List.mem_cons_of_mem _ ho)
    unfold applyHeldNow at hrest ⊢
    rw [List.foldl_cons]
    split
    · exact (applyPackOutcome_settles t (h o (List.mem_cons_self ..))).trans (hrest _)
    · exact hrest _

end recording


/-! ## One attempt -/

section attempt

variable {env : Setup Id} {c : ℕ}

/-- The error that ends the push, if one does. -/
def pushFailure (env : Setup Id) (faults : PushFaults Id) (packs : List (PackIn Id)) :
    Option LaunchError :=
  pushError faults.fate 0 (sliceBy env.packPushChunk packs.length packs)

/-- How many packs were acknowledged. -/
def ackedCount (env : Setup Id) (faults : PushFaults Id) (packs : List (PackIn Id)) : ℕ :=
  (ackedParts faults.fate 0 (sliceBy env.packPushChunk packs.length packs)).flatten.length

omit [LinearOrder Id] in
/-- A push that does not fail acknowledges all its packs. -/
theorem ackedCount_all {faults : PushFaults Id} {packs : List (PackIn Id)}
    (h : pushFailure env faults packs = none) : ackedCount env faults packs = packs.length := by
  unfold ackedCount
  rw [ackedParts_eq_self h, flatten_sliceBy env.packPushChunk_pos _ _ (Nat.le_refl _)]

/-- How a push ends. -/
theorem pushAll_end {c : Cloud Id} (hfiled : Filed c) (faults : PushFaults Id) (actor : Actor)
    (packs : List (PackIn Id)) :
    ChunksEnd c (pushAll env faults actor packs c).1 packs
      (packs.take (ackedCount env faults packs)) 0 (pushFailure env faults packs) {}
      (pushAll env faults actor packs c).2 := by
  have hend := @pushChunks_end _ _ c actor faults hfiled
    (sliceBy env.packPushChunk packs.length packs) 0 0 {}
  rw [flatten_sliceBy env.packPushChunk_pos _ _ (Nat.le_refl _)] at hend
  rw [flatten_ackedParts faults.fate env.packPushChunk_pos packs] at hend
  exact hend

/-- What is recorded after the push are the first jobs, as many as were acknowledged, and only its
own packs are held. -/
theorem recordOf_end {c : Cloud Id} (hfiled : Filed c) (faults : PushFaults Id) (actor : Actor)
    (packs : List (PackIn Id)) (jobs : List (JobIn Id)) (hlength : jobs.length = packs.length) :
    (recordOf jobs (pushAll env faults actor packs c).2).1 =
        jobs.take (ackedCount env faults packs) ∧
      ∀ o ∈ (recordOf jobs (pushAll env faults actor packs c).2).2, ∃ p ∈ packs,
        p.packId = o.packId := by
  have hend := @pushAll_end _ _ env _ hfiled faults actor packs
  have hle : (packs.take (ackedCount env faults packs)).length = ackedCount env faults packs :=
    congrArg List.length (flatten_ackedParts faults.fate env.packPushChunk_pos packs).symm
  cases hfailure : pushFailure env faults packs with
  | none =>
    obtain ⟨ack, hresult, hheld⟩ := hend.done hfailure
    rw [hresult]
    refine ⟨?_, fun o ho => ?_⟩
    · show jobs = _
      rw [ackedCount_all hfailure, ← hlength, List.take_length]
    · rcases hheld o ho with hnone | ⟨p, hp, heq⟩
      · cases hnone
      · exact ⟨p, hp, heq.symm⟩
  | some e =>
    rcases hend.raised e hfailure with ⟨hzero, hresult⟩ | ⟨-, held, hresult, hheld⟩
    · rw [hle, Nat.zero_add] at hzero
      rw [hresult, hzero]
      exact ⟨rfl, by simp [recordOf]⟩
    · rw [hle, Nat.zero_add] at hresult
      rw [hresult]
      refine ⟨rfl, fun o ho => ?_⟩
      rcases hheld o ho with hnone | ⟨p, hp, heq⟩
      · cases hnone
      · exact ⟨p, hp, heq.symm⟩

/-- The packs and jobs of an attempt fit: they are of the same ids, and the contacts' ones are
distinct sends of the campaign that are not recorded yet. -/
structure Fits (env : Setup Id) (c : ℕ) (built : List (PackIn Id × JobIn Id)) (t : Terminal Id) :
    Prop where
  ids : ∀ b ∈ built, b.1.packId = b.2.packId
  sends : ∀ j ∈ recordable (built.map (·.2)), ∃ k, newKey c j =
    (env.ids.packId k, k.campaignId, k.contactId)
  nodup : ((recordable (built.map (·.2))).map (·.packId)).Nodup
  fresh : ∀ j ∈ recordable (built.map (·.2)), j.packId ∉ t.jobs.map (·.jobId)

omit [LinearOrder Id] in
/-- The recordable jobs of a prefix are among those of the list. -/
theorem recordable_take (jobs : List (JobIn Id)) (n : ℕ) :
    (recordable (jobs.take n)).Sublist (recordable jobs) := (List.take_sublist n jobs).filter _

/-- Recording fails as a whole, or records the recordable jobs of the prefix. -/
theorem recordNow_records {built : List (PackIn Id × JobIn Id)} {t : Terminal Id}
    (hfits : Fits env c built t) (faults : PushFaults Id) (n : ℕ) :
    (faults.recordFails = true → ∃ e, recordNow faults c ((built.map (·.2)).take n) t = .error e) ∧
    (faults.recordFails = false → ∃ t', recordNow faults c ((built.map (·.2)).take n) t = .ok t' ∧
      Records c ((built.map (·.2)).take n) t t') := by
  unfold recordNow
  have hsub := recordable_take (built.map (·.2)) n
  constructor
  · intro h
    rw [if_pos h]
    exact ⟨_, rfl⟩
  · intro h
    rw [if_neg (by rw [h]; exact Bool.false_ne_true)]
    obtain ⟨t', hrun, hrecords⟩ := @recordJobs_records _ _ c faults.nowText
      ((built.map (·.2)).take n) t ((hsub.map _).nodup hfits.nodup)
      fun j hj => hfits.fresh j (hsub.subset hj)
    rw [hrun]
    exact ⟨t', rfl, hrecords⟩

/-- The jobs that an attempt records: those of the acknowledged packs, unless recording raises. -/
def newJobs (env : Setup Id) (faults : PushFaults Id) (built : List (PackIn Id × JobIn Id)) :
    List (JobIn Id) :=
  if faults.recordFails then []
  else recordable ((built.map (·.2)).take (ackedCount env faults (built.map (·.1))))

omit [LinearOrder Id] in
/-- The new jobs of an attempt are among its recordable ones. -/
theorem newJobs_sublist (faults : PushFaults Id) (built : List (PackIn Id × JobIn Id)) :
    (newJobs env faults built).Sublist (recordable (built.map (·.2))) := by
  unfold newJobs
  split
  · exact List.nil_sublist _
  · exact recordable_take _ _

/-- What an attempt does, and what is left of it at any of its moments: `new` are the jobs that
have been recorded. -/
structure Attempted (c : ℕ) (packs : List (PackIn Id)) (new : List (JobIn Id))
    (d d' : PushDesk Id) : Prop where
  filed : Filed d'.cloud
  keeps : ∀ id, Stored d.cloud id → Stored d'.cloud id
  only : ∀ id, Stored d'.cloud id → Stored d.cloud id ∨ ∃ p ∈ packs, p.packId = id
  reached : ∀ j ∈ new, Stored d'.cloud j.packId
  suppressions : d'.terminal.suppressions = d.terminal.suppressions
  contacts : d'.terminal.contacts = d.terminal.contacts
  keys : d'.terminal.jobs.map jobKey = d.terminal.jobs.map jobKey ++ new.map (newKey c)
  rows : RowsMoved c (fun k => ∃ j ∈ d'.terminal.jobs, (∃ p ∈ packs, p.packId = j.jobId) ∧
    j.campaignId = c ∧ j.recipientId = k) d.terminal.recipients d'.terminal.recipients
  sent : ∀ r ∈ d'.terminal.recipients, r.campaignId = c →
    (∃ j ∈ new, j.contactId = some r.contactId) → r.status ≠ .queued

/-- The cloud of an attempt, at whatever point its chunks stop. -/
theorem pushing_attempted {d : PushDesk Id} (hfiled : Filed d.cloud) (faults : PushFaults Id)
    (actor : Actor) (packs : List (PackIn Id)) {t : Terminal Id}
    (hsupp : t.suppressions = d.terminal.suppressions)
    (hcontacts : t.contacts = d.terminal.contacts)
    (hjobs : t.jobs.map jobKey = d.terminal.jobs.map jobKey)
    (hrows : t.recipients = d.terminal.recipients) :
    Attempted c packs [] d ⟨(pushAll env faults actor packs d.cloud).1, t⟩ := by
  have hend := @pushAll_end _ _ env _ hfiled faults actor packs
  refine ⟨hend.filed, hend.keeps, hend.only, by simp, hsupp, hcontacts, ?_, ?_, ?_⟩
  · rw [hjobs]
    exact (List.append_nil _).symm
  · rw [hrows]
    exact .refl _ _ _
  · rintro r - - ⟨j, hj, -⟩
    cases hj

omit [LinearOrder Id] in
/-- A job that an attempt may record is that of one of its packs. -/
theorem Fits.pack {built : List (PackIn Id × JobIn Id)} {t : Terminal Id}
    (hfits : Fits env c built t) {j : JobIn Id} (hj : j ∈ recordable (built.map (·.2))) :
    ∃ p ∈ built.map (·.1), p.packId = j.packId := by
  obtain ⟨b, hb, rfl⟩ := List.mem_map.mp (List.mem_of_mem_filter hj)
  exact ⟨b.1, List.mem_map_of_mem hb, hfits.ids b hb⟩

/-- The jobs of the acknowledged packs are those of packs that are stored. -/
theorem acked_stored {d : PushDesk Id} (hfiled : Filed d.cloud) {faults : PushFaults Id}
    {actor : Actor} {built : List (PackIn Id × JobIn Id)} (hfits : Fits env c built d.terminal)
    {j : JobIn Id}
    (hj : j ∈ recordable ((built.map (·.2)).take (ackedCount env faults (built.map (·.1))))) :
    Stored (pushAll env faults actor (built.map (·.1)) d.cloud).1 j.packId := by
  have htaken := List.mem_of_mem_filter hj
  rw [← List.map_take] at htaken
  obtain ⟨b, hb, rfl⟩ := List.mem_map.mp htaken
  rw [← hfits.ids b (List.mem_of_mem_take hb)]
  apply (pushAll_end hfiled faults actor (built.map (·.1))).reached
  rw [← List.map_take]
  exact List.mem_map_of_mem hb

/-- Once the recording is done, and some of the held outcomes are applied. -/
theorem recorded_attempted {d : PushDesk Id} (hfiled : Filed d.cloud) {faults : PushFaults Id}
    {actor : Actor} {built : List (PackIn Id × JobIn Id)} {t : Terminal Id}
    (hfits : Fits env c built d.terminal) (n : ℕ)
    (hrecords : Records c ((built.map (·.2)).take (ackedCount env faults (built.map (·.1))))
      (d.terminal.countPushing c (· + 1)) t) :
    Attempted c (built.map (·.1))
      (recordable ((built.map (·.2)).take (ackedCount env faults (built.map (·.1))))) d
      ⟨(pushAll env faults actor (built.map (·.1)) d.cloud).1, applyHeldNow faults
        ((recordOf (built.map (·.2))
          (pushAll env faults actor (built.map (·.1)) d.cloud).2).2.take n) t⟩ := by
  have hend := @pushAll_end _ _ env _ hfiled faults actor (built.map (·.1))
  have hheld := (@recordOf_end _ _ env _ hfiled faults actor (built.map (·.1)) (built.map (·.2))
    (by rw [List.length_map, List.length_map])).2
  have hsettles := @applyHeldNow_settles _ _ c (fun id => ∃ p ∈ built.map (·.1), p.packId = id)
    faults ((recordOf (built.map (·.2))
      (pushAll env faults actor (built.map (·.1)) d.cloud).2).2.take n) t
    fun o ho => hheld o (List.mem_of_mem_take ho)
  refine ⟨hend.filed, hend.keeps, hend.only, fun j hj => acked_stored hfiled hfits hj,
    hsettles.side.suppressions.trans hrecords.side.suppressions,
    hsettles.side.contacts.trans hrecords.side.contacts, hsettles.keys.trans hrecords.keys, ?_, ?_⟩
  · apply (hrecords.rows.mono _).trans (hsettles.rows.mono _)
    · -- a contact whose job has just been recorded
      rintro k ⟨j, hj, hk⟩
      have hkey : newKey c j ∈ t.jobs.map jobKey := by
        rw [hrecords.keys]
        exact List.mem_append_right _ (List.mem_map_of_mem hj)
      rw [← hsettles.keys] at hkey
      obtain ⟨i, hi, heq⟩ := List.mem_map.mp hkey
      simp only [jobKey, newKey, Prod.mk.injEq, hk, Option.getD_some] at heq
      obtain ⟨p, hp, hpj⟩ := hfits.pack ((recordable_take _ _).subset hj)
      exact ⟨i, hi, ⟨p, hp, hpj.trans heq.1.symm⟩, heq.2⟩
    · rintro k ⟨j, hj, hid, hcamp, hk⟩
      obtain ⟨i, hi, hkey⟩ := exists_of_keys hsettles.keys hj
      simp only [jobKey, Prod.mk.injEq] at hkey
      exact ⟨i, hi, hkey.1 ▸ hid, hkey.2.1.trans hcamp, hkey.2.2.trans hk⟩
  · rintro r hr hc hk
    obtain ⟨f, heq, hf⟩ := hsettles.rows
    rw [heq] at hr
    obtain ⟨r₁, hr₁, rfl⟩ := List.mem_map.mp hr
    obtain ⟨hcamp, hcontact, -, hqueued⟩ := hf r₁
    intro hq
    exact hrecords.sent r₁ hr₁ (hcamp.symm.trans hc) (hcontact ▸ hk) (hqueued hq)

/-- The terminal after an attempt: recorded and settled, or as it was. -/
theorem settlePush_terminal (faults : PushFaults Id) (jobs : List (JobIn Id)) (t : Terminal Id)
    (r : Except LaunchError (Pushed Id)) :
    (settlePush faults c jobs t r).1 =
      ((recordHeldNow faults c (recordOf jobs r).1 (recordOf jobs r).2 t).toOption).getD t := by
  cases r with
  | error e =>
    unfold recordHeldNow recordNow
    split
    · rfl
    · rfl
  | ok pushed =>
    cases pushed with
    | interrupted e n held =>
      unfold settlePush recordOf
      dsimp only
      cases recordHeldNow faults c (jobs.take n) held t with
      | ok t' => rfl
      | error e' => rfl
    | done ack =>
      unfold settlePush recordOf
      dsimp only
      cases recordHeldNow faults c jobs ack.held t with
      | ok t' => rfl
      | error e' => rfl

/-- What is left at the terminal once the push is settled: nothing new when recording raises. -/
theorem settled_cases {d : PushDesk Id} (hfiled : Filed d.cloud) (faults : PushFaults Id)
    (actor : Actor) {built : List (PackIn Id × JobIn Id)} (hfits : Fits env c built d.terminal) :
    (faults.recordFails = true → (settlePush faults c (built.map (·.2))
        (d.terminal.countPushing c (· + 1))
        (pushAll env faults actor (built.map (·.1)) d.cloud).2).1 =
          d.terminal.countPushing c (· + 1)) ∧
    (faults.recordFails = false → ∃ t, Records c
        ((built.map (·.2)).take (ackedCount env faults (built.map (·.1))))
        (d.terminal.countPushing c (· + 1)) t ∧
      recordNow faults c ((built.map (·.2)).take (ackedCount env faults (built.map (·.1))))
        (d.terminal.countPushing c (· + 1)) = .ok t ∧
      (settlePush faults c (built.map (·.2)) (d.terminal.countPushing c (· + 1))
        (pushAll env faults actor (built.map (·.1)) d.cloud).2).1 =
          applyHeldNow faults (recordOf (built.map (·.2))
            (pushAll env faults actor (built.map (·.1)) d.cloud).2).2 t) := by
  obtain ⟨hjobs, -⟩ := @recordOf_end _ _ env _ hfiled faults actor (built.map (·.1))
    (built.map (·.2)) (by rw [List.length_map, List.length_map])
  have hcounted : Fits env c built (d.terminal.countPushing c (· + 1)) :=
    ⟨hfits.ids, hfits.sends, hfits.nodup, hfits.fresh⟩
  obtain ⟨hfails, hrecords⟩ := recordNow_records hcounted faults
    (ackedCount env faults (built.map (·.1)))
  rw [settlePush_terminal, hjobs]
  unfold recordHeldNow
  constructor
  · intro hfail
    obtain ⟨e, he⟩ := hfails hfail
    rw [he]
    rfl
  · intro hfail
    obtain ⟨t, hrun, hdone⟩ := hrecords hfail
    refine ⟨t, hdone, hrun, ?_⟩
    rw [hrun]
    rfl

/-- **One attempt** pushes, and records the jobs of the packs that were acknowledged, or none. -/
theorem pushAttempt_attempted {d : PushDesk Id} (hfiled : Filed d.cloud) {faults : PushFaults Id}
    {actor : Actor} {built : List (PackIn Id × JobIn Id)} (hfits : Fits env c built d.terminal) :
    Attempted c (built.map (·.1)) (newJobs env faults built) d
      (pushAttempt env faults actor c built d).1 := by
  obtain ⟨hfails, hrecords⟩ := settled_cases hfiled faults actor hfits
  unfold pushAttempt newJobs
  dsimp only
  cases hfail : faults.recordFails with
  | true =>
    rw [hfails hfail]
    exact pushing_attempted (t := (d.terminal.countPushing c (· + 1)).countPushing c (· - 1)) hfiled
      faults actor (built.map (·.1)) rfl rfl rfl rfl
  | false =>
    obtain ⟨t, hdone, -, heq⟩ := hrecords hfail
    rw [heq]
    have hall := @recorded_attempted _ _ _ _ _ hfiled _ actor _ _ hfits
      (recordOf (built.map (·.2))
        (pushAll env faults actor (built.map (·.1)) d.cloud).2).2.length hdone
    rw [List.take_length] at hall
    exact ⟨hall.filed, hall.keeps, hall.only, hall.reached, hall.suppressions, hall.contacts,
      hall.keys, hall.rows, hall.sent⟩

/-- The count of pushes in flight is back where it was. -/
theorem pushAttempt_pushing {d : PushDesk Id} (hfiled : Filed d.cloud) {faults : PushFaults Id}
    {actor : Actor} {built : List (PackIn Id × JobIn Id)} (hfits : Fits env c built d.terminal) :
    (pushAttempt env faults actor c built d).1.terminal.pushing = d.terminal.pushing := by
  obtain ⟨hfails, hrecords⟩ := settled_cases hfiled faults actor hfits
  have hback : ∀ t : Terminal Id, t.pushing = (d.terminal.countPushing c (· + 1)).pushing →
      (t.countPushing c (· - 1)).pushing = d.terminal.pushing := by
    intro t ht
    unfold Terminal.countPushing at ht ⊢
    dsimp only at ht ⊢
    rw [ht, Function.update_self, Nat.add_sub_cancel, Function.update_idem, Function.update_eq_self]
  unfold pushAttempt
  dsimp only
  apply hback
  cases hfail : faults.recordFails with
  | true => rw [hfails hfail]
  | false =>
    obtain ⟨t, hdone, -, heq⟩ := hrecords hfail
    rw [heq]
    have hsettles := @applyHeldNow_settles _ _ c (fun _ => True) faults
      (recordOf (built.map (·.2)) (pushAll env faults actor (built.map (·.1)) d.cloud).2).2 t
      fun _ _ => trivial
    exact hsettles.side.pushing.trans hdone.side.pushing

/-- What an attempt returns: the error of the push, or that of the recording. -/
theorem pushAttempt_result {d : PushDesk Id} (hfiled : Filed d.cloud) {faults : PushFaults Id}
    {actor : Actor} {built : List (PackIn Id × JobIn Id)} (hfits : Fits env c built d.terminal) :
    (∀ e, pushFailure env faults (built.map (·.1)) = some e →
      (pushAttempt env faults actor c built d).2 = .error e) ∧
    (pushFailure env faults (built.map (·.1)) = none →
      (faults.recordFails = true → ∃ e, (pushAttempt env faults actor c built d).2 = .error e) ∧
      (faults.recordFails = false →
        ∃ ack, (pushAttempt env faults actor c built d).2 = .ok ack)) := by
  have hend := @pushAll_end _ _ env _ hfiled faults actor (built.map (·.1))
  have hcounted : Fits env c built (d.terminal.countPushing c (· + 1)) :=
    ⟨hfits.ids, hfits.sends, hfits.nodup, hfits.fresh⟩
  unfold pushAttempt
  dsimp only
  constructor
  · intro e hfailure
    rcases hend.raised e hfailure with ⟨-, hresult⟩ | ⟨-, held, hresult, -⟩
    · rw [hresult]
      rfl
    · rw [hresult]
      unfold settlePush
      dsimp only
      split
      · rfl
      · rfl
  · intro hfailure
    obtain ⟨ack, hresult, -⟩ := hend.done hfailure
    obtain ⟨hfails, hrecords⟩ := recordNow_records hcounted faults built.length
    rw [List.take_of_length_le (by rw [List.length_map])] at hfails hrecords
    rw [hresult]
    unfold settlePush recordHeldNow
    dsimp only
    constructor
    · intro hfail
      obtain ⟨e, he⟩ := hfails hfail
      rw [he]
      exact ⟨e, rfl⟩
    · intro hfail
      obtain ⟨t, hrun, -⟩ := hrecords hfail
      rw [hrun]
      exact ⟨_, rfl⟩

/-- Every moment of an attempt has what was recorded so far. -/
theorem moment_attempted {d d' : PushDesk Id} (hfiled : Filed d.cloud) {faults : PushFaults Id}
    {actor : Actor} {built : List (PackIn Id × JobIn Id)} (hfits : Fits env c built d.terminal)
    (h : PushMoment env faults actor c built d d') :
    ∃ new, new.Sublist (recordable (built.map (·.2))) ∧
      Attempted c (built.map (·.1)) new d d' := by
  cases h with
  | pushing n stored =>
    exact ⟨[], List.nil_sublist _, pushing_attempted (t := d.terminal.countPushing c (· + 1)) hfiled
      (faults.cutAt n stored) actor (built.map (·.1)) rfl rfl rfl rfl⟩
  | recording n t hrun =>
    obtain ⟨hjobs, -⟩ := @recordOf_end _ _ env _ hfiled faults actor (built.map (·.1))
      (built.map (·.2)) (by rw [List.length_map, List.length_map])
    obtain ⟨hfails, hrecords⟩ := recordNow_records
      (show Fits env c built (d.terminal.countPushing c (· + 1)) from
        ⟨hfits.ids, hfits.sends, hfits.nodup, hfits.fresh⟩) faults
      (ackedCount env faults (built.map (·.1)))
    rw [hjobs] at hrun
    cases hfail : faults.recordFails with
    | true =>
      obtain ⟨e, he⟩ := hfails hfail
      rw [he] at hrun
      cases hrun
    | false =>
      obtain ⟨t', hrun', hdone⟩ := hrecords hfail
      obtain rfl := Except.ok.inj (hrun.symm.trans hrun')
      exact ⟨_, recordable_take _ _, recorded_attempted hfiled hfits n hdone⟩
  | returned =>
    exact ⟨_, newJobs_sublist faults built, pushAttempt_attempted hfiled hfits⟩

end attempt

end Mailman.Analysis
