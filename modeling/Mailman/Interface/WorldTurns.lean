import Mailman.Model.Presses

/-!
# What one request writes

`CampaignWrite` is everything any program writes over a row of `campaigns`, by kind.
`TerminalTurn` is what one session does to the terminal, and `WorldTurn` what one request does
to the world, given which kinds the program may write for which campaign: nothing is said of
who writes when.
-/

set_option autoImplicit false

namespace Mailman.Interface

open Mailman.Library Mailman.Model

/-- The kinds of writes for a campaign: those of its row, of its batches, of the contact tables
(`db`), and a plan that chooses sends of it. -/
inductive WriteKind where
  | claim
  | openGen
  | closeGen
  | dispatch
  | cancel
  | retry
  | pause
  | change
  | edit
  | confirm
  | archive
  | tested
  | batch
  | db
  | choose
  deriving DecidableEq

/-- One write of a campaign row, of a kind that is allowed. -/
inductive CampaignWrite (may : WriteKind → Prop) : Campaign → Campaign → Prop where
  | claim (c) (h : may .claim) : CampaignWrite may c { c with relaunchSeq := c.relaunchSeq + 1 }
  | openGen (c) (h : may .openGen) (hopen : c.relaunchOpen = false) :
      CampaignWrite may c { c with relaunchGen := c.relaunchGen + 1, relaunchOpen := true }
  | closeGen (c) (h : may .closeGen) : CampaignWrite may c { c with relaunchOpen := false }
  | dispatch (c now) (h : may .dispatch) :
      CampaignWrite may c { c with
        status := .dispatched, dispatchedAt := some now
        lockUntil := some (now + c.lockDurationS), unsubsConfirmedAt := none }
  | cancel (c : Campaign) (clear : Bool) (h : may .cancel) :
      CampaignWrite may c { c with
        status := .cancelled, relaunchOpen := !clear && c.relaunchOpen }
  | retry (c) (h : may .retry) : CampaignWrite may c { c with status := .tested }
  | pause (c : Campaign) (st) (h : may .pause) (hst : st ∈ [.paused, .tested, .draft]) :
      CampaignWrite may c { c with status := st }
  | change (c st scheduledFor) (h : may .change) (hguard : c.status ≠ .archived) :
      CampaignWrite may c { c with status := st, scheduledFor := scheduledFor }
  | edit (c entityId humanSend humanSendCount scheduledFor) (h : may .edit) :
      CampaignWrite may c { c with entityId, humanSend, humanSendCount, scheduledFor }
  | confirm (c : Campaign) (nowText : String) (h : may .confirm) :
      CampaignWrite may c { c with unsubsConfirmedAt := some nowText }
  | archive (c) (h : may .archive) : CampaignWrite may c { c with status := .archived }
  | tested (c : Campaign) (nowText hash : String) (h : may .tested) :
      CampaignWrite may c { c with
        status := if c.status = .scheduled then .scheduled else .tested
        testSentAt := some nowText, templateHashAtTest := some hash }

/-- A row that `create_campaign` inserts. -/
structure FreshCampaign (c : Campaign) : Prop where
  gen : c.relaunchGen = 0
  closed : c.relaunchOpen = false
  seq : c.relaunchSeq = 0
  status : c.status = .draft ∨ c.status = .scheduled
  dispatchedAt : c.dispatchedAt = none
  untested : c.templateHashAtTest = none

/-- What one request does to the row of one campaign. -/
inductive RowTurn (may : WriteKind → Prop) : Option Campaign → Option Campaign → Prop where
  | same (row) : RowTurn may row row
  | create (c) (h : FreshCampaign c) : RowTurn may none (some c)
  | write (c c') (h : CampaignWrite may c c') : RowTurn may (some c) (some c')

variable {Id : Type}

/-- The batches of a campaign. -/
def batchesOf (t : Terminal Id) (c : ℕ) : List CampaignBatch :=
  t.batches.filter (·.campaignId = c)

/-- The columns that name a batch. -/
def batchKey (b : CampaignBatch) : ℕ × ℕ := (b.campaignId, b.batchNo)

/-- What one session does to the terminal. -/
structure TerminalTurn (may : ℕ → WriteKind → Prop) (t t' : Terminal Id) : Prop where
  rows : ∀ c, RowTurn (may c) (t.campaign? c) (t'.campaign? c)
  batches : ∀ c, may c .batch ∨ batchesOf t' c = batchesOf t c
  ids : (t.campaigns.map (·.id)).Nodup → (t'.campaigns.map (·.id)).Nodup
  keys : (t.batches.map batchKey).Nodup → (t'.batches.map batchKey).Nodup
  jobs : ∀ j ∈ t.jobs, ∃ j' ∈ t'.jobs, j'.jobId = j.jobId ∧ j'.campaignId = j.campaignId
  db : (∃ c, may c .db) ∨ t'.toDb = t.toDb
  templates : t'.templates = t.templates

/-- A job is recorded for the send. -/
def HasJob (env : Setup Id) (t : Terminal Id) (k : SendId) : Prop :=
  ∃ j ∈ t.jobs, j.jobId = env.ids.packId k ∧ j.campaignId = k.campaignId

/-- What one request does to the terminal, which packs leave for the cloud with it, and which
sends it chooses. -/
structure WorldTurn (env : Setup Id) (may : ℕ → WriteKind → Prop) (post : PackIn Id → Prop)
    (s t : World Id) : Prop where
  terminal : TerminalTurn may s.terminal t.terminal
  requests : t.requests = s.requests ∨ ∃ actor packs,
    t.requests = s.requests ++ [(actor, packs)] ∧ ∀ p ∈ packs, post p
  chosen : ∀ k ∈ t.chosen, k ∈ s.chosen ∨ may k.campaignId .choose ∧
    ∀ a < k.ordinal, HasJob env s.terminal { k with ordinal := a }

section turns

variable {env : Setup Id} {may : ℕ → WriteKind → Prop} {post : PackIn Id → Prop}
  {t t' t'' : Terminal Id} {s u : World Id}

/-! ## Sessions that leave the campaigns alone -/

/-- With the same campaigns the same one is found. -/
theorem campaign?_congr (h : t'.campaigns = t.campaigns) (c : ℕ) :
    t'.campaign? c = t.campaign? c := by
  unfold Terminal.campaign?
  rw [h]

/-- The same jobs are kept. -/
theorem keptJobs_of_eq (h : t'.jobs = t.jobs) :
    ∀ j ∈ t.jobs, ∃ j' ∈ t'.jobs, j'.jobId = j.jobId ∧ j'.campaignId = j.campaignId :=
  fun j hj => ⟨j, h ▸ hj, rfl, rfl⟩

/-- A session that writes none of the tables that are followed. -/
theorem TerminalTurn.of_eq (hcamp : t'.campaigns = t.campaigns) (hbatch : t'.batches = t.batches)
    (hdb : t'.toDb = t.toDb) (htemplates : t'.templates = t.templates) :
    TerminalTurn may t t' where
  rows c := campaign?_congr hcamp c ▸ .same _
  batches c := .inr (by unfold batchesOf; rw [hbatch])
  ids h := hcamp ▸ h
  keys h := hbatch ▸ h
  jobs := keptJobs_of_eq (congrArg Db.jobs hdb)
  db := .inr hdb
  templates := htemplates

/-- No change is a turn of any kind. -/
theorem TerminalTurn.refl (t : Terminal Id) : TerminalTurn may t t := .of_eq rfl rfl rfl rfl

/-- A session on the contact tables that keeps the jobs. -/
theorem TerminalTurn.db_of (c : ℕ) (hdb : may c .db) (hcamp : t'.campaigns = t.campaigns)
    (hbatch : t'.batches = t.batches)
    (hjobs : ∀ j ∈ t.jobs, ∃ j' ∈ t'.jobs, j'.jobId = j.jobId ∧ j'.campaignId = j.campaignId)
    (htemplates : t'.templates = t.templates) : TerminalTurn may t t' where
  rows c := campaign?_congr hcamp c ▸ .same _
  batches c := .inr (by unfold batchesOf; rw [hbatch])
  ids h := hcamp ▸ h
  keys h := hbatch ▸ h
  jobs := hjobs
  db := .inl ⟨c, hdb⟩
  templates := htemplates

/-- An update that keeps a column keeps the column of all rows. -/
theorem map_updateRows {α β : Type} {rows : List α} {p : α → Bool} {f : α → α} {key : α → β}
    (hkey : ∀ r, key (f r) = key r) : (updateRows rows p f).map key = rows.map key := by
  unfold updateRows
  rw [List.map_map]
  refine List.map_congr_left fun r _ => ?_
  simp only [Function.comp_apply]
  split
  · exact hkey r
  · rfl

/-- An update does not touch the rows outside its condition. -/
theorem filter_updateRows {α : Type} {rows : List α} {p q : α → Bool} {f : α → α}
    (hf : ∀ r, p r = true → q r = false ∧ q (f r) = false) :
    (updateRows rows p f).filter q = rows.filter q := by
  induction rows with
  | nil => rfl
  | cons r rows ih =>
    unfold updateRows at ih ⊢
    rw [List.map_cons, List.filter_cons, List.filter_cons, ih]
    cases hp : p r with
    | true =>
      obtain ⟨hr, hfr⟩ := hf r hp
      simp [hr, hfr]
    | false => simp

/-- An update of the batches of one campaign that renames none. -/
theorem TerminalTurn.updateBatches {c : ℕ} {p : CampaignBatch → Bool}
    {f : CampaignBatch → CampaignBatch} (hbatch : may c .batch)
    (hkey : ∀ b, batchKey (f b) = batchKey b) : TerminalTurn may t (t.updateBatches c p f) where
  rows c := .same _
  batches c' := by
    by_cases hc : c' = c
    · exact .inl (hc ▸ hbatch)
    · right
      refine filter_updateRows fun b hb => ?_
      simp only [decide_eq_true_eq] at hb
      have hsame : (f b).campaignId = b.campaignId := congrArg Prod.fst (hkey b)
      have hne : b.campaignId ≠ c' := fun h => hc (h ▸ hb.1)
      simp [hsame, hne]
  ids h := h
  keys h := by
    have hkeys : (t.updateBatches c p f).batches.map batchKey = t.batches.map batchKey :=
      map_updateRows hkey
    rw [hkeys]
    exact h
  jobs := keptJobs_of_eq rfl
  db := .inr rfl
  templates := rfl

/-! ## Sessions that write the campaigns -/

/-- The row of a campaign after an update of one. -/
theorem campaign?_updateCampaign {c : ℕ} {p : Campaign → Bool} {f : Campaign → Campaign}
    (hid : ∀ x, (f x).id = x.id) (c' : ℕ) : (t.updateCampaign c p f).campaign? c' =
      (t.campaign? c').map fun x => if x.id = c ∧ p x = true then f x else x := by
  unfold Terminal.campaign? Terminal.updateCampaign
  rw [find?_updateRows fun r _ _ => by rw [hid]]
  simp only [decide_eq_true_eq]

/-- The row that is found under an id has that id. -/
theorem campaign?_id {c : ℕ} {camp : Campaign} (h : t.campaign? c = some camp) : camp.id = c := by
  simpa using List.find?_some h

/-- An update of one campaign whose every changed row is an allowed write. -/
theorem TerminalTurn.update {c : ℕ} {p : Campaign → Bool} {f : Campaign → Campaign}
    (hid : ∀ x, (f x).id = x.id)
    (h : ∀ x, t.campaign? c = some x → p x = true → CampaignWrite (may c) x (f x)) :
    TerminalTurn may t (t.updateCampaign c p f) where
  rows c' := by
    rw [campaign?_updateCampaign hid]
    cases hrow : t.campaign? c' with
    | none => exact .same none
    | some row =>
      rw [Option.map_some]
      split
      · next hp =>
        have hc : c' = c := (campaign?_id hrow).symm.trans hp.1
        subst hc
        exact .write _ _ (h row hrow hp.2)
      · exact .same _
  batches c := .inr rfl
  ids h := by
    have hids : (t.updateCampaign c p f).campaigns.map (·.id) = t.campaigns.map (·.id) :=
      map_updateRows hid
    rw [hids]
    exact h
  keys h := h
  jobs := keptJobs_of_eq rfl
  db := .inr rfl
  templates := rfl

/-- What is in a list is at most its maximum. -/
theorem le_foldl_max {l : List ℕ} {a x : ℕ} (hx : x ≤ a ∨ x ∈ l) : x ≤ l.foldl max a := by
  induction l generalizing a with
  | nil => simpa using hx
  | cons b l ih =>
    apply ih
    rcases hx with hx | hx
    · exact .inl (hx.trans (Nat.le_max_left a b))
    · rcases List.mem_cons.mp hx with rfl | hx
      · exact .inl (Nat.le_max_right a x)
      · exact .inr hx

/-- A new row whose id is past every id there is. -/
theorem TerminalTurn.create {row : Campaign}
    (hid : row.id = (t.campaigns.map (·.id)).foldl max 0 + 1) (hfresh : FreshCampaign row) :
    TerminalTurn may t { t with campaigns := t.campaigns ++ [row] } where
  rows c := by
    unfold Terminal.campaign?
    rw [List.find?_append]
    cases hrow : t.campaigns.find? (·.id = c) with
    | some x => exact .same _
    | none =>
      rw [Option.none_or, List.find?_singleton]
      split
      · exact .create _ hfresh
      · exact .same _
  batches c := .inr rfl
  keys h := h
  ids h := by
    rw [List.map_append, List.map_singleton]
    refine List.Nodup.append h (List.nodup_singleton _) ?_
    intro i hi hrow
    have hle : i ≤ (t.campaigns.map (·.id)).foldl max 0 := le_foldl_max (.inr hi)
    have heq := List.mem_singleton.mp hrow
    omega
  jobs := keptJobs_of_eq rfl
  db := .inr rfl
  templates := rfl

/-! ## Two writes in one session -/

/-- Two turns, of which only one writes the campaigns. -/
theorem TerminalTurn.trans (h : TerminalTurn may t t') (h' : TerminalTurn may t' t'')
    (hcamp : t'.campaigns = t.campaigns ∨ t''.campaigns = t'.campaigns) :
    TerminalTurn may t t'' where
  rows c := by
    rcases hcamp with heq | heq
    · rw [← campaign?_congr heq]
      exact h'.rows c
    · rw [campaign?_congr heq]
      exact h.rows c
  batches c := by
    rcases h.batches c with hmay | heq
    · exact .inl hmay
    · exact (h'.batches c).imp_right fun heq' => heq'.trans heq
  ids hids := h'.ids (h.ids hids)
  keys hkeys := h'.keys (h.keys hkeys)
  jobs j hj := by
    obtain ⟨j₁, hj₁, hid₁, hc₁⟩ := h.jobs j hj
    obtain ⟨j₂, hj₂, hid₂, hc₂⟩ := h'.jobs j₁ hj₁
    exact ⟨j₂, hj₂, hid₂.trans hid₁, hc₂.trans hc₁⟩
  db := by
    rcases h.db with hmay | heq
    · exact .inl hmay
    · exact h'.db.imp_right fun heq' => heq'.trans heq
  templates := h'.templates.trans h.templates

/-- A fold of turns that leave the campaigns alone. -/
theorem TerminalTurn.foldl {α : Type} {f : Terminal Id → α → Terminal Id}
    (hf : ∀ t x, TerminalTurn may t (f t x)) (hcamp : ∀ t x, (f t x).campaigns = t.campaigns)
    (xs : List α) (t : Terminal Id) :
    TerminalTurn may t (xs.foldl f t) ∧ (xs.foldl f t).campaigns = t.campaigns := by
  induction xs generalizing t with
  | nil => exact ⟨.refl t, rfl⟩
  | cons x xs ih =>
    obtain ⟨hturn, heq⟩ := ih (f t x)
    exact ⟨(hf t x).trans hturn (.inl (hcamp t x)), heq.trans (hcamp t x)⟩

/-! ## What more may be written -/

section mono

/-- A write that may be made may be made among more kinds. -/
theorem CampaignWrite.mono {may may' : WriteKind → Prop} (h : ∀ k, may k → may' k)
    {x y : Campaign} (hw : CampaignWrite may x y) : CampaignWrite may' x y := by
  cases hw with
  | claim hk => exact .claim _ (h _ hk)
  | openGen hk hopen => exact .openGen _ (h _ hk) hopen
  | closeGen hk => exact .closeGen _ (h _ hk)
  | dispatch now hk => exact .dispatch _ now (h _ hk)
  | cancel clear hk => exact .cancel _ clear (h _ hk)
  | retry hk => exact .retry _ (h _ hk)
  | pause st hk hst => exact .pause _ st (h _ hk) hst
  | change st sf hk hguard => exact .change _ st sf (h _ hk) hguard
  | edit e hs n sf hk => exact .edit _ e hs n sf (h _ hk)
  | confirm nowText hk => exact .confirm _ nowText (h _ hk)
  | archive hk => exact .archive _ (h _ hk)
  | tested nowText hash hk => exact .tested _ nowText hash (h _ hk)

/-- A turn of one campaign stays one among more kinds. -/
theorem RowTurn.mono {may may' : WriteKind → Prop} (h : ∀ k, may k → may' k)
    {x y : Option Campaign} (hr : RowTurn may x y) : RowTurn may' x y := by
  cases hr with
  | same => exact .same _
  | create _ hf => exact .create _ hf
  | write _ _ hw => exact .write _ _ (hw.mono h)

/-- A turn of the terminal stays one among more kinds. -/
theorem TerminalTurn.mono {may' : ℕ → WriteKind → Prop} (h : ∀ c k, may c k → may' c k)
    (ht : TerminalTurn may t t') : TerminalTurn may' t t' where
  rows c := (ht.rows c).mono (h c)
  batches c := (ht.batches c).imp_left (h c _)
  ids := ht.ids
  keys := ht.keys
  jobs := ht.jobs
  db := ht.db.imp_left fun ⟨c, hc⟩ => ⟨c, h c _ hc⟩
  templates := ht.templates

/-- A turn of the world stays one among more kinds and more packs. -/
theorem WorldTurn.mono {may' : ℕ → WriteKind → Prop} {post' : PackIn Id → Prop}
    (h : ∀ c k, may c k → may' c k) (hpost : ∀ p, post p → post' p)
    (ht : WorldTurn env may post s u) : WorldTurn env may' post' s u := by
  refine ⟨ht.terminal.mono h, ?_, fun k hk => (ht.chosen k hk).imp_right fun hc =>
    ⟨h _ _ hc.1, hc.2⟩⟩
  rcases ht.requests with heq | ⟨actor, packs, heq, hp⟩
  · exact .inl heq
  · exact .inr ⟨actor, packs, heq, fun p hmem => hpost p (hp p hmem)⟩

end mono

/-! ## Requests -/

/-- A request that writes the terminal only. -/
theorem WorldTurn.of_terminal (h : TerminalTurn may s.terminal t) :
    WorldTurn env may post s { s with terminal := t } := ⟨h, .inl rfl, fun _ hk => .inl hk⟩

/-- A request that leaves the terminal, the requests and the chosen sends as they are. -/
theorem WorldTurn.of_eq (hterm : u.terminal = s.terminal) (hreq : u.requests = s.requests)
    (hchosen : u.chosen = s.chosen) : WorldTurn env may post s u :=
  ⟨hterm ▸ .refl _, .inl hreq, fun _ hk => .inl (hchosen ▸ hk)⟩

/-- No change is a turn of the world. -/
theorem WorldTurn.refl (s : World Id) : WorldTurn env may post s s := .of_eq rfl rfl rfl

end turns

end Mailman.Interface
