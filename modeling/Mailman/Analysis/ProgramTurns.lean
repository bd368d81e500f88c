import Mailman.Analysis.PressSafe
import Mailman.Interface.WorldTurns

/-!
# What every program may write

One lemma for each program of the terminal: its requests are turns of the world, of the kinds
that the program needs. Nothing is asked of the states the requests meet.
-/

set_option autoImplicit false

namespace Mailman.Analysis

open Mailman.Library Mailman.Model Mailman.Interface

variable {Id : Type} {env : Setup Id} {may : ℕ → WriteKind → Prop} {post : PackIn Id → Prop}
  {α β : Type} {c : ℕ}

/-- Every request of the program is a turn of the world, and where it returns, `Q` holds. -/
abbrev Turns (env : Setup Id) (may : ℕ → WriteKind → Prop) (post : PackIn Id → Prop)
    (Q : α → Prop) (p : LaunchProc Id α) : Prop :=
  Fallible.Yields (fun s _ t => WorldTurn env may post s t) Q p

/-! ## Rules -/

section rules

variable {Q : α → Prop}

/-- A request that only answers leaves the world as it is. -/
theorem turn_ask {f : World Id → WorldInput Id → World Id × Except LaunchError α}
    (hf : ∀ w i, (f w i).1 = w) (h : ∀ w i a, (f w i).2 = .ok a → Q a) :
    Turns env may post Q (Fallible.act f) :=
  Fallible.Yields.act fun w i => ⟨by rw [hf]; exact .refl w, h w i⟩

/-- A check of the connection writes nothing. -/
theorem turn_checked : Turns env may post (fun _ => True) (checked : LaunchProc Id Unit) := by
  refine turn_ask (fun w i => ?_) fun _ _ _ _ => trivial
  split <;> rfl

/-- A session is the turn that its transaction makes of the terminal. -/
theorem turn_session {f : Terminal Id → WorldInput Id → Terminal Id × α}
    (hf : ∀ t i, TerminalTurn may t (f t i).1) (h : ∀ t i, Q (f t i).2) :
    Turns env may post Q (session f) := by
  refine Fallible.Yields.act fun w i => ?_
  split
  · exact ⟨.refl w, fun a ha => by cases ha⟩
  · refine ⟨.of_terminal (hf w.terminal i), fun a ha => ?_⟩
    rw [Except.ok.injEq] at ha
    exact ha ▸ h w.terminal i

/-- A query writes nothing, and what it returns is read off the terminal. -/
theorem turn_query {f : Terminal Id → α} (h : ∀ t, Q (f t)) : Turns env may post Q (query f) :=
  turn_session (fun t _ => .refl t) fun t _ => h t

/-- A query of any kind writes nothing. -/
theorem turn_read {f : Terminal Id → α} : Turns env may post (fun _ => True) (query f) :=
  turn_query fun _ => trivial

/-- A commit is the turn that it makes of the terminal. -/
theorem turn_commit {f : Terminal Id → WorldInput Id → Terminal Id}
    (hf : ∀ t i, TerminalTurn may t (f t i)) : Turns env may post (fun _ => True) (commit f) :=
  turn_session hf fun _ _ => trivial

/-- A session that writes none of the tables that are followed. -/
theorem turn_quiet {f : Terminal Id → WorldInput Id → Terminal Id}
    (hcamp : ∀ t i, (f t i).campaigns = t.campaigns) (hbatch : ∀ t i, (f t i).batches = t.batches)
    (hdb : ∀ t i, (f t i).toDb = t.toDb) (htemplates : ∀ t i, (f t i).templates = t.templates) :
    Turns env may post (fun _ => True) (commit f) :=
  turn_commit fun t i => .of_eq (hcamp t i) (hbatch t i) (hdb t i) (htemplates t i)

/-- A refusal writes nothing. -/
theorem turn_require {p : Prop} [Decidable p] {e : LaunchError} :
    Turns env may post (fun _ => True) (Fallible.require p e : LaunchProc Id Unit) :=
  Fallible.Yields.require.mono (fun _ _ _ h => h) fun _ _ => trivial

/-- What is attempted makes the turns it would make unguarded. -/
theorem turn_attempt {p : LaunchProc Id α} (h : Turns env may post Q p) :
    Turns env may post (fun _ => True) p.attempt :=
  h.attempt.mono (fun _ _ _ h => h) fun _ _ => trivial

end rules

/-- Nothing but the cloud's side of the world changes. -/
structure CloudSide (s : World Id) (_ : WorldInput Id) (t : World Id) : Prop where
  terminal : t.terminal = s.terminal
  requests : t.requests = s.requests
  chosen : t.chosen = s.chosen

/-- A request on the cloud's side is a turn of no write. -/
theorem CloudSide.turn {s t : World Id} {i : WorldInput Id} (h : CloudSide s i t) :
    WorldTurn env may post s t := .of_eq h.terminal h.requests h.chosen

/-- A program of the cloud's side makes turns of no write. -/
theorem turn_lift {p : WorldProc Id α} (h : p.Every CloudSide) :
    Turns env may post (fun _ => True) (Fallible.lift p) :=
  Fallible.Yields.lift (Proc.Yields.mono h (fun _ _ _ h => h.turn) fun _ h => h)

/-- A program of the pack table stays on the cloud's side. -/
theorem every_onCloud (p : CloudProc Id α) : (onCloud p).Every CloudSide :=
  Proc.Every.zoom (Proc.every_true p) fun _ _ _ _ => ⟨rfl, rfl, rfl⟩

/-- A program of the key table stays on the cloud's side. -/
theorem every_onKeys (p : KeyProc α) : (onKeys p : WorldProc Id α).Every CloudSide :=
  Proc.Every.zoom (Proc.every_true p) fun _ _ _ _ => ⟨rfl, rfl, rfl⟩

/-- What the terminal was told of keys is on the cloud's side. -/
theorem every_report (f : World Id → List KTempReport) :
    (Proc.modify fun w (_ : WorldInput Id) => { w with reports := f w }).Every CloudSide :=
  Proc.Every.act fun _ _ => ⟨rfl, rfl, rfl⟩

/-! ## A push -/

section push

variable [LinearOrder Id]

omit [LinearOrder Id] in
/-- A request of `/packs` takes the packs of its part into the requests. -/
theorem turn_postPacks (actor : Actor) (part : List (PackIn Id))
    (hpost : ∀ p ∈ part, post p) :
    Turns env may post (fun _ => True) (postPacks actor part) := by
  refine Fallible.Yields.bind (Q := fun _ => True) (Fallible.Yields.act fun w i => ?_) fun n _ => ?_
  · exact ⟨⟨.refl _, .inr ⟨actor, part, rfl, hpost⟩, fun _ hk => .inl hk⟩, fun _ _ => trivial⟩
  · exact turn_ask (fun _ _ => rfl) fun _ _ _ _ => trivial

omit [LinearOrder Id] in
/-- Parts are pushed one request after the other. -/
theorem turn_pushParts (actor : Actor) (parts : List (List (PackIn Id))) (pushed : ℕ)
    (agg : PushAck Id) (hpost : ∀ p ∈ parts.flatten, post p) :
    Turns env may post (fun _ => True) (pushParts actor parts pushed agg) := by
  induction parts generalizing pushed agg with
  | nil => exact Fallible.Yields.pure trivial
  | cons part parts ih =>
    rw [List.flatten_cons] at hpost
    have hpart : Turns env may post (fun _ => True) (postPacks actor part) :=
      turn_postPacks actor part fun p hp => hpost p (List.mem_append_left _ hp)
    refine (turn_attempt hpart).bind fun reply _ => ?_
    cases reply with
    | ok ack => exact ih _ _ fun p hp => hpost p (List.mem_append_right _ hp)
    | error e =>
      dsimp only
      split
      · exact Fallible.Yields.pure trivial
      · exact Fallible.Yields.throw

omit [LinearOrder Id] in
/-- A push takes its packs into the requests. -/
theorem turn_pushPacks (actor : Actor) (packs : List (PackIn Id))
    (hpost : ∀ p ∈ packs, post p) :
    Turns env may post (fun _ => True) (pushPacks env actor packs) := by
  refine turn_pushParts actor _ 0 {} ?_
  rw [flatten_sliceBy env.packPushChunk_pos packs.length packs (Nat.le_refl _)]
  exact hpost

/-- One recorded job keeps all others. -/
theorem turn_recordJob (hdb : may c .db) {nowText : String} {t t' : Terminal Id} {j : JobIn Id}
    (h : t.recordJob c nowText j = some t') :
    TerminalTurn may t t' ∧ t'.campaigns = t.campaigns := by
  unfold Terminal.recordJob at h
  split at h
  · cases h
    exact ⟨.refl t, rfl⟩
  · split at h
    · cases h
      exact ⟨.refl t, rfl⟩
    · split at h
      · cases h
      · cases h
        refine ⟨.db_of c hdb rfl rfl (fun x hx => ?_) rfl, rfl⟩
        exact ⟨x, List.mem_append_left _ hx, rfl, rfl⟩

/-- Recorded jobs keep all others, and the campaigns. -/
theorem turn_recordJobs (hdb : may c .db) {nowText : String} {t t' : Terminal Id}
    (jobs : List (JobIn Id)) (h : jobs.foldlM (Terminal.recordJob c nowText) t = some t') :
    TerminalTurn may t t' ∧ t'.campaigns = t.campaigns := by
  induction jobs generalizing t with
  | nil =>
    cases h
    exact ⟨.refl _, rfl⟩
  | cons j jobs ih =>
    simp only [List.foldlM_cons, Option.bind_eq_bind, Option.bind_eq_some_iff] at h
    obtain ⟨t₁, h₁, h⟩ := h
    obtain ⟨hfirst, heq⟩ := turn_recordJob hdb h₁
    obtain ⟨hrest, heq'⟩ := ih h
    exact ⟨hfirst.trans hrest (.inl heq), heq'.trans heq⟩

/-- Recording a dispatch writes jobs and recipients alone. -/
theorem turn_recordDispatch (jobs : List (JobIn Id)) (held : List (PackOutcome Id))
    (hdb : may c .db) : Turns env may post (fun _ => True) (recordDispatch c jobs held) := by
  refine Fallible.Yields.act fun w i => ⟨?_, fun _ _ => trivial⟩
  split
  · exact .refl w
  · split
    · exact .refl w
    · next t heq => exact ⟨(turn_recordJobs hdb jobs heq).1, .inl rfl, fun _ hk => .inl hk⟩

/-- An outcome renames no job and gives none to another campaign. -/
theorem applyPackOutcome_kept (nowText : String) (db : Db Id) (p : PackOutcome Id) :
    ∀ j ∈ db.jobs, ∃ j' ∈ (applyPackOutcome nowText db p).jobs,
      j'.jobId = j.jobId ∧ j'.campaignId = j.campaignId := by
  intro j hj
  unfold applyPackOutcome
  dsimp only
  split
  · refine ⟨j, ?_, rfl, rfl⟩
    unfold applyUnknownOutcome
    split
    · exact hj
    · exact hj
  · split
    · exact ⟨j, hj, rfl, rfl⟩
    · refine ⟨_, mem_updateRows.mpr ⟨j, hj, rfl⟩, ?_⟩
      split
      · split
        · exact ⟨rfl, rfl⟩
        · exact ⟨rfl, rfl⟩
      · exact ⟨rfl, rfl⟩

/-- An applied outcome writes no campaign. -/
theorem turn_applyOutcome (p : PackOutcome Id) (hdb : may c .db) :
    Turns env may post (fun _ => True) (applyOutcome p) := by
  refine Fallible.Yields.act fun w i => ⟨?_, fun _ _ => trivial⟩
  split
  · exact .refl w
  · refine .of_terminal (.db_of c hdb rfl rfl ?_ rfl)
    exact applyPackOutcome_kept i.nowText w.terminal.toDb p

/-- Held outcomes are applied one by one. -/
theorem turn_applyHeldOutcomes (held : List (PackOutcome Id)) (hdb : may c .db) :
    Turns env may post (fun _ => True) (applyHeldOutcomes held) := by
  induction held with
  | nil => exact Fallible.Yields.pure trivial
  | cons p held ih =>
    unfold applyHeldOutcomes
    split
    · exact (turn_attempt (turn_applyOutcome p hdb)).bind fun _ _ => ih
    · exact ih

/-- Recording and applying write no campaign. -/
theorem turn_recordAndApply (jobs : List (JobIn Id)) (held : List (PackOutcome Id))
    (hdb : may c .db) : Turns env may post (fun _ => True) (recordAndApply id c jobs held) :=
  (turn_recordDispatch jobs held hdb).bind fun _ _ => turn_applyHeldOutcomes held hdb

omit [LinearOrder Id] in
/-- Counting a running push is no write that is followed. -/
theorem turn_countPush (f : ℕ → ℕ) :
    Turns env may post (fun _ => True) (countPush c f : LaunchProc Id Unit) :=
  Fallible.Yields.lift fun _ _ => ⟨.of_terminal (.of_eq rfl rfl rfl rfl), trivial⟩

/-- A push with its recording posts packs of the kind and writes jobs. -/
theorem turn_pushAndRecord (actor : Actor) (packs : List (PackIn Id)) (jobs : List (JobIn Id))
    (hpost : ∀ p ∈ packs, post p) (hdb : may c .db) :
    Turns env may post (fun _ => True) (pushAndRecord env id actor c packs jobs) := by
  refine (turn_countPush _).bind fun _ _ => ?_
  refine (turn_attempt (Q := fun _ => True) ?_).bind fun result _ => ?_
  · refine (turn_pushPacks actor packs hpost).bind fun pushed _ => ?_
    cases pushed with
    | interrupted error n held =>
      refine (turn_attempt (turn_recordAndApply _ held hdb)).bind fun _ _ => ?_
      exact Fallible.Yields.throw
    | done ack =>
      exact (turn_recordAndApply jobs ack.held hdb).bind fun _ _ => Fallible.Yields.pure trivial
  · refine (turn_countPush _).bind fun _ _ => ?_
    cases result with
    | ok ack => exact Fallible.Yields.pure trivial
    | error e => exact Fallible.Yields.throw

end push

/-! ## The context of a send -/

section context

variable [LinearOrder Id]

/-- A plan chooses send ids. -/
theorem turn_planSends (createdAt : String) (kind : SendKind) (sendKey : SendKey)
    (candidates : List Candidate) (hchoose : may c .choose) :
    Turns env may post (fun _ => True) (planSends env c createdAt kind sendKey candidates) := by
  refine turn_read.bind fun blocked _ => Fallible.Yields.act fun w i => ⟨?_, fun _ _ => trivial⟩
  split
  · exact .refl w
  · dsimp only
    split
    · exact .refl w
    · next plan hfold =>
      refine ⟨.refl _, .inl rfl, fun k hk => ?_⟩
      rcases List.mem_append.mp hk with hnew | hold
      · right
        obtain ⟨x, hx, rfl⟩ := List.mem_map.mp hnew
        have hallowed := (planSend_all candidates hfold x hx).resolve_left (by simp)
        refine ⟨hallowed.campaign.symm ▸ hchoose, fun a ha => ?_⟩
        obtain ⟨j, hj, hid⟩ := hallowed.recorded a ha
        obtain ⟨hmem, hcamp⟩ := List.mem_filter.mp hj
        refine ⟨j, hmem, hid, ?_⟩
        simpa [hallowed.campaign] using hcamp
      · exact .inl hold

omit [LinearOrder Id] in
/-- A refusal of closed campaigns writes nothing. -/
theorem turn_refuseClosed (closed : List CampaignStatus) :
    Turns env may post (fun _ => True) (refuseClosed c closed : LaunchProc Id Unit) :=
  turn_read.bind fun _ _ => turn_require

omit [LinearOrder Id] in
/-- Reading the bearer writes nothing. -/
theorem turn_readBearer (kind : LaunchErrorKind) :
    Turns env may post (fun _ => True) (readBearer kind : LaunchProc Id Actor) := by
  refine turn_read.bind fun bearer _ => ?_
  cases bearer with
  | none => exact Fallible.Yields.throw
  | some actor => exact Fallible.Yields.pure trivial

omit [LinearOrder Id] in
/-- Resolving the sender writes nothing. -/
theorem turn_resolveSender (camp : Campaign) :
    Turns env may post (fun _ => True) (resolveSender camp : LaunchProc Id Sender) := by
  refine Fallible.Yields.bind (Q := fun _ => True) (turn_ask (fun w i => ?_) fun _ _ _ _ => trivial)
    fun _ _ => turn_require.bind fun _ _ => Fallible.Yields.pure trivial
  split
  · split <;> rfl
  · rfl

omit [LinearOrder Id] in
/-- The preflight writes nothing. -/
theorem turn_preflight : Turns env may post (fun _ => True) (preflight : LaunchProc Id (Option String)) :=
  turn_checked.bind fun _ _ => turn_ask (fun _ _ => rfl) fun _ _ _ _ => trivial

omit [LinearOrder Id] in
/-- Asking for the key's status writes nothing on the terminal. -/
theorem turn_keyStatus :
    Turns env may post (fun _ => True) (keyStatus : LaunchProc Id (Option KTempReport)) := by
  refine Fallible.Yields.bind (Q := fun _ => True) (turn_ask (fun w i => ?_) fun _ _ _ _ => trivial)
    fun ok _ => ?_
  · split <;> rfl
  · split
    · refine (turn_lift (every_onKeys _)).bind fun report _ => ?_
      exact (turn_lift (every_report _)).bind fun _ _ => Fallible.Yields.pure trivial
    · exact Fallible.Yields.pure trivial

omit [LinearOrder Id] in
/-- Minting a key writes nothing on the terminal. -/
theorem turn_mintKTemp (bearer : Actor) :
    Turns env may post (fun _ => True) (mintKTemp env bearer : LaunchProc Id KTemp) := by
  refine turn_read.bind fun ttl _ => ?_
  refine Fallible.Yields.bind (Q := fun _ => True)
    (turn_ask (fun _ _ => rfl) fun _ _ _ _ => trivial) fun k _ => ?_
  refine turn_checked.bind fun _ _ => (turn_lift (every_onKeys _)).bind fun set _ => ?_
  cases set with
  | none => exact Fallible.Yields.throw
  | some item =>
    refine (turn_lift (every_report _)).bind fun _ _ => turn_checked.bind fun _ _ => ?_
    refine Fallible.Yields.bind (turn_quiet ?_ ?_ ?_ ?_) fun _ _ => Fallible.Yields.pure trivial
    all_goals exact fun _ _ => rfl

omit [LinearOrder Id] in
/-- Ensuring a key writes nothing on the terminal. -/
theorem turn_ensureKTemp (bearer : Actor) :
    Turns env may post (fun _ => True) (ensureKTemp env bearer : LaunchProc Id KTemp) := by
  refine turn_read.bind fun cached _ => ?_
  cases cached with
  | none => exact turn_mintKTemp bearer
  | some k =>
    refine turn_keyStatus.bind fun report _ => ?_
    split
    · exact Fallible.Yields.pure trivial
    · refine Fallible.Yields.bind (turn_quiet ?_ ?_ ?_ ?_) fun _ _ => turn_mintKTemp bearer
      all_goals exact fun _ _ => rfl

omit [LinearOrder Id] in
/-- The loaded context is of the campaign that was asked for. -/
theorem turn_loadSendCtx :
    Turns env may post (fun ctx => ctx.camp.id = c) (loadSendCtx env c : LaunchProc Id SendCtx) := by
  refine (turn_readBearer _).bind fun bearer _ => ?_
  refine (turn_query (Q := fun row => ∀ camp tmpl, row = some (camp, tmpl) → camp.id = c)
    fun t camp tmpl h => ?_).bind fun row hrow => ?_
  · obtain ⟨camp', hcamp, heq⟩ := Option.map_eq_some_iff.mp h
    rw [Prod.mk.injEq] at heq
    exact heq.1 ▸ campaign?_id hcamp
  · obtain _ | ⟨camp, _ | tmpl⟩ := row
    · exact Fallible.Yields.throw
    · exact Fallible.Yields.throw
    · refine turn_read.bind fun publicHost _ => (turn_resolveSender camp).bind fun sender _ => ?_
      refine turn_preflight.bind fun companyName _ => (turn_ensureKTemp bearer).bind fun k _ => ?_
      exact Fallible.Yields.pure (hrow camp _ rfl)

omit [LinearOrder Id] in
/-- Every pack of a press is of its campaign. -/
theorem buildPacks_campaign {ctx : SendCtx} {targets : List Target} {draw : ℕ → ℕ} {p : PackIn Id}
    (hp : p ∈ (buildPacks env ctx targets draw).map (·.1)) : p.campaignId = ctx.camp.id := by
  obtain ⟨x, hx, rfl⟩ := List.mem_map.mp hp
  unfold buildPacks at hx
  obtain ⟨n, hn, rfl⟩ := List.mem_mapIdx.mp hx
  rfl

end context

/-! ## One batch -/

section batch

variable [LinearOrder Id]

/-- The writes of a program that sends for a campaign. -/
structure SendMay (may : ℕ → WriteKind → Prop) (post : PackIn Id → Prop) (c : ℕ) : Prop where
  post : ∀ p : PackIn Id, p.campaignId = c → post p
  choose : may c .choose
  batch : may c .batch
  db : may c .db

omit [LinearOrder Id] in
/-- A change of batch rows that keeps their keys is a batch write. -/
theorem turn_batches {b : ℕ} {f : WorldInput Id → CampaignBatch → CampaignBatch}
    (hbatch : may c .batch) (hkey : ∀ i x, batchKey (f i x) = batchKey x) :
    Turns env may post (fun _ => True) (commit fun (t : Terminal Id) i =>
      t.updateBatches c (·.batchNo = b) (f i)) :=
  turn_commit fun _ i => .updateBatches hbatch (hkey i)

omit [LinearOrder Id] in
/-- Marking suppressed recipients writes recipients alone. -/
theorem turn_markSuppressed (rows : List (ℕ × SuppressionReason)) (hdb : may c .db) :
    Turns env may post (fun _ => True) (markSuppressed c rows : LaunchProc Id Unit) := by
  refine turn_commit fun t _ => (TerminalTurn.foldl (fun t x => ?_) (fun t x => ?_) rows t).1
  · exact .db_of c hdb rfl rfl (keptJobs_of_eq rfl) rfl
  · rfl

omit [LinearOrder Id] in
/-- Closing an empty batch is a batch write. -/
theorem turn_closeEmptyBatch (b : ℕ) (handedOver : Bool) (suppressed : ℕ)
    (hbatch : may c .batch) : Turns env may post (fun _ => True)
      (closeEmptyBatch c b handedOver suppressed : LaunchProc Id (BatchResult Id)) := by
  refine turn_session (fun t i => ?_) fun _ _ => trivial
  split
  · exact .updateBatches hbatch fun _ => rfl
  · exact .updateBatches hbatch fun _ => rfl

/-- The push of a batch makes the writes of a send. -/
theorem turn_pushBatch {ctx : SendCtx} (b : ℕ) (batchRow : Option CampaignBatch) (plan : SendPlan)
    (seeds : List String) (hctx : ctx.camp.id = c) (hmay : SendMay may post c) :
    Turns env may post (fun _ => True) (pushBatch env id ctx c b batchRow plan seeds) := by
  refine Fallible.Yields.bind (Q := fun _ => True) (turn_ask (fun w i => ?_) fun _ _ _ _ => trivial)
    fun times _ => ?_
  · split <;> rfl
  · obtain ⟨sendAts, draw⟩ := times
    refine turn_checked.bind fun _ _ => turn_require.bind fun _ _ => ?_
    refine Fallible.Yields.bind (turn_batches hmay.batch fun _ _ => rfl) fun _ _ => ?_
    refine (turn_pushAndRecord _ _ _ (fun p hp => hmay.post p ?_) hmay.db).bind fun ack _ => ?_
    · rw [buildPacks_campaign hp, hctx]
    · exact Fallible.Yields.bind (turn_batches hmay.batch fun _ _ => rfl) fun _ _ =>
        Fallible.Yields.pure trivial

/-- The dispatch of a chosen batch makes the writes of a send. -/
theorem turn_dispatchSelected {ctx : SendCtx} (b : ℕ) (hctx : ctx.camp.id = c)
    (hmay : SendMay may post c) : Turns env may post (fun _ => True) (dispatchSelected env id ctx c b) := by
  refine turn_read.bind fun row _ => ?_
  obtain ⟨recips, batchRow⟩ := row
  refine turn_require.bind fun _ _ => turn_read.bind fun gen _ => ?_
  cases gen with
  | none => exact Fallible.Yields.throw
  | some gen =>
    refine (turn_planSends _ _ _ _ hmay.choose).bind fun plan _ => turn_read.bind fun seeds _ => ?_
    refine turn_checked.bind fun _ _ => ?_
    refine (Fallible.Yields.onlyIf fun _ => turn_markSuppressed _ hmay.db).bind fun _ _ => ?_
    split
    · refine turn_require.bind fun _ _ => (turn_closeEmptyBatch _ _ _ hmay.batch).bind fun _ _ => ?_
      exact Fallible.Yields.pure trivial
    · exact turn_pushBatch b batchRow plan seeds hctx hmay

/-- The dispatch of a batch makes the writes of a send. -/
theorem turn_dispatchBatch (b : ℕ) {ctx : Option SendCtx}
    (hctx : ∀ x, ctx = some x → x.camp.id = c) (hmay : SendMay may post c) :
    Turns env may post (fun _ => True) (dispatchBatch env id c b ctx) := by
  refine (turn_refuseClosed _).bind fun _ _ => ?_
  cases ctx with
  | some ctx => exact turn_dispatchSelected b (hctx ctx rfl) hmay
  | none => exact turn_loadSendCtx.bind fun ctx hctx => turn_dispatchSelected b hctx hmay

/-- Finishing an interrupted batch makes the writes of a send. -/
theorem turn_finishInterruptedBatch (b : ℕ) (hmay : SendMay may post c) :
    Turns env may post (fun _ => True) (finishInterruptedBatch env id c b) := by
  refine (turn_dispatchBatch b (fun _ h => by cases h) hmay).bind fun res _ => ?_
  split
  · refine Fallible.Yields.bind (turn_commit fun t i => ?_) fun _ _ => Fallible.Yields.pure trivial
    have happroved : TerminalTurn may t (t.updateBatches c (·.batchNo = b) fun x =>
        { x with approvedAt := some i.nowText }) := .updateBatches hmay.batch fun _ => rfl
    refine happroved.trans (.updateBatches hmay.batch ?_) (.inl rfl)
    exact fun _ => rfl
  · exact Fallible.Yields.pure trivial

end batch

/-! ## A whole launch -/

section launch

variable [LinearOrder Id]

omit [LinearOrder Id] in
/-- The claim of a Re-launch is a claim write. -/
theorem turn_claimRelaunch (expectedSeq : Option ℕ) (hclaim : may c .claim) :
    Turns env may post (fun _ => True) (claimRelaunch c expectedSeq : LaunchProc Id Unit) := by
  refine Fallible.Yields.bind (Q := fun _ => True) (turn_session (fun t i => ?_) fun _ _ => trivial)
    fun _ _ => turn_require
  exact .update (fun _ => rfl) fun x _ _ => .claim x hclaim

omit [LinearOrder Id] in
/-- Opening a generation is a write of that kind. -/
theorem turn_openRelaunch (hopen : may c .openGen) :
    Turns env may post (fun _ => True) (openRelaunch c : LaunchProc Id (ℕ × Bool)) := by
  refine Fallible.Yields.bind (Q := fun _ => True) (turn_session (fun t i => ?_) fun _ _ => trivial)
    fun row _ => ?_
  · exact .update (fun _ => rfl) fun x _ hx => .openGen x hopen (by simpa using hx)
  · cases row with
    | none => exact Fallible.Yields.throw
    | some row => exact Fallible.Yields.pure trivial

/-- A planned launch posts packs of its campaign, chooses ids and closes as told. -/
theorem turn_launchPlanned {ctx : SendCtx} (recipients : List Candidate) (sendKey : SendKey)
    (mode : SendMode) (generation : Option ℕ) {close : Terminal Id → WorldInput Id → Terminal Id}
    (hctx : ctx.camp.id = c) (hpost : ∀ p : PackIn Id, p.campaignId = c → post p)
    (hchoose : may c .choose) (hdb : may c .db)
    (hclose : ∀ t i, TerminalTurn may t (close t i)) :
    Turns env may post (fun _ => True)
      (launchPlanned env id ctx c recipients sendKey mode generation close) := by
  refine (turn_planSends _ _ _ _ hchoose).bind fun plan _ => ?_
  refine Fallible.Yields.bind (Q := fun _ => True)
    (turn_ask (fun _ _ => rfl) fun _ _ _ _ => trivial) fun draw _ => turn_checked.bind fun _ _ => ?_
  refine (turn_pushAndRecord _ _ _ (fun p hp => hpost p ?_) hdb).bind fun ack _ => ?_
  · rw [buildPacks_campaign hp, hctx]
  · exact (turn_commit hclose).bind fun _ _ => Fallible.Yields.pure trivial

omit [LinearOrder Id] in
/-- A batch is inserted only where its key is free. -/
theorem turn_createBatch (hmay : SendMay may post c) (t : Terminal Id) (batch : List Candidate × ℕ) :
    TerminalTurn may t (Terminal.createBatch c t batch) := by
  unfold Terminal.createBatch
  dsimp only
  have hinsert : TerminalTurn may t (if (t.batch? c (batch.2 + 1)).isSome = true then t else
      { t with batches := t.batches ++
        [{ campaignId := c, batchNo := batch.2 + 1, size := batch.1.length }] }) := by
    split
    · exact .refl t
    · next hnone =>
      refine ⟨fun c => .same _, fun c' => ?_, fun h => h, fun h => ?_, keptJobs_of_eq rfl,
        .inr rfl, rfl⟩
      · by_cases hc : c = c'
        · exact .inl (hc ▸ hmay.batch)
        · right
          unfold batchesOf
          rw [List.filter_append]
          simp [hc]
      · rw [List.map_append, List.map_singleton]
        apply List.Nodup.append h (List.nodup_singleton _)
        intro k hk hnew
        obtain ⟨b, hb, rfl⟩ := List.mem_map.mp hk
        have hkey := List.mem_singleton.mp hnew
        simp only [batchKey, Prod.mk.injEq] at hkey
        apply hnone
        apply List.find?_isSome.mpr
        exact ⟨b, hb, by simp [hkey.1, hkey.2]⟩
  exact hinsert.trans (.db_of c hmay.db rfl rfl (keptJobs_of_eq rfl) rfl) (.inr rfl)

/-- A launch in batches makes the writes of a send and of a dispatch. -/
theorem turn_launchBatched {ctx : SendCtx} (recipients deliver : List Candidate)
    (hctx : ctx.camp.id = c) (hmay : SendMay may post c) (hdispatch : may c .dispatch) :
    Turns env may post (fun _ => True) (launchBatched env id ctx c recipients deliver) := by
  refine turn_require.bind fun _ _ => turn_checked.bind fun _ _ => turn_read.bind fun size _ => ?_
  split
  · exact Fallible.Yields.throw
  · next batches _ =>
    refine (turn_commit fun t i => ?_).bind fun _ _ => ?_
    · obtain ⟨hbatches, heq⟩ := TerminalTurn.foldl (turn_createBatch hmay)
        (fun t batch => by unfold Terminal.createBatch; dsimp only; split <;> rfl) batches.zipIdx t
      refine hbatches.trans ?_ (.inl heq)
      exact .update (fun _ => rfl) fun x _ _ => .dispatch x i.now hdispatch
    · refine (turn_dispatchBatch 1 (fun x hx => ?_) hmay).bind fun _ _ => Fallible.Yields.pure trivial
      cases hx
      exact hctx

omit [LinearOrder Id] in
/-- The campaign that a launch loads is the one that was asked for. -/
theorem loadLaunch_id {t : Terminal Id} {override : Option ℕ} {isStage relaunch : Bool}
    {row : Campaign × Template × List Candidate}
    (h : t.loadLaunch c override isStage relaunch = .ok row) : row.1.id = c := by
  unfold Terminal.loadLaunch at h
  split at h
  · cases h
  · next camp hcamp =>
    dsimp only at h
    repeat' split at h
    all_goals cases h
    all_goals exact campaign?_id hcamp

/-- The writes of a launch, after the claim. -/
structure LaunchMay (may : ℕ → WriteKind → Prop) (post : PackIn Id → Prop) (c : ℕ)
    (relaunch : Bool) (stageId : Option ℕ) : Prop where
  post : ∀ p : PackIn Id, p.campaignId = c → post p
  choose : may c .choose
  db : may c .db
  batch : stageId = none → may c .batch
  openGen : relaunch = true → may c .openGen
  closeGen : relaunch = true → may c .closeGen
  dispatch : relaunch = false → stageId = none → may c .dispatch

/-- A launch makes the writes of its kind once it is loaded. -/
theorem turn_launchLoaded (override stageId : Option ℕ) (relaunch : Bool) (bearer : Actor)
    (hmay : LaunchMay may post c relaunch stageId) :
    Turns env may post (fun _ => True) (launchLoaded env id c override stageId relaunch bearer) := by
  refine Fallible.Yields.bind (Q := fun row => row.1.id = c) (turn_ask (fun w i => ?_) ?_)
    fun row hrow => ?_
  · split <;> rfl
  · intro w i row hrow
    split at hrow
    · cases hrow
    · exact loadLaunch_id hrow
  obtain ⟨camp, tmpl, recipients⟩ := row
  refine turn_read.bind fun suppressed _ => turn_require.bind fun _ _ => ?_
  refine Fallible.Yields.bind (Q := fun _ => True)
    (turn_session (fun t _ => .refl t) fun _ _ => trivial) fun conflicts _ => ?_
  refine turn_require.bind fun _ _ => turn_read.bind fun publicHost _ => ?_
  refine (turn_resolveSender camp).bind fun sender _ => turn_preflight.bind fun companyName _ => ?_
  refine (turn_ensureKTemp bearer).bind fun k _ => ?_
  cases stageId with
  | some stageId =>
    refine turn_checked.bind fun _ _ => ?_
    exact turn_launchPlanned recipients _ _ _ hrow hmay.post hmay.choose hmay.db
      fun _ _ => .of_eq rfl rfl rfl rfl
  | none =>
    cases relaunch with
    | true =>
      refine turn_checked.bind fun _ _ => (turn_openRelaunch (hmay.openGen rfl)).bind fun g _ => ?_
      obtain ⟨gen, finishing⟩ := g
      refine turn_launchPlanned recipients _ _ _ hrow hmay.post hmay.choose hmay.db fun t i => ?_
      exact .update (fun _ => rfl) fun x _ _ => .closeGen x (hmay.closeGen rfl)
    | false =>
      have hsend : SendMay may post c := ⟨hmay.post, hmay.choose, hmay.batch rfl, hmay.db⟩
      exact turn_launchBatched recipients _ hrow hsend (hmay.dispatch rfl rfl)

/-- A launch makes the writes of its kind, the claim of a Re-launch first. -/
theorem turn_launchCampaign (override stageId : Option ℕ) (relaunch : Bool)
    (expectedSeq : Option ℕ) (hclaim : relaunch = true → may c .claim)
    (hbatch : relaunch = true → may c .batch) (hmay : LaunchMay may post c relaunch stageId) :
    Turns env may post (fun _ => True)
      (launchCampaign env id c override stageId relaunch expectedSeq) := by
  refine (Fallible.Yields.onlyIf fun _ => turn_refuseClosed _).bind fun _ _ => ?_
  refine (Fallible.Yields.onlyIf fun _ => turn_refuseClosed _).bind fun _ _ => ?_
  refine (turn_readBearer _).bind fun bearer _ => ?_
  split
  · next hre =>
    refine (turn_claimRelaunch _ (hclaim hre)).bind fun _ _ => turn_read.bind fun interrupted _ => ?_
    cases interrupted with
    | none => exact turn_launchLoaded override stageId relaunch bearer hmay
    | some b =>
      refine Fallible.Yields.bind (turn_finishInterruptedBatch b ?_) fun _ _ =>
        Fallible.Yields.pure trivial
      exact ⟨hmay.post, hmay.choose, hbatch hre, hmay.db⟩
  · exact turn_launchLoaded override stageId relaunch bearer hmay

end launch

/-! ## The other presses -/

section presses

variable [LinearOrder Id]

/-- An approve makes the writes of a send. -/
theorem turn_approveBatch (b : ℕ) (hmay : SendMay may post c) :
    Turns env may post (fun _ => True) (approveBatch env id c b) := by
  refine Fallible.Yields.bind (Q := fun _ => True)
    (turn_session (fun t _ => .refl t) fun _ _ => trivial) fun rows _ => ?_
  obtain ⟨row, prev, now⟩ := rows
  refine turn_require.bind fun _ _ => turn_require.bind fun _ _ => turn_require.bind fun _ _ => ?_
  refine (turn_dispatchBatch b (fun _ h => by cases h) hmay).bind fun result _ => ?_
  refine Fallible.Yields.bind (turn_commit fun t i => ?_) fun _ _ => Fallible.Yields.pure trivial
  dsimp only
  split
  · have happroved : TerminalTurn may t (t.updateBatches c (·.batchNo = b) fun x =>
        { x with approvedAt := some i.nowText }) := .updateBatches hmay.batch fun _ => rfl
    refine happroved.trans (.updateBatches hmay.batch ?_) (.inl rfl)
    exact fun _ => rfl
  · refine .updateBatches hmay.batch ?_
    exact fun _ => rfl

omit [LinearOrder Id] in
/-- A retry of the failed writes recipients and reopens the campaign. -/
theorem turn_retryFailed (hdb : may c .db) (hretry : may c .retry) :
    Turns env may post (fun _ => True) (retryFailed c : LaunchProc Id Unit) := by
  refine Fallible.Yields.bind (Q := fun _ => True) (turn_session (fun t _ => ?_) fun _ _ => trivial)
    fun _ _ => turn_require
  split
  · dsimp only
    have hreset : TerminalTurn may t (t.updateRecipients c (·.status = .failed) fun r =>
        { r with status := .queued, failureReason := none }) :=
      .db_of c hdb rfl rfl (keptJobs_of_eq rfl) rfl
    split
    · refine hreset.trans ?_ (.inl rfl)
      exact .update (fun _ => rfl) fun x _ _ => .retry x hretry
    · exact hreset
  · exact .refl t

omit [LinearOrder Id] in
/-- A pause, a resume or a return to draft is a write of that kind. -/
theorem turn_changeStatus {allowed : Campaign → Bool} (status : Campaign → CampaignStatus)
    (hst : ∀ x, status x ∈ [.paused, .tested, .draft]) (hpause : may c .pause) :
    Turns env may post (fun _ => True) (changeStatus c allowed status : LaunchProc Id Unit) := by
  apply turn_read.bind
  intro row _
  cases row with
  | none => exact Fallible.Yields.throw
  | some camp =>
    apply turn_require.bind
    intro _ _
    apply turn_commit
    intro t i
    exact .update (fun _ => rfl) fun x _ _ => .pause x _ hpause (hst camp)

omit [LinearOrder Id] in
/-- The transaction that ends a cancel. -/
theorem turn_cancelCommit (cloudOk : Bool) (hcancel : may c .cancel) (hbatch : may c .batch) :
    Turns env may post (fun _ => True) (cancelCommit c cloudOk : LaunchProc Id Unit) := by
  refine turn_commit fun t _ => ?_
  have hrow : TerminalTurn may t (t.updateCampaign c (fun _ => true) fun x =>
      { x with status := .cancelled
               relaunchOpen := !(cloudOk && t.pushing c = 0) && x.relaunchOpen }) :=
    .update (fun _ => rfl) fun x _ _ => .cancel x _ hcancel
  have hstatus := hrow.trans (.updateBatches (p := fun b => [.pending, .scheduled,
    .sending].contains b.status) (f := fun b => { b with status := .cancelled }) hbatch
    fun _ => rfl) (.inr rfl)
  dsimp only
  split
  · exact hstatus.trans (.updateBatches hbatch fun _ => rfl) (.inr rfl)
  · exact hstatus

/-- A cancel writes its campaign and closes its batches. -/
theorem turn_cancelCampaign (hcancel : may c .cancel) (hbatch : may c .batch) :
    Turns env may post (fun _ => True) (cancelCampaign c : LaunchProc Id Unit) := by
  refine turn_read.bind fun bearer _ => ?_
  cases bearer with
  | none => exact turn_cancelCommit false hcancel hbatch
  | some actor =>
    refine (turn_attempt (Q := fun _ => True) ?_).bind fun r _ => turn_cancelCommit _ hcancel hbatch
    exact turn_checked.bind fun _ _ => (turn_lift (every_onCloud _)).bind fun _ _ => turn_checked

/-- An archive is a cancel and then its own write. -/
theorem turn_archiveCampaign (hcancel : may c .cancel) (hbatch : may c .batch)
    (harchive : may c .archive) :
    Turns env may post (fun _ => True) (archiveCampaign c : LaunchProc Id Unit) := by
  refine turn_read.bind fun camp _ => ?_
  cases camp with
  | none => exact Fallible.Yields.throw
  | some camp =>
    refine turn_read.bind fun live _ => ?_
    refine (Fallible.Yields.onlyIf fun _ => turn_cancelCampaign hcancel hbatch).bind fun _ _ => ?_
    refine turn_commit fun t _ => ?_
    exact .update (fun _ => rfl) fun x _ _ => .archive x harchive

omit [LinearOrder Id] in
/-- A test mail marks its campaign as tested. -/
theorem turn_markTested (htested : may c .tested) :
    Turns env may post (fun _ => True) (markTested c : LaunchProc Id Unit) := by
  refine Fallible.Yields.bind (Q := fun _ => True) (turn_session (fun t i => ?_) fun _ _ => trivial)
    fun _ _ => turn_require
  split
  · exact .refl t
  · exact .update (fun _ => rfl) fun x _ _ => .tested x _ _ htested

omit [LinearOrder Id] in
/-- A new campaign changes none that is there. -/
theorem turn_createCampaign (templateId : ℕ) (kind : SendKind) (entityId : Option ℕ)
    (scheduledFor : ScheduledFor) :
    Turns env may post (fun _ => True)
      (createCampaign templateId kind entityId scheduledFor : LaunchProc Id Unit) := by
  refine Fallible.Yields.bind (Q := fun _ => True) (turn_session (fun t i => ?_) fun _ _ => trivial)
    fun _ _ => turn_require
  split
  · refine .create rfl ⟨rfl, rfl, rfl, ?_, rfl, rfl⟩
    dsimp only
    split
    · exact .inl rfl
    · exact .inr rfl
  · exact .refl t

omit [LinearOrder Id] in
/-- New recipients change no campaign. -/
theorem turn_addRecipients (contactIds : List ℕ) (hdb : may c .db) :
    Turns env may post (fun _ => True) (addRecipients c contactIds : LaunchProc Id Unit) := by
  refine Fallible.Yields.bind (Q := fun _ => True) (turn_session (fun t i => ?_) fun _ _ => trivial)
    fun _ _ => turn_require
  split
  · refine (TerminalTurn.foldl (fun t x => ?_) (fun t x => ?_) contactIds t).1
    · split
      · exact .refl t
      · exact .db_of c hdb rfl rfl (keptJobs_of_eq rfl) rfl
    · split <;> rfl
  · exact .refl t

/-- A launch of a stage sends for whatever campaign the stage is of. -/
theorem turn_launchStage (stageId : ℕ) (hpost : ∀ p, post p) (hchoose : ∀ c, may c .choose)
    (hdb : ∀ c, may c .db) :
    Turns env may post (fun _ => True) (launchStage env id stageId) := by
  refine turn_read.bind fun row _ => ?_
  cases row with
  | none => exact Fallible.Yields.pure trivial
  | some row =>
    refine turn_read.bind fun stillDue _ => Fallible.Yields.onlyIf fun _ => ?_
    have hmay : LaunchMay may post row.campaignId false (some stageId) := by
      refine ⟨fun p _ => hpost p, hchoose _, hdb _, ?_, ?_, ?_, ?_⟩ <;> simp
    have hlaunch : Turns env may post (fun _ => True) (launchCampaign env id row.campaignId
        (some row.templateId) (some stageId) false none) :=
      turn_launchCampaign _ _ _ _ nofun nofun hmay
    refine (turn_attempt hlaunch).bind fun result _ => ?_
    cases result with
    | ok _ => exact Fallible.Yields.pure trivial
    | error e =>
      refine Fallible.Yields.onlyIf fun _ => turn_quiet ?_ ?_ ?_ ?_
      all_goals exact fun _ _ => rfl

/-! ## The outcomes loop -/

/-- Applied outcomes change no campaign. -/
theorem turn_applyOutcomes (rows : List (Pack Id)) (hdb : may c .db) :
    Turns env may post (fun _ => True) (applyOutcomes rows) := by
  induction rows with
  | nil => exact Fallible.Yields.pure trivial
  | cons v rows ih => exact (turn_applyOutcome _ hdb).bind fun _ _ => ih

/-- A round of outcomes changes no campaign. -/
theorem turn_outcomesRound (hdb : may c .db) :
    Turns env may post (fun _ => True) (outcomesRound id : LaunchProc Id Unit) := by
  refine turn_read.bind fun since _ => ?_
  have hfetch : Turns env may post (fun _ => True)
      (fetchOutcomes since 200 : LaunchProc Id (List (Pack Id))) := by
    refine Fallible.Yields.act fun w i => ⟨?_, fun _ _ => trivial⟩
    split
    · exact .refl w
    · exact .of_eq rfl rfl rfl
  refine hfetch.bind fun rows _ => Fallible.Yields.onlyIf fun _ => ?_
  refine (turn_applyOutcomes rows hdb).bind fun _ _ => ?_
  refine Fallible.Yields.act fun w i => ⟨?_, fun _ _ => trivial⟩
  split
  · exact .refl w
  · exact ⟨.of_eq rfl rfl rfl rfl, .inl rfl, fun _ hk => .inl hk⟩

end presses

/-! ## All of them -/

section all

/-- What an operation may write. -/
def opWrites : WorldOp Id → ℕ → WriteKind → Prop
  | .launch c, c', k => c' = c ∧ k ∈ [.choose, .batch, .db, .dispatch]
  | .relaunch c _, c', k => c' = c ∧ k ∈ [.choose, .batch, .db, .claim, .openGen, .closeGen]
  | .approve c _, c', k => c' = c ∧ k ∈ [.choose, .batch, .db]
  | .stage _, _, k => k ∈ [.choose, .db]
  | .retryFailed c, c', k => c' = c ∧ k ∈ [.retry, .db]
  | .pause c, c', k => c' = c ∧ k ∈ [.pause]
  | .resume c, c', k => c' = c ∧ k ∈ [.pause]
  | .cancel c, c', k => c' = c ∧ k ∈ [.cancel, .batch]
  | .archive c, c', k => c' = c ∧ k ∈ [.cancel, .batch, .archive]
  | .markTested c, c', k => c' = c ∧ k ∈ [.tested]
  | .createCampaign .., _, _ => False
  | .addRecipients c _, c', k => c' = c ∧ k ∈ [.db]
  | .pollOutcomes, _, k => k ∈ [.db]
  | .webhook _, _, k => k ∈ [.db]
  | .servePush _, _, _ => False
  | .deliver _, _, _ => False
  | .cancelPack _, _, _ => False
  | .expireStaleClaims .., _, _ => False
  | .revokeKey, _, _ => False

/-- The packs an operation may push. -/
def opPosts : WorldOp Id → PackIn Id → Prop
  | .launch c, p => p.campaignId = c
  | .relaunch c _, p => p.campaignId = c
  | .approve c _, p => p.campaignId = c
  | .stage _, _ => True
  | _, _ => False

/-- A press makes the turns of its program, whatever it raises. -/
theorem turn_press {p : LaunchProc Id α} (h : Turns env may post (fun _ => True) p) :
    (press p).Every fun s _ t => WorldTurn env may post s t :=
  Proc.Yields.bind h fun _ _ => trivial

/-- A program of the cloud's side makes turns of the world. -/
theorem turn_cloudSide {p : WorldProc Id Unit} (h : p.Every CloudSide) :
    p.Every fun s _ t => WorldTurn env may post s t :=
  Proc.Yields.mono h (fun _ _ _ hst => hst.turn) fun _ h => h

variable [LinearOrder Id]

/-- Serving a push is on the cloud's side. -/
theorem every_servePush (request : ℕ) : (servePush request : WorldProc Id Unit).Every CloudSide := by
  refine Proc.Every.bind (Proc.Every.get fun _ _ => ⟨rfl, rfl, rfl⟩) fun body => ?_
  cases body with
  | none => trivial
  | some body =>
    exact (every_onCloud _).bind fun ack => Proc.Every.act fun _ _ => ⟨rfl, rfl, rfl⟩

/-- **Every request of an operation is a turn of the kinds it may write.** -/
theorem turn_worldCode (n : ℕ) (op : WorldOp Id) :
    (worldCode env id n op).Every fun s _ t => WorldTurn env (opWrites op) (opPosts op) s t := by
  cases op with
  | launch c =>
    refine turn_press (turn_launchCampaign _ _ _ _ nofun nofun ?_)
    constructor <;> simp [opWrites, opPosts]
  | relaunch c expectedSeq =>
    refine turn_press (turn_launchCampaign (c := c) _ _ _ _ (fun _ => ?_) (fun _ => ?_) ?_)
    · simp [opWrites]
    · simp [opWrites]
    · constructor <;> simp [opWrites, opPosts]
  | approve c b =>
    refine turn_press (turn_approveBatch b ?_)
    constructor <;> simp [opWrites, opPosts]
  | stage stageId =>
    refine turn_press (turn_launchStage stageId (fun _ => trivial) (fun _ => ?_) fun _ => ?_)
    · simp [opWrites]
    · simp [opWrites]
  | retryFailed c => refine turn_press (turn_retryFailed ?_ ?_) <;> simp [opWrites]
  | pause c => exact turn_press (turn_changeStatus _ (by simp) (by simp [opWrites]))
  | resume c =>
    apply turn_press
    apply turn_changeStatus _ _ (by simp [opWrites])
    intro x
    split <;> simp
  | cancel c => refine turn_press (turn_cancelCampaign ?_ ?_) <;> simp [opWrites]
  | archive c => refine turn_press (turn_archiveCampaign ?_ ?_ ?_) <;> simp [opWrites]
  | markTested c => exact turn_press (turn_markTested (by simp [opWrites]))
  | createCampaign templateId kind entityId scheduledFor =>
    exact turn_press (turn_createCampaign templateId kind entityId scheduledFor)
  | addRecipients c contactIds => exact turn_press (turn_addRecipients contactIds (by simp [opWrites]))
  | pollOutcomes => exact turn_press (turn_outcomesRound (c := 0) (by simp [opWrites]))
  | webhook payload =>
    refine turn_press (turn_commit fun t i => ?_)
    refine .db_of 0 (by simp [opWrites]) rfl rfl (keptJobs_of_eq ?_) rfl
    exact applyWebhookEvent_jobs ..
  | servePush request => exact turn_cloudSide (every_servePush request)
  | deliver id => exact turn_cloudSide (every_onCloud _)
  | cancelPack id => exact turn_cloudSide (every_onCloud _)
  | expireStaleClaims o l => exact turn_cloudSide (every_onCloud _)
  | revokeKey => exact turn_cloudSide (every_onKeys _)

end all

end Mailman.Analysis
