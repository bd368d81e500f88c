import Mathlib.Data.Prod.Lex
import Mathlib.Data.String.Basic
import Mailman.Analysis.LifecycleTurns
import Mailman.Library.Following

/-!
# Re-launch claims and generations

A Re-launch press bumps `relaunch_seq` before it decides anything, and only later may it open a
generation. The claim puts one coin in the press's purse and an opening takes it out again, so
no schedule opens more generations than there were claims.
-/

set_option autoImplicit false

namespace Mailman.Analysis

open Mailman.Library Mailman.Model Mailman.Interface

variable {Id : Type} [LinearOrder Id] {env : Setup Id} {c : ℕ}

/-- `relaunch_gen` of a campaign. -/
def genOf (c : ℕ) (w : World Id) : ℕ := ((w.terminal.campaign? c).map (·.relaunchGen)).getD 0

/-- `relaunch_seq` of a campaign. -/
def seqOf (c : ℕ) (w : World Id) : ℕ := ((w.terminal.campaign? c).map (·.relaunchSeq)).getD 0

/-- `relaunch_open` of a campaign. -/
def openOf (c : ℕ) (w : World Id) : Bool := (w.terminal.campaign? c).any (·.relaunchOpen)

/-- The campaign has a row. -/
def HasCampaign (c : ℕ) (w : World Id) : Prop := (w.terminal.campaign? c).isSome = true

/-- A Re-launch press once it is past its claim. SOURCE: terminal/launch.py:287-462 -/
def claimed (env : Setup Id) (c : ℕ) (bearer : Actor) : LaunchProc Id (LaunchSummary Id) := do
  let interrupted ← query (·.interrupted? c)
  match interrupted with
  | some batchNo => do
    let res ← finishInterruptedBatch env id c batchNo
    pure { mode := .finishBatch, dispatched := res.recipients, suppressed := res.suppressed
           totalRecipients := res.recipients, cloudAck := res.cloudAck }
  | none => launchLoaded env id c none none true bearer

/-- A Re-launch press whose next request is its claim. -/
def atClaim (env : Setup Id) (c : ℕ) (expectedSeq : Option ℕ) (bearer : Actor) :
    WorldProc Id Unit := press (claimRelaunch c expectedSeq >>= fun _ => claimed env c bearer)

/-- Number `n`'s next request is the claim of a press that carries `expectedSeq`, and the press
gets past it. -/
def PassesClaim (env : Setup Id) (c : ℕ) (expectedSeq : Option ℕ)
    (p : Pool (World Id) (WorldInput Id)) (n : ℕ) (i : WorldInput Id) : Prop :=
  ∃ bearer, p.running n = atClaim env c expectedSeq bearer ∧
    (p.exec (lifecycleCode env id) (.step n i)).running n = press (claimed env c bearer)

/-- Number `n`'s next request is the claim of a press that carries `expectedSeq`, and the press
ends there, with no database error: it is refused with `RelaunchConflict`. -/
def RefusedAtClaim (env : Setup Id) (c : ℕ) (expectedSeq : Option ℕ)
    (p : Pool (World Id) (WorldInput Id)) (n : ℕ) (i : WorldInput Id) : Prop :=
  (∃ bearer, p.running n = atClaim env c expectedSeq bearer) ∧ i.fails = false ∧
    (p.exec (lifecycleCode env id) (.step n i)).running n = .ret ()

/-! ## What a turn does to the marks -/

section marks

variable {may : ℕ → WriteKind → Prop} {post : PackIn Id → Prop} {s t : World Id}

omit [LinearOrder Id] in
/-- A generation is opened only where none is open. -/
theorem gen_turn (h : WorldTurn env may post s t) : genOf c t = genOf c s ∨
    may c .openGen ∧ openOf c s = false ∧ openOf c t = true ∧ genOf c t = genOf c s + 1 := by
  have hrow := h.terminal.rows c
  unfold genOf openOf
  generalize s.terminal.campaign? c = x at hrow ⊢
  generalize t.terminal.campaign? c = y at hrow ⊢
  cases hrow with
  | same => exact .inl rfl
  | create x hx => exact .inl hx.gen
  | write x y hw =>
    cases hw with
    | openGen h hopen => exact .inr ⟨h, hopen, rfl, rfl⟩
    | claim | closeGen | dispatch | cancel | retry | pause | change | edit | confirm | archive | tested =>
      exact .inl rfl

omit [LinearOrder Id] in
/-- A turn keeps the sequence number, or is a claim and raises it by one. -/
theorem seq_turn (h : WorldTurn env may post s t) :
    seqOf c t = seqOf c s ∨ may c .claim ∧ seqOf c t = seqOf c s + 1 := by
  have hrow := h.terminal.rows c
  unfold seqOf
  generalize s.terminal.campaign? c = x at hrow ⊢
  generalize t.terminal.campaign? c = y at hrow ⊢
  cases hrow with
  | same => exact .inl rfl
  | create x hx => exact .inl hx.seq
  | write x y hw =>
    cases hw with
    | claim h => exact .inr ⟨h, rfl⟩
    | openGen | closeGen | dispatch | cancel | retry | pause | change | edit | confirm | archive | tested =>
      exact .inl rfl

omit [LinearOrder Id] in
/-- A turn keeps the campaign. -/
theorem exists_turn (h : WorldTurn env may post s t) (hs : HasCampaign c s) : HasCampaign c t := by
  have hrow := h.terminal.rows c
  unfold HasCampaign at hs ⊢
  generalize s.terminal.campaign? c = x at hrow hs
  generalize t.terminal.campaign? c = y at hrow ⊢
  cases hrow with
  | same => exact hs
  | create => rfl
  | write => rfl

/-- A turn that neither claims nor opens, for campaign `c`. -/
def keepsMarks (c : ℕ) : ℕ → WriteKind → Prop := fun c' k => c' = c → k ≠ .claim ∧ k ≠ .openGen

omit [LinearOrder Id] in
/-- A turn without claim and opening keeps the generation and the sequence number. -/
theorem keepsMarks_turn (h : WorldTurn env (keepsMarks c) post s t) :
    genOf c t = genOf c s ∧ seqOf c t = seqOf c s := by
  constructor
  · rcases gen_turn h with heq | ⟨hmay, -⟩
    · exact heq
    · exact absurd rfl (hmay rfl).2
  · rcases seq_turn h with heq | ⟨hmay, -⟩
    · exact heq
    · exact absurd rfl (hmay rfl).1

end marks

/-! ## Purses -/

section purses

variable {α β : Type} {I : World Id → Prop} {g : World Id → ℤ} {k : ℕ} {Q : α → Prop}

/-- Nothing raises `g` but an opening, and that by one. -/
structure Priced (c : ℕ) (g : World Id → ℤ) : Prop where
  keep : ∀ s t, genOf c t = genOf c s → seqOf c t = seqOf c s → g t ≤ g s
  opening : ∀ s t, genOf c t ≤ genOf c s + 1 → seqOf c t = seqOf c s → g t ≤ g s + 1

/-- With `k` in its purse the program can pay for what it opens. -/
abbrev Pays (I : World Id → Prop) (g : World Id → ℤ) (k : ℕ) (p : LaunchProc Id α) : Prop :=
  p.run.Affords I g (fun _ _ => True) k

omit [LinearOrder Id] in
/-- A program without claim and opening costs nothing. -/
theorem pays_turns (hg : Priced c g) {p : LaunchProc Id α} (h : Turns env (keepsMarks c) (fun _ => True) Q p) :
    Pays I g k p := by
  refine (Proc.Affords.of_yields h (fun s _ t hst => ?_) k).mono fun _ _ _ => trivial
  exact hg.keep s t (keepsMarks_turn hst).1 (keepsMarks_turn hst).2

omit [LinearOrder Id] in
/-- A sequence costs what its parts do. -/
theorem pays_bind {p : LaunchProc Id α} {f : α → LaunchProc Id β}
    (h : p.run.Affords I g (fun r j => ∀ a, r = .ok a → Pays I g j (f a)) k) :
    Pays I g k (p >>= f) := by
  unfold Pays
  rw [Fallible.run_bind]
  refine Proc.Affords.bind (h.mono fun r j hr => ?_)
  cases r with
  | error e => trivial
  | ok a => exact hr a rfl

omit [LinearOrder Id] in
/-- The sequencing rule for a first part that neither claims nor opens. -/
theorem pays_then (env : Setup Id) (hg : Priced c g) {p : LaunchProc Id α} {f : α → LaunchProc Id β}
    (h : Turns env (keepsMarks c) (fun _ => True) Q p) (hf : ∀ a, Q a → Pays I g k (f a)) : Pays I g k (p >>= f) := by
  refine pays_bind ((Proc.Affords.of_yields h (fun s _ t hst => ?_) k).mono ?_)
  · exact hg.keep s t (keepsMarks_turn hst).1 (keepsMarks_turn hst).2
  · rintro r j ⟨hr, rfl⟩ a ha
    exact hf a (hr a ha)

omit [LinearOrder Id] in
/-- An opening costs one coin. -/
theorem pays_openRelaunch (env : Setup Id) (hg : Priced c g) {f : ℕ × Bool → LaunchProc Id β}
    (hf : ∀ row, Pays I g 0 (f row)) : Pays I g 1 (openRelaunch c >>= f) := by
  refine pays_bind ?_
  unfold openRelaunch
  rw [Fallible.run_bind]
  have hturns : Turns env (fun _ k => k = .openGen) (fun _ => True) (fun _ => True) (session fun (t : Terminal Id) _ =>
      let t' := t.updateCampaign c (fun c => !c.relaunchOpen) fun c =>
        { c with relaunchGen := c.relaunchGen + 1, relaunchOpen := true }
      (t', (t'.campaign? c).map fun x =>
        (x.relaunchGen, (t.campaign? c).any (·.relaunchOpen)))) := by
    refine turn_session (fun t _ => ?_) fun _ _ => trivial
    exact .update (fun _ => rfl) fun x _ hx => .openGen x rfl (by simpa using hx)
  have hopened : ∀ s t, WorldTurn env (fun _ k => k = .openGen) (fun _ => True) s t → g t ≤ g s + 1 := by
    intro s t hst
    have hgen : genOf c t ≤ genOf c s + 1 := by
      rcases gen_turn (c := c) hst with heq | ⟨-, -, -, heq⟩ <;> omega
    have hseq := (seq_turn (c := c) hst).resolve_right fun h => nomatch h.1
    exact hg.opening s t hgen hseq
  refine Proc.Affords.bind ((Proc.Affords.act fun s i => hopened s _ (hturns s i).1).mono ?_)
  · rintro r j rfl
    cases r with
    | error e => exact fun a ha => nomatch ha
    | ok row =>
      cases row with
      | none => exact fun a ha => nomatch ha
      | some row => exact fun a ha => hf a

omit [LinearOrder Id] in
/-- A write that is neither claim nor opening is allowed. -/
theorem keepsMarks_of {c' : ℕ} {k : WriteKind} (h : k ≠ .claim ∧ k ≠ .openGen) :
    keepsMarks c c' k := fun _ => h

/-- A launch past the claim opens at most one generation. -/
theorem pays_launchLoaded (hg : Priced c g) (bearer : Actor) :
    Pays I g 1 (launchLoaded env id c none none true bearer) := by
  refine pays_then env hg (Q := fun row => row.1.id = c) (turn_ask (fun w i => ?_) ?_) fun row hrow => ?_
  · split <;> rfl
  · intro w i row hrow
    split at hrow
    · cases hrow
    · exact loadLaunch_id hrow
  obtain ⟨camp, tmpl, recipients⟩ := row
  refine pays_then env hg turn_read fun suppressed _ => pays_then env hg turn_require fun _ _ => ?_
  refine pays_then env hg (Q := fun _ => True) (turn_session (fun t _ => .refl t) fun _ _ => trivial)
    fun conflicts _ => ?_
  refine pays_then env hg turn_require fun _ _ => pays_then env hg turn_read fun publicHost _ => ?_
  refine pays_then env hg (turn_resolveSender camp) fun sender _ => ?_
  refine pays_then env hg turn_preflight fun companyName _ => ?_
  refine pays_then env hg (turn_ensureKTemp bearer) fun kTemp _ => pays_then env hg turn_checked fun _ _ => ?_
  refine pays_openRelaunch env hg fun row => ?_
  obtain ⟨gen, finishing⟩ := row
  refine pays_turns hg (turn_launchPlanned recipients _ _ _ hrow (fun _ _ => trivial) ?_ ?_ fun t i => ?_)
  · exact keepsMarks_of (by decide)
  · exact keepsMarks_of (by decide)
  · exact .update (fun _ => rfl) fun x _ _ => .closeGen x (keepsMarks_of (by decide))

/-- What follows a claim opens one generation at most. -/
theorem pays_claimed (hg : Priced c g) (bearer : Actor) : Pays I g 1 (claimed env c bearer) := by
  refine pays_then env hg turn_read fun interrupted _ => ?_
  cases interrupted with
  | none => exact pays_launchLoaded hg bearer
  | some b =>
    have hmay : SendMay (keepsMarks c) (fun _ : PackIn Id => True) c := by
      refine ⟨fun _ _ => trivial, ?_, ?_, ?_⟩ <;> exact keepsMarks_of (by decide)
    refine pays_turns (Q := fun _ => True) hg ((turn_finishInterruptedBatch b hmay).bind fun _ _ => ?_)
    exact Fallible.Yields.pure trivial

end purses

/-! ## The claim -/

section claim

/-- What the claim writes. -/
def bumped (c : ℕ) (expectedSeq : Option ℕ) (t : Terminal Id) : Terminal Id :=
  t.updateCampaign c (fun x => expectedSeq.all (· = x.relaunchSeq)) fun x =>
    { x with relaunchSeq := x.relaunchSeq + 1 }

/-- The claim finds another `relaunch_seq` than the press carries. -/
def stale (c : ℕ) (expectedSeq : Option ℕ) (t : Terminal Id) : Bool :=
  (t.campaign? c).any fun x => !expectedSeq.all (· = x.relaunchSeq)

omit [LinearOrder Id] in
/-- A press over two parts. -/
theorem press_bind {α β : Type} (p : LaunchProc Id α) (f : α → LaunchProc Id β) :
    press (p >>= f) = p.run.bind fun r => match r with
      | .ok a => press (f a)
      | .error _ => .ret () := by
  unfold press
  rw [Fallible.run_bind, Proc.bind_assoc]
  congr 1
  funext r
  cases r <;> rfl

/-- At its claim a Re-launch compares and raises the sequence number in one request. -/
theorem atClaim_eq (expectedSeq : Option ℕ) (bearer : Actor) :
    atClaim env c expectedSeq bearer = .atom
      (fun w i => if i.fails then w else { w with terminal := bumped c expectedSeq w.terminal })
      fun w i => if i.fails ∨ stale c expectedSeq w.terminal = true then .ret ()
        else press (claimed env c bearer) := by
  unfold atClaim
  rw [press_bind]
  unfold claimRelaunch
  rw [Fallible.run_bind, Proc.bind_assoc]
  change Proc.atom _ _ = Proc.atom _ _
  congr 1
  · funext w i
    dsimp only
    split <;> rfl
  · funext w i
    by_cases hfails : i.fails = true
    · simp [hfails]
    · cases hstale : stale c expectedSeq w.terminal with
      | true =>
        unfold stale at hstale
        simp [hfails, hstale, Fallible.require]
      | false =>
        unfold stale at hstale
        simp [hfails, hstale, Fallible.require]

/-- A Re-launch press: two checks, the claim, and the rest. -/
theorem relaunch_eq (expectedSeq : Option ℕ) :
    launchCampaign env id c none none true expectedSeq =
      (refuseClosed c closedToAll >>= fun _ => readBearer .retryable >>= fun bearer =>
        claimRelaunch c expectedSeq >>= fun _ => claimed env c bearer) := rfl

omit [LinearOrder Id] in
/-- The campaign is found with its number raised, and any other as it was. -/
theorem campaign?_bumped (expectedSeq : Option ℕ) (t : Terminal Id) (c' : ℕ) :
    (bumped c expectedSeq t).campaign? c' = (t.campaign? c').map fun x =>
      if x.id = c ∧ expectedSeq.all (· = x.relaunchSeq) then
        { x with relaunchSeq := x.relaunchSeq + 1 }
      else x := by
  refine campaign?_updateCampaign ?_ c'
  exact fun _ => rfl

variable {w : World Id} {expectedSeq : Option ℕ}

omit [LinearOrder Id] in
/-- A claim that is not stale counts. -/
theorem marks_bumped (hw : HasCampaign c w) (hstale : stale c expectedSeq w.terminal = false) :
    genOf c { w with terminal := bumped c expectedSeq w.terminal } = genOf c w ∧
      seqOf c { w with terminal := bumped c expectedSeq w.terminal } = seqOf c w + 1 ∧
        ∀ v, expectedSeq = some v → v = seqOf c w := by
  obtain ⟨x, hx⟩ := Option.isSome_iff_exists.mp hw
  have hid := campaign?_id hx
  unfold genOf seqOf
  unfold stale at hstale
  rw [hx, Option.any_some, Bool.not_eq_false'] at hstale
  rw [campaign?_bumped, hx]
  simp only [Option.map_some, hid, hstale, and_self, if_true, Option.getD_some, true_and]
  rintro v rfl
  simpa using hstale

omit [LinearOrder Id] in
/-- A claim that is stale does not count. -/
theorem marks_stale (hstale : stale c expectedSeq w.terminal = true) :
    genOf c { w with terminal := bumped c expectedSeq w.terminal } = genOf c w ∧
      seqOf c { w with terminal := bumped c expectedSeq w.terminal } = seqOf c w := by
  unfold genOf seqOf
  unfold stale at hstale
  rw [campaign?_bumped]
  cases hx : w.terminal.campaign? c with
  | none => exact ⟨rfl, rfl⟩
  | some x =>
    rw [hx, Option.any_some, Bool.not_eq_true'] at hstale
    simp [hstale]

omit [LinearOrder Id] in
/-- A claim that is stale matches no row. -/
theorem bumped_of_stale (hu : (w.terminal.campaigns.map (·.id)).Nodup)
    (hstale : stale c expectedSeq w.terminal = true) :
    bumped c expectedSeq w.terminal = w.terminal := by
  unfold stale at hstale
  cases hx : w.terminal.campaign? c with
  | none => simp [hx] at hstale
  | some x =>
    rw [hx, Option.any_some, Bool.not_eq_true'] at hstale
    have hsame : updateRows w.terminal.campaigns
        (fun y => y.id = c ∧ (expectedSeq.all (· = y.relaunchSeq)) = true)
        (fun y => { y with relaunchSeq := y.relaunchSeq + 1 }) = w.terminal.campaigns := by
      refine (List.map_congr_left fun y hy => ?_).trans (List.map_id _)
      rw [if_neg]
      · rfl
      · -- the only row of that id is the one the claim looked at
        simp only [decide_eq_true_eq, not_and]
        intro hid
        have hmem := List.mem_of_find?_eq_some hx
        have heq : y = x := List.inj_on_of_nodup_map hu hy hmem (hid.trans (campaign?_id hx).symm)
        rw [heq, hstale]
        exact Bool.false_ne_true
    unfold bumped Terminal.updateCampaign
    rw [hsame]

omit [LinearOrder Id] in
/-- A check that only reads. -/
theorem stays_query {α : Type} {f : Terminal Id → α} :
    Fallible.Yields (fun s (_ : WorldInput Id) t => t = s) (fun _ => True) (query f) := by
  refine Fallible.Yields.act fun w i => ⟨?_, fun _ _ => trivial⟩
  split <;> rfl

omit [LinearOrder Id] in
/-- The refusal of closed campaigns leaves the world. -/
theorem stays_refuseClosed (closed : List CampaignStatus) :
    Fallible.Yields (fun s (_ : WorldInput Id) t => t = s) (fun _ => True)
      (refuseClosed c closed : LaunchProc Id Unit) :=
  stays_query.bind fun _ _ => Fallible.Yields.require.mono (fun _ _ _ h => h) fun _ _ => trivial

omit [LinearOrder Id] in
/-- Reading the bearer leaves the world. -/
theorem stays_readBearer (kind : LaunchErrorKind) :
    Fallible.Yields (fun s (_ : WorldInput Id) t => t = s) (fun _ => True)
      (readBearer kind : LaunchProc Id Actor) := by
  refine stays_query.bind fun bearer _ => ?_
  cases bearer with
  | none => exact Fallible.Yields.throw
  | some actor => exact Fallible.Yields.pure trivial

/-- A press does nothing before its claim. -/
theorem leadsTo_relaunch (expectedSeq : Option ℕ) :
    (press (launchCampaign env id c none none true expectedSeq)).LeadsTo
      fun q => ∃ bearer, q = atClaim env c expectedSeq bearer := by
  rw [relaunch_eq, press_bind]
  refine Proc.LeadsTo.bind (stays_refuseClosed _) fun r _ => ?_
  cases r with
  | error e => trivial
  | ok _ =>
    dsimp only
    rw [press_bind]
    refine Proc.LeadsTo.bind (stays_readBearer _) fun r _ => ?_
    cases r with
    | error e => trivial
    | ok bearer =>
      change (atClaim env c expectedSeq bearer).LeadsTo _
      rw [atClaim_eq]
      exact .inl ⟨bearer, (atClaim_eq expectedSeq bearer).symm⟩

/-- Past its claim a press neither claims nor leaves it to another to. -/
theorem every_claimed (bearer : Actor) :
    (press (claimed env c bearer)).Every fun s _ t => seqOf c t = seqOf c s := by
  have hturns : Turns env (fun _ k => k ≠ .claim) (fun _ => True) (fun _ => True) (claimed env c bearer) := by
    refine turn_read.bind fun interrupted _ => ?_
    cases interrupted with
    | none =>
      refine turn_launchLoaded none none true bearer ?_
      constructor <;> simp
    | some b =>
      have hmay : SendMay (fun _ k => k ≠ .claim) (fun _ : PackIn Id => True) c := by constructor <;> simp
      exact (turn_finishInterruptedBatch b hmay).bind fun _ _ => Fallible.Yields.pure trivial
  refine Proc.Yields.mono (turn_press hturns) (fun s _ t hst => ?_) fun _ h => h
  exact (seq_turn hst).resolve_right fun h => h.1 rfl

/-- The request changes `relaunch_seq` only if it is a claim. -/
def ClaimsOnly (env : Setup Id) (c : ℕ) (q : WorldProc Id Unit) : Prop :=
  q.Head (fun s _ t => seqOf c t = seqOf c s) ∨ ∃ v bearer, q = atClaim env c v bearer

/-- Past its claim a Re-launch claims no more. -/
theorem always_atClaim (expectedSeq : Option ℕ) (bearer : Actor) :
    (atClaim env c expectedSeq bearer).Always (ClaimsOnly env c) := by
  have hhere : ClaimsOnly env c (atClaim env c expectedSeq bearer) :=
    .inr ⟨expectedSeq, bearer, rfl⟩
  rw [atClaim_eq] at hhere ⊢
  refine ⟨hhere, fun s i => ?_⟩
  dsimp only
  split
  · exact .inl trivial
  · exact (every_claimed bearer).always fun _ h => .inl h

/-- A Re-launch claims at its claim alone. -/
theorem always_relaunch (expectedSeq : Option ℕ) :
    (press (launchCampaign env id c none none true expectedSeq)).Always (ClaimsOnly env c) := by
  have hstay : ∀ q : WorldProc Id Unit, q.Head (fun s _ t => t = s) → ClaimsOnly env c q := by
    intro q hq
    left
    cases q with
    | ret r => trivial
    | atom upd next => exact fun s i => congrArg (seqOf c) (hq s i)
  rw [relaunch_eq, press_bind]
  refine Proc.Always.bind (stays_refuseClosed _) hstay fun r _ => ?_
  cases r with
  | error e => exact .inl trivial
  | ok _ =>
    dsimp only
    rw [press_bind]
    refine Proc.Always.bind (stays_readBearer _) hstay fun r _ => ?_
    cases r with
    | error e => exact .inl trivial
    | ok bearer => exact always_atClaim expectedSeq bearer

end claim

/-! ## The run -/

section runs

omit [LinearOrder Id] in
/-- Operations other than a Re-launch of `c` neither claim nor open for it. -/
theorem lifecycleWrites_keepsMarks {op : LifecycleOp Id}
    (hop : ∀ v, op ≠ .world (.relaunch c v)) {c' : ℕ} {k : WriteKind}
    (h : lifecycleWrites op c' k) : keepsMarks c c' k := by
  rintro rfl
  cases op with
  | world op =>
    cases op with
    | relaunch c₁ v => exact absurd (h.1 ▸ rfl) (hop v)
    | launch | approve | retryFailed | pause | resume | cancel | archive | markTested
    | addRecipients =>
      have hk := h.2
      constructor <;> rintro rfl <;> simp at hk
    | stage | pollOutcomes | webhook =>
      constructor <;> rintro rfl <;> simp [lifecycleWrites, opWrites] at h
    | createCampaign | servePush | deliver | cancelPack | expireStaleClaims | revokeKey =>
      exact h.elim
  | schedule | edit | launchDue | refuseUnreadable =>
    have hk := h.2
    constructor <;> rintro rfl <;> simp at hk
  | confirmElapsedLocks | drainBatches =>
    constructor <;> rintro rfl <;> simp [lifecycleWrites] at h
  | clone | addStage | updateStage | deleteStage | failStage | cancelClosedStage =>
    exact h.elim

/-- Their requests are turns that neither claim nor open for it. -/
theorem turn_keepsMarks {n : ℕ} {op : LifecycleOp Id}
    (hop : ∀ v, op ≠ .world (.relaunch c v)) :
    (lifecycleCode env id n op).Every fun s _ t =>
      WorldTurn env (keepsMarks c) (fun _ => True) s t := by
  refine Proc.Yields.mono (turn_lifecycleCode n op) (fun s _ t hst => ?_) fun _ h => h
  exact hst.mono (fun c' k h => lifecycleWrites_keepsMarks hop h) fun _ _ => trivial

variable {I : World Id → Prop} {g : World Id → ℤ} {k : ℕ}

/-- A press can pay for its opening when its claim leaves a coin in the purse. -/
theorem affords_relaunch (hg : Priced c g) (expectedSeq : Option ℕ)
    (hclaim : ∀ w, I w → stale c expectedSeq w.terminal = false →
      g { w with terminal := bumped c expectedSeq w.terminal } + 1 ≤ g w + k) :
    (press (launchCampaign env id c none none true expectedSeq)).Affords I g
      (fun _ _ => True) k := by
  have hstay : ∀ {s t : World Id}, t = s → g t ≤ g s := fun h => h ▸ Int.le_refl _
  rw [relaunch_eq, press_bind]
  refine Proc.Affords.bind ((Proc.Affords.of_yields (stays_refuseClosed _)
    (fun _ _ _ h => hstay h) k).mono fun r j hr => ?_)
  rw [hr.2]
  cases r with
  | error e => trivial
  | ok _ =>
    dsimp only
    rw [press_bind]
    refine Proc.Affords.bind ((Proc.Affords.of_yields (stays_readBearer _)
      (fun _ _ _ h => hstay h) k).mono fun r j hr => ?_)
    rw [hr.2]
    cases r with
    | error e => trivial
    | ok bearer =>
      change (atClaim env c expectedSeq bearer).Affords _ _ _ _
      rw [atClaim_eq]
      intro w i hw
      dsimp only
      by_cases hfails : i.fails = true
      · rw [if_pos hfails, if_pos (.inl hfails)]
        exact ⟨k, Int.le_refl _, trivial⟩
      · rw [if_neg hfails]
        cases hstale : stale c expectedSeq w.terminal with
        | true =>
          obtain ⟨hgen, hseq⟩ := marks_stale hstale
          rw [if_pos (.inr rfl)]
          exact ⟨k, Int.add_le_add_right (hg.keep _ _ hgen hseq) _, trivial⟩
        | false =>
          rw [if_neg (by simp [hfails])]
          refine ⟨1, hclaim w hw hstale, Proc.Affords.bind ?_⟩
          exact (pays_claimed hg bearer).mono fun _ _ _ => trivial

/-- What is opened is paid for by claims. -/
def openedUnclaimed (c : ℕ) (w : World Id) : ℤ := genOf c w - seqOf c w

omit [LinearOrder Id] in
/-- The openings beyond the claims are a price. -/
theorem priced_openedUnclaimed : Priced c (openedUnclaimed c : World Id → ℤ) where
  keep s t hgen hseq := by
    unfold openedUnclaimed
    omega
  opening s t hgen hseq := by
    unfold openedUnclaimed
    omega

omit [LinearOrder Id] in
/-- The generation is a price. -/
theorem priced_genOf : Priced c fun w : World Id => (genOf c w : ℤ) where
  keep s t hgen _ := by omega
  opening s t hgen _ := by omega

/-- No operation opens more than it claims. -/
theorem affords_lifecycleCode (n : ℕ) (op : LifecycleOp Id) :
    (lifecycleCode env id n op).Affords (HasCampaign c) (openedUnclaimed c) (fun _ _ => True) 0 := by
  by_cases hop : ∃ v, op = .world (.relaunch c v)
  · obtain ⟨v, rfl⟩ := hop
    refine affords_relaunch priced_openedUnclaimed v fun w hw hstale => ?_
    obtain ⟨hgen, hseq, -⟩ := marks_bumped hw hstale
    unfold openedUnclaimed
    omega
  · have hop : ∀ v, op ≠ .world (.relaunch c v) := fun v h => hop ⟨v, h⟩
    refine (Proc.Affords.of_yields (turn_keepsMarks hop) (fun s _ t hst => ?_) 0).mono
      fun _ _ _ => trivial
    obtain ⟨hgen, hseq⟩ := keepsMarks_turn hst
    exact priced_openedUnclaimed.keep s t hgen hseq

/-- Every operation claims at its claim alone. -/
theorem always_lifecycleCode (n : ℕ) (op : LifecycleOp Id) :
    (lifecycleCode env id n op).Always (ClaimsOnly env c) := by
  by_cases hop : ∃ v, op = .world (.relaunch c v)
  · obtain ⟨v, rfl⟩ := hop
    exact always_relaunch v
  · have hop : ∀ v, op ≠ .world (.relaunch c v) := fun v h => hop ⟨v, h⟩
    refine (turn_keepsMarks (c := c) hop).always fun q hq => .inl ?_
    cases q with
    | ret r => trivial
    | atom upd next => exact fun s i => (keepsMarks_turn (hq s i)).2

/-- A request of whatever operation. -/
def AnyTurn (env : Setup Id) (s : World Id) (_ : WorldInput Id) (t : World Id) : Prop :=
  WorldTurn env (fun _ _ => True) (fun _ => True) s t

/-- Every operation makes turns. -/
theorem every_anyTurn (n : ℕ) (op : LifecycleOp Id) : (lifecycleCode env id n op).Every (AnyTurn env) :=
  Proc.Yields.mono (turn_lifecycleCode n op) (fun _ _ _ h => h.mono (fun _ _ _ => trivial)
    fun _ _ => trivial) fun _ h => h

/-- What a run does not take back. -/
structure Marked (c : ℕ) (s t : World Id) : Prop where
  row : HasCampaign c s → HasCampaign c t
  seq : seqOf c s ≤ seqOf c t
  unique : (s.terminal.campaigns.map (·.id)).Nodup → (t.terminal.campaigns.map (·.id)).Nodup

omit [LinearOrder Id] in
/-- A turn marks the campaign upward. -/
theorem AnyTurn.marked {s t : World Id} {i : WorldInput Id} (h : AnyTurn env s i t) : Marked c s t := by
  refine ⟨exists_turn h, ?_, h.terminal.ids⟩
  rcases seq_turn (c := c) h with heq | ⟨-, heq⟩ <;> omega

variable {p : Pool (World Id) (WorldInput Id)}

/-- A run marks the campaign upward. -/
theorem marked_run (hp : ∀ n, (p.running n).Every (AnyTurn env))
    (es : List (Event (LifecycleOp Id) (WorldInput Id))) :
    Marked c p.state (p.run (lifecycleCode env id) es).state := by
  have hrefl : ∀ s : World Id, Marked c s s := fun s => ⟨fun h => h, Nat.le_refl _, fun h => h⟩
  have htrans : ∀ s t u : World Id, Marked c s t → Marked c t u → Marked c s u :=
    fun s t u h h' => ⟨fun hs => h'.row (h.row hs), h.seq.trans h'.seq,
      fun hs => h'.unique (h.unique hs)⟩
  exact Pool.Steps.related hrefl htrans
    (Pool.steps_of_every every_anyTurn hrefl (fun _ _ _ h => h.marked) hp es)

/-- A press that gets past its claim has counted. -/
theorem PassesClaim.counts {v : Option ℕ} {n : ℕ} {i : WorldInput Id}
    (h : PassesClaim env c v p n i) (hw : HasCampaign c p.state) :
    seqOf c (p.exec (lifecycleCode env id) (.step n i)).state = seqOf c p.state + 1 ∧
      ∀ x, v = some x → x = seqOf c p.state := by
  obtain ⟨bearer, hrun, hnext⟩ := h
  rw [atClaim_eq] at hrun
  simp only [Pool.exec, hrun, Function.update_self] at hnext ⊢
  split at hnext
  · cases hnext
  · next hpass =>
    obtain ⟨hfails, hstale⟩ := not_or.mp hpass
    rw [if_neg hfails]
    exact (marks_bumped hw (Bool.eq_false_iff.mpr hstale)).2

/-- Only a press that gets past its claim counts. -/
theorem passes_of_counts (hp : ∀ n, (p.running n).Always (ClaimsOnly env c))
    (e : Event (LifecycleOp Id) (WorldInput Id)) :
    seqOf c (p.exec (lifecycleCode env id) e).state = seqOf c p.state ∨
      ∃ v n i, e = .step n i ∧ PassesClaim env c v p n i := by
  cases e with
  | start n op => left; simp only [Pool.exec]; split <;> rfl
  | stop n => exact .inl rfl
  | step n i =>
    have hn := (hp n).here
    cases hrun : p.running n with
    | ret r => left; simp only [Pool.exec, hrun]
    | atom upd next =>
      rw [hrun] at hn
      rcases hn with hkeep | ⟨v, bearer, hclaim⟩
      · left
        simp only [Pool.exec, hrun]
        exact hkeep p.state i
      · rw [hclaim] at hrun
        have hat := hrun
        rw [atClaim_eq] at hat
        by_cases hfails : i.fails = true
        · left
          simp only [Pool.exec, hat, if_pos hfails]
        · cases hstale : stale c v p.state.terminal with
          | true =>
            left
            simp only [Pool.exec, hat, if_neg hfails]
            exact (marks_stale hstale).2
          | false =>
            refine .inr ⟨v, n, i, rfl, bearer, hrun, ?_⟩
            simp [Pool.exec, hat, hfails, hstale]

omit [LinearOrder Id] in
/-- As many steps change the generation as it has grown. -/
theorem length_openings {l : List (World Id × World Id)}
    (h : ∀ x ∈ l, genOf c x.2 = genOf c x.1 ∨ genOf c x.2 = genOf c x.1 + 1) :
    ((l.filter fun x => genOf c x.2 ≠ genOf c x.1).length : ℤ) =
      (l.map fun x => (genOf c x.2 : ℤ) - genOf c x.1).sum := by
  induction l with
  | nil => rfl
  | cons x l ih =>
    have hl := ih fun y hy => h y (List.mem_cons_of_mem _ hy)
    rw [List.map_cons, List.sum_cons, ← hl]
    rcases h x (List.mem_cons_self ..) with heq | heq
    · simp [heq]
    · simp [heq]
      omega

/-- A press opens at most one generation, whatever its requests meet. -/
theorem press_opens_once (n : ℕ) (v : Option ℕ) (l : List (World Id × WorldInput Id)) :
    (((lifecycleCode env id n (.world (.relaunch c v))).wrote l).filter
      fun x => genOf c x.2 ≠ genOf c x.1).length ≤ 1 := by
  have hafford : (lifecycleCode env id n (.world (.relaunch c v))).Affords (fun _ => True)
      (fun w => (genOf c w : ℤ)) (fun _ _ => True) 1 := by
    refine affords_relaunch priced_genOf v fun w _ _ => ?_
    have hgen : genOf c { w with terminal := bumped c v w.terminal } = genOf c w := by
      unfold genOf
      rw [campaign?_bumped, Option.map_map]
      congr 2
      funext x
      simp only [Function.comp_apply]
      split <;> rfl
    omega
  have hsum := hafford.wrote l fun _ _ => trivial
  have hone : ∀ x ∈ (lifecycleCode env id n (.world (.relaunch c v))).wrote l,
      genOf c x.2 = genOf c x.1 ∨ genOf c x.2 = genOf c x.1 + 1 := by
    intro x hx
    obtain ⟨i, hturn⟩ := (every_anyTurn n (.world (.relaunch c v))).wrote l x hx
    exact (gen_turn hturn).imp_right fun h => h.2.2.2
  have hlen := length_openings hone
  push_cast at hsum
  omega

/-- A press comes to its claim only once. -/
theorem atClaim_once {v : Option ℕ} {upd : World Id → WorldInput Id → World Id}
    {next : World Id → WorldInput Id → WorldProc Id Unit}
    (h : ∃ bearer, .atom upd next = atClaim env c v bearer) (s : World Id) (i : WorldInput Id)
    (l : List (World Id × WorldInput Id)) :
    ¬ ∃ bearer, (next s i).follow l = atClaim env c v bearer := by
  rintro ⟨bearer', hagain⟩
  obtain ⟨bearer, hfirst⟩ := h
  rw [atClaim_eq, Proc.atom.injEq] at hfirst
  obtain ⟨-, rfl⟩ := hfirst
  dsimp only at hagain
  split at hagain
  · rw [Proc.follow_ret, atClaim_eq] at hagain
    cases hagain
  · -- past the claim no request counts, and at the claim one may
    have hkeep := (@every_claimed Id _ env c bearer).follow l
    rw [hagain, atClaim_eq] at hkeep
    let x : Campaign := { id := c, createdAt := "", templateId := 0, kind := .transactional, relaunchSeq := v.getD 0 }
    let w : World Id := { s with terminal := { s.terminal with campaigns := [x] } }
    have hrow : w.terminal.campaign? c = some x := by simp [w, x, Terminal.campaign?]
    have hstale : stale c v w.terminal = false := by
      unfold stale
      rw [hrow]
      cases v <;> simp [x]
    have hcounts := (marks_bumped (by rw [HasCampaign, hrow]; rfl) hstale).2.1
    have hsame := (hkeep w { i with fails := false }).1
    simp only [Bool.false_eq_true, if_false] at hsame
    omega

/-- A press that is refused at its claim has done nothing. -/
theorem refused_wrote (hids : (p.state.terminal.campaigns.map (·.id)).Nodup) {n : ℕ} {v : Option ℕ}
    (fs : List (Event (LifecycleOp Id) (WorldInput Id))) (hidle : p.running n = .ret ())
    (hp : ∀ m, (p.running m).Every (AnyTurn env)) (hstart : ∀ op, .start n op ∉ fs) (hstop : .stop n ∉ fs)
    (i : WorldInput Id)
    (h : RefusedAtClaim env c v
      ((p.exec (lifecycleCode env id) (.start n (.world (.relaunch c v)))).run (lifecycleCode env id) fs) n i) :
    ∀ x ∈ (lifecycleCode env id n (.world (.relaunch c v))).wrote
      ((p.exec (lifecycleCode env id) (.start n (.world (.relaunch c v)))).met (lifecycleCode env id) n
        (fs ++ [.step n i])), x.2 = x.1 := by
  have hq : ∀ m, ((p.exec (lifecycleCode env id) (.start n (.world (.relaunch c v)))).running m).Every (AnyTurn env) :=
    Pool.every_exec every_anyTurn hp _
  have hrun : (p.exec (lifecycleCode env id) (.start n (.world (.relaunch c v)))).running n =
      lifecycleCode env id n (.world (.relaunch c v)) := by simp [Pool.exec, hidle]
  have hstate : (p.exec (lifecycleCode env id) (.start n (.world (.relaunch c v)))).state = p.state := by
    simp [Pool.exec, hidle]
  generalize p.exec (lifecycleCode env id) (.start n (.world (.relaunch c v))) = q at *
  obtain ⟨⟨bearer, hat⟩, hfails, hend⟩ := h
  have hfollow := Pool.run_follow (lifecycleCode env id) n (p := q) hstart hstop
  rw [hrun, hat] at hfollow
  rw [Pool.met_append, Proc.wrote_append, ← hfollow]
  intro x hx
  rcases List.mem_append.mp hx with hx | hx
  · exact (leadsTo_relaunch v).wrote (fun _ _ h => atClaim_once h) _ ⟨bearer, hfollow.symm⟩ x hx
  · -- the refused claim itself matches no row
    have hids' := (@marked_run Id _ env c _ hq fs).unique (hstate ▸ hids)
    have hat' := hat
    rw [atClaim_eq] at hat'
    simp only [Pool.exec, hat', Function.update_self, hfails] at hend
    have hstale : stale c v (q.run (lifecycleCode env id) fs).state.terminal = true := by
      by_contra hne
      rw [if_neg (by simpa using hne)] at hend
      cases hend
    simp only [Pool.met, if_true, List.append_nil, atClaim_eq, Proc.wrote, Proc.wrote_nil,
      List.mem_singleton] at hx
    rw [hx, hfails]
    simp only [Bool.false_eq_true, if_false, bumped_of_stale hids' hstale]

/-- **Stale Re-launch presses do nothing and generations are not multiplied.** A run of any
operations goes on from any world `w` with campaign `c`; `p` is where it has come.
Of the presses that carry one `relaunch_seq` at most one gets past its claim; every press past
its claim counts one, and nothing else does; a generation is opened only where none is open, and
never are there more openings than claims; one press opens one generation at most; and a press
that is refused with `RelaunchConflict` has left the world as it was with every request.
SOURCE: terminal/launch.py:266-293, 384-409, 591-616 -/
theorem relaunch_claims (env : Setup Id) (w : World Id) (c : ℕ) (hw : HasCampaign c w)
    (hids : (w.terminal.campaigns.map (·.id)).Nodup)
    (es : List (Event (LifecycleOp Id) (WorldInput Id))) :
    let code := lifecycleCode env id
    let p := (Pool.idle w).run code es
    (∀ v n i fs m j, PassesClaim env c (some v) p n i →
      ¬ PassesClaim env c (some v) (p.run code (.step n i :: fs)) m j) ∧
    (∀ v n i, PassesClaim env c v p n i →
      seqOf c (p.exec code (.step n i)).state = seqOf c p.state + 1) ∧
    (∀ e, seqOf c (p.exec code e).state = seqOf c p.state ∨
      ∃ v n i, e = .step n i ∧ PassesClaim env c v p n i) ∧
    (∀ e, genOf c (p.exec code e).state = genOf c p.state ∨
      openOf c p.state = false ∧ openOf c (p.exec code e).state = true ∧
        genOf c (p.exec code e).state = genOf c p.state + 1) ∧
    genOf c p.state + seqOf c w ≤ genOf c w + seqOf c p.state ∧
    ∀ n v fs, p.running n = .ret () → (∀ op, .start n op ∉ fs) → .stop n ∉ fs →
      let q := p.exec code (.start n (.world (.relaunch c v)))
      let own := fun gs => (code n (.world (.relaunch c v))).wrote (q.met code n gs)
      ((own fs).filter fun x => genOf c x.2 ≠ genOf c x.1).length ≤ 1 ∧
      ∀ i, RefusedAtClaim env c v (q.run code fs) n i →
        ∀ x ∈ own (fs ++ [.step n i]), x.2 = x.1 := by
  intro code p
  have hidle : ∀ n, ((Pool.idle w : Pool _ (WorldInput Id)).running n).Every (AnyTurn env) := fun _ => trivial
  have hp : ∀ n, (p.running n).Every (AnyTurn env) := Pool.every_run every_anyTurn hidle es
  have hret : ClaimsOnly env c (.ret ()) := .inl trivial
  have hclaims : ∀ n, (p.running n).Always (ClaimsOnly env c) :=
    Pool.always_run code hret always_lifecycleCode (p := Pool.idle w) (fun _ => hret) es
  have hmarked : Marked c w p.state := marked_run hidle es
  have hexists : HasCampaign c p.state := hmarked.row hw
  refine ⟨fun v n i fs m j hpass hagain => ?_, fun v n i hpass => (hpass.counts hexists).1,
    passes_of_counts hclaims, fun e => ?_, ?_, fun n v fs hn hstart hstop => ⟨?_, fun i => ?_⟩⟩
  · -- the first claim has moved `relaunch_seq` past what the second press carries
    have hlater : ∀ m, ((p.exec code (.step n i)).running m).Every (AnyTurn env) :=
      Pool.every_exec every_anyTurn hp _
    have hgrown : Marked c (p.exec code (.step n i)).state (p.run code (.step n i :: fs)).state :=
      marked_run hlater fs
    have hmarked' : Marked c p.state (p.run code (.step n i :: fs)).state := marked_run hp _
    have hfirst : seqOf c (p.exec code (.step n i)).state = seqOf c p.state + 1 :=
      (hpass.counts hexists).1
    have hv : v = seqOf c p.state := (hpass.counts hexists).2 v rfl
    have hsecond : v = seqOf c (p.run code (.step n i :: fs)).state :=
      (hagain.counts (hmarked'.row hexists)).2 v rfl
    have hseq := hgrown.seq
    omega
  · have hstep : p.Steps code (fun s t => WorldTurn env (fun _ _ => True) (fun _ => True) s t) [e] :=
      Pool.steps_of_every every_anyTurn (fun s => .refl s) (fun _ _ _ h => h) hp [e]
    exact (gen_turn hstep.1).imp_right fun h => h.2
  · have hsteps : (Pool.idle w).Steps code (fun s t => HasCampaign c s → HasCampaign c t) es :=
      Pool.steps_of_every every_anyTurn (fun _ h => h) (fun _ _ _ h => h.marked.row) hidle es
    have hbound := Pool.run_affords affords_lifecycleCode (Pool.funded_idle w) hw es hsteps
    change openedUnclaimed c p.state ≤ openedUnclaimed c w at hbound
    unfold openedUnclaimed at hbound
    omega
  · exact press_opens_once n v _
  · exact refused_wrote (hmarked.unique hids) fs hn hp hstart hstop i

end runs

section witness

/-- A terminal with one campaign, whose bearer is the operator's. -/
private def claimWorld : World (ℕ ×ₗ String) where
  cloud := .empty
  terminal :=
    { campaigns := [{ id := 1, createdAt := "", templateId := 1, kind := .transactional }]
      bearer := some .operator }

/-- A press that carries the first `relaunch_seq`, up to its claim. -/
private def claimPress (n : ℕ) : List (Event (LifecycleOp (ℕ ×ₗ String)) (WorldInput (ℕ ×ₗ String))) :=
  [.start n (.world (.relaunch 1 (some 0))), .step n {}, .step n {}]

/-- The first press gets past its claim, and the second, from the same page, does not. -/
theorem relaunch_claims_demo :
    let code := lifecycleCode Setup.plain id
    let p := (Pool.idle claimWorld).run code (claimPress 0)
    PassesClaim Setup.plain 1 (some 0) p 0 {} ∧
      ¬ PassesClaim Setup.plain 1 (some 0) (p.run code (.step 0 {} :: claimPress 1)) 1 {} := by
  intro code p
  have hclaims := relaunch_claims Setup.plain claimWorld 1 rfl (by decide) (claimPress 0)
  have hpass : PassesClaim Setup.plain 1 (some 0) p 0 {} := ⟨.operator, rfl, rfl⟩
  exact ⟨hpass, hclaims.1 0 0 {} (claimPress 1) 1 {} hpass⟩

end witness

end Mailman.Analysis
