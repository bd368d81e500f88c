import Mailman.Analysis.FirstBatch

/-!
# What a refused press leaves behind

A press that raises before its first push has changed nothing exactly when no check that can raise
comes after a commit of its own. There are three such commits: the batches and the lock of a
normal launch, the suppressed recipients that a dispatch closes, and the generation that a
Re-launch opens. What may refuse after them are the schedule, the links of the public host and the
sender's address (`refused_keeps_iff`).
-/

set_option autoImplicit false

namespace Mailman.Analysis

open Mailman.Library Mailman.Model Mailman.Interface

variable {Id : Type} [LinearOrder Id] {env : Setup Id} {x : PressInput}

/-- A campaign as a refused press must leave it: a Re-launch counts its presses. -/
def seenAfter : SendPress → Campaign → Campaign
  | .launch _, c => c
  | .approve _ _, c => c
  | .relaunch _ _, c => { c with relaunchSeq := 0 }

/-- The campaigns, their batches, recipients and jobs and the packs of the cloud are what they
were. -/
structure Untouched (p : SendPress) (w w' : World Id) : Prop where
  campaigns : w'.terminal.campaigns.map (seenAfter p) = w.terminal.campaigns.map (seenAfter p)
  batches : w'.terminal.batches = w.terminal.batches
  recipients : w'.terminal.recipients = w.terminal.recipients
  jobs : w'.terminal.jobs = w.terminal.jobs
  packs : w'.cloud = w.cloud

/-- A press that raises before it has sent a request changes nothing. -/
def RefusedKeeps (env : Setup Id) (x : PressInput) (p : SendPress) (w : World Id) : Prop :=
  Procedure.Keeps (Untouched p) w (p.upToPush env x) w

/-- Nothing refuses a batch after its suppressed recipients are closed: it has a row, and where
there is somebody to send to, the settings let the mails go out. -/
def Dispatchable (x : PressInput) (set : Settings) (ctx : SendCtx) (chosen : ChosenBatch) : Prop :=
  chosen.row ≠ none ∧ (chosen.plan.sends ≠ [] → SendsOut x set ctx chosen.plan.sends chosen.seeds)

/-- A dispatch that passes its checks and closes recipients is not refused after that. -/
def DispatchClean (env : Setup Id) (x : PressInput) (campaignId batchNo : ℕ) (t : Terminal Id) :
    Prop :=
  ∀ ctx chosen, closedCheck campaignId t = .ok () → loadCtxCheck env x campaignId t = .ok ctx →
    chooseBatch env ctx batchNo t = .ok chosen → chosen.plan.suppressed ≠ [] →
      Dispatchable x t.settings ctx chosen

/-- The generation that a Re-launch sends. -/
def openedGen (camp : Campaign) : ℕ :=
  if camp.relaunchOpen then camp.relaunchGen else camp.relaunchGen + 1

/-- What the settings and the data must meet for a press to be refused in time. -/
def RefusedInTime (env : Setup Id) (x : PressInput) (t : Terminal Id) : SendPress → Prop
  | .launch campaignId =>
    ∀ bearer ctx recipients batches, bearerCheck .retryable t = .ok bearer →
      launchChecks env x campaignId false bearer t = .ok (ctx, recipients) →
        batchesCheck env ctx recipients t = .ok batches →
          FirstBatchReady env x campaignId ctx batches t
  | .approve campaignId batchNo => approveCheck x campaignId batchNo t = .ok () →
      DispatchClean env x campaignId batchNo t
  | .relaunch campaignId expectedSeq =>
    let claimed := t.claimPress campaignId expectedSeq
    closedCheck campaignId t = .ok () → ∀ bearer, bearerCheck .retryable t = .ok bearer →
      staleClaim campaignId expectedSeq t = false →
        match t.interrupted? campaignId with
        | some batchNo => DispatchClean env x campaignId batchNo claimed
        | none => ∀ ctx recipients plan,
          launchChecks env x campaignId true bearer claimed = .ok (ctx, recipients) →
            assertRecipientsSendable (ctx.mailCtx t.settings)
                ((deliverable env ctx recipients claimed).map (·.row)) = .ok () →
              (∃ c ∈ t.campaigns, c.id = campaignId ∧ c.relaunchOpen = false) →
                planCheck env ctx.camp (genKeyFor (openedGen ctx.camp)) recipients t = .ok plan →
                  Buildable x t.settings ctx (plan.sends.map (·.1.row))

/-! ## The rules of the checks and the commits -/

section rules

variable {α β : Type} {R : World Id → World Id → Prop} {w₀ w : World Id}

omit [LinearOrder Id] in
/-- A check at the front keeps the relation where its refusal does, and what follows. -/
theorem keeps_checkTerminal {f : Terminal Id → Except LaunchError α} {k : α → BeforePush Id β} :
    Procedure.Keeps R w₀ (checkTerminal f >>= k) w ↔
      (∀ e, f w.terminal = .error e → R w₀ w) ∧
        ∀ a, f w.terminal = .ok a → Procedure.Keeps R w₀ (k a) w := Procedure.keeps_check

omit [LinearOrder Id] in
/-- A check before any change leaves it to what follows. -/
theorem keeps_checkTerminal_of_rel {f : Terminal Id → Except LaunchError α}
    {k : α → BeforePush Id β} (hR : R w₀ w) : Procedure.Keeps R w₀ (checkTerminal f >>= k) w ↔
      ∀ a, f w.terminal = .ok a → Procedure.Keeps R w₀ (k a) w := Procedure.keeps_check_of_rel hR

omit [LinearOrder Id] in
/-- A commit at the front leaves it to what follows. -/
theorem keeps_commitTerminal {f : Terminal Id → Terminal Id} {k : Unit → BeforePush Id β} :
    Procedure.Keeps R w₀ (commitTerminal f >>= k) w ↔
      Procedure.Keeps R w₀ (k ()) { w with terminal := f w.terminal } := Procedure.keeps_write

omit [LinearOrder Id] in
/-- A read at the front leaves it to what follows. -/
theorem keeps_readTerminal {f : Terminal Id → α} {k : α → BeforePush Id β} :
    Procedure.Keeps R w₀ (readTerminal f >>= k) w ↔ Procedure.Keeps R w₀ (k (f w.terminal)) w := by
  unfold readTerminal
  rw [keeps_checkTerminal]
  simp

omit [LinearOrder Id] in
/-- The check of a batch row passes where there is one. -/
theorem batchRowCheck_iff {row : Option CampaignBatch} :
    batchRowCheck row = .ok () ↔ row ≠ none := by
  unfold batchRowCheck
  split_ifs with h <;> simp [h]

end rules

/-! ## A dispatch -/

section dispatch

variable {R : World Id → World Id → Prop} {w₀ w : World Id} {ctx : SendCtx} {batchNo : ℕ}

/-- The world once the suppressed recipients of a batch are closed. -/
def closedSuppressed (w : World Id) (campaignId : ℕ)
    (rows : List (ℕ × SuppressionReason)) : World Id :=
  { w with terminal := w.terminal.markSuppressed campaignId rows }

omit [LinearOrder Id] in
/-- Marking suppressed recipients leaves the settings. -/
theorem markSuppressed_settings (c : ℕ) (rows : List (ℕ × SuppressionReason)) (t : Terminal Id) :
    (t.markSuppressed c rows).settings = t.settings := by
  unfold Terminal.markSuppressed
  induction rows generalizing t with
  | nil => rfl
  | cons row rows ih => rw [List.foldl_cons, ih]; rfl

/-- A dispatch may be refused in its checks on the recipients, and again after the suppressed ones
are closed, where it is not dispatchable. -/
theorem keeps_dispatch : Procedure.Keeps R w₀ (dispatchUpToPush env x ctx batchNo) w ↔
    (∀ e, chooseBatch env ctx batchNo w.terminal = .error e → R w₀ w) ∧
      ∀ chosen, chooseBatch env ctx batchNo w.terminal = .ok chosen →
        Dispatchable x w.terminal.settings ctx chosen ∨
          R w₀ (closedSuppressed w ctx.camp.id chosen.plan.suppressed) := by
  unfold dispatchUpToPush
  rw [keeps_checkTerminal]
  apply and_congr_right'
  apply forall_congr'
  intro chosen
  apply imp_congr_right
  intro hchosen
  rw [keeps_commitTerminal]
  unfold Dispatchable
  by_cases hsends : chosen.plan.sends = []
  · rw [if_pos hsends, keeps_checkTerminal]
    constructor
    · rintro ⟨hraises, -⟩
      by_cases hrow : chosen.row = none
      · right
        apply hraises
        exact if_pos hrow
      · exact Or.inl ⟨hrow, fun h => absurd hsends h⟩
    · intro h
      refine ⟨fun e he => ?_, fun _ _ => ?_⟩
      · apply h.resolve_left
        rintro ⟨hrow, -⟩
        rw [batchRowCheck_iff.mpr hrow] at he
        cases he
      · rw [keeps_commitTerminal]
        exact Procedure.keeps_pure []
  · rw [if_neg hsends, keeps_checkTerminal]
    rw [markSuppressed_settings]
    constructor
    · rintro ⟨hraises, hbuilt⟩
      cases hpacks : batchPacks x w.terminal.settings ctx chosen.plan.sends chosen.seeds with
      | error e => exact Or.inr (hraises e hpacks)
      | ok packs =>
        by_cases hrow : chosen.row = none
        · right
          have hrest := hbuilt packs hpacks
          rw [keeps_checkTerminal] at hrest
          exact hrest.1 _ (if_pos hrow)
        · exact Or.inl ⟨hrow, fun _ => batchPacks_ok_iff.mp ⟨packs, hpacks⟩⟩
    · intro h
      refine ⟨fun e he => ?_, fun packs hpacks => ?_⟩
      · apply h.resolve_left
        rintro ⟨-, hout⟩
        obtain ⟨packs, hpacks⟩ := batchPacks_ok_iff.mpr (hout hsends)
        rw [hpacks] at he
        cases he
      · rw [keeps_checkTerminal]
        refine ⟨fun e he => ?_, fun _ _ => ?_⟩
        · apply h.resolve_left
          rintro ⟨hrow, -⟩
          rw [batchRowCheck_iff.mpr hrow] at he
          cases he
        · rw [keeps_commitTerminal]
          exact Procedure.keeps_pure (ctx.keyed packs)

end dispatch

/-! ## What the commits change -/

section changes

variable {p : SendPress} {w₀ w : World Id} {c batchNo : ℕ}

omit [LinearOrder Id] in
/-- No change leaves a world untouched. -/
theorem Untouched.refl (p : SendPress) (w : World Id) : Untouched p w w := ⟨rfl, rfl, rfl, rfl, rfl⟩

/-- A recipient once the suppressed ones are closed. -/
def closedRow (c : ℕ) (rows : List (ℕ × SuppressionReason)) (r : Recipient) : Recipient :=
  rows.foldl (fun r row => if r.campaignId = c ∧ r.contactId = row.1 then
    { r with status := .cancelled, failureReason := some ("suppressed: " ++ row.2.text) } else r) r

omit [LinearOrder Id] in
/-- Marking suppressed recipients closes their rows. -/
theorem markSuppressed_eq (rows : List (ℕ × SuppressionReason)) (t : Terminal Id) :
    t.markSuppressed c rows = { t with recipients := t.recipients.map (closedRow c rows) } := by
  unfold Terminal.markSuppressed
  induction rows generalizing t with
  | nil =>
    show t = { t with recipients := t.recipients.map id }
    rw [List.map_id]
  | cons row rows ih =>
    rw [List.foldl_cons, ih]
    simp only [Terminal.updateRecipients, updateRows, List.map_map]
    congr 2
    apply List.map_congr_left
    intro r _
    simp [closedRow]

/-- A cancelled row stays cancelled. -/
theorem closedRow_cancelled {rows : List (ℕ × SuppressionReason)} {r : Recipient}
    (h : r.status = .cancelled) : (closedRow c rows r).status = .cancelled := by
  unfold closedRow
  induction rows generalizing r with
  | nil => exact h
  | cons row rows ih =>
    rw [List.foldl_cons]
    split_ifs
    · exact ih rfl
    · exact ih h

/-- The row of a suppressed recipient is cancelled. -/
theorem closedRow_closes {rows : List (ℕ × SuppressionReason)} {r : Recipient}
    (hc : r.campaignId = c) (h : ∃ row ∈ rows, row.1 = r.contactId) :
    (closedRow c rows r).status = .cancelled := by
  induction rows generalizing r with
  | nil =>
    obtain ⟨row, hrow, -⟩ := h
    cases hrow
  | cons row rows ih =>
    unfold closedRow
    rw [List.foldl_cons]
    by_cases hrow : r.contactId = row.1
    · rw [if_pos ⟨hc, hrow⟩]
      exact closedRow_cancelled rfl
    · rw [if_neg fun h => hrow h.2]
      apply ih hc
      obtain ⟨row', hmem, heq⟩ := h
      rcases List.mem_cons.mp hmem with rfl | hmem
      · exact absurd heq.symm hrow
      · exact ⟨row', hmem, heq⟩

omit [LinearOrder Id] in
/-- A candidate is a recipient of the campaign that passes the filter. -/
theorem recipient_of_candidate {t : Terminal Id} {q : Recipient → Bool} {a : Candidate}
    (h : a ∈ t.candidates c q) : ∃ r ∈ t.recipients, r.campaignId = c ∧ q r = true ∧
      r.contactId = a.contactId ∧ r.status = a.status := by
  unfold Terminal.candidates at h
  rw [orderBy, List.mem_insertionSort, List.mem_filterMap] at h
  obtain ⟨r, hr, hcontact⟩ := h
  obtain ⟨hmem, hfilter⟩ := List.mem_filter.mp hr
  obtain ⟨contact, -, rfl⟩ := Option.map_eq_some_iff.mp hcontact
  simp only [decide_eq_true_eq] at hfilter
  exact ⟨r, hmem, hfilter.1, hfilter.2, rfl, rfl⟩

/-- The suppressed recipients of a plan are candidates. -/
theorem candidate_of_suppressed {camp : Campaign} {sendKey : SendKey} {rows : List Candidate}
    {t : Terminal Id} {plan : SendPlan} (h : planCheck env camp sendKey rows t = .ok plan)
    {row : ℕ × SuppressionReason} (hrow : row ∈ plan.suppressed) :
    ∃ a ∈ rows, a.contactId = row.1 := by
  unfold planCheck at h
  choose single hsingle happend using planSend_single env camp.id camp.createdAt sendKey
    (suppressedMap camp.kind t.suppressions) (t.jobs.filter (·.campaignId = camp.id))
  rw [foldlM_appended happend] at h
  cases h
  simp only [List.nil_append, List.mem_flatMap] at hrow
  obtain ⟨a, ha, hin⟩ := hrow
  refine ⟨a, ha, ?_⟩
  have hplanned := hsingle a
  generalize single a = p at hin hplanned
  cases hplanned with
  | suppressed reason _ => rw [List.mem_singleton.mp hin]
  | recorded => cases hin
  | send => cases hin

/-- What a dispatch has read once its checks on the recipients have passed. -/
theorem chooseBatch_eq_ok {ctx : SendCtx} {t : Terminal Id} {chosen : ChosenBatch}
    (h : chooseBatch env ctx batchNo t = .ok chosen) :
    (∃ sendKey, planCheck env ctx.camp sendKey
      (t.candidates ctx.camp.id fun r => r.batchNo = some batchNo && r.status = .queued) t =
        .ok chosen.plan) ∧
      chosen.row = t.batch? ctx.camp.id batchNo ∧ chosen.seeds = t.activeSeedEmails ∧
        ∀ r ∈ chosen.plan.sends.map (·.1.row) ++ seedRows t.activeSeedEmails,
          unsendable (ctx.mailCtx t.settings) r = .ok none := by
  unfold chooseBatch at h
  dsimp only at h
  split_ifs at h
  split at h
  · cases h
  · obtain ⟨plan, hplan, h⟩ := bind_eq_ok.mp h
    obtain ⟨_, hsend, h⟩ := bind_eq_ok.mp h
    cases h
    exact ⟨⟨_, hplan⟩, rfl, rfl, assertRecipientsSendable_iff.mp hsend⟩

/-- Closing recipients changes them: each of them was queued. -/
theorem untouched_closedSuppressed_iff {ctx : SendCtx} {chosen : ChosenBatch} (hkept : Untouched p w₀ w)
    (hchosen : chooseBatch env ctx batchNo w.terminal = .ok chosen) :
    Untouched p w₀ (closedSuppressed w ctx.camp.id chosen.plan.suppressed) ↔
      chosen.plan.suppressed = [] := by
  unfold closedSuppressed
  rw [markSuppressed_eq]
  constructor
  · intro h
    by_contra hsome
    obtain ⟨row, hrow⟩ := List.exists_mem_of_ne_nil _ hsome
    obtain ⟨⟨sendKey, hplan⟩, -⟩ := chooseBatch_eq_ok hchosen
    obtain ⟨a, ha, heq⟩ := candidate_of_suppressed hplan hrow
    obtain ⟨r, hr, hcampaign, hfilter, hcontact, -⟩ := recipient_of_candidate ha
    simp only [Bool.and_eq_true, decide_eq_true_eq] at hfilter
    have hsame : w.terminal.recipients.map (closedRow ctx.camp.id chosen.plan.suppressed) =
        w.terminal.recipients.map id := by
      rw [List.map_id]
      exact h.recipients.trans hkept.recipients.symm
    have hstays := List.map_inj_left.mp hsame r hr
    have hclosed := closedRow_closes hcampaign ⟨row, hrow, heq.symm.trans hcontact.symm⟩
    rw [hstays, id, hfilter.2] at hclosed
    cases hclosed
  · intro h
    rw [h]
    have hid : w.terminal.recipients.map (closedRow ctx.camp.id []) = w.terminal.recipients :=
      List.map_id _
    exact ⟨hkept.campaigns, hkept.batches, hid.trans hkept.recipients, hkept.jobs, hkept.packs⟩

/-- A dispatch that loads its own context. -/
theorem keeps_dispatchLoaded (hkept : Untouched p w₀ w) :
    Procedure.Keeps (Untouched p) w₀ (dispatchLoaded env x c batchNo) w ↔
      DispatchClean env x c batchNo w.terminal := by
  unfold dispatchLoaded DispatchClean
  rw [keeps_checkTerminal_of_rel hkept]
  constructor
  · intro h ctx chosen hopen hctx hchosen hsome
    have hdispatch := h () hopen
    rw [keeps_checkTerminal_of_rel hkept] at hdispatch
    have hafter := (keeps_dispatch.mp (hdispatch ctx hctx)).2 chosen hchosen
    exact hafter.resolve_right fun hclosed =>
      hsome ((untouched_closedSuppressed_iff hkept hchosen).mp hclosed)
  · intro h _ hopen
    rw [keeps_checkTerminal_of_rel hkept]
    intro ctx hctx
    refine keeps_dispatch.mpr ⟨fun _ _ => hkept, fun chosen hchosen => ?_⟩
    by_cases hsome : chosen.plan.suppressed = []
    · exact Or.inr ((untouched_closedSuppressed_iff hkept hchosen).mpr hsome)
    · exact Or.inl (h ctx chosen hopen hctx hchosen hsome)

end changes

/-! ## The presses -/

section presses

variable {w : World Id} {c : ℕ}

omit [LinearOrder Id] in
/-- A normal launch is let through only for a campaign that is not dispatched. -/
theorem not_dispatched_of_loadLaunch {t : Terminal Id} {loaded : Campaign × Template × List Candidate}
    (h : t.loadLaunch c none false false = .ok loaded) :
    ∃ camp ∈ t.campaigns, camp.id = c ∧ camp.status ≠ .dispatched := by
  unfold Terminal.loadLaunch at h
  cases hfind : t.campaign? c with
  | none =>
    rw [hfind] at h
    cases h
  | some camp =>
    refine ⟨camp, List.mem_of_find?_eq_some hfind, by simpa using List.find?_some hfind, ?_⟩
    intro hstatus
    rw [hfind] at h
    simp [hstatus] at h

omit [LinearOrder Id] in
/-- The checks of a launch pass only where it is loaded. -/
theorem loaded_of_launchChecks {relaunch : Bool} {bearer : Actor} {t : Terminal Id}
    {ready : SendCtx × List Candidate} (h : launchChecks env x c relaunch bearer t = .ok ready) :
    ∃ loaded, t.loadLaunch c none false relaunch = .ok loaded := by
  unfold launchChecks at h
  cases hload : t.loadLaunch c none false relaunch with
  | error e =>
    rw [hload] at h
    cases h
  | ok loaded => exact ⟨loaded, rfl⟩

omit [LinearOrder Id] in
/-- The transaction of a normal launch shows in its campaign. -/
theorem touched_by_openBatches {bearer : Actor} {ready : SendCtx × List Candidate}
    {batches : List (List Candidate)} {w' : World Id}
    (h : launchChecks env x c false bearer w.terminal = .ok ready)
    (hw' : w'.terminal.campaigns = (w.terminal.openBatches x c batches).campaigns) :
    ¬Untouched (.launch c) w w' := by
  intro hkept
  obtain ⟨loaded, hloaded⟩ := loaded_of_launchChecks h
  obtain ⟨camp, hcamp, hid, hstatus⟩ := not_dispatched_of_loadLaunch hloaded
  have hsame := hkept.campaigns
  rw [hw', openBatches_campaigns, updateRows, List.map_map] at hsame
  have hrow := List.map_inj_left.mp hsame camp hcamp
  apply hstatus
  rw [← show seenAfter (.launch c) camp = camp from rfl, ← hrow]
  simp [seenAfter, hid]

omit [LinearOrder Id] in
/-- A campaign that has just been dispatched is not closed. -/
theorem closedCheck_openBatches (batches : List (List Candidate)) (t : Terminal Id) :
    closedCheck c (t.openBatches x c batches) = .ok () := by
  apply if_neg
  intro hclosed
  obtain ⟨row, hrow, hstatus⟩ := (Option.any_eq_true _ _).mp hclosed
  have hmem := List.mem_of_find?_eq_some hrow
  have hid := List.find?_some hrow
  rw [openBatches_campaigns] at hmem
  obtain ⟨before, -, rfl⟩ := mem_updateRows.mp hmem
  split_ifs at hid hstatus with hc
  · simp [closedToAll] at hstatus
  · exact hc hid

/-- A normal launch is refused in time exactly when its first batch is dispatchable once its checks
have passed. -/
theorem launch_keeps_iff : RefusedKeeps env x (.launch c) w ↔
    RefusedInTime env x w.terminal (.launch c) := by
  have hrefl : Untouched (.launch c) w w := Untouched.refl _ w
  unfold RefusedKeeps SendPress.upToPush launchUpToPush RefusedInTime
  rw [keeps_checkTerminal_of_rel hrefl]
  apply forall_congr'
  intro bearer
  constructor
  · intro h ctx recipients batches hbearer hready hbatches
    have hchecks := h hbearer
    rw [keeps_checkTerminal_of_rel hrefl] at hchecks
    have hrest := hchecks (ctx, recipients) hready
    rw [keeps_checkTerminal_of_rel hrefl] at hrest
    have hopened := hrest batches hbatches
    rw [keeps_commitTerminal, keeps_checkTerminal] at hopened
    have hdispatch := keeps_dispatch.mp (hopened.2 () (closedCheck_openBatches batches _))
    rw [firstBatchReady_iff hready hbatches]
    cases hchosen : chooseBatch env ctx 1 (w.terminal.openBatches x c batches) with
    | error e => exact absurd (hdispatch.1 e hchosen) (touched_by_openBatches hready rfl)
    | ok chosen =>
      have hafter := (hdispatch.2 chosen hchosen).resolve_right
        (touched_by_openBatches hready (by rw [closedSuppressed, markSuppressed_eq]))
      have hset : (w.terminal.openBatches x c batches).settings = w.terminal.settings :=
        openBatches_settings batches w.terminal
      rw [hset] at hafter
      exact ⟨chosen, rfl, hafter⟩
  · intro h hbearer
    rw [keeps_checkTerminal_of_rel hrefl]
    rintro ⟨ctx, recipients⟩ hready
    show Procedure.Keeps _ _ (checkTerminal (batchesCheck env ctx recipients) >>= _) _
    rw [keeps_checkTerminal_of_rel hrefl]
    intro batches hbatches
    obtain ⟨chosen, hchosen, hpushable⟩ := (firstBatchReady_iff hready hbatches).mp
      (h ctx recipients batches hbearer hready hbatches)
    rw [keeps_commitTerminal, keeps_checkTerminal]
    refine ⟨fun e he => ?_, fun _ _ => keeps_dispatch.mpr ⟨fun e he => ?_, fun chosen' he => ?_⟩⟩
    · rw [show closedCheck c _ = _ from closedCheck_openBatches batches _] at he
      cases he
    · rw [hchosen] at he
      cases he
    · rw [hchosen] at he
      cases he
      left
      have hset : (w.terminal.openBatches x c batches).settings = w.terminal.settings :=
        openBatches_settings batches w.terminal
      rw [hset]
      exact hpushable

/-- An approval closes nothing but the suppressed recipients of its batch. -/
theorem approve_keeps_iff {batchNo : ℕ} : RefusedKeeps env x (.approve c batchNo) w ↔
    RefusedInTime env x w.terminal (.approve c batchNo) := by
  have hrefl : Untouched (.approve c batchNo) w w := Untouched.refl _ w
  unfold RefusedKeeps SendPress.upToPush approveUpToPush RefusedInTime
  rw [keeps_checkTerminal_of_rel hrefl]
  constructor
  · intro h hgate
    exact (keeps_dispatchLoaded hrefl).mp (h () hgate)
  · intro h _ hgate
    exact (keeps_dispatchLoaded hrefl).mpr (h hgate)

variable {seq : Option ℕ}

omit [LinearOrder Id] in
/-- The claim of a Re-launch changes nothing but its sequence number. -/
theorem untouched_claimPress : Untouched (.relaunch c seq) w
    { w with terminal := w.terminal.claimPress c seq } := by
  refine ⟨?_, rfl, rfl, rfl, rfl⟩
  show (updateRows _ _ _).map _ = _
  unfold updateRows
  rw [List.map_map]
  apply List.map_congr_left
  intro row _
  rw [Function.comp_apply]
  split_ifs
  · rfl
  · rfl

omit [LinearOrder Id] in
/-- A generation is opened only where none is open. -/
theorem untouched_openGeneration_iff {w₁ : World Id} (hkept : Untouched (.relaunch c seq) w w₁) :
    Untouched (.relaunch c seq) w { w₁ with terminal := w₁.terminal.openGeneration c } ↔
      ¬∃ row ∈ w₁.terminal.campaigns, row.id = c ∧ row.relaunchOpen = false := by
  constructor
  · rintro h ⟨row, hrow, hid, hopen⟩
    have hsame : (w₁.terminal.openGeneration c).campaigns.map (seenAfter (.relaunch c seq)) =
        w₁.terminal.campaigns.map (seenAfter (.relaunch c seq)) :=
      h.campaigns.trans hkept.campaigns.symm
    unfold Terminal.openGeneration Terminal.updateCampaign updateRows at hsame
    rw [List.map_map] at hsame
    have hstays := congrArg (·.relaunchOpen) (List.map_inj_left.mp hsame row hrow)
    simp [seenAfter, hid, hopen] at hstays
  · intro h
    have hsame : (w₁.terminal.openGeneration c).campaigns = w₁.terminal.campaigns := by
      unfold Terminal.openGeneration Terminal.updateCampaign updateRows
      conv_rhs => rw [← List.map_id w₁.terminal.campaigns]
      apply List.map_congr_left
      intro row hrow
      apply if_neg
      intro hupdated
      simp only [Bool.not_eq_true', decide_eq_true_eq] at hupdated
      exact h ⟨row, hrow, hupdated⟩
    refine ⟨?_, hkept.batches, hkept.recipients, hkept.jobs, hkept.packs⟩
    show (w₁.terminal.openGeneration c).campaigns.map _ = _
    rw [hsame]
    exact hkept.campaigns

omit [LinearOrder Id] in
/-- The claim of a press leaves the generation open or closed. -/
theorem claimPress_open_iff {t : Terminal Id} :
    (∃ row ∈ (t.claimPress c seq).campaigns, row.id = c ∧ row.relaunchOpen = false) ↔
      ∃ row ∈ t.campaigns, row.id = c ∧ row.relaunchOpen = false := by
  unfold Terminal.claimPress Terminal.updateCampaign updateRows
  constructor
  · rintro ⟨row, hrow, hid, hopen⟩
    obtain ⟨before, hbefore, rfl⟩ := List.mem_map.mp hrow
    refine ⟨before, hbefore, ?_⟩
    split_ifs at hid hopen
    · exact ⟨hid, hopen⟩
    · exact ⟨hid, hopen⟩
  · rintro ⟨row, hrow, hid, hopen⟩
    refine ⟨_, List.mem_map_of_mem hrow, ?_⟩
    split_ifs
    · exact ⟨hid, hopen⟩
    · exact ⟨hid, hopen⟩

/-- The packs of the generation that a Re-launch opens, told from the tables before it. -/
theorem relaunchPacks_opened {t : Terminal Id} {bearer : Actor} {ctx : SendCtx}
    {recipients : List Candidate} {plan : SendPlan}
    (hready : launchChecks env x c true bearer t = .ok (ctx, recipients))
    (hplan : planCheck env ctx.camp (genKeyFor (openedGen ctx.camp)) recipients t = .ok plan) :
    relaunchPacks env x ctx recipients (t.openGeneration c) = mailPacks x t.settings ctx
      (plan.sends.map fun s => ⟨s.1.row, some s.2, packSendAt ctx.camp.scheduledFor⟩) := by
  obtain ⟨hcamp, -, -⟩ := launchChecks_eq_ok hready
  have hid : ctx.camp.id = c := campaign?_id hcamp
  have hgen : ((t.openGeneration c).campaign? c).map (·.relaunchGen) = some (openedGen ctx.camp) := by
    unfold Terminal.openGeneration
    rw [campaign?_updateCampaign (by exact fun _ => rfl), hcamp, Option.map_some, Option.map_some]
    unfold openedGen
    cases hopen : ctx.camp.relaunchOpen with
    | true => simp
    | false => simp [hid]
  obtain ⟨camp, hfound, hcampGen⟩ := Option.map_eq_some_iff.mp hgen
  have hplanned : planCheck env ctx.camp (genKeyFor (openedGen ctx.camp)) recipients
      (t.openGeneration c) = .ok plan := hplan
  unfold relaunchPacks
  rw [hid, hfound]
  dsimp only
  rw [hcampGen, hplanned]
  rfl

/-- The packs of the generation that a Re-launch opens are built where their mails can be. -/
theorem relaunchPacks_ok_iff {t : Terminal Id} {bearer : Actor} {ctx : SendCtx}
    {recipients : List Candidate} {plan : SendPlan}
    (hready : launchChecks env x c true bearer t = .ok (ctx, recipients))
    (hplan : planCheck env ctx.camp (genKeyFor (openedGen ctx.camp)) recipients t = .ok plan) :
    (∃ packs, relaunchPacks env x ctx recipients (t.openGeneration c) = .ok packs) ↔
      Buildable x t.settings ctx (plan.sends.map (·.1.row)) := by
  rw [relaunchPacks_opened hready hplan, mailPacks_ok_iff, List.map_map]
  exact Iff.rfl

/-- A Re-launch is refused in time exactly when the batch that it finishes is, or the generation
that it opens can be built. -/
theorem relaunch_keeps_iff : RefusedKeeps env x (.relaunch c seq) w ↔
    RefusedInTime env x w.terminal (.relaunch c seq) := by
  have hrefl : Untouched (.relaunch c seq) w w := Untouched.refl _ w
  have hclaimed := @untouched_claimPress _ w c seq
  unfold RefusedKeeps SendPress.upToPush relaunchUpToPush RefusedInTime
  rw [keeps_checkTerminal_of_rel hrefl]
  constructor
  · intro h hopen bearer hbearer hfresh
    have hbegun := h () hopen
    rw [keeps_checkTerminal_of_rel hrefl] at hbegun
    have hclaim := hbegun bearer hbearer
    rw [keeps_readTerminal, keeps_commitTerminal, keeps_checkTerminal_of_rel hclaimed] at hclaim
    have hnext := hclaim () (if_neg (by rw [hfresh]; exact Bool.false_ne_true))
    rw [keeps_readTerminal] at hnext
    change Procedure.Keeps _ _ (match w.terminal.interrupted? c with
      | some batchNo => _
      | none => _) _ at hnext
    cases hinterrupted : w.terminal.interrupted? c with
    | some batchNo =>
      rw [hinterrupted] at hnext
      exact (keeps_dispatchLoaded hclaimed).mp hnext
    | none =>
      rw [hinterrupted] at hnext
      intro ctx recipients plan hready hsendable hclosed hplan
      rw [keeps_checkTerminal_of_rel hclaimed] at hnext
      have hchecked := hnext (ctx, recipients) hready
      change Procedure.Keeps _ _ (checkTerminal _ >>= _) _ at hchecked
      rw [keeps_checkTerminal_of_rel hclaimed] at hchecked
      have hopened := hchecked () hsendable
      rw [keeps_commitTerminal, keeps_checkTerminal] at hopened
      have hiff := relaunchPacks_ok_iff (x := x) hready hplan
      cases hpacks : relaunchPacks env x ctx recipients
          ((w.terminal.claimPress c seq).openGeneration c) with
      | ok packs => exact hiff.mp ⟨packs, hpacks⟩
      | error e =>
        have hkept := (untouched_openGeneration_iff hclaimed).mp (hopened.1 e hpacks)
        exact absurd (claimPress_open_iff.mpr hclosed) hkept
  · intro h _ hopen
    rw [keeps_checkTerminal_of_rel hrefl]
    intro bearer hbearer
    rw [keeps_readTerminal, keeps_commitTerminal, keeps_checkTerminal_of_rel hclaimed]
    intro _ hstale
    have hfresh : staleClaim c seq w.terminal = false := by
      by_contra hstale'
      rw [if_pos (by simpa using hstale')] at hstale
      cases hstale
    have hrest := h hopen bearer hbearer hfresh
    rw [keeps_readTerminal]
    change Procedure.Keeps _ _ (match w.terminal.interrupted? c with
      | some batchNo => _
      | none => _) _
    cases hinterrupted : w.terminal.interrupted? c with
    | some batchNo =>
      rw [hinterrupted] at hrest
      exact (keeps_dispatchLoaded hclaimed).mpr hrest
    | none =>
      rw [hinterrupted] at hrest
      rw [keeps_checkTerminal_of_rel hclaimed]
      rintro ⟨ctx, recipients⟩ hready
      show Procedure.Keeps _ _ (checkTerminal _ >>= _) _
      rw [keeps_checkTerminal_of_rel hclaimed]
      intro _ hsendable
      rw [keeps_commitTerminal, keeps_checkTerminal]
      refine ⟨fun e he => ?_, fun packs _ => Procedure.keeps_pure (ctx.keyed packs)⟩
      apply (untouched_openGeneration_iff hclaimed).mpr
      intro hclosed
      obtain ⟨plan, hplan, -, -⟩ := plan_answers env ctx.camp (genKeyFor (openedGen ctx.camp))
        recipients w.terminal
      obtain ⟨packs, hpacks⟩ := (relaunchPacks_ok_iff hready hplan).mpr
        (hrest ctx recipients plan hready hsendable (claimPress_open_iff.mp hclosed) hplan)
      rw [hpacks] at he
      cases he

/-- A press that raises before it has sent a request changes nothing exactly when what may still
refuse it after a commit of its own does not: the row, the times and the mails of a normal
launch's first batch, those of a batch that closes suppressed recipients, and the mails of a
generation that a Re-launch opens. -/
theorem refused_keeps_iff (env : Setup Id) (x : PressInput) (p : SendPress) (w : World Id) :
    RefusedKeeps env x p w ↔ RefusedInTime env x w.terminal p := by
  cases p with
  | launch c => exact launch_keeps_iff
  | approve c batchNo => exact approve_keeps_iff
  | relaunch c seq => exact relaunch_keeps_iff

end presses

/-- A campaign that is ready to be launched, for one contact. -/
private def readyTerminal : Terminal (ℕ ×ₗ String) :=
  { contacts := [{ id := 1, email := "bob@demo.example", name := "Bob" }]
    recipients := [{ id := 1, campaignId := 1, contactId := 1 }]
    campaigns := [{ id := 1, createdAt := "2026-01-01", templateId := 1, kind := .transactional
                    status := .tested, testSentAt := some "2026-01-02"
                    templateHashAtTest := some "h" }]
    templates := [{ id := 1, subject := "News", htmlBody := "<p>Hi</p>", textBody := some "Hi"
                    templateHash := "h" }]
    settings := { resendApiKey := "re_1" }
    bearer := some .operator }

/-- The settings name a time zone that there is not. -/
private def zonelessInput : PressInput :=
  { decrypt := .ok, key := .ok ⟨1⟩, now := 0, nowText := "", startAfter := 0, zone := none
    pace := ⟨1, 60, 210, 30, 15, none⟩, draws := ⟨fun _ => 0, fun _ => 0, fun _ => 0⟩
    tokens := fun _ => ("x", "y"), displayName := id }

/-- The launch raises, and the campaign is dispatched and its contact locked all the same. -/
theorem locked_by_refused_launch : ¬ ∀ (env : Setup (ℕ ×ₗ String)) (x : PressInput) (p : SendPress)
    (w : World (ℕ ×ₗ String)), RefusedKeeps env x p w := by
  intro h
  have hrun : (match (SendPress.upToPush Setup.plain zonelessInput (.launch 1)).outcome
      { cloud := .empty, terminal := readyTerminal } with
    | (.error e, w) => some (e.text, w.terminal.campaigns.map fun c => (c.status, c.lockUntil))
    | (.ok _, _) => none) =
      some ("ZoneInfoNotFoundError", [(CampaignStatus.dispatched, some 86400)]) := by
    decide +kernel
  rcases hout : (SendPress.upToPush Setup.plain zonelessInput (.launch 1)).outcome
    { cloud := .empty, terminal := readyTerminal } with ⟨r, w⟩
  rw [hout] at hrun
  cases r with
  | ok packs => cases hrun
  | error e =>
    obtain ⟨-, hafter⟩ := Prod.mk.inj (Option.some.inj hrun)
    have hkept := (h Setup.plain zonelessInput (.launch 1) _ e w hout).campaigns
    have hstatus := congrArg (List.map fun c => (c.status, c.lockUntil)) hkept
    rw [List.map_map, List.map_map] at hstatus
    have hbefore := hafter.symm.trans hstatus
    revert hbefore
    decide

end Mailman.Analysis
