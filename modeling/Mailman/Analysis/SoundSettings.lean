import Mailman.Analysis.RefusedPresses
import Mailman.Analysis.ScheduleComplete

/-!
# Settings that refuse nothing too late

With a batch size, a schedule that answers, a public host and tokens without braces, and senders
whose header can be written, every press is refused in time, whatever the tables are and whatever
else refuses it (`refused_keeps_of_sound`). The schedule answers where the zone is known, its window
opens at an hour of the day, and the calendar has room (`schedules_of_fits`).
-/

set_option autoImplicit false

namespace Mailman.Analysis

open Mailman.Library Mailman.Model Mailman.Interface

variable {Id : Type} [LinearOrder Id] {env : Setup Id} {x : PressInput} {t : Terminal Id}

/-- Settings by which every mail to the recipients and the seeds of a terminal can go out. A
campaign has a contact once, as the schema has it. -/
structure SoundSettings (x : PressInput) (t : Terminal Id) : Prop where
  batchSize : 0 < t.settings.sendBatchSize
  schedule : ∀ n ≤ t.recipients.length + t.seeds.length, ∃ sendAts, Schedules x n sendAts
  host : IsLinkText t.settings.publicHost
  tokens : ∀ n, IsLinkText (x.tokens n).1 ∧ IsLinkText (x.tokens n).2
  sender : ∀ camp unset sender, senderOf x t.settings camp unset = .ok sender → Writable sender
  unique : ∀ c, ((t.recipients.filter (·.campaignId = c)).map (·.contactId)).Nodup

/-- Where the window opens and the calendar has room for `n`, the schedule answers. -/
theorem schedules_of_fits {zone : Zone} {n m : ℕ} (hzone : x.zone = some zone)
    (hopens : WindowOpens ⟨zone, x.startHour, x.windowHours⟩) (hhour : x.startHour ≤ 23)
    (hcount : 0 < x.pace.senderCount) (hcap : ∀ k, x.pace.dailyCap = some k → 1 ≤ k)
    (hshare : SharesDates ⟨zone, x.startHour, x.windowHours⟩ m) (hdraws : x.draws.InRange x.pace)
    (hfits : FitsCalendar n m ⟨zone, x.startHour, x.windowHours⟩ x.pace x.startAfter) :
    ∃ sendAts, Schedules x n sendAts := by
  unfold Schedules
  rw [hzone]
  rcases Nat.eq_zero_or_pos n with rfl | hn
  · exact ⟨[], rfl⟩
  · exact computeSendAts_fits hopens hhour hn hcount hcap hshare hdraws hfits

/-! ## The sends of a batch -/

section sends

variable {set : Settings} {ctx : SendCtx} {sends : List (Candidate × SendId)} {seeds : List String}

/-- A target is one of the sends or a seed. -/
theorem row_of_batchTargets {sendAts : List Stamp} {target : Target}
    (h : target ∈ batchTargets sends seeds sendAts) :
    target.row ∈ sends.map (·.1.row) ++ seedRows seeds := by
  unfold batchTargets at h
  obtain ⟨⟨⟨row, send⟩, sendAt⟩, hin, rfl⟩ := List.mem_map.mp h
  have hrow := (perm_insertSeeds _ _ _ _).mem_iff.mp (List.of_mem_zip hin).1
  rw [List.mem_append] at hrow ⊢
  rcases hrow with hsend | hseed
  · obtain ⟨s, hs, heq⟩ := List.mem_map.mp hsend
    exact .inl (List.mem_map.mpr ⟨s, hs, congrArg Prod.fst heq⟩)
  · obtain ⟨email, hemail, heq⟩ := List.mem_map.mp hseed
    exact .inr (List.mem_map.mpr ⟨email, hemail, congrArg Prod.fst heq⟩)

omit [LinearOrder Id] in
/-- Rows that passed the check with the example links can be built. -/
theorem buildable_of_sound (h : SoundSettings x t) (hhost : ctx.publicHost = t.settings.publicHost)
    (hsender : Writable ctx.sender) {rows : List SendRow}
    (hrows : ∀ r ∈ rows, unsendable (ctx.mailCtx t.settings) r = .ok none) :
    Buildable x t.settings ctx rows := by
  intro n row hrow
  refine ⟨hsender, linksFit_of_host (hrows row (List.mem_of_getElem? hrow)) ?_ (h.tokens n).1
    (h.tokens n).2⟩
  rw [hhost]
  exact h.host

omit [LinearOrder Id] in
/-- Sends and seeds that passed the check go out, when they are no more than the tables hold. -/
theorem sendsOut_of_sound (h : SoundSettings x t) (hhost : ctx.publicHost = t.settings.publicHost)
    (hsender : Writable ctx.sender) (hsends : sends.length ≤ t.recipients.length)
    (hrows : ∀ r ∈ sends.map (·.1.row) ++ seedRows t.activeSeedEmails,
      unsendable (ctx.mailCtx t.settings) r = .ok none) :
    SendsOut x t.settings ctx sends t.activeSeedEmails := by
  have hseeds : t.activeSeedEmails.length ≤ t.seeds.length := by
    unfold Terminal.activeSeedEmails
    rw [List.length_map, (perm_orderBy _).length_eq]
    exact List.length_filter_le ..
  obtain ⟨sendAts, hanswer⟩ := h.schedule (sends.length + t.activeSeedEmails.length) (by omega)
  refine ⟨sendAts, hanswer, buildable_of_sound h hhost hsender fun r hr => hrows r ?_⟩
  obtain ⟨target, htarget, rfl⟩ := List.mem_map.mp hr
  exact row_of_batchTargets htarget

omit [LinearOrder Id] in
/-- The candidates are no more than the recipients. -/
theorem length_candidates_le (c : ℕ) (p : Recipient → Bool) :
    (t.candidates c p).length ≤ t.recipients.length := by
  unfold Terminal.candidates
  rw [(perm_orderBy _).length_eq]
  exact (List.length_filterMap_le ..).trans (List.length_filter_le ..)

end sends

/-! ## The presses -/

section presses

variable {c batchNo : ℕ} {ctx : SendCtx} {recipients : List Candidate}
  {batches : List (List Candidate)} {bearer : Actor}

omit [LinearOrder Id] in
/-- Numbers that are given to other contacts leave a recipient alone. -/
theorem numbered_of_others {bs : List (List Candidate × ℕ)} {r : Recipient}
    (h : ∀ b ∈ bs, ∀ a ∈ b.1, a.contactId ≠ r.contactId) : numbered c bs r = r := by
  unfold numbered
  induction bs with
  | nil => rfl
  | cons b bs ih =>
    have hnone : ¬(r.campaignId = c ∧ (b.1.any (·.contactId = r.contactId)) = true) := by
      rintro ⟨-, hany⟩
      obtain ⟨a, ha, heq⟩ := List.any_eq_true.mp hany
      exact h b List.mem_cons_self a ha (by simpa using heq)
    rw [List.foldl_cons, if_neg hnone]
    exact ih fun b hb => h b (List.mem_cons_of_mem _ hb)

omit [LinearOrder Id] in
/-- A batch size makes a first batch with somebody in it. -/
theorem somebody_of_sound (h : SoundSettings x t)
    (hready : launchChecks env x c false bearer t = .ok (ctx, recipients))
    (hbatches : batchesCheck env ctx recipients t = .ok batches) :
    batches ≠ [] ∧ firstBatch c batches t ≠ [] := by
  obtain ⟨-, hrows, -⟩ := launchChecks_eq_ok hready
  obtain ⟨hsome, hmake, -⟩ := batchesCheck_eq_ok hbatches
  have hsize := h.batchSize
  unfold makeBatches at hmake
  rw [if_neg (by omega), if_neg (by omega)] at hmake
  obtain rfl := Except.ok.inj hmake
  generalize hdeliver : deliverable env ctx recipients t = deliver at hsome
  cases deliver with
  | nil => exact absurd rfl hsome
  | cons first rest =>
    obtain ⟨size, hsucc⟩ : ∃ size, t.settings.sendBatchSize.toNat = size + 1 :=
      ⟨t.settings.sendBatchSize.toNat - 1, by omega⟩
    rw [hsucc]
    have hflat := flatten_sliceBy (Nat.succ_pos size) (first :: rest).length (first :: rest) le_rfl
    have hslice : sliceBy (size + 1) (first :: rest).length (first :: rest) =
        (first :: rest.take size) ::
          sliceBy (size + 1) rest.length ((first :: rest).drop (size + 1)) := rfl
    rw [hslice, List.flatten_cons] at hflat
    rw [hslice]
    refine ⟨List.cons_ne_nil _ _, ?_⟩
    have hnodup : ((first :: rest).map (·.contactId)).Nodup := by
      rw [← hdeliver, hrows]
      exact (nodup_candidates _ (h.unique c)).sublist (List.filter_sublist.map _)
    have hin : first ∈ recipients := by
      have hmem : first ∈ deliverable env ctx recipients t := hdeliver ▸ List.mem_cons_self
      exact List.mem_of_mem_filter hmem
    rw [hrows, mem_candidates] at hin
    obtain ⟨row, hrow, ⟨hcampaign, hqueued⟩, hcontact⟩ := hin
    have hkey : row.contactId = first.contactId := by
      obtain ⟨contact, -, heq⟩ := hcontact
      rw [← heq]
    have hnumber : (numbered c ((first :: rest.take size) :: sliceBy (size + 1) rest.length
        ((first :: rest).drop (size + 1))).zipIdx row).batchNo = some 1 := by
      have hothers : numbered c ((sliceBy (size + 1) rest.length
          ((first :: rest).drop (size + 1))).zipIdx 1) { row with batchNo := some 1 } =
            { row with batchNo := some 1 } := by
        apply numbered_of_others
        intro b hb a ha heq
        have hlater : a ∈ (sliceBy (size + 1) rest.length ((first :: rest).drop (size + 1))).flatten :=
          List.mem_flatten.mpr ⟨b.1, List.fst_mem_of_mem_zipIdx hb, ha⟩
        rw [← hflat, List.map_append, List.nodup_append] at hnodup
        exact hnodup.2.2 _ (List.mem_map_of_mem List.mem_cons_self) _ (List.mem_map_of_mem hlater)
          (hkey.symm.trans heq.symm)
      rw [List.zipIdx_cons]
      unfold numbered at hothers ⊢
      rw [List.foldl_cons, if_pos ⟨hcampaign, by simp [hkey]⟩]
      exact congrArg (·.batchNo) hothers
    apply List.ne_nil_of_mem (a := first)
    unfold firstBatch
    rw [mem_candidates]
    refine ⟨row, hrow, ⟨hcampaign, ?_⟩, hcontact⟩
    rw [hnumber]
    simpa using hqueued

/-- A batch with a row is dispatched by sound settings. -/
theorem dispatchClean_of_sound (h : SoundSettings x t) (hrow : t.batch? c batchNo ≠ none) :
    DispatchClean env x c batchNo t := by
  intro ctx chosen _ hctx hchosen _
  obtain ⟨⟨sendKey, hplan⟩, hchosenRow, hseeds, hchecked⟩ := chooseBatch_eq_ok hchosen
  obtain ⟨hid, hhost, hsender⟩ : ctx.camp.id = c ∧ ctx.publicHost = t.settings.publicHost ∧
      Writable ctx.sender := by
    unfold loadCtxCheck at hctx
    obtain ⟨bearer, -, hctx⟩ := bind_eq_ok.mp hctx
    cases hcamp : t.campaign? c with
    | none =>
      rw [hcamp] at hctx
      cases hctx
    | some camp =>
      rw [hcamp] at hctx
      dsimp only at hctx
      split at hctx
      · cases hctx
      · obtain ⟨rfl, hhost, hsender, -⟩ := sendCtx_eq_ok hctx
        exact ⟨campaign?_id hcamp, hhost, h.sender _ _ _ hsender⟩
  refine ⟨?_, fun _ => ?_⟩
  · rw [hchosenRow, hid]
    exact hrow
  · rw [hseeds]
    obtain ⟨plan, hplan', hlen, -⟩ := plan_answers env ctx.camp sendKey (t.candidates ctx.camp.id
      fun r => r.batchNo = some batchNo && r.status = .queued) t
    cases hplan.symm.trans hplan'
    exact sendsOut_of_sound h hhost hsender (hlen.trans (length_candidates_le _ _)) hchecked

omit [LinearOrder Id] in
/-- An interrupted batch has a row. -/
theorem batch?_of_interrupted (h : t.interrupted? c = some batchNo) :
    t.batch? c batchNo ≠ none := by
  unfold Terminal.interrupted? at h
  obtain ⟨row, hrow, rfl⟩ := List.mem_map.mp (List.min?_mem h)
  obtain ⟨hmem, hcampaign⟩ := List.mem_filter.mp hrow
  intro hnone
  have hno := List.find?_eq_none.mp hnone row hmem
  rw [decide_eq_true_eq] at hcampaign hno
  exact hno ⟨hcampaign.1, rfl⟩

/-- **Sound settings refuse in time**, whatever is pressed. -/
theorem refusedInTime_of_sound (h : SoundSettings x t) (p : SendPress) :
    RefusedInTime env x t p := by
  cases p with
  | launch c =>
    intro bearer ctx recipients batches _ hready hbatches
    obtain ⟨hsome, hsomebody⟩ := somebody_of_sound h hready hbatches
    refine ⟨.inl hsome, .inl hsomebody, fun plan hplan _ => ?_⟩
    obtain ⟨-, -, hhost, ⟨unset, hsender⟩, -⟩ := launchChecks_eq_ok hready
    obtain ⟨-, -, hchecked⟩ := batchesCheck_eq_ok hbatches
    obtain ⟨plan', hplan', hlen, hsends⟩ := plan_answers env ctx.camp
      (genKeyFor ctx.camp.relaunchGen) (firstBatch c batches t) t
    cases hplan.symm.trans hplan'
    refine sendsOut_of_sound h hhost (h.sender _ _ _ hsender)
      (hlen.trans (length_candidates_le _ _)) fun r hr => hchecked r ?_
    rw [List.mem_append] at hr ⊢
    refine hr.imp_left fun hr => ?_
    obtain ⟨s, hs, rfl⟩ := List.mem_map.mp hr
    obtain ⟨hin, hfree⟩ := hsends s hs
    exact List.mem_map.mpr ⟨s.1, deliverable_of_firstBatch hready hin hfree, rfl⟩
  | approve c batchNo =>
    intro hgate
    apply dispatchClean_of_sound h
    unfold approveCheck at hgate
    intro hnone
    rw [hnone] at hgate
    cases hgate
  | relaunch c seq =>
    have hclaimed : SoundSettings x (t.claimPress c seq) :=
      ⟨h.batchSize, h.schedule, h.host, h.tokens, h.sender, h.unique⟩
    intro _ bearer _ _
    cases hinterrupted : t.interrupted? c with
    | some batchNo =>
      have hrow : (t.claimPress c seq).batch? c batchNo ≠ none := batch?_of_interrupted hinterrupted
      exact dispatchClean_of_sound hclaimed hrow
    | none =>
      intro ctx recipients plan hready hsendable _ hplan
      obtain ⟨-, -, hhost, ⟨unset, hsender⟩, -⟩ := launchChecks_eq_ok hready
      obtain ⟨plan', hplan', -, hsends⟩ := plan_answers env ctx.camp
        (genKeyFor (openedGen ctx.camp)) recipients t
      cases hplan.symm.trans hplan'
      refine buildable_of_sound h hhost (h.sender _ _ _ hsender) fun r hr => ?_
      obtain ⟨s, hs, rfl⟩ := List.mem_map.mp hr
      obtain ⟨hin, hfree⟩ := hsends s hs
      apply assertRecipientsSendable_iff.mp hsendable
      have hdeliver : s.1 ∈ deliverable env ctx recipients (t.claimPress c seq) :=
        List.mem_filter.mpr ⟨hin, Option.isNone_iff_eq_none.mpr hfree⟩
      exact List.mem_map.mpr ⟨s.1, hdeliver, rfl⟩

/-- **With sound settings** a press that raises before its first request changes nothing. -/
theorem refused_keeps_of_sound {w : World Id} (h : SoundSettings x w.terminal) (p : SendPress) :
    RefusedKeeps env x p w := by
  have hsound : RefusedInTime env x w.terminal p := refusedInTime_of_sound h p
  cases p with
  | launch c => exact launch_keeps_iff.mpr hsound
  | approve c batchNo => exact approve_keeps_iff.mpr hsound
  | relaunch c seq => exact relaunch_keeps_iff.mpr hsound

end presses

end Mailman.Analysis
