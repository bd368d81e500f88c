import Mailman.Analysis.PackPosted

/-!
# The test mail and the launch

The test action refuses what a launch refuses, with the same text, once the gates are passed that
only a launch has; and what it posts is what the dispatcher would post of the launch's own pack for
that address, but for the mark in the subject.
-/

set_option autoImplicit false

namespace Mailman.Analysis

open Mailman.Library Mailman.Model Mailman.Model.PackBytes

variable {Id : Type} {env : Setup Id} {x : PressInput} {camp : Campaign}
  {tmpl : Template} {t : Terminal Id}

/-- The gates that only a launch has are passed: the campaign has been tested as it stands, somebody
is due the mail, nobody of them is locked, the batch size is not zero, and there is a key. -/
structure LaunchGates (env : Setup Id) (x : PressInput) (camp : Campaign) (tmpl : Template)
    (t : Terminal Id) : Prop where
  campaign : t.campaign? camp.id = some camp
  template : t.template? camp.templateId = some tmpl
  status : camp.status = .tested ∨ camp.status = .scheduled
  tested : camp.testSentAt ≠ none
  hash : camp.templateHashAtTest = some tmpl.templateHash
  unlocked : ∀ r ∈ t.candidates camp.id fun r => r.status = .queued,
    r.contactId ∉ t.lockedContacts camp.id x.now
  due : ∃ r ∈ t.candidates camp.id fun r => r.status = .queued,
    suppressedMap camp.kind t.suppressions (env.emailHash r.email) = none
  batchSize : t.settings.sendBatchSize ≠ 0
  key : ∃ k, x.key = .ok k

/-- The refusals of a normal launch, once it has its bearer. -/
def launchRefusals (env : Setup Id) (x : PressInput) (campaignId : ℕ) (bearer : Actor)
    (t : Terminal Id) : Except LaunchError SendCtx := do
  let (ctx, recipients) ← launchChecks env x campaignId false bearer t
  let _ ← batchesCheck env ctx recipients t
  .ok ctx

/-- Behind the gates a launch is loaded, or lacks its footer. -/
theorem loadLaunch_of_gates (h : LaunchGates env x camp tmpl t) :
    t.loadLaunch camp.id none false false =
      if camp.kind = .promotional ∧ t.settings.emailFooterAddress = "" then
        .error ⟨.launch, "promotional needs email_footer_address setting (CAN-SPAM)"⟩
      else .ok (camp, tmpl, t.candidates camp.id fun r => r.status = .queued) := by
  have hstatus : ¬(camp.status ≠ .tested ∧ camp.status ≠ .scheduled) := by
    rintro ⟨htested, hscheduled⟩
    exact h.status.elim htested hscheduled
  unfold Terminal.loadLaunch
  rw [h.campaign]
  simp [h.template, h.tested, h.hash, hstatus]

/-- Behind the gates the checks of a launch are those of its mail. -/
theorem launchChecks_of_gates (h : LaunchGates env x camp tmpl t) (bearer : Actor) :
    launchChecks env x camp.id false bearer t =
      if camp.kind = .promotional ∧ t.settings.emailFooterAddress = "" then
        .error ⟨.launch, "promotional needs email_footer_address setting (CAN-SPAM)"⟩
      else (sendCtx env x t.settings bearer camp tmpl
        "resend_api_key not configured - set via admin UI or on the company").map fun ctx =>
          (ctx, t.candidates camp.id fun r => r.status = .queued) := by
  obtain ⟨r, hr, -⟩ := h.due
  have hqueued : (t.candidates camp.id fun r => r.status = .queued) ≠ [] := List.ne_nil_of_mem hr
  have hunlocked : ((t.candidates camp.id fun r => r.status = .queued).any fun r =>
      (t.lockedContacts camp.id x.now).contains r.contactId) = false := by
    rw [List.any_eq_false]
    intro r hr
    rw [List.contains_iff_mem]
    exact h.unlocked r hr
  unfold launchChecks
  rw [loadLaunch_of_gates h]
  split
  · rfl
  · simp only [bind, Except.bind]
    rw [if_neg fun hnone => hqueued hnone.1, if_neg (by rw [hunlocked]; exact Bool.false_ne_true)]
    cases sendCtx env x t.settings bearer camp tmpl
      "resend_api_key not configured - set via admin UI or on the company" <;> rfl

/-- Two contexts that agree in what a pack takes from them. -/
structure SameMail (ctx ctx' : SendCtx) : Prop where
  camp : ctx.camp = ctx'.camp
  tmpl : ctx.tmpl = ctx'.tmpl
  sender : ctx.sender = ctx'.sender
  publicHost : ctx.publicHost = ctx'.publicHost
  companyName : ctx.companyName = ctx'.companyName

/-- Contexts of one mail render alike. -/
theorem SameMail.mailCtx {ctx ctx' : SendCtx} (h : SameMail ctx ctx') (set : Settings) :
    ctx.mailCtx set = ctx'.mailCtx set := by
  unfold SendCtx.mailCtx
  rw [h.camp, h.tmpl, h.publicHost, h.companyName]

/-- Where somebody is due the mail, the last check of a launch is that of the recipients, which the
test action makes as well. -/
theorem batchesCheck_of_gates (h : LaunchGates env x camp tmpl t) {ctx ctx' : SendCtx}
    (hcamp : ctx.camp = camp) (hsame : SameMail ctx ctx') :
    (batchesCheck env ctx (t.candidates camp.id fun r => r.status = .queued) t).map (fun _ => ()) =
      assertRecipientsSendable (ctx'.mailCtx t.settings)
        ((deliverable env ctx' (t.candidates camp.id fun r => r.status = .queued) t).map (·.row) ++
          seedRows t.activeSeedEmails) := by
  have hdeliver' :
      deliverable env ctx' (t.candidates camp.id fun r => r.status = .queued) t =
        deliverable env ctx (t.candidates camp.id fun r => r.status = .queued) t := by
    unfold deliverable
    rw [hsame.camp]
  rw [← hsame.mailCtx, hdeliver']
  generalize hdeliver :
    deliverable env ctx (t.candidates camp.id fun r => r.status = .queued) t = deliver
  have hne : deliver ≠ [] := by
    obtain ⟨r, hr, hdue⟩ := h.due
    rw [← hdeliver]
    apply List.ne_nil_of_mem (a := r)
    exact List.mem_filter.mpr ⟨hr, by rw [hcamp, hdue]; rfl⟩
  have hbatches : (makeBatches t.settings.sendBatchSize deliver).map (fun _ => ()) = .ok () := by
    unfold makeBatches
    rw [if_neg h.batchSize]
    split <;> rfl
  unfold batchesCheck
  rw [hdeliver, if_neg hne]
  cases assertRecipientsSendable (ctx.mailCtx t.settings)
    (deliver.map (·.row) ++ seedRows t.activeSeedEmails) with
  | error e => rfl
  | ok _ => exact hbatches

/-- Behind the gates of a launch, a launch and a test mail are refused alike, and the contexts they
get differ at most in the key and the bearer. -/
theorem launch_refuses_as_test (h : LaunchGates env x camp tmpl t) (bearer : Actor) :
    (∃ e, launchRefusals env x camp.id bearer t = .error e ∧
        testCtx env x camp tmpl t = .error e) ∨
      ∃ ctx ctx', launchRefusals env x camp.id bearer t = .ok ctx ∧
        testCtx env x camp tmpl t = .ok ctx' ∧ SameMail ctx ctx' ∧ ctx.sender.resendKey ≠ "" := by
  obtain ⟨k, hk⟩ := h.key
  unfold launchRefusals testCtx
  rw [launchChecks_of_gates h]
  split
  · exact .inl ⟨_, rfl, rfl⟩
  · unfold sendCtx
    rw [hk]
    cases hsender : senderOf x t.settings camp
      "resend_api_key not configured - set via admin UI or on the company" with
    | error e => exact .inl ⟨e, rfl, rfl⟩
    | ok sender =>
      cases hname : preflightCheck x t.settings camp tmpl with
      | error e => exact .inl ⟨e, rfl, rfl⟩
      | ok companyName =>
        have hsame : SameMail
            { camp, tmpl, sender, publicHost := t.settings.publicHost, companyName, kTemp := k
              bearer, keyId := "K_temp_" ++ env.kTempId k }
            { camp, tmpl, sender, publicHost := t.settings.publicHost, companyName, kTemp := ⟨0⟩
              keyId := "", bearer := .operator } := ⟨rfl, rfl, rfl, rfl, rfl⟩
        have hlast := batchesCheck_of_gates h rfl hsame
        simp only [bind, Except.bind, Except.map] at hlast ⊢
        rw [← hlast]
        split
        · exact .inl ⟨_, rfl, rfl⟩
        · exact .inr ⟨_, _, rfl, rfl, hsame, key_of_senderOf hsender⟩

variable {rt : Runtime} {pace : Pacing} {y : TestInput}

/-- Contexts of one mail build the same pack. -/
theorem buildPack_of_same {ctx ctx' : SendCtx} (h : SameMail ctx ctx') (set : Settings)
    (humanSend : Bool) (nonce k : Bytes) (target : Target) (n : ℕ) :
    PackBytes.buildPack rt x set ctx pace humanSend nonce k target n =
      PackBytes.buildPack rt x set ctx' pace humanSend nonce k target n := by
  have hmail : mailPack x set ctx target n = mailPack x set ctx' target n := by
    unfold mailPack
    rw [h.mailCtx, h.sender]
  have hplain : ∀ url pack,
      plainPack ctx pace humanSend url pack = plainPack ctx' pace humanSend url pack := by
    intro url pack
    unfold plainPack
    rw [h.camp, h.sender]
  unfold PackBytes.buildPack
  simp only [hmail, hplain, h.publicHost]

/-- Behind the gates of a launch, the test action is refused just where the launch is, with the
same text. Else it posts what the dispatcher posts of the pack that the launch's context gives for
the address, with the mark in front of the subject, or raises what building that pack raises. -/
theorem test_send_as_launch (htext : ReadsAscii rt)
    (hcipher : ∀ key nonce data, rt.decrypt key nonce (rt.encrypt key nonce data) = some data)
    (h : LaunchGates env y.press camp tmpl t) (bearer : Actor) :
    (∃ e, launchRefusals env y.press camp.id bearer t = .error e ∧ ∀ nonce k toEmail,
        buildTestMail rt env y pace nonce k camp tmpl toEmail t = .error e) ∨
      ∃ ctx, launchRefusals env y.press camp.id bearer t = .ok ctx ∧ ∀ nonce k toEmail,
        (∀ e, PackBytes.buildPack rt y.press t.settings ctx pace false nonce k
            (testTarget toEmail (knownName y toEmail t)) 0 = .error e →
          buildTestMail rt env y pace nonce k camp tmpl toEmail t = .error e) ∧
        ∀ pack blob, PackBytes.buildPack rt y.press t.settings ctx pace false nonce k
            (testTarget toEmail (knownName y toEmail t)) 0 = .ok (pack, blob) →
          buildTestMail rt env y pace nonce k camp tmpl toEmail t =
              .ok (mailRequest ctx (unsubLink ctx.publicHost (y.press.tokens 0).1)
                ("[Test] " ++ pack.mail.subject) pack) ∧
            ∃ payload, PackBytes.b64decode (Json.codes blob) = some payload ∧
              dispatch rt (some payload) k = .ok (.post (mailRequest ctx
                (unsubLink ctx.publicHost (y.press.tokens 0).1) pack.mail.subject pack)) := by
  obtain ⟨e, hlaunch, htest⟩ | ⟨ctx, ctx', hlaunch, htest, hsame, hkey⟩ :=
    launch_refuses_as_test h bearer
  · refine .inl ⟨e, hlaunch, fun nonce k toEmail => ?_⟩
    unfold buildTestMail
    rw [htest]
    rfl
  · refine .inr ⟨ctx, hlaunch, fun nonce k toEmail => ⟨fun e he => ?_, fun pack blob hbuilt => ?_⟩⟩
    · rw [buildPack_of_same hsame] at he
      unfold buildTestMail testRequest
      rw [htest]
      simp only [bind, Except.bind]
      rw [he]
    · constructor
      · have hrequest : ∀ url s, mailRequest ctx url s pack = mailRequest ctx' url s pack := by
          intro url s
          unfold mailRequest
          rw [hsame.sender]
        rw [buildPack_of_same hsame] at hbuilt
        unfold buildTestMail
        rw [htest, hrequest, hsame.publicHost]
        exact testRequest_of_buildPack htext hcipher hbuilt
      · obtain ⟨payload, -, hdecode, -, -, hopen⟩ := sealed_of_buildPack htext hcipher hbuilt
        refine ⟨payload, hdecode, ?_⟩
        unfold dispatch
        rw [hopen]
        exact congrArg Except.ok (sendSync_plainPack hkey)

/-! A campaign that was tested, with one recipient, and a test mail to somebody else. -/

private def echoRuntime : Runtime where
  hmac key message := key ++ message
  sha256 := id
  text b := some (b.map UInt8.toNat)
  intOf _ := none
  strOf _ := []
  encrypt _ _ data := data
  decrypt _ _ data := some data
  floatTrue _ := true

private def echoInput : TestInput where
  press :=
    { decrypt := .ok, key := .ok ⟨1⟩, now := 0, nowText := "", startAfter := 0, zone := none
      pace := ⟨1, 60, 210, 30, 15, none⟩, draws := ⟨fun _ => 0, fun _ => 0, fun _ => 0⟩
      tokens := fun _ => ("u", "e"), displayName := id }
  lower := id
  sqlLower := id

private def echoCampaign : Campaign :=
  { id := 1, createdAt := "2026-01-01", templateId := 1, kind := .transactional, status := .tested
    testSentAt := some "2026-01-02", templateHashAtTest := some "h" }

private def echoTemplate : Template :=
  { id := 1, subject := "News", htmlBody := "<p>Hi</p>", textBody := some "Hi"
    templateHash := "h" }

private def echoTerminal : Terminal (ℕ ×ₗ String) :=
  { contacts := [{ id := 1, email := "bob@demo.example", name := "Bob" }]
    recipients := [{ id := 1, campaignId := 1, contactId := 1 }]
    campaigns := [echoCampaign]
    templates := [echoTemplate]
    settings := { resendApiKey := "re" } }

/-- The example is behind the gates. -/
private theorem echo_gates :
    LaunchGates Setup.plain echoInput.press echoCampaign echoTemplate echoTerminal where
  campaign := rfl
  template := rfl
  status := .inl rfl
  tested := by decide
  hash := rfl
  unlocked := by decide +kernel
  due := by decide +kernel
  batchSize := by decide
  key := ⟨⟨1⟩, rfl⟩

private def echoBuilt (ctx : SendCtx) : Except LaunchError (MailPack × String) :=
  PackBytes.buildPack echoRuntime echoInput.press echoTerminal.settings ctx {} false []
    (List.replicate 32 0) (testTarget "ann@demo.example"
      (knownName echoInput "ann@demo.example" echoTerminal)) 0

/-- A test mail of the example. -/
theorem test_send_as_launch_echo :
    ∃ ctx pack, buildTestMail echoRuntime Setup.plain echoInput {} [] (List.replicate 32 0)
        echoCampaign echoTemplate "ann@demo.example" echoTerminal =
      .ok (mailRequest ctx (unsubLink ctx.publicHost "u") ("[Test] " ++ pack.mail.subject)
        pack) := by
  have hbuilt : ((launchRefusals Setup.plain echoInput.press 1 .operator echoTerminal).toOption.bind
      fun ctx => (echoBuilt ctx).toOption).isSome = true := by
    decide +kernel
  obtain ⟨e, hrefused, -⟩ | ⟨ctx, hctx, htest⟩ := @test_send_as_launch _ _ _ _ _ echoRuntime {} _
    (fun b _ => rfl) (fun key nonce data => rfl) echo_gates .operator
  · have hnone : (launchRefusals Setup.plain echoInput.press 1 .operator echoTerminal).toOption =
        none := congrArg Except.toOption hrefused
    rw [hnone] at hbuilt
    cases hbuilt
  · have hsome : (launchRefusals Setup.plain echoInput.press 1 .operator echoTerminal).toOption =
        some ctx := congrArg Except.toOption hctx
    rw [hsome, Option.bind_some] at hbuilt
    cases hpack : echoBuilt ctx with
    | error e =>
      rw [hpack] at hbuilt
      cases hbuilt
    | ok built => exact ⟨ctx, built.1, ((htest [] _ _).2 built.1 built.2 hpack).1⟩

end Mailman.Analysis
