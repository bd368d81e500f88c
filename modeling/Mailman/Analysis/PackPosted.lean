import Mailman.Library.Checks
import Mailman.Model.PackBytes

/-!
# What a dispatcher posts of a pack

A pack goes through two JSON writers, the cipher and two rounds of base64 before the dispatcher
reads it. What it posts is the mail that was composed, field by field.
-/

set_option autoImplicit false

namespace Mailman.Analysis

open Mailman.Library Mailman.Model Mailman.Model.PackBytes

variable {rt : Runtime}

/-! ## Base64 -/

/-- A digit of base64 is ASCII. -/
theorem isAscii_digit {v : ℕ} (hv : v < 64) : (Base64.digit v).toNat < 128 := by
  have hall : ∀ w : Fin 64, (Base64.digit w).toNat < 128 := by decide +kernel
  exact hall ⟨v, hv⟩

/-- The codes of a text give it back. -/
theorem ofNat_codes (s : String) : (Json.codes s).map Char.ofNat = s.toList := by
  unfold Json.codes
  rw [List.map_map]
  exact (List.map_congr_left fun c _ => Char.ofNat_toNat c).trans (List.map_id _)

/-- Encoded bytes are decoded. -/
theorem b64decode_encode (b : Bytes) : PackBytes.b64decode (Json.codes (b64encode b)) = some b := by
  have hascii : ∀ c ∈ Base64.encode b ++ Base64.padding (Base64.encode b).length,
      c.toNat < 128 := by
    intro c hc
    cases List.mem_append.mp hc with
    | inl hdigit =>
      obtain ⟨v, hv, rfl⟩ := Base64.mem_encode hdigit
      exact isAscii_digit hv
    | inr hpad =>
      rw [List.eq_of_mem_replicate hpad]
      decide
  unfold PackBytes.b64decode
  rw [if_pos, ofNat_codes]
  · unfold b64encode
    rw [String.toList_ofList]
    exact Base64.decode_encode_pad b
  · unfold b64encode Json.codes
    rw [String.toList_ofList, List.all_map, List.all_eq_true]
    exact fun c hc => decide_eq_true (hascii c hc)

/-! ## JSON -/

/-- What `json.loads` makes of the bytes of an ASCII text. -/
def ReadsAscii (rt : Runtime) : Prop :=
  ∀ b : Bytes, (∀ u ∈ b, 0 < u.toNat ∧ u.toNat < 128) → rt.text b = some (b.map UInt8.toNat)

/-- A written value is loaded. -/
theorem loads_encode (htext : ReadsAscii rt) {L : Json.Layout} (hL : L.ascii = true)
    {v : Json.Data} {d : Json.Text} (hd : Json.dumpsWith L v = some d) :
    rt.loads (encode d) = some v.toValue := by
  have hascii : Json.Ascii d := Json.ascii_dumpData hL v hd
  have hbyte : ∀ c ∈ d, (UInt8.ofNat c).toNat = c := by
    intro c hc
    have hrange := hascii c hc
    rw [UInt8.toNat_ofNat']
    omega
  have hback : (encode d).map UInt8.toNat = d := by
    unfold encode
    rw [List.map_map]
    exact (List.map_congr_left hbyte).trans d.map_id
  have hread : rt.text (encode d) = some d := by
    rw [htext, hback]
    intro u hu
    obtain ⟨c, hc, rfl⟩ := List.mem_map.mp hu
    rw [hbyte c hc]
    exact hascii c hc
  rw [Runtime.loads, hread]
  exact Json.loads_dumpsWith hd

/-! ## Opening what was sealed -/

/-- What a dispatcher that holds a key makes of a payload sealed under another. -/
def Refuses (rt : Runtime) (k nonce kTemp : Bytes) : Prop :=
  ∀ plaintext, rt.decrypt k nonce (rt.encrypt kTemp nonce plaintext) = none

section fields

variable {members : List (String × Json.Data)}

/-- Bytes that were written in a field are read from it. -/
theorem bytesField_written {name : String} {b : Bytes}
    (h : members.reverse.lookup name = some (.str (b64encode b))) :
    bytesField name (Json.toMembers members) = some b := by
  unfold bytesField
  rw [Json.lookup_toMembers, h]
  exact b64decode_encode b

/-- The mode is what was written. -/
theorem hasMode_written {mode mode' : String}
    (h : members.reverse.lookup "mode" = some (.str mode')) :
    hasMode mode (Json.toMembers members) = decide (mode' = mode) := by
  unfold hasMode
  rw [Json.lookup_toMembers, h]
  exact decide_eq_decide.mpr Json.codes_injective.eq_iff

end fields

/-- What a key has sealed opens under it, and under another where the cipher says so. -/
theorem decryptWithTemp_encrypt (htext : ReadsAscii rt) {nonce plaintext kTemp envelope : Bytes}
    (h : encryptWithTemp rt nonce plaintext kTemp = some envelope) {k : Bytes}
    (hk : k.length = 32) :
    PackBytes.decryptWithTemp rt (some envelope) k =
      (rt.decrypt k nonce (rt.encrypt kTemp nonce plaintext)).elim (.error .refused) .ok := by
  generalize hct : rt.encrypt kTemp nonce plaintext = ct
  have hmode : hasMode "K_temp" (Json.toMembers (tempEnvelope nonce ct)) = true := by
    rw [hasMode_written rfl]
    rfl
  have hnonce : bytesField "nonce" (Json.toMembers (tempEnvelope nonce ct)) = some nonce :=
    bytesField_written rfl
  have hfield : bytesField "ct" (Json.toMembers (tempEnvelope nonce ct)) = some ct :=
    bytesField_written rfl
  unfold encryptWithTemp at h
  split at h
  · cases h
  · rw [hct] at h
    obtain ⟨d, hd, rfl⟩ := Option.map_eq_some_iff.mp h
    unfold PackBytes.decryptWithTemp
    rw [if_neg (not_not_intro hk), Option.bind_some, loads_encode htext rfl hd, Json.Data.toValue]
    dsimp only
    rw [if_pos hmode, hnonce, hfield]
    dsimp only
    cases rt.decrypt k nonce ct <;> rfl

/-! ## The mail that is posted -/

/-- The request that a composed mail asks for. -/
def mailRequest (ctx : SendCtx) (unsubUrl subject : String) (pack : MailPack) : Post where
  apiKey := .str (Json.codes ctx.sender.resendKey)
  body :=
    [("from", .str (Json.codes pack.sender)), ("to", .arr [.str (Json.codes pack.email)]),
      ("subject", .str (Json.codes subject)), ("html", .str (Json.codes pack.mail.html)),
      ("headers", .obj [(Json.codes "List-Unsubscribe", .str (Json.codes ("<" ++ unsubUrl ++ ">"))),
        (Json.codes "List-Unsubscribe-Post", .str (Json.codes "List-Unsubscribe=One-Click"))]),
      ("open_tracking", .bool false), ("click_tracking", .bool true)] ++
    if pack.mail.text = "" then [] else [("text", .str (Json.codes pack.mail.text))]

variable {ctx : SendCtx} {pace : Pacing} {humanSend : Bool} {unsubUrl : String} {pack : MailPack}

/-- A text is true unless it is empty. -/
theorem truthy_str (s : String) : rt.truthy (.str (Json.codes s)) = decide (s ≠ "") := by
  by_cases hs : s = ""
  · rw [hs]
    rfl
  · have hcodes : Json.codes s ≠ [] := fun h => hs (Json.codes_injective h)
    simp [Runtime.truthy, hs, hcodes]

/-- A field of a pack, as it is read back. -/
theorem lookup_plainPack (name : String) {v : Json.Data}
    (h : (plainPack ctx pace humanSend unsubUrl pack).reverse.lookup name = some v) :
    Json.lookup name (Json.toMembers (plainPack ctx pace humanSend unsubUrl pack)) =
      some v.toValue := by
  rw [Json.lookup_toMembers, h, Option.map_some]

/-- The request of a sealed pack has the composed mail. -/
theorem requestBody_plainPack (subject : Json.Value → Option Json.Value) {s : String}
    (hs : subject (.str (Json.codes pack.mail.subject)) = some (.str (Json.codes s))) :
    requestBody rt subject (Json.toMembers (plainPack ctx pace humanSend unsubUrl pack)) =
      some (mailRequest ctx unsubUrl s pack).body := by
  unfold requestBody
  rw [lookup_plainPack "from" rfl, lookup_plainPack "recipient" rfl,
    lookup_plainPack "subject" rfl, lookup_plainPack "html" rfl, lookup_plainPack "headers" rfl,
    lookup_plainPack "text" rfl]
  simp only [Option.bind_eq_bind, Option.bind_some, Json.Data.toValue, hs, Option.filter_some,
    truthy_str]
  by_cases htext : pack.mail.text = ""
  · simp [htext, mailRequest, listUnsubHeaders, Json.Data.toValue, Json.toMembers]
  · simp [htext, mailRequest, listUnsubHeaders, Json.Data.toValue, Json.toMembers]

/-- With a key of the provider a sealed pack is posted. -/
theorem sendSync_plainPack (hkey : ctx.sender.resendKey ≠ "") :
    PackBytes.sendSync rt (Json.toMembers (plainPack ctx pace humanSend unsubUrl pack)) =
      .post (mailRequest ctx unsubUrl pack.mail.subject pack) := by
  have htruthy : rt.truthy (.str (Json.codes ctx.sender.resendKey)) = true := by
    rw [truthy_str]
    exact decide_eq_true hkey
  unfold PackBytes.sendSync
  rw [lookup_plainPack "resend_api_key" rfl, requestBody_plainPack some rfl, Json.Data.toValue,
    Option.filter_some, if_pos htruthy]
  rfl

/-- The count of a sealed pack is the campaign's. -/
theorem humanCount_plainPack :
    humanCount rt (Json.toMembers (plainPack ctx pace humanSend unsubUrl pack)) =
      some (orInt ctx.camp.humanSendCount 1) := by
  unfold humanCount
  rw [lookup_plainPack "human_send_count" rfl]
  unfold orInt
  by_cases hzero : ctx.camp.humanSendCount = 0
  · rw [if_pos hzero]
    rfl
  · rw [if_neg hzero]
    simp [Json.Data.toValue, Runtime.truthy, hzero, Tokens.Runtime.int]

/-! ## What was sealed is what is opened -/

/-- A blob of `_build_pack` decodes to one payload, which every key of the right length either opens
as the pack that was sealed or refuses. -/
structure Sealed (rt : Runtime) (nonce kTemp : Bytes) (plain : List (String × Json.Data))
    (payload plaintext : Bytes) : Prop where
  length : kTemp.length = 32
  opens : ∀ k : Bytes, k.length = 32 → PackBytes.decryptWithTemp rt (some payload) k =
    (rt.decrypt k nonce (rt.encrypt kTemp nonce plaintext)).elim (.error .refused) .ok
  reads : rt.loads plaintext = some (.obj (Json.toMembers plain))

/-- A sealed pack is the base64 of its envelope. -/
theorem sealed_of_sealPack (htext : ReadsAscii rt) {nonce kTemp : Bytes}
    {plain : List (String × Json.Data)} {blob : String}
    (h : sealPack rt nonce kTemp plain = some blob) :
    ∃ payload plaintext, PackBytes.b64decode (Json.codes blob) = some payload ∧
      Sealed rt nonce kTemp plain payload plaintext := by
  obtain ⟨d, hd, hblob⟩ := Option.bind_eq_some_iff.mp h
  obtain ⟨envelope, henvelope, rfl⟩ := Option.map_eq_some_iff.mp hblob
  have hlength : kTemp.length = 32 := by
    by_contra hne
    rw [encryptWithTemp, if_pos hne] at henvelope
    cases henvelope
  exact ⟨envelope, encode d, b64decode_encode envelope, hlength,
    fun k hk => decryptWithTemp_encrypt htext henvelope hk, loads_encode htext rfl hd⟩

/-- A pack is built where its mail is composed and sealed. -/
theorem buildPack_eq_ok {x : PressInput} {set : Settings} {nonce kTemp : Bytes} {t : Target} {n : ℕ}
    {blob : String} :
    PackBytes.buildPack rt x set ctx pace humanSend nonce kTemp t n = .ok (pack, blob) ↔
      mailPack x set ctx t n = .ok pack ∧ sealPack rt nonce kTemp
        (plainPack ctx pace humanSend (unsubLink ctx.publicHost (x.tokens n).1) pack) =
          some blob := by
  have helim : ∀ (o : Option String) (e : LaunchError) (b : String),
      o.elim (.error e) Except.ok = .ok b ↔ o = some b := by
    intro o e b
    cases o <;> simp
  unfold PackBytes.buildPack
  rw [bind_eq_ok]
  constructor
  · rintro ⟨composed, hpack, h⟩
    obtain ⟨b, hblob, h⟩ := bind_eq_ok.mp h
    cases h
    exact ⟨hpack, (helim _ _ _).mp hblob⟩
  · rintro ⟨hpack, hblob⟩
    exact ⟨pack, hpack, bind_eq_ok.mpr ⟨blob, (helim _ _ _).mpr hblob, rfl⟩⟩

/-- A pack as a model of the dispatcher that knows no bytes sees it. -/
def seenPack (plain : List (Json.Text × Json.Value) × ℤ) : PlainPack :=
  let text (name : String) : Option String :=
    match Json.lookup name plain.1 with
    | some (.str s) => some (.ofList (s.map Char.ofNat))
    | _ => none
  { resendApiKey := text "resend_api_key"
    mail := do
      let sender ← text "from"
      let recipient ← text "recipient"
      let subject ← text "subject"
      let html ← text "html"
      some { sender, recipient, subject, html, text := (text "text").getD "" }
    campaignId := match Json.lookup "campaign_id" plain.1 with
      | some (.int n) => some n.toNat
      | _ => none
    humanSendCount := plain.2 }

/-- What a model without bytes seals of a composed mail. -/
def composed (ctx : SendCtx) (pack : MailPack) : PlainPack where
  resendApiKey := some ctx.sender.resendKey
  mail := some
    { sender := pack.sender, recipient := pack.email, subject := pack.mail.subject
      html := pack.mail.html, text := pack.mail.text }
  campaignId := some ctx.camp.id
  humanSendCount := if ctx.camp.humanSendCount = 0 then 1 else ctx.camp.humanSendCount

/-- What is read of a sealed pack is what was composed. -/
theorem seen_plainPack :
    seenPack (Json.toMembers (plainPack ctx pace humanSend unsubUrl pack),
      orInt ctx.camp.humanSendCount 1) = composed ctx pack := by
  unfold seenPack composed
  dsimp only
  rw [lookup_plainPack "from" rfl, lookup_plainPack "recipient" rfl,
    lookup_plainPack "subject" rfl, lookup_plainPack "html" rfl, lookup_plainPack "text" rfl,
    lookup_plainPack "resend_api_key" rfl, lookup_plainPack "campaign_id" rfl]
  simp [Json.Data.toValue, ofNat_codes, orInt]

/-- The launch of the model without bytes seals just that. -/
theorem composed_sealed {Id : Type} (env : Setup Id) (r : SendRow) (sendAt : Stamp) (isSeed : Bool)
    (packId : Option Id) (draw : ℕ)
    (h : some (env.compose ctx.camp ctx.tmpl ctx.sender ctx.publicHost ctx.companyName r draw) =
      (composed ctx pack).mail) :
    (Model.buildPack env ctx r sendAt isSeed packId draw).1.encryptedBlob =
      .sealed ctx.kTemp (.ok (composed ctx pack)) := by
  unfold Model.buildPack
  dsimp only
  rw [h]
  rfl

variable {Id : Type} {env : Setup Id} {x : PressInput} {set : Settings} {bearer : Actor}
  {camp : Campaign} {tmpl : Template} {unset : String}

/-- A resolved sender has a key of the provider. -/
theorem key_of_senderOf {sender : Sender} (h : senderOf x set camp unset = .ok sender) :
    sender.resendKey ≠ "" := by
  have hchecked : ∀ found : Except LaunchError Sender, (do
      let sender ← found
      if sender.resendKey = "" then .error ⟨.launch, unset⟩ else .ok sender) = .ok sender →
        sender.resendKey ≠ "" := by
    intro found hfound
    obtain ⟨s, -, hset⟩ := bind_eq_ok.mp hfound
    split at hset
    · cases hset
    · next hkey =>
      cases hset
      exact hkey
  unfold senderOf at h
  dsimp only at h
  split at h
  · exact hchecked _ h
  · exact hchecked _ h

/-- A context that a send gets has a provider key. -/
theorem key_of_sendCtx (h : sendCtx env x set bearer camp tmpl unset = .ok ctx) :
    ctx.sender.resendKey ≠ "" := by
  obtain ⟨sender, hsender, h⟩ := bind_eq_ok.mp h
  obtain ⟨companyName, -, h⟩ := bind_eq_ok.mp h
  obtain ⟨kTemp, -, h⟩ := bind_eq_ok.mp h
  cases h
  exact key_of_senderOf hsender

variable {nonce kTemp : Bytes} {t : Target} {n : ℕ} {blob : String}

/-- A pack that was built, and what becomes of it under each key. -/
theorem sealed_of_buildPack (htext : ReadsAscii rt)
    (hcipher : ∀ key nonce data, rt.decrypt key nonce (rt.encrypt key nonce data) = some data)
    (h : PackBytes.buildPack rt x set ctx pace humanSend nonce kTemp t n = .ok (pack, blob)) :
    ∃ payload plaintext, PackBytes.b64decode (Json.codes blob) = some payload ∧
      Sealed rt nonce kTemp (plainPack ctx pace humanSend
        (unsubLink ctx.publicHost (x.tokens n).1) pack) payload plaintext ∧
      PackBytes.decryptWithTemp rt (some payload) kTemp = .ok plaintext ∧
      openPack rt (some payload) kTemp =
        .ok (Json.toMembers (plainPack ctx pace humanSend
          (unsubLink ctx.publicHost (x.tokens n).1) pack), orInt ctx.camp.humanSendCount 1) := by
  obtain ⟨payload, plaintext, hdecode, hsealed⟩ := sealed_of_sealPack htext (buildPack_eq_ok.mp h).2
  have hplain : PackBytes.decryptWithTemp rt (some payload) kTemp = .ok plaintext := by
    rw [hsealed.opens kTemp hsealed.length, hcipher]
    rfl
  refine ⟨payload, plaintext, hdecode, hsealed, hplain, ?_⟩
  unfold openPack
  rw [hplain]
  simp only [bind, Except.bind, hsealed.reads, humanCount_plainPack]

/-- What the cloud stores of a pack opens, under the key of the terminal, to the pack that the launch
of the model without bytes seals for a recipient whose mail is composed alike, and the dispatcher
posts the composed mail under it, whatever its texts hold; under a key that the cipher refuses, or
of another length, it posts nothing. -/
theorem posted_as_composed (htext : ReadsAscii rt)
    (hcipher : ∀ key nonce data, rt.decrypt key nonce (rt.encrypt key nonce data) = some data)
    (hctx : sendCtx env x set bearer camp tmpl unset = .ok ctx)
    (h : PackBytes.buildPack rt x set ctx pace humanSend nonce kTemp t n = .ok (pack, blob)) :
    mailPack x set ctx t n = .ok pack ∧
      ∃ payload, PackBytes.b64decode (Json.codes blob) = some payload ∧
        (openPack rt (some payload) kTemp).map seenPack = .ok (composed ctx pack) ∧
        (∀ r sendAt isSeed packId draw,
          some (env.compose ctx.camp ctx.tmpl ctx.sender ctx.publicHost ctx.companyName r draw) =
              (composed ctx pack).mail →
            (Model.buildPack env ctx r sendAt isSeed packId draw).1.encryptedBlob =
              .sealed ctx.kTemp ((openPack rt (some payload) kTemp).map seenPack |>.mapError
                fun _ => "")) ∧
        dispatch rt (some payload) kTemp = .ok (.post (mailRequest ctx
          (unsubLink ctx.publicHost (x.tokens n).1) pack.mail.subject pack)) ∧
        ∀ k, Refuses rt k nonce kTemp ∨ k.length ≠ 32 →
          ∃ e, dispatch rt (some payload) k = .error e := by
  obtain ⟨payload, plaintext, hdecode, hsealed, -, hopen⟩ := sealed_of_buildPack htext hcipher h
  have hseen : (openPack rt (some payload) kTemp).map seenPack = .ok (composed ctx pack) := by
    rw [hopen]
    exact congrArg Except.ok seen_plainPack
  refine ⟨(buildPack_eq_ok.mp h).1, payload, hdecode, hseen, ?_, ?_, fun k hk => ?_⟩
  · intro r sendAt isSeed packId draw hmail
    rw [hseen]
    exact composed_sealed env r sendAt isSeed packId draw hmail
  · unfold dispatch
    rw [hopen]
    exact congrArg Except.ok (sendSync_plainPack (key_of_sendCtx hctx))
  · by_cases hlength : k.length = 32
    · refine ⟨.refused, ?_⟩
      unfold dispatch openPack
      rw [hsealed.opens k hlength, hk.resolve_right (not_not.mpr hlength)]
      rfl
    · refine ⟨.keyLength k.length, ?_⟩
      unfold dispatch openPack PackBytes.decryptWithTemp
      rw [if_pos hlength]
      rfl

/-! ## The test mail -/

/-- The mark goes in front of the subject. -/
theorem testSubject_codes (s : String) :
    testSubject (.str (Json.codes s)) = some (.str (Json.codes ("[Test] " ++ s))) := by
  unfold testSubject Json.codes
  rw [String.toList_append, List.map_append]

/-- The request of a test is that of the built pack. -/
theorem testRequest_of_buildPack (htext : ReadsAscii rt)
    (hcipher : ∀ key nonce data, rt.decrypt key nonce (rt.encrypt key nonce data) = some data)
    {y : TestInput} {toEmail name : String}
    (h : PackBytes.buildPack rt y.press set ctx pace false nonce kTemp (testTarget toEmail name) 0 =
      .ok (pack, blob)) :
    testRequest rt y pace nonce kTemp toEmail set ctx name =
      .ok (mailRequest ctx (unsubLink ctx.publicHost (y.press.tokens 0).1)
        ("[Test] " ++ pack.mail.subject) pack) := by
  obtain ⟨payload, plaintext, hdecode, hsealed, hplain, -⟩ := sealed_of_buildPack htext hcipher h
  unfold testRequest
  rw [h]
  simp only [bind, Except.bind]
  rw [hdecode, hplain]
  dsimp only
  rw [hsealed.reads]
  dsimp only
  rw [requestBody_plainPack testSubject (testSubject_codes _),
    lookup_plainPack "resend_api_key" rfl]
  rfl

/-! A cipher that can be computed, and a mail that is not all ASCII. -/

/-- The key and the nonce stand in front, and what does not start with them is refused. -/
private def taggedRuntime : Runtime where
  hmac key message := key ++ message
  sha256 := id
  text b := some (b.map UInt8.toNat)
  intOf _ := none
  strOf _ := []
  encrypt key nonce data := key ++ nonce ++ data
  decrypt key nonce data :=
    if data.take (key ++ nonce).length = key ++ nonce then some (data.drop (key ++ nonce).length)
    else none
  floatTrue _ := true

/-- The example's cipher opens what it has sealed. -/
private theorem tagged_decrypts (key nonce data : Bytes) :
    taggedRuntime.decrypt key nonce (taggedRuntime.encrypt key nonce data) = some data := by
  unfold taggedRuntime
  dsimp only
  rw [List.take_left, if_pos rfl, List.drop_left]

private def helloInput : PressInput where
  decrypt := .ok
  key := .ok ⟨1⟩
  now := 0
  nowText := ""
  startAfter := 0
  zone := none
  pace := ⟨1, 60, 210, 30, 15, none⟩
  draws := ⟨fun _ => 0, fun _ => 0, fun _ => 0⟩
  tokens _ := ("u", "e")
  displayName := id

private def helloCtx : SendCtx where
  camp := { id := 1, createdAt := "2026-01-01", templateId := 1, kind := .transactional }
  tmpl := { id := 1, subject := "Hi \x7b\x7bname\x7d\x7d", htmlBody := "<p>\u00E9\\</p>"
            textBody := some "\u00E9", templateHash := "h" }
  sender := ⟨"re", "noreply@mail.example.com", ""⟩
  publicHost := "mail.example.com"
  companyName := none
  kTemp := ⟨1⟩
  keyId := "K_temp_k"
  bearer := .operator

private def helloMail : MailPack where
  send := none
  email := "bob@demo.example"
  sendAt := 0
  mail := ⟨"Hi Bob", "<p>\u00E9\\</p>", "\u00E9"⟩
  sender := "noreply@mail.example.com"

/-- A mail of the example is posted, and refused under another key. -/
theorem posted_as_composed_hello :
    ∃ payload : Bytes,
      dispatch taggedRuntime (some payload) (List.replicate 32 0) = .ok (.post
        (mailRequest helloCtx (unsubLink "mail.example.com" "u") "Hi Bob" helloMail)) ∧
      (∃ e, dispatch taggedRuntime (some payload) (List.replicate 32 1) = .error e) ∧
      ∃ e, dispatch taggedRuntime (some payload) (List.replicate 31 0) = .error e := by
  have hctx : sendCtx Setup.plain helloInput { resendApiKey := "re" } .operator helloCtx.camp
      helloCtx.tmpl "" = .ok helloCtx := by
    have hname : preflightCheck helloInput { resendApiKey := "re" } helloCtx.camp
        helloCtx.tmpl = .ok none := by decide +kernel
    unfold sendCtx
    rw [hname]
    rfl
  have hmail : mailPack helloInput { resendApiKey := "re" } helloCtx
      ⟨⟨some 1, .queued, "bob@demo.example", "Bob"⟩, none, 0⟩ 0 = .ok helloMail := by
    decide +kernel
  have hseal : (sealPack taggedRuntime [] (List.replicate 32 0) (plainPack helloCtx {} false
      (unsubLink "mail.example.com" "u") helloMail)).isSome = true := by
    decide +kernel
  obtain ⟨blob, hblob⟩ := Option.isSome_iff_exists.mp hseal
  obtain ⟨-, payload, -, -, -, hposted, hrefused⟩ := posted_as_composed (fun b _ => rfl)
    tagged_decrypts hctx (buildPack_eq_ok.mpr ⟨hmail, hblob⟩)
  exact ⟨payload, hposted, hrefused _ (.inl fun data => rfl), hrefused _ (.inr (by decide))⟩

end Mailman.Analysis
