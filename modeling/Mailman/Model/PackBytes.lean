import Mailman.Library.JsonWriter
import Mailman.Model.BeforePush
import Mailman.Model.Tokens

/-!
# The bytes of a pack

What `_build_pack` seals and pushes, what the dispatcher opens and posts, and the test mail, which
is built, opened and posted the same way. AES-GCM is a parameter, and so is the text that
`json.loads` takes bytes for. What an exception says beyond its kind is left out.
-/

set_option autoImplicit false

namespace Mailman.Model.PackBytes

open Mailman.Library

abbrev Bytes := List UInt8

/-- What comes from outside the source. -/
structure Runtime extends Tokens.Runtime where
  /-- `AESGCM(key).encrypt(nonce, data, None)` -/
  encrypt : Bytes → Bytes → Bytes → Bytes
  /-- `AESGCM(key).decrypt(nonce, data, None)`, or its exception -/
  decrypt : Bytes → Bytes → Bytes → Option Bytes
  /-- `bool()` of a float -/
  floatTrue : Json.Text → Bool

/-- `base64.b64encode(b).decode()` -/
def b64encode (b : Bytes) : String :=
  .ofList (Base64.encode b ++ Base64.padding (Base64.encode b).length)

/-- `base64.b64decode` of a text. -/
def b64decode (s : Json.Text) : Option Bytes :=
  if s.all (· < 128) then Base64.decode (s.map Char.ofNat) else none

/-- `.encode()` of a text of ASCII. -/
def encode (t : Json.Text) : Bytes := t.map UInt8.ofNat

/-- `json.loads` of bytes. -/
def Runtime.loads (rt : Runtime) (b : Bytes) : Option Json.Value := (rt.text b).bind Json.loads

/-- `bool(value)` -/
def Runtime.truthy (rt : Runtime) : Json.Value → Bool
  | .null => false
  | .bool b => b
  | .int n => n ≠ 0
  | .float lexeme => rt.floatTrue lexeme
  | .str s => !s.isEmpty
  | .arr items => !items.isEmpty
  | .obj members => !members.isEmpty

/-! ## The K_temp envelope -/

/-- The envelope of a nonce and a ciphertext. SOURCE: terminal/encryption.py:115-119 -/
def tempEnvelope (nonce ct : Bytes) : List (String × Json.Data) :=
  [("v", .int 1), ("mode", .str "K_temp"), ("nonce", .str (b64encode nonce)),
    ("ct", .str (b64encode ct))]

/-- `encrypt_with_temp`, or its exception. SOURCE: terminal/encryption.py:109-120 -/
def encryptWithTemp (rt : Runtime) (nonce plaintext kTemp : Bytes) : Option Bytes :=
  if kTemp.length ≠ 32 then none
  else
    (Json.dumpsWith .compact (.obj (tempEnvelope nonce (rt.encrypt kTemp nonce plaintext)))).map
      encode

/-- Why a pack is not opened. -/
inductive OpenError where
  | keyLength (n : ℕ)
  | notJson
  | notObject
  | wrongMode
  | badField
  | refused
  | badCount
  deriving DecidableEq, Repr

/-- `base64.b64decode(envelope[name])` -/
def bytesField (name : String) (members : List (Json.Text × Json.Value)) : Option Bytes :=
  match Json.lookup name members with
  | some (.str s) => b64decode s
  | _ => none

/-- `envelope.get("mode") == mode` -/
def hasMode (mode : String) (members : List (Json.Text × Json.Value)) : Bool :=
  match Json.lookup "mode" members with
  | some (.str s) => s = Json.codes mode
  | _ => false

/-- `decrypt_with_temp`, which the terminal and the cloud have alike; a pack that lost its payload
has none to decrypt. SOURCE: terminal/encryption.py:123-133, cloud/encryption_cloud.py:40-49 -/
def decryptWithTemp (rt : Runtime) (envelope : Option Bytes) (kTemp : Bytes) :
    Except OpenError Bytes :=
  if kTemp.length ≠ 32 then .error (.keyLength kTemp.length)
  else
    match envelope.bind rt.loads with
    | none => .error .notJson
    | some (.obj members) =>
      if hasMode "K_temp" members then
        match bytesField "nonce" members, bytesField "ct" members with
        | some nonce, some ct =>
          match rt.decrypt kTemp nonce ct with
          | some plaintext => .ok plaintext
          | none => .error .refused
        | _, _ => .error .badField
      else .error .wrongMode
    | some _ => .error .notObject

/-! ## The terminal -/

/-- The columns of a campaign that only its packs carry. SOURCE: terminal/models.py:94-98 -/
structure Pacing where
  rateLimitPerMin : Option ℤ := none
  bouncePausePct : Option Json.Decimal := none
  humanSendMinS : ℤ := 60
  humanSendMaxS : ℤ := 210

/-- `value or default` -/
def orInt (value default : ℤ) : ℤ := if value = 0 then default else value

/-- `value or 0.10` -/
def orTenth (value : Option Json.Decimal) : Json.Decimal :=
  (value.filter fun x => !(x.whole = 0 && x.fraction.all (· = Json.ord '0'))).getD
    { whole := 0, fraction := [Json.ord '1'] }

/-- SOURCE: terminal/launch.py:224-228 -/
def listUnsubHeaders (unsubUrl : String) : Json.Data :=
  .obj [("List-Unsubscribe", .str ("<" ++ unsubUrl ++ ">")),
    ("List-Unsubscribe-Post", .str "List-Unsubscribe=One-Click")]

/-- `plain_pack`. SOURCE: terminal/launch.py:712-723 -/
def plainPack (ctx : SendCtx) (pace : Pacing) (humanSend : Bool) (unsubUrl : String)
    (pack : MailPack) : List (String × Json.Data) :=
  [("recipient", .str pack.email), ("subject", .str pack.mail.subject),
    ("html", .str pack.mail.html), ("text", .str pack.mail.text),
    ("headers", listUnsubHeaders unsubUrl), ("from", .str pack.sender),
    ("resend_api_key", .str ctx.sender.resendKey), ("campaign_id", .int ctx.camp.id),
    ("rate_limit_per_min", pace.rateLimitPerMin.elim .null .int),
    ("bounce_pause_pct", .float (orTenth pace.bouncePausePct)), ("human_send", .bool humanSend),
    ("human_send_min_s", .int (orInt pace.humanSendMinS 60)),
    ("human_send_max_s", .int (orInt pace.humanSendMaxS 210)),
    ("human_send_count", .int (orInt ctx.camp.humanSendCount 1))]

/-- `encrypted_blob`. SOURCE: terminal/launch.py:724, 731 -/
def sealPack (rt : Runtime) (nonce kTemp : Bytes) (plain : List (String × Json.Data)) :
    Option String :=
  (Json.dumpsWith .spaced (.obj plain)).bind fun t =>
    (encryptWithTemp rt nonce (encode t) kTemp).map b64encode

/-- The mail of `_build_pack` for the `n`-th pack, and its `encrypted_blob`.
SOURCE: terminal/launch.py:696-732 -/
def buildPack (rt : Runtime) (x : PressInput) (set : Settings) (ctx : SendCtx) (pace : Pacing)
    (humanSend : Bool) (nonce kTemp : Bytes) (t : Target) (n : ℕ) :
    Except LaunchError (MailPack × String) := do
  let pack ← mailPack x set ctx t n
  let unsubUrl := unsubLink ctx.publicHost (x.tokens n).1
  let blob ← (sealPack rt nonce kTemp (plainPack ctx pace humanSend unsubUrl pack)).elim
    (.error ⟨.other, "ValueError"⟩) .ok
  .ok (pack, blob)

/-! ## The dispatcher -/

/-- `int(plain.get("human_send_count") or 1)` -/
def humanCount (rt : Runtime) (members : List (Json.Text × Json.Value)) : Option ℤ :=
  let count := (Json.lookup "human_send_count" members).getD .null
  if rt.truthy count then rt.int count else some 1

/-- What the `try` of `_process` reads of a pack. SOURCE: cloud/dispatcher_lambda.py:151-160 -/
def openPack (rt : Runtime) (payload : Option Bytes) (kTemp : Bytes) :
    Except OpenError (List (Json.Text × Json.Value) × ℤ) := do
  let plain ← decryptWithTemp rt payload kTemp
  match rt.loads plain with
  | none => .error .notJson
  | some (.obj members) =>
    match humanCount rt members with
    | none => .error .badCount
    | some count => .ok (members, count)
  | some _ => .error .notObject

/-- A request to the provider: the key of its `Authorization`, and its body. -/
structure Post where
  apiKey : Json.Value
  body : List (String × Json.Value)

/-- The body of the request, or a `KeyError`; `subject` is what becomes of the subject.
SOURCE: cloud/dispatcher_lambda.py:215-227, terminal/launch.py:1076-1080 -/
def requestBody (rt : Runtime) (subject : Json.Value → Option Json.Value)
    (plain : List (Json.Text × Json.Value)) : Option (List (String × Json.Value)) := do
  let sender ← Json.lookup "from" plain
  let recipient ← Json.lookup "recipient" plain
  let subject ← (Json.lookup "subject" plain).bind subject
  let html ← Json.lookup "html" plain
  let body := [("from", sender), ("to", .arr [recipient]), ("subject", subject), ("html", html),
    ("headers", (Json.lookup "headers" plain).getD (.obj [])), ("open_tracking", .bool false),
    ("click_tracking", .bool true)]
  let text := (Json.lookup "text" plain).filter rt.truthy
  some (body ++ text.toList.map fun t => ("text", t))

/-- What `_send_sync` does before there is an answer: it fails, it raises, or it posts. -/
inductive Sending where
  | noKey
  | raised
  | post (p : Post)

/-- `_send_sync` up to its request. SOURCE: cloud/dispatcher_lambda.py:209-233 -/
def sendSync (rt : Runtime) (plain : List (Json.Text × Json.Value)) : Sending :=
  match (Json.lookup "resend_api_key" plain).filter rt.truthy with
  | none => .noKey
  | some apiKey =>
    match requestBody rt some plain with
    | none => .raised
    | some body => .post ⟨apiKey, body⟩

/-- `_process` from the stored payload to the request. SOURCE: cloud/dispatcher_lambda.py:151-168 -/
def dispatch (rt : Runtime) (payload : Option Bytes) (kTemp : Bytes) : Except OpenError Sending :=
  (openPack rt payload kTemp).map fun plain => sendSync rt plain.1

/-! ## The test mail -/

/-- What the test action reads beside what a press reads: two ways to lower a text. -/
structure TestInput where
  press : PressInput
  /-- `str.lower` -/
  lower : String → String
  /-- `lower` of SQLite -/
  sqlLower : String → String

variable {Id : Type}

/-- The refusals of `build_test_mail`, and the context of its pack; no one reads the key, the key id
and the bearer of that context. SOURCE: terminal/launch.py:1037-1072 -/
def testCtx (env : Setup Id) (x : PressInput) (camp : Campaign) (tmpl : Template)
    (t : Terminal Id) : Except LaunchError SendCtx := do
  if camp.kind = .promotional ∧ t.settings.emailFooterAddress = "" then
    .error ⟨.launch, "promotional needs email_footer_address setting (CAN-SPAM)"⟩
  else do
    let sender ← senderOf x t.settings camp
      "resend_api_key not configured - set via admin UI or on the company"
    let companyName ← preflightCheck x t.settings camp tmpl
    let ctx : SendCtx :=
      { camp, tmpl, sender, publicHost := t.settings.publicHost, companyName, kTemp := ⟨0⟩
        keyId := "", bearer := .operator }
    let recipients := t.candidates camp.id fun r => r.status = .queued
    let deliver := deliverable env ctx recipients t
    assertRecipientsSendable (ctx.mailCtx t.settings)
      (deliver.map (·.row) ++ seedRows t.activeSeedEmails)
    .ok ctx

/-- `known or ""`. SOURCE: terminal/launch.py:1067-1068, 1073 -/
def knownName (x : TestInput) (toEmail : String) (t : Terminal Id) : String :=
  ((orderBy (·.id) (t.contacts.filter fun c => x.sqlLower c.email = x.lower toEmail)).head?.map
    (·.name)).getD ""

/-- `"[Test] " + plain["subject"]` -/
def testSubject : Json.Value → Option Json.Value
  | .str s => some (.str (Json.codes "[Test] " ++ s))
  | _ => none

/-- What the test mail is built for. SOURCE: terminal/launch.py:1073-1074 -/
def testTarget (toEmail name : String) : Target := ⟨⟨none, .queued, toEmail, name⟩, none, 0⟩

/-- The request of the test action: the pack of `_build_pack`, opened again.
SOURCE: terminal/launch.py:1073-1081 -/
def testRequest (rt : Runtime) (x : TestInput) (pace : Pacing) (nonce k : Bytes) (toEmail : String)
    (set : Settings) (ctx : SendCtx) (name : String) : Except LaunchError Post := do
  let (_, blob) ← buildPack rt x.press set ctx pace false nonce k (testTarget toEmail name) 0
  match decryptWithTemp rt (b64decode (Json.codes blob)) k with
  | .error _ => .error ⟨.other, "ValueError"⟩
  | .ok plain =>
    match rt.loads plain with
    | some (.obj plain) =>
      match requestBody rt testSubject plain, Json.lookup "resend_api_key" plain with
      | some body, some apiKey => .ok ⟨apiKey, body⟩
      | _, _ => .error ⟨.other, "KeyError"⟩
    | _ => .error ⟨.other, "ValueError"⟩

/-- `build_test_mail`. SOURCE: terminal/launch.py:1031-1081 -/
def buildTestMail (rt : Runtime) (env : Setup Id) (x : TestInput) (pace : Pacing)
    (nonce k : Bytes) (camp : Campaign) (tmpl : Template) (toEmail : String) (t : Terminal Id) :
    Except LaunchError Post := do
  let ctx ← testCtx env x.press camp tmpl t
  testRequest rt x pace nonce k toEmail t.settings ctx (knownName x toEmail t)

end Mailman.Model.PackBytes
