import Mailman.Library.Base64
import Mailman.Library.Json
import Mailman.Library.Text

/-!
# Signed tokens

The links for unsubscribing and erasure, minted by the terminal and verified by the cloud, and the
session cookie of the terminal. A time is `int(time.time())`. The primitives, and what Python
makes of a payload that no code here writes, are parameters.
-/

set_option autoImplicit false

namespace Mailman.Model.Tokens

open Mailman.Library

/-- `TokenKind` -/
inductive Kind where
  | unsub
  | erasure
  deriving DecidableEq, Repr

def Kind.name : Kind → String
  | .unsub => "unsub"
  | .erasure => "erasure"

/-- What comes from outside the source. -/
structure Runtime where
  /-- `hmac.new(key, message, hashlib.sha256).digest()` -/
  hmac : List UInt8 → List UInt8 → List UInt8
  /-- `hashlib.sha256(b).digest()` -/
  sha256 : List UInt8 → List UInt8
  /-- the text that `json.loads` takes bytes for -/
  text : List UInt8 → Option Json.Text
  /-- `int()` of a value that is neither an integer nor a Boolean -/
  intOf : Json.Value → Option ℤ
  /-- `str()` of a value that is no string -/
  strOf : Json.Value → Json.Text

/-- `int(value)` -/
def Runtime.int (rt : Runtime) : Json.Value → Option ℤ
  | .int n => some n
  | .bool b => some (if b then 1 else 0)
  | v => rt.intOf v

/-- `str(value)` -/
def Runtime.str (rt : Runtime) : Json.Value → Json.Text
  | .str s => s
  | v => rt.strOf v

/-- `s.encode("utf-8")` -/
def utf8 (s : String) : List UInt8 := s.toUTF8.data.toList

/-- `s.encode("ascii")`, or the `UnicodeEncodeError`. -/
def ascii (s : String) : Option (List UInt8) :=
  if Text.isAscii s then some (s.toList.map fun c => UInt8.ofNat c.toNat) else none

/-! ## Base64 -/

def toUrlSafe (c : Char) : Char := if c = '+' then '-' else if c = '/' then '_' else c

def fromUrlSafe (c : Char) : Char := if c = '-' then '+' else if c = '_' then '/' else c

/-- `_b64u` and `_b64u_encode`. SOURCE: terminal/launch.py:72-73, cloud/compliance_tokens.py:61-62 -/
def b64u (b : List UInt8) : String :=
  .ofList (((Base64.encode b ++ Base64.padding (Base64.encode b).length).map toUrlSafe).rdropWhile
    (· = '='))

/-- `_b64u_decode`, or its `ValueError`. SOURCE: cloud/compliance_tokens.py:65-67 -/
def b64uDecode (s : String) : Option (List UInt8) :=
  if Text.isAscii s then Base64.decode ((s.toList ++ Base64.padding s.length).map fromUrlSafe)
  else none

/-- `token.split(".", 1)`, or `none` where there is no dot. -/
def splitDot (token : String) : Option (String × String) :=
  match token.toList.dropWhile (· ≠ '.') with
  | [] => none
  | _ :: rest => some (.ofList (token.toList.takeWhile (· ≠ '.')), .ofList rest)

/-! ## The links -/

/-- SOURCE: terminal/launch.py:76-81 -/
def secret (rt : Runtime) (settings : Kind → String) (kind : Kind) : List UInt8 :=
  if settings kind = "" then rt.sha256 (utf8 ("dev-only-" ++ kind.name ++ "-secret"))
  else utf8 (settings kind)

/-- SOURCE: terminal/launch.py:84-89 -/
def mintToken (rt : Runtime) (settings : Kind → String) (kind : Kind) (emailHash : String)
    (ttl : ℤ) (random : List UInt8) (now : ℤ) : Option String :=
  (Json.dumps [("h", .str emailHash), ("n", .str (b64u random)), ("x", .int (now + ttl))]).bind
    fun payload =>
      let payloadB64 := b64u (payload.map UInt8.ofNat)
      (ascii payloadB64).map fun message =>
        payloadB64 ++ "." ++ b64u (rt.hmac (secret rt settings kind) message)

/-- SOURCE: cloud/compliance_tokens.py:48-58 -/
def secretFor (rt : Runtime) (settings : Kind → String) (kind : Kind) : List UInt8 :=
  let s := match kind with
    | .unsub => settings .unsub
    | .erasure => settings .erasure
  if s = "" then rt.sha256 (utf8 ("dev-only-" ++ kind.name ++ "-secret")) else utf8 s

/-- What `TokenInvalid` says. -/
inductive Invalid where
  | malformed
  | badSignature
  | notJson
  | shape
  deriving DecidableEq, Repr

/-- What `verify` raises; `uncaught` is an exception that is no `TokenError`. -/
inductive VerifyError where
  | expired
  | invalid (why : Invalid)
  | uncaught
  deriving DecidableEq, Repr

/-- What is checked of a payload whose signature is right. -/
def readPayload (rt : Runtime) (payload : Option Json.Value) (now : ℤ) :
    Except VerifyError Json.Text :=
  match payload with
  | none => .error (.invalid .notJson)
  | some (.obj members) =>
    match Json.lookup "h" members, Json.lookup "x" members with
    | some h, some x =>
      match rt.int x with
      | none => .error .uncaught
      | some x => if x < now then .error .expired else .ok (rt.str h)
    | _, _ => .error (.invalid .shape)
  | some _ => .error (.invalid .shape)

/-- `json.loads(_b64u_decode(s))` -/
def loadsB64u (rt : Runtime) (s : String) : Option Json.Value :=
  (b64uDecode s).bind fun b => (rt.text b).bind Json.loads

/-- `verify` of the two parts of a token. SOURCE: cloud/compliance_tokens.py:85-97 -/
def verifyParts (rt : Runtime) (settings : Kind → String) (kind : Kind)
    (payloadB64 sigB64 : String) (now : ℤ) : Except VerifyError Json.Text :=
  match ascii payloadB64, b64uDecode sigB64 with
  | some message, some sig =>
    if sig ≠ rt.hmac (secretFor rt settings kind) message then .error (.invalid .badSignature)
    else readPayload rt (loadsB64u rt payloadB64) now
  | _, _ => .error .uncaught

/-- SOURCE: cloud/compliance_tokens.py:80-85 -/
def verify (rt : Runtime) (settings : Kind → String) (kind : Kind) (token : String) (now : ℤ) :
    Except VerifyError Json.Text :=
  match splitDot token with
  | none => .error (.invalid .malformed)
  | some (payloadB64, sigB64) => verifyParts rt settings kind payloadB64 sigB64 now

/-! ## The public endpoints, behind their rate limit -/

/-- The status of a request: what `verify` said, and then the write, if there is one. An exception
that the endpoint does not catch is a 500. -/
def statusOf (verified : Except VerifyError Json.Text) (write : Option Bool) : ℕ :=
  match verified with
  | .ok _ => if write = some false then 503 else 200
  | .error .expired => 410
  | .error (.invalid _) => 400
  | .error .uncaught => 500

/-- SOURCE: cloud/compliance_public.py:64-78 -/
def unsubLanding (rt : Runtime) (settings : Kind → String) (token : String) (now : ℤ) : ℕ :=
  statusOf (verify rt settings .unsub token now) none

/-- SOURCE: cloud/compliance_public.py:119-150 -/
def unsubPost (rt : Runtime) (settings : Kind → String) (token : String) (now : ℤ)
    (written : Bool) : ℕ :=
  statusOf (verify rt settings .unsub token now) (some written)

/-- SOURCE: cloud/compliance_public.py:155-193 -/
def erasureLanding (rt : Runtime) (settings : Kind → String) (token : String)
    (confirm : Option ℤ) (now : ℤ) (written : Bool) : ℕ :=
  statusOf (verify rt settings .erasure token now) (if confirm = some 1 then some written else none)

/-- SOURCE: cloud/compliance_public.py:196-210 -/
def erasurePost (rt : Runtime) (settings : Kind → String) (token : String) (now : ℤ)
    (written : Bool) : ℕ :=
  statusOf (verify rt settings .erasure token now) (some written)

/-! ## The session of the terminal -/

/-- The members of a payload that has not expired; `.error` is an exception: the payload is no
object, or its expiry no number. SOURCE: terminal/auth.py:80-86 -/
def readSession (rt : Runtime) (payload : Option Json.Value) (now : ℤ) :
    Except Unit (Option (List (Json.Text × Json.Value))) :=
  match payload with
  | none => .ok none
  | some (.obj members) =>
    match rt.int ((Json.lookup "exp" members).getD (.int 0)) with
    | none => .error ()
    | some x => .ok (if x < now then none else some members)
  | some _ => .error ()

/-- SOURCE: terminal/auth.py:70-86 -/
def verifySession (rt : Runtime) (jwtSecret token : String) (now : ℤ) :
    Except Unit (Option (List (Json.Text × Json.Value))) :=
  match splitDot token with
  | none => .ok none
  | some (payloadB64, sigB64) =>
    if jwtSecret = "" then .ok none
    else
      match b64uDecode sigB64 with
      | none => .error ()
      | some sig =>
        if sig ≠ rt.hmac (utf8 jwtSecret) (utf8 payloadB64) then .ok none
        else readSession rt (loadsB64u rt payloadB64) now

/-- The payload, or `none` for the redirect to the login. SOURCE: terminal/auth.py:89-101 -/
def requireSession (rt : Runtime) (jwtSecret : String) (session : Option String) (now : ℤ) :
    Except Unit (Option (List (Json.Text × Json.Value))) :=
  match session with
  | none => .ok none
  | some token =>
    (verifySession rt jwtSecret token now).map fun payload =>
      if payload.all List.isEmpty then none else payload

end Mailman.Model.Tokens
