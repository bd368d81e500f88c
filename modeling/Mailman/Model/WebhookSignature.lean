import Mailman.Model.Tokens

/-!
# The signature of a webhook

How the receiver reads its secrets and compares the entries of a signature header with them, and
what a request is answered before its body is looked at. HMAC-SHA256, and what decoding a body
with replacement characters makes of its bytes, are parameters.
-/

set_option autoImplicit false

namespace Mailman.Model.WebhookSignature

open Mailman.Library Mailman.Model.Tokens

/-- `base64.b64decode`, or its exception. -/
def b64decode (s : String) : Option (List UInt8) :=
  if Text.isAscii s then Base64.decode s.toList else none

/-- `base64.b64encode(b).decode("ascii")` -/
def b64encode (b : List UInt8) : String :=
  .ofList (Base64.encode b ++ Base64.padding (Base64.encode b).length)

/-- The key of one piece of the setting, or `none` where it is skipped. -/
def secretOf (piece : String) : Option (List UInt8) :=
  let part := Text.strip piece
  if part = "" then none
  else
    let part := (Text.afterPrefix "whsec_" part).getD part
    some ((b64decode part).getD (utf8 part))

/-- `s.split(c)` -/
def splitOn (c : Char) (s : String) : List String := (s.toList.splitOn c).map String.ofList

/-- SOURCE: cloud/webhook_receiver.py:41-55 -/
def allSecrets (raw : String) : List (List UInt8) := (splitOn ',' raw).filterMap secretOf

/-- `s.split()` -/
def words (s : String) : List String :=
  ((s.toList.splitOnP Text.isSpace).filter (· ≠ [])).map String.ofList

/-- `hmac.compare_digest` of two texts, or its `TypeError`. -/
def compareDigest (a b : String) : Except Unit Bool :=
  if Text.isAscii a && Text.isAscii b then .ok (a = b) else .error ()

/-- The entries of a header against one expected value. SOURCE: cloud/webhook_receiver.py:66-70 -/
def compareEntries (expected : String) : List String → Except Unit Bool
  | [] => .ok false
  | entry :: entries =>
    match Text.afterPrefix "v1," entry with
    | none => compareEntries expected entries
    | some signature =>
      match compareDigest signature expected with
      | .error e => .error e
      | .ok true => .ok true
      | .ok false => compareEntries expected entries

/-- SOURCE: cloud/webhook_receiver.py:64-71 -/
def compareSecrets (hmac : List UInt8 → List UInt8 → List UInt8) (signed : List UInt8)
    (entries : List String) : List (List UInt8) → Except Unit Bool
  | [] => .ok false
  | secret :: secrets =>
    match compareEntries (b64encode (hmac secret signed)) entries with
    | .ok false => compareSecrets hmac signed entries secrets
    | r => r

/-- `f"{svix_id}.{svix_timestamp}.{...}".encode("utf-8")` -/
def signedContent (svixId svixTimestamp : String) (body : List UInt8) : List UInt8 :=
  utf8 (svixId ++ "." ++ svixTimestamp ++ ".") ++ body

/-- `replaced` is `body.decode("utf-8", errors="replace")`, encoded again.
SOURCE: cloud/webhook_receiver.py:58-71 -/
def verifySignature (hmac : List UInt8 → List UInt8 → List UInt8)
    (replaced : List UInt8 → List UInt8) (raw svixId svixTimestamp : String) (body : List UInt8)
    (signatureHeader : String) : Except Unit Bool :=
  let secrets := allSecrets raw
  if secrets = [] then .ok false
  else compareSecrets hmac (signedContent svixId svixTimestamp (replaced body))
    (words signatureHeader) secrets

/-- What a request is answered before its body is read. -/
inductive Admission where
  | refused (status : ℕ)
  | crashed
  | admitted
  deriving DecidableEq, Repr

/-- `toInt` is `int` of a text. SOURCE: cloud/webhook_receiver.py:93-112 -/
def admission (hmac : List UInt8 → List UInt8 → List UInt8) (replaced : List UInt8 → List UInt8)
    (toInt : String → Option ℤ) (raw : String) (maxSkew now : ℤ)
    (svixId svixTimestamp svixSignature : String) (body : List UInt8) : Admission :=
  if svixId = "" ∨ svixTimestamp = "" ∨ svixSignature = "" then .refused 400
  else
    match toInt svixTimestamp with
    | none => .refused 400
    | some ts =>
      if |now - ts| > maxSkew then .refused 400
      else
        match verifySignature hmac replaced raw svixId svixTimestamp body svixSignature with
        | .error _ => .crashed
        | .ok false => .refused 401
        | .ok true => .admitted

end Mailman.Model.WebhookSignature
