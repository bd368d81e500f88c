import Mailman.Library.Base64
import Mailman.Library.Text
import Mailman.Model.PackTable

/-!
# Registration of the two terminals

`cloud/handshake.py`: a terminal registers the public key of its role and is given a bearer
token, and `DELETE /init/handshake/{role}` revokes both. Every DynamoDB request is one step and
answers for the moment it is made. A scan is cut into pages by the environment; the keys on them
are those of all items of the table, in the order the scan comes to them. A session item is known
by the hash of its bearer.

`stores`, `deletes`, `scans` and `marks`, and the tickets of keys and sessions, are history: no
request reads them. They say which call stored a key and which deleted one, what a revocation's scan
reached and what was there for it to revoke, and which keys were deleted and which registrations
answered, in what order. A ticket is the place of a call in `stores` or in `deletes`.
-/

set_option autoImplicit false

namespace Mailman.Model

open Mailman.Library

/-- An answer that is not a success. -/
structure HttpError where
  code : ℕ
  detail : String
  deriving DecidableEq, Repr

/-- The item of a registered public key. SOURCE: cloud/dynamo.py:368-375 -/
structure PubkeyRow where
  kemPub : List UInt8
  registeredAt : Stamp
  ticket : ℕ
  deriving DecidableEq, Repr

/-- The item of a bearer. SOURCE: cloud/dynamo.py:301-310 -/
structure SessionRow where
  actor : Actor
  createdAt : Stamp
  lastSeenAt : Option Stamp := none
  revokedAt : Option Stamp := none
  ticket : ℕ
  deriving DecidableEq, Repr

/-- What happened at a role: its key was deleted, or a registration answered with a bearer. -/
inductive HandshakeMark where
  | keyDeleted (role : Actor)
  | answered (role : Actor) (ticket : ℕ) (bearer : String)
  deriving DecidableEq, Repr

/-- The deletion of a key by a call, and the sessions that are then to be revoked. -/
structure Deletion where
  call : ℕ
  due : String → Bool

/-- The scan of the revocation with this ticket: the keys on its first page, and what it found
there. -/
structure RegistryScan where
  ticket : ℕ
  role : Actor
  page : List String
  found : List String
  deriving DecidableEq, Repr

/-- The key items and the session items of the table, and how many bearers have been drawn. -/
structure Registry where
  pubkeys : Actor → Option PubkeyRow := fun _ => none
  sessions : String → Option SessionRow := fun _ => none
  drawn : ℕ := 0
  stores : List (ℕ × Actor) := []
  deletes : List Deletion := []
  scans : List RegistryScan := []
  marks : List HandshakeMark := []

/-- What the environment decides for one request. -/
structure RegistryInput where
  now : Stamp := 0
  /-- the keys a scan reads, page by page -/
  pages : List (List String) := []

/-- One atomic request. -/
abbrev RegistryProc (α : Type) := Proc Registry RegistryInput α

/-- What the process is run with: the bootstrap token, the hash of a text and of a key, and the
bearers it draws. A drawn bearer has no blank in it and is never drawn again, and neither is
another one with its hash. -/
structure HandshakeEnv where
  bootstrapToken : String
  sha256 : String → String
  fingerprint : List UInt8 → String
  tokenUrlsafe : ℕ → String
  token_noSpace : ∀ n, ∀ c ∈ (tokenUrlsafe n).toList, Text.isSpace c = false
  token_fresh : Function.Injective fun n => sha256 (tokenUrlsafe n)

/-- Bearers that are told apart by their length, and a hash that shows its text. -/
def HandshakeEnv.plain : HandshakeEnv where
  bootstrapToken := "bootstrap"
  sha256 := id
  fingerprint _ := ""
  tokenUrlsafe n := .ofList (.replicate (n + 1) 't')
  token_noSpace n c hc := by
    rw [String.toList_ofList] at hc
    rw [List.eq_of_mem_replicate hc]
    decide
  token_fresh n m h := by
    have hlen := congrArg (fun s : String => s.toList.length) h
    simpa using hlen

/-! ## Requests -/

namespace Registry

/-- `get_pubkey`. SOURCE: cloud/dynamo.py:378-386 -/
def getPubkey (actor : Actor) : RegistryProc (Option PubkeyRow) :=
  .get fun s _ => s.pubkeys actor

/-- `put_pubkey` by call `n`. SOURCE: cloud/dynamo.py:368-375 -/
def putPubkey (n : ℕ) (actor : Actor) (kemPub : List UInt8) : RegistryProc ℕ :=
  .act fun s i =>
    let row := { kemPub, registeredAt := i.now, ticket := s.stores.length }
    ({ s with
        pubkeys := Function.update s.pubkeys actor (some row)
        stores := s.stores ++ [(n, actor)] }, s.stores.length)

/-- The session of the role is not revoked. -/
def active (s : Registry) (actor : Actor) (h : String) : Bool :=
  (s.sessions h).any fun row => row.actor = actor && row.revokedAt.isNone

/-- `delete_pubkey` by call `n`. SOURCE: cloud/dynamo.py:412-416 -/
def deletePubkey (n : ℕ) (actor : Actor) : RegistryProc ℕ :=
  .act fun s _ =>
    ({ s with
        pubkeys := Function.update s.pubkeys actor none
        deletes := s.deletes ++ [{ call := n, due := s.active actor }]
        marks := .keyDeleted actor :: s.marks }, s.deletes.length)

/-- `put_session` of a bearer that has just been drawn; success is answered with it.
SOURCE: cloud/handshake.py:86-95, cloud/dynamo.py:301-310 -/
def putSession (env : HandshakeEnv) (actor : Actor) (ticket : ℕ) : RegistryProc String :=
  .act fun s i =>
    let bearer := env.tokenUrlsafe s.drawn
    let row := { actor, createdAt := i.now, ticket }
    ({ s with
        sessions := Function.update s.sessions (env.sha256 bearer) (some row)
        drawn := s.drawn + 1
        marks := .answered actor ticket bearer :: s.marks }, bearer)

/-- `get_session_by_bearer`. SOURCE: cloud/dynamo.py:313-319 -/
def getSessionByBearer (h : String) : RegistryProc (Option SessionRow) :=
  .get fun s _ => s.sessions h

/-- The item with another `last_seen_at`. -/
def touch (s : Registry) (h : String) (now : Stamp) : Registry :=
  let row := (s.sessions h).map fun row => { row with lastSeenAt := some now }
  { s with sessions := Function.update s.sessions h row }

/-- The item with `revoked_at` set. -/
def revoke (s : Registry) (h : String) (now : Stamp) : Registry :=
  let row := (s.sessions h).map fun row => { row with revokedAt := some now }
  { s with sessions := Function.update s.sessions h row }

/-- `touch_session`. SOURCE: cloud/dynamo.py:322-330 -/
def touchSession (h : String) : RegistryProc Unit :=
  .modify fun s i => s.touch h i.now

/-- The updates of `revoke_sessions_for_actor`, one request each, and how many they are.
SOURCE: cloud/dynamo.py:345-353 -/
def revokeEach (now : Stamp) : List String → RegistryProc ℕ
  | [] => pure 0
  | h :: hs => do
    Proc.modify fun s _ => s.revoke h now
    let count ← revokeEach now hs
    pure (count + 1)

/-- `revoke_sessions_for_actor`: the filtered scan is not continued after its first page.
SOURCE: cloud/dynamo.py:333-353 -/
def revokeSessionsForActor (ticket : ℕ) (actor : Actor) : RegistryProc ℕ := do
  let (found, now) ← Proc.act fun s i =>
    let page := i.pages.headD []
    let found := page.filter (s.active actor)
    ({ s with scans := { ticket, role := actor, page, found } :: s.scans }, (found, i.now))
  revokeEach now found

end Registry

/-! ## The endpoints -/

/-- `_verify_bootstrap`; `none` is the `TypeError` that `hmac.compare_digest` raises for a text
that is not ASCII. SOURCE: cloud/handshake.py:34-42 -/
def verifyBootstrap (expected supplied : String) : Option Bool :=
  if expected = "" || supplied = "" then some false
  else if Text.isAscii expected && Text.isAscii supplied then some (expected = supplied)
  else none

/-- `base64.b64decode` of a text and the text of its error. -/
def b64decode (s : String) : Except String (List UInt8) :=
  if Text.isAscii s then
    match Base64.decode s.toList with
    | some bytes => .ok bytes
    | none =>
      let count := (s.toList.filter fun c => (Base64.sextet c).isSome).length
      if count % 4 = 1 then
        .error s!"Invalid base64-encoded string: number of data characters ({count}) cannot be 1 more than a multiple of 4"
      else .error "Incorrect padding"
  else .error "string argument should contain only ASCII characters"

/-- A role as it stands in a request. -/
def Actor.ofText (role : String) : Option Actor :=
  if role = "operator" then some .operator else if role = "client" then some .client else none

/-- SOURCE: cloud/handshake.py:45-47 -/
structure HandshakeIn where
  role : String
  kemPub : String
  deriving DecidableEq, Repr

/-- The checks of `init_handshake` that need no request: the role and the bytes of the key.
SOURCE: cloud/handshake.py:60-71 -/
def checkHandshake (env : HandshakeEnv) (body : HandshakeIn) (bootstrap : Option String) :
    Except HttpError (Actor × List UInt8) :=
  match verifyBootstrap env.bootstrapToken (bootstrap.getD "") with
  | none => .error ⟨500, "Internal Server Error"⟩
  | some false => .error ⟨401, "bad or missing X-Bootstrap-Token"⟩
  | some true =>
    match Actor.ofText body.role with
    | none => .error ⟨400, "role must be 'operator' or 'client'"⟩
    | some role =>
      match b64decode body.kemPub with
      | .error e => .error ⟨400, s!"bad base64 kem_pub: {e}"⟩
      | .ok kemPub =>
        if kemPub.length ≠ 32 then
          .error ⟨400, s!"kem_pub must decode to 32 bytes, got {kemPub.length}"⟩
        else .ok (role, kemPub)

/-- The body of a success. SOURCE: cloud/handshake.py:91-95 -/
structure Registered where
  registered : Actor
  bearer : String
  fingerprint : String
  deriving DecidableEq, Repr

/-- `init_handshake` as call `n`. SOURCE: cloud/handshake.py:52-95 -/
def initHandshake (env : HandshakeEnv) (n : ℕ) (body : HandshakeIn) (bootstrap : Option String) :
    RegistryProc (Except HttpError Registered) :=
  match checkHandshake env body bootstrap with
  | .error e => pure (.error e)
  | .ok (role, kemPub) => do
    let existing ← Registry.getPubkey role
    match existing with
    | some _ =>
      let detail := s!"role '{body.role}' already registered; DELETE /init/handshake/{body.role} to revoke first"
      pure (.error ⟨409, detail⟩)
    | none => do
      let ticket ← Registry.putPubkey n role kemPub
      let bearer ← Registry.putSession env role ticket
      pure (.ok { registered := role, bearer, fingerprint := env.fingerprint kemPub })

/-- `handshake_revoke` as call `n`. SOURCE: cloud/handshake.py:108-120 -/
def handshakeRevoke (env : HandshakeEnv) (n : ℕ) (role : String) (bootstrap : Option String) :
    RegistryProc (Except HttpError Actor) :=
  match verifyBootstrap env.bootstrapToken (bootstrap.getD "") with
  | none => pure (.error ⟨500, "Internal Server Error"⟩)
  | some false => pure (.error ⟨401, "bad or missing X-Bootstrap-Token"⟩)
  | some true =>
    match Actor.ofText role with
    | none => pure (.error ⟨400, "bad role"⟩)
    | some role => do
      let ticket ← Registry.deletePubkey n role
      let _ ← Registry.revokeSessionsForActor ticket role
      pure (.ok role)

/-- `require_bearer` on the `Authorization` header. SOURCE: cloud/sync.py:24-36 -/
def requireBearer (env : HandshakeEnv) (authorization : Option String) :
    RegistryProc (Except HttpError Actor) :=
  match authorization.bind (Text.afterPrefix "Bearer ") with
  | none => pure (.error ⟨401, "missing bearer"⟩)
  | some rest => do
    let h := env.sha256 (Text.strip rest)
    let row ← Registry.getSessionByBearer h
    match row with
    | none => pure (.error ⟨401, "bearer not recognised or revoked"⟩)
    | some row =>
      if row.revokedAt.isSome then pure (.error ⟨401, "bearer not recognised or revoked"⟩)
      else do
        Registry.touchSession h
        pure (.ok row.actor)

/-! ## Any number of calls -/

/-- A call of an endpoint. -/
inductive HandshakeOp where
  | post (body : HandshakeIn) (bootstrap : Option String)
  | delete (role : String) (bootstrap : Option String)
  | authenticate (authorization : Option String)

/-- The program of a call under its number. -/
def handshakeCode (env : HandshakeEnv) (n : ℕ) : HandshakeOp → RegistryProc Unit
  | .post body bootstrap => (initHandshake env n body bootstrap).bind fun _ => .ret ()
  | .delete role bootstrap => (handshakeRevoke env n role bootstrap).bind fun _ => .ret ()
  | .authenticate authorization => (requireBearer env authorization).bind fun _ => .ret ()

/-- A run from the empty table. -/
def handshakeRun (env : HandshakeEnv) (es : List (Event HandshakeOp RegistryInput)) :
    Pool Registry RegistryInput :=
  (Pool.idle {}).run (handshakeCode env) es

end Mailman.Model
