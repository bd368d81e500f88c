import Mailman.Library.Process
import Mailman.Model.Handshake
import Mailman.Model.Settings
import Mailman.Model.Tokens

/-!
# Signing in to the terminal

The operators, the login that signs a cookie, the check of the cookie that every other request
makes first, and the requests that change the operators or the settings a session rests on. Any
number of requests run at once, and each reads and writes the database one statement at a time.
bcrypt, `str.lower`, and `int` and `repr` of a text are parameters; the times of a row, the audit
rows and the copy of a saved setting that goes to the cloud are left out. The marks say what
happened.
-/

set_option autoImplicit false

namespace Mailman.Model.Sessions

open Mailman.Library Mailman.Model

/-- The roles that the table allows. SOURCE: terminal/models.py:350-351 -/
inductive Role where
  | admin
  | operator
  deriving DecidableEq, Repr

def Role.name : Role → String
  | .admin => "admin"
  | .operator => "operator"

/-- A role as it stands in a request. -/
def Role.ofText (role : String) : Option Role :=
  if role = "admin" then some .admin else if role = "operator" then some .operator else none

/-- SOURCE: terminal/models.py:343-354 -/
structure Operator where
  id : ℕ
  email : String
  passwordHash : String
  role : Role
  active : Bool := true
  deriving DecidableEq, Repr

/-- What a cookie says. -/
structure Grant where
  exp : ℤ
  iat : ℤ
  role : Role
  sub : String
  deriving DecidableEq, Repr

/-- What happened, one mark for each request to the database that matters; `n` is the call. -/
inductive VaultMark where
  /-- a login began -/
  | attempt (n : ℕ) (email password : String)
  /-- a login found this row under its address -/
  | found (n : ℕ) (row : Operator)
  /-- a login read this setting -/
  | read (n : ℕ) (key value : String)
  /-- a login signed a cookie -/
  | signed (n : ℕ) (secret : String) (g : Grant)
  /-- a cookie was checked -/
  | checked (n : ℕ) (token secret : String) (now : ℤ)
  | added (n : ℕ) (row : Operator)
  | switched (n id : ℕ) (active : Bool)
  | removed (n id : ℕ)
  /-- a start found no operators -/
  | noOperators (n : ℕ)
  /-- a start read this setting -/
  | took (n : ℕ) (key value : String)
  /-- a start put this row in the table of operators -/
  | migrated (n : ℕ) (row : Operator)
  /-- the environment filled in the settings -/
  | filled
  | wrote (n : ℕ) (key value : String)
  | deleted (n : ℕ) (key : String)
  /-- a secret was drawn that nobody is told -/
  | drew (n : ℕ) (secret : String)
  /-- a setting was shown to whoever asked -/
  | shown (n : ℕ) (key : String) (value : Option String)
  deriving DecidableEq, Repr

/-- The table of operators with the largest id it ever gave, the settings, and the marks. -/
structure Vault where
  operators : List Operator := []
  lastOperatorId : ℕ := 0
  settings : Settings.World Unit Unit := {}
  marks : List VaultMark := []

/-- What the environment decides for one request. -/
structure VaultInput where
  now : ℤ := 0
  /-- `secrets.token_bytes`, or the salt of `bcrypt.gensalt` -/
  random : List UInt8 := []

/-- One request to the database, or one look at the clock. -/
abbrev VaultProc (α : Type) := Proc Vault VaultInput α

/-- What the process is run with. -/
structure SessionEnv where
  rt : Tokens.Runtime
  lower : String → String
  /-- `int` of a text, or the `ValueError` -/
  intOf : String → Option ℤ
  /-- `bcrypt.checkpw`, or its exception -/
  checkpw : List UInt8 → List UInt8 → Option Bool
  /-- `bcrypt.hashpw` with a salt, or its exception -/
  hashpw : List UInt8 → List UInt8 → Option String
  /-- `repr` of a text -/
  repr : String → String
  environ : String → Option String
  /-- the text of a sealed setting -/
  blob : ℕ → String → String

/-- The one process of the terminal. -/
def SessionEnv.hosts (e : SessionEnv) : Settings.Hosts Unit Unit where
  side := Settings.terminal e.blob
  dir := id
  environ _ := e.environ

/-- `email.strip().lower()` -/
def SessionEnv.normal (e : SessionEnv) (email : String) : String := e.lower (Text.strip email)

/-! ## Requests to the database -/

namespace Vault

variable (e : SessionEnv) (n : ℕ)

/-- `settings.get` as one request. -/
def setting (key : String) (default : Option String) : VaultProc (Option String) :=
  .act fun s _ =>
    let (value, w) := Settings.get e.hosts () key default s.settings
    ({ s with settings := w }, value)

/-- `settings.get(key, "") or ""` by a login. SOURCE: terminal/auth.py:35-44 -/
def text (key : String) : VaultProc String :=
  .act fun s _ =>
    let (value, w) := Settings.get e.hosts () key (some "") s.settings
    ({ s with settings := w, marks := .read n key (value.getD "") :: s.marks }, value.getD "")

/-- `settings.get(key, "") or ""` by a start. SOURCE: terminal/main.py:41-42 -/
def take (key : String) : VaultProc String :=
  .act fun s _ =>
    let (value, w) := Settings.get e.hosts () key (some "") s.settings
    ({ s with settings := w, marks := .took n key (value.getD "") :: s.marks }, value.getD "")

/-- Whether there are no operators. SOURCE: terminal/main.py:38-40 -/
def countOperators : VaultProc Bool :=
  .act fun s _ =>
    if s.operators.isEmpty then ({ s with marks := .noOperators n :: s.marks }, true)
    else (s, false)

/-- `settings.set` of a text that the request holds. -/
def write (key value : String) : VaultProc Unit :=
  .modify fun s _ =>
    { s with
      settings := Settings.set e.hosts () key value s.settings
      marks := .wrote n key value :: s.marks }

/-- `settings.delete` -/
def erase (key : String) : VaultProc Unit :=
  .modify fun s _ =>
    { s with
      settings := Settings.delete () key s.settings
      marks := .deleted n key :: s.marks }

/-- The row with the address. -/
def operator? (s : Vault) (email : String) : Option Operator :=
  s.operators.find? fun row => row.email = email

/-- The row with the id. -/
def byId? (s : Vault) (id : ℕ) : Option Operator := s.operators.find? fun row => row.id = id

/-- `INSERT` into the operators. -/
def insert (s : Vault) (email passwordHash : String) (role : Role) : Operator :=
  { id := s.lastOperatorId + 1, email, passwordHash, role }

end Vault

/-! ## The session -/

/-- What `json.dumps` is given, sorted. SOURCE: terminal/auth.py:64 -/
def Grant.members (g : Grant) : List (String × Json.Field) :=
  [("exp", .int g.exp), ("iat", .int g.iat), ("role", .str g.role.name), ("sub", .str g.sub)]

/-- The members as `json.loads` gives them back. -/
def Grant.claims (g : Grant) : List (Json.Text × Json.Value) :=
  g.members.map fun m => (Json.codes m.1, m.2.toValue)

/-- The first part of the cookie, or the `ValueError` of an integer that is too long to print. -/
def Grant.payloadB64 (g : Grant) : Option String :=
  (Json.dumps g.members).map fun payload => Tokens.b64u (payload.map UInt8.ofNat)

/-- `_sign` under a secret. SOURCE: terminal/auth.py:64-67 -/
def Grant.token (rt : Tokens.Runtime) (secret : String) (g : Grant) : Option String :=
  g.payloadB64.map fun payloadB64 =>
    payloadB64 ++ "." ++ Tokens.b64u (rt.hmac (Tokens.utf8 secret) (Tokens.utf8 payloadB64))

/-- What a check says of a cookie. -/
def verdict (e : SessionEnv) (token secret : String) (now : ℤ) :
    Except Unit (Option (List (Json.Text × Json.Value))) :=
  Tokens.requireSession e.rt secret (some token) now

/-- The role that a session claims is that of an admin; no role at all is as good.
SOURCE: terminal/auth.py:110, terminal/routes_admin.py:38 -/
def isAdmin (claims : List (Json.Text × Json.Value)) : Bool :=
  match Json.lookup "role" claims with
  | none => true
  | some (.str role) => role = Json.codes "admin"
  | some _ => false

def authRequired : HttpError := ⟨307, "auth required"⟩

def crashed : HttpError := ⟨500, "Internal Server Error"⟩

section handlers

variable (e : SessionEnv) (n : ℕ)

/-- `require_session`: without a dot in the cookie the secret is not looked at.
SOURCE: terminal/auth.py:70-101 -/
def requireSession (cookie : Option String) :
    VaultProc (Except HttpError (List (Json.Text × Json.Value))) :=
  match cookie with
  | none => pure (.error authRequired)
  | some token =>
    if Tokens.splitDot token = none then pure (.error authRequired)
    else
      .act fun s i =>
        let (value, w) := Settings.get e.hosts () "jwt_secret" (some "") s.settings
        let secret := value.getD ""
        ({ s with settings := w, marks := .checked n token secret i.now :: s.marks },
          match verdict e token secret i.now with
          | .error _ => .error crashed
          | .ok none => .error authRequired
          | .ok (some claims) => .ok claims)

/-- `_require_admin` and `require_admin`.
SOURCE: terminal/auth.py:104-112, terminal/routes_admin.py:36-40 -/
def requireAdmin (cookie : Option String) :
    VaultProc (Except HttpError (List (Json.Text × Json.Value))) := do
  let session ← requireSession e n cookie
  match session with
  | .error err => pure (.error err)
  | .ok claims =>
    if isAdmin claims then pure (.ok claims) else pure (.error ⟨403, "admin role required"⟩)

/-- `_check_operator`: an exception of bcrypt is as good as a wrong password.
SOURCE: terminal/auth.py:190-206 -/
def checkOperator (email password : String) : VaultProc (Option Operator) :=
  .act fun s _ =>
    match s.operator? (e.normal email) with
    | none => (s, none)
    | some row =>
      ({ s with marks := .found n row :: s.marks },
        if row.active &&
            e.checkpw (Tokens.utf8 password) (Tokens.utf8 row.passwordHash) = some true
          then some row
        else none)

/-- `_session_ttl_s`. SOURCE: terminal/auth.py:47-48, terminal/settings.py:147-154 -/
def sessionTtl : VaultProc ℤ := do
  let value ← Vault.setting e "session_ttl_s" none
  pure ((value.bind e.intOf).getD 86400)

/-- The answer of a login. -/
inductive Login where
  /-- the cookie and its `max_age` -/
  | signedIn (cookie : String) (maxAge : ℤ)
  /-- back to the form, with "Invalid credentials" -/
  | refused
  deriving DecidableEq, Repr

/-- The clock is looked at twice, and the secret is read again before it signs.
SOURCE: terminal/auth.py:60-67, terminal/auth.py:232-237, terminal/auth.py:254-259 -/
def signIn (sub : String) (role : Role) (ttl : ℤ) : VaultProc (Except HttpError Login) := do
  let iat ← Proc.get fun _ i => i.now
  let later ← Proc.get fun _ i => i.now
  let g : Grant := { exp := later + ttl, iat, role, sub }
  Proc.act fun s _ =>
    let (value, w) := Settings.get e.hosts () "jwt_secret" (some "") s.settings
    let secret := value.getD ""
    if secret = "" then ({ s with settings := w }, .error crashed)
    else
      match g.token e.rt secret with
      | none => ({ s with settings := w }, .error crashed)
      | some token =>
        ({ s with settings := w, marks := .signed n secret g :: s.marks },
          .ok (.signedIn token ttl))

/-- `login`. SOURCE: terminal/auth.py:221-259 -/
def login (email password : String) : VaultProc (Except HttpError Login) := do
  Proc.modify fun s _ => { s with marks := .attempt n email password :: s.marks }
  let jwtSecret ← Vault.text e n "jwt_secret"
  let ttl ← sessionTtl e
  if jwtSecret = "" then pure (.error ⟨503, "jwt_secret not set - configure via admin UI"⟩)
  else
    let op ← checkOperator e n email password
    match op with
    | some op => signIn e n op.email op.role ttl
    | none =>
      -- the admin of the settings, whether or not there are operators
      let adminEmail ← Vault.text e n "admin_email"
      let adminHash ← Vault.text e n "admin_password_hash"
      if adminEmail = "" || adminHash = "" || e.normal email ≠ e.normal adminEmail ||
          e.checkpw (Tokens.utf8 password) (Tokens.utf8 adminHash) ≠ some true then
        pure (.ok .refused)
      else signIn e n email .admin ttl

/-! ## The operators -/

/-- `OperatorIn`. SOURCE: terminal/routes_admin.py:906-909 -/
structure OperatorIn where
  email : String
  password : String
  role : String := "operator"
  deriving DecidableEq, Repr

/-- `create_operator`. SOURCE: terminal/routes_admin.py:922-941 -/
def createOperator (cookie : Option String) (body : OperatorIn) :
    VaultProc (Except HttpError ℕ) := do
  let session ← requireAdmin e n cookie
  match session, Role.ofText body.role with
  | .error err, _ => pure (.error err)
  | .ok _, none => pure (.error ⟨400, "role must be admin or operator"⟩)
  | .ok _, some role => do
    let salt ← Proc.get fun _ i => i.random
    match e.hashpw (Tokens.utf8 body.password) salt with
    | none => pure (.error crashed)
    | some hash =>
      .act fun s _ =>
        match s.operator? (e.normal body.email) with
        | some _ => (s, .error ⟨409, "email already exists"⟩)
        | none =>
          let row := s.insert (e.normal body.email) hash role
          ({ s with
              operators := s.operators ++ [row]
              lastOperatorId := row.id
              marks := .added n row :: s.marks }, .ok row.id)

/-- The row with another state. -/
def Operator.switch (id : ℕ) (active : Bool) (row : Operator) : Operator :=
  if row.id = id then { row with active } else row

/-- `toggle_operator_active`: the state is read by one statement and written by another.
SOURCE: terminal/routes_admin.py:944-956 -/
def toggleOperatorActive (cookie : Option String) (id : ℕ) :
    VaultProc (Except HttpError Bool) := do
  let session ← requireAdmin e n cookie
  match session with
  | .error err => pure (.error err)
  | .ok _ => do
    let row ← Proc.get fun s _ => s.byId? id
    match row with
    | none => pure (.error ⟨404, "no such operator"⟩)
    | some row => do
      Proc.modify fun s _ =>
        { s with
          operators := s.operators.map (Operator.switch id (!row.active))
          marks := .switched n id (!row.active) :: s.marks }
      pure (.ok !row.active)

/-- `delete_operator`. SOURCE: terminal/routes_admin.py:959-967 -/
def deleteOperator (cookie : Option String) (id : ℕ) : VaultProc (Except HttpError Unit) := do
  let session ← requireAdmin e n cookie
  match session with
  | .error err => pure (.error err)
  | .ok _ => do
    let row ← Proc.get fun s _ => s.byId? id
    match row with
    | none => pure (.error ⟨404, "no such operator"⟩)
    | some _ => do
      Proc.modify fun s _ =>
        { s with
          operators := s.operators.filter fun row => row.id ≠ id
          marks := .removed n id :: s.marks }
      pure (.ok ())

/-! ## The settings that a session rests on -/

/-- A route of the settings: it needs a session and no role. -/
def withSession {α : Type} (cookie : Option String)
    (route : VaultProc (Except HttpError α)) : VaultProc (Except HttpError α) := do
  let session ← requireSession e n cookie
  match session with
  | .error err => pure (.error err)
  | .ok _ => route

/-- `change_password`; `false` sends back to the form.
SOURCE: terminal/admin_settings_ui.py:148-157 -/
def changePassword (cookie : Option String) (newPassword confirm : String) :
    VaultProc (Except HttpError Bool) :=
  withSession e n cookie do
    if newPassword ≠ confirm || newPassword.length < 12 then pure (.ok false)
    else
      let salt ← Proc.get fun _ i => i.random
      match e.hashpw (Tokens.utf8 newPassword) salt with
      | none => pure (.error crashed)
      | some hash => do
        Vault.write e n "admin_password_hash" hash
        pure (.ok true)

/-- `base64.b64encode(b).decode()` -/
def b64 (b : List UInt8) : String :=
  .ofList (Base64.encode b ++ Base64.padding (Base64.encode b).length)

/-- `rotate_jwt`. SOURCE: terminal/admin_settings_ui.py:160-167 -/
def rotateJwt (cookie : Option String) : VaultProc (Except HttpError Unit) :=
  withSession e n cookie do
    Proc.modify fun s i =>
      { s with
        settings := Settings.set e.hosts () "jwt_secret" (b64 i.random) s.settings
        marks := .drew n (b64 i.random) :: s.marks }
    pure (.ok ())

/-- `settings_save` and `upsert_setting`.
SOURCE: terminal/admin_settings_ui.py:131-143, terminal/settings_api.py:54-58 -/
def saveSetting (cookie : Option String) (key value : String) :
    VaultProc (Except HttpError Unit) :=
  withSession e n cookie do
    Vault.write e n key value
    pure (.ok ())

/-- `delete_setting`. SOURCE: terminal/settings_api.py:61-66 -/
def deleteSetting (cookie : Option String) (key : String) : VaultProc (Except HttpError Unit) :=
  withSession e n cookie do
    Vault.erase n key
    pure (.ok ())

/-- `reveal_setting`. SOURCE: terminal/settings_api.py:41-46 -/
def revealSetting (cookie : Option String) (key : String) :
    VaultProc (Except HttpError (Option String)) :=
  withSession e n cookie <| .act fun s _ =>
    let (value, w) := Settings.get e.hosts () key none s.settings
    ({ s with settings := w, marks := .shown n key value :: s.marks }, .ok value)

/-- `reveal_secret`. SOURCE: terminal/admin_settings_ui.py:59-81 -/
def revealSecret (cookie : Option String) (key : String) :
    VaultProc (Except HttpError (Option String)) :=
  withSession e n cookie
    (if e.hosts.side.isSecret key then
      .act fun s _ =>
        let (value, w) := Settings.get e.hosts () key none s.settings
        ({ s with settings := w, marks := .shown n key value :: s.marks }, .ok value)
    else pure (.error ⟨400, e.repr key ++ " is not a secret"⟩))

/-! ## The start of the process -/

/-- `_migrate_admin_to_operators`. SOURCE: terminal/main.py:34-52 -/
def migrateAdminToOperators : VaultProc Unit := do
  let empty ← Vault.countOperators n
  if !empty then pure ()
  else
    let adminEmail ← Vault.take e n "admin_email"
    let adminHash ← Vault.take e n "admin_password_hash"
    if adminEmail = "" || adminHash = "" then pure ()
    else
      .modify fun s _ =>
        match s.operator? (e.normal adminEmail) with
        | some _ => s
        | none =>
          let row := s.insert (e.normal adminEmail) adminHash .admin
          { s with
            operators := s.operators ++ [row]
            lastOperatorId := row.id
            marks := .migrated n row :: s.marks }

/-- The globals of the process are unset, and then `on_startup` runs.
SOURCE: terminal/main.py:72-79 -/
def onStartup : VaultProc Unit := do
  Proc.modify fun s _ => { s with settings := Settings.start () s.settings }
  migrateAdminToOperators e n
  .modify fun s _ =>
    { s with
      settings := (Settings.migrateFromEnv e.hosts () s.settings).2
      marks := .filled :: s.marks }

end handlers

/-! ## Any number of requests -/

/-- A request to the terminal, or its start. -/
inductive VaultOp where
  | startup
  | login (email password : String)
  /-- `logout` asks the browser to forget the cookie. SOURCE: terminal/auth.py:262-266 -/
  | logout
  /-- a page for whoever is signed in -/
  | page (cookie : Option String)
  /-- a page for admins -/
  | adminPage (cookie : Option String)
  | createOperator (cookie : Option String) (body : OperatorIn)
  | toggleOperatorActive (cookie : Option String) (id : ℕ)
  | deleteOperator (cookie : Option String) (id : ℕ)
  | changePassword (cookie : Option String) (newPassword confirm : String)
  | rotateJwt (cookie : Option String)
  | saveSetting (cookie : Option String) (key value : String)
  | deleteSetting (cookie : Option String) (key : String)
  | revealSetting (cookie : Option String) (key : String)
  | revealSecret (cookie : Option String) (key : String)

/-- The program of a request under its number. -/
def vaultCode (e : SessionEnv) (n : ℕ) : VaultOp → VaultProc Unit
  | .startup => onStartup e n
  | .login email password => (login e n email password).bind fun _ => .ret ()
  | .logout => .ret ()
  | .page cookie => (requireSession e n cookie).bind fun _ => .ret ()
  | .adminPage cookie => (requireAdmin e n cookie).bind fun _ => .ret ()
  | .createOperator cookie body => (createOperator e n cookie body).bind fun _ => .ret ()
  | .toggleOperatorActive cookie id => (toggleOperatorActive e n cookie id).bind fun _ => .ret ()
  | .deleteOperator cookie id => (deleteOperator e n cookie id).bind fun _ => .ret ()
  | .changePassword cookie newPassword confirm =>
    (changePassword e n cookie newPassword confirm).bind fun _ => .ret ()
  | .rotateJwt cookie => (rotateJwt e n cookie).bind fun _ => .ret ()
  | .saveSetting cookie key value => (saveSetting e n cookie key value).bind fun _ => .ret ()
  | .deleteSetting cookie key => (deleteSetting e n cookie key).bind fun _ => .ret ()
  | .revealSetting cookie key => (revealSetting e n cookie key).bind fun _ => .ret ()
  | .revealSecret cookie key => (revealSecret e n cookie key).bind fun _ => .ret ()

/-- A run from a fresh install. -/
def vaultRun (e : SessionEnv) (es : List (Event VaultOp VaultInput)) : Pool Vault VaultInput :=
  (Pool.idle {}).run (vaultCode e) es

end Mailman.Model.Sessions
