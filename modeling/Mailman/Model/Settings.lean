import Mathlib.Data.Nat.Notation
import Mathlib.Logic.Function.Basic

/-!
# Settings

The key/value settings of the cloud and of the terminal: one table that all processes of a side
share, the cache of plain values that each process keeps, and secrets sealed under the key file
of the process's directory. A sealed value is opened by the key it was sealed under and by no
other; the nonces, the time and the author of a row, the log and a key file of a wrong length are
left out, and so is a list of secrets in the clear, which nobody asks for.

Each operation is one step: `migrate_from_env` and `_load_kek` check and then write, and operations
of different processes do not overlap.
-/

set_option autoImplicit false

namespace Mailman.Model.Settings

/-- A row of the table. -/
inductive Row where
  | plain (value : String)
  | sealed (kek : ℕ) (value : String)
  deriving DecidableEq, Repr

/-- What the cloud and the terminal differ in. -/
structure Side where
  /-- `SECRET_KEYS` -/
  secretKeys : List String
  /-- `ENV_MIGRATE` -/
  envMigrate : List (String × String)
  /-- plain values are read from the cache -/
  cached : Bool
  /-- the text of a sealed value -/
  blob : ℕ → String → String
  nodup : (envMigrate.map (·.1)).Nodup := by decide

/-- SOURCE: cloud/settings.py:37-53 -/
def cloud (blob : ℕ → String → String) : Side where
  secretKeys := ["resend_webhook_secret", "unsub_secret", "erasure_secret"]
  envMigrate := [("resend_webhook_secret", "RESEND_WEBHOOK_SECRET"),
    ("webhook_max_skew_s", "WEBHOOK_MAX_SKEW_S"), ("unsub_secret", "UNSUB_SECRET"),
    ("erasure_secret", "ERASURE_SECRET"), ("company_name", "COMPANY_NAME"),
    ("support_email", "SUPPORT_EMAIL"), ("public_host", "PUBLIC_HOST")]
  cached := true
  blob

/-- SOURCE: terminal/settings.py:28-61 -/
def terminal (blob : ℕ → String → String) : Side where
  secretKeys := ["admin_password_hash", "jwt_secret", "unsub_secret", "erasure_secret",
    "resend_api_key"]
  envMigrate := [("admin_email", "ADMIN_EMAIL"), ("admin_password_hash", "ADMIN_PASSWORD_HASH"),
    ("jwt_secret", "JWT_SECRET"), ("session_ttl_s", "SESSION_TTL_S"), ("email_from", "EMAIL_FROM"),
    ("email_footer_address", "EMAIL_FOOTER_ADDRESS"), ("entity_name", "COMPANY_NAME"),
    ("support_email", "SUPPORT_EMAIL"), ("public_host", "PUBLIC_HOST"),
    ("unsub_secret", "UNSUB_SECRET"), ("erasure_secret", "ERASURE_SECRET"),
    ("default_k_temp_ttl_s", "DEFAULT_K_TEMP_TTL_S"), ("unsub_token_ttl_s", "UNSUB_TOKEN_TTL_S"),
    ("erasure_token_ttl_s", "ERASURE_TOKEN_TTL_S"), ("resend_api_key", "RESEND_API_KEY")]
  cached := false
  blob

/-- Where the processes of a side run: the directory of each one's key file (`KEYS_DIR`), and its
environment. -/
structure Hosts (P D : Type) where
  side : Side
  dir : P → D
  environ : P → String → Option String

/-- The table, the key files, the keys drawn so far, and the globals of each process:
`_plain_cache`, `_cache_loaded` and `_kek`. -/
structure World (P D : Type) where
  table : String → Option Row := fun _ => none
  file : D → Option ℕ := fun _ => none
  drawn : ℕ := 0
  plain : P → String → Option String := fun _ _ => none
  loaded : P → Bool := fun _ => false
  kek : P → Option ℕ := fun _ => none

variable {P D : Type} [DecidableEq P] [DecidableEq D] (h : Hosts P D) (p : P)

/-- `_load_kek`: a new key is one that was never drawn before.
SOURCE: cloud/settings.py:71-86, terminal/settings.py:81-95 -/
def loadKek (w : World P D) : ℕ × World P D :=
  match w.kek p with
  | some k => (k, w)
  | none =>
    match w.file (h.dir p) with
    | some k => (k, { w with kek := Function.update w.kek p (some k) })
    | none =>
      (w.drawn,
        { w with
          file := Function.update w.file (h.dir p) (some w.drawn)
          drawn := w.drawn + 1
          kek := Function.update w.kek p (some w.drawn) })

/-- `_encrypt`. SOURCE: cloud/settings.py:89-94, terminal/settings.py:98-102 -/
def encrypt (plaintext : String) (w : World P D) : Row × World P D :=
  let (kek, w) := loadKek h p w
  (.sealed kek plaintext, w)

/-- `_decrypt`; it raises on what this key did not seal.
SOURCE: cloud/settings.py:97-102, terminal/settings.py:105-109 -/
def decrypt (row : Row) (w : World P D) : Option String × World P D :=
  let (kek, w) := loadKek h p w
  match row with
  | .plain _ => (none, w)
  | .sealed k value => (if k = kek then some value else none, w)

/-- A sealed value opens under its own key. -/
theorem decrypt_sealed (k : ℕ) (value : String) (w : World P D) :
    (decrypt h p (.sealed k value) w).1 =
      if k = (loadKek h p w).1 then some value else none := rfl

/-- Opening a value does no more than load the key. -/
theorem decrypt_snd (row : Row) (w : World P D) :
    (decrypt h p row w).2 = (loadKek h p w).2 := by
  cases row <;> rfl

/-- The value of a row that is no secret. -/
def Row.plain? : Row → Option String
  | .plain value => some value
  | .sealed _ _ => none

/-- `_load_plain_cache`; the cloud's settings fit one page of its query, which is all it reads.
SOURCE: cloud/settings.py:105-113, cloud/dynamo.py:658-668, terminal/settings.py:112-120 -/
def loadPlainCache (w : World P D) : World P D :=
  { w with
    plain := Function.update w.plain p fun key => (w.table key).bind Row.plain?
    loaded := Function.update w.loaded p true }

def ensureLoaded (w : World P D) : World P D := if w.loaded p then w else loadPlainCache p w

/-- `is_secret`. SOURCE: cloud/settings.py:116-118, terminal/settings.py:123-124 -/
def Side.isSecret (side : Side) (key : String) : Bool := side.secretKeys.contains key

/-- The value of the environment, for a setting that has one there.
SOURCE: cloud/settings.py:143-147, terminal/settings.py:141-144 -/
def Side.fallback (side : Side) (environ : String → Option String) (key : String)
    (default : Option String) : Option String :=
  match side.envMigrate.lookup key with
  | some name => (environ name).or default
  | none => default

/-- `get` of the cloud. SOURCE: cloud/settings.py:121-147 -/
def cloudGet (key : String) (default : Option String) (w : World P D) :
    Option String × World P D :=
  let w := ensureLoaded p w
  if h.side.isSecret key then
    match w.table key with
    | some (.sealed k value) =>
      let (found, w) := decrypt h p (.sealed k value) w
      (found.or default, w)
    | _ => (h.side.fallback (h.environ p) key default, w)
  else
    match w.plain p key with
    | some value => (some value, w)
    | none => (h.side.fallback (h.environ p) key default, w)

/-- The text that the table holds. -/
def Side.text (side : Side) : Row → String
  | .plain value => value
  | .sealed k value => side.blob k value

/-- `get` of the terminal. SOURCE: terminal/settings.py:127-144 -/
def terminalGet (key : String) (default : Option String) (w : World P D) :
    Option String × World P D :=
  match w.table key with
  | some row =>
    if h.side.isSecret key then
      let (found, w) := decrypt h p row w
      (found.or default, w)
    else (some (h.side.text row), w)
  | none => (h.side.fallback (h.environ p) key default, w)

def get (key : String) (default : Option String) (w : World P D) : Option String × World P D :=
  if h.side.cached then cloudGet h p key default w else terminalGet h p key default w

/-- `set`. SOURCE: cloud/settings.py:160-167, terminal/settings.py:157-171 -/
def set (key value : String) (w : World P D) : World P D :=
  if h.side.isSecret key then
    let (row, w) := encrypt h p value w
    { w with table := Function.update w.table key (some row) }
  else
    { w with
      table := Function.update w.table key (some (.plain value))
      plain := Function.update w.plain p (Function.update (w.plain p) key (some value)) }

/-- `delete`. SOURCE: cloud/settings.py:170-172, terminal/settings.py:174-178 -/
def delete (key : String) (w : World P D) : World P D :=
  { w with
    table := Function.update w.table key none
    plain := Function.update w.plain p (Function.update (w.plain p) key none) }

/-- `get_all`, with the secrets redacted.
SOURCE: cloud/settings.py:175-184, terminal/settings.py:181-189 -/
def getAll (w : World P D) : (String → Option String) × World P D :=
  let w := ensureLoaded p w
  let out (key : String) : Option String :=
    match w.table key with
    | some (.sealed _ _) => some "<encrypted>"
    | _ => w.plain p key
  (out, w)

/-- One entry of `ENV_MIGRATE`. SOURCE: cloud/settings.py:196-209, terminal/settings.py:197-210 -/
def migrateOne (acc : List (String × String) × World P D) (entry : String × String) :
    List (String × String) × World P D :=
  let (migrated, w) := acc
  match w.table entry.1 with
  | some _ => acc
  | none =>
    match h.environ p entry.2 with
    | some value => if value = "" then acc else (migrated ++ [entry], set h p entry.1 value w)
    | none => acc

/-- `migrate_from_env`. SOURCE: cloud/settings.py:187-210, terminal/settings.py:192-211 -/
def migrateFromEnv (w : World P D) : List (String × String) × World P D :=
  let w := (loadKek h p (ensureLoaded p w)).2
  h.side.envMigrate.foldl (migrateOne h p) ([], w)

/-- A process starts with none of its globals set. -/
def start (w : World P D) : World P D :=
  { w with
    plain := Function.update w.plain p fun _ => none
    loaded := Function.update w.loaded p false
    kek := Function.update w.kek p none }

/-! ## Runs -/

/-- What a process does. -/
inductive Op where
  | start
  | get (key : String) (default : Option String)
  | set (key value : String)
  | delete (key : String)
  | getAll
  | migrateFromEnv
  deriving DecidableEq, Repr

/-- What it is given back. -/
inductive Answer where
  | nothing
  | value (value : Option String)
  | settings (values : String → Option String)
  | migrated (entries : List (String × String))

/-- One operation of one process. -/
def step (w : World P D) (e : P × Op) : Answer × World P D :=
  match e.2 with
  | .start => (.nothing, start e.1 w)
  | .get key default => ((get h e.1 key default w).map .value id)
  | .set key value => (.nothing, set h e.1 key value w)
  | .delete key => (.nothing, delete e.1 key w)
  | .getAll => (getAll e.1 w).map .settings id
  | .migrateFromEnv => (migrateFromEnv h e.1 w).map .migrated id

/-- The answers of a run, and the world after it. -/
def run : World P D → List (P × Op) → List Answer × World P D
  | w, [] => ([], w)
  | w, e :: es =>
    let (a, w) := step h w e
    let (as, w) := run w es
    (a :: as, w)

end Mailman.Model.Settings
