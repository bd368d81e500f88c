import Mailman.Analysis.SettingsRuns
import Mailman.Model.Sessions

/-!
# What the marks of the terminal account for

The marks tell the table of operators and the last value of each setting that was written. Each
mark has its reason in the marks before it: a cookie is signed for a login that matched, operators
change by the session of an admin, settings change or are shown by anybody's session, and what is
read of a setting is what was last written.
-/

set_option autoImplicit false

namespace Mailman.Interface

open Mailman.Library Mailman.Model Mailman.Model.Sessions

/-- The value that was last written under a key, as far as the marks tell. -/
def lastWritten (key : String) : List VaultMark → Option String
  | [] => none
  | .wrote _ k value :: ms => if k = key then some value else lastWritten key ms
  | .drew _ value :: ms => if "jwt_secret" = key then some value else lastWritten key ms
  | .deleted _ k :: ms => if k = key then none else lastWritten key ms
  | _ :: ms => lastWritten key ms

/-- The table of operators. -/
def operatorsAfter : List VaultMark → List Operator
  | [] => []
  | .added _ row :: ms => operatorsAfter ms ++ [row]
  | .migrated _ row :: ms => operatorsAfter ms ++ [row]
  | .switched _ id active :: ms => (operatorsAfter ms).map (Operator.switch id active)
  | .removed _ id :: ms => (operatorsAfter ms).filter fun row => row.id ≠ id
  | _ :: ms => operatorsAfter ms

/-- The largest id that was given. -/
def lastIdAfter : List VaultMark → ℕ
  | [] => 0
  | .added _ row :: _ => row.id
  | .migrated _ row :: _ => row.id
  | _ :: ms => lastIdAfter ms

/-- What was read of a setting is what was last written. -/
def Reads (key value : String) (ms : List VaultMark) : Prop :=
  ∀ r, lastWritten key ms = some r → value = r

variable (e : SessionEnv)

/-- The cookie of call `n` was accepted, and said this. -/
def Admitted (n : ℕ) (claims : List (Json.Text × Json.Value)) (ms : List VaultMark) : Prop :=
  ∃ token secret now, .checked n token secret now ∈ ms ∧
    verdict e token secret now = .ok (some claims)

/-- Call `n` was a login with the password of an active operator. -/
def ByOperator (n : ℕ) (g : Grant) (ms : List VaultMark) : Prop :=
  ∃ email password row, .attempt n email password ∈ ms ∧ .found n row ∈ ms ∧
    row.email = e.normal email ∧ row.active = true ∧
    e.checkpw (Tokens.utf8 password) (Tokens.utf8 row.passwordHash) = some true ∧
    g.sub = row.email ∧ g.role = row.role

/-- Call `n` was a login with the password of the admin of the settings. -/
def ByLegacyAdmin (n : ℕ) (g : Grant) (ms : List VaultMark) : Prop :=
  ∃ email password adminEmail adminHash, .attempt n email password ∈ ms ∧
    .read n "admin_email" adminEmail ∈ ms ∧ .read n "admin_password_hash" adminHash ∈ ms ∧
    adminEmail ≠ "" ∧ adminHash ≠ "" ∧ e.normal email = e.normal adminEmail ∧
    e.checkpw (Tokens.utf8 password) (Tokens.utf8 adminHash) = some true ∧
    g.sub = email ∧ g.role = .admin

def LoggedIn (n : ℕ) (g : Grant) (ms : List VaultMark) : Prop :=
  ByOperator e n g ms ∨ ByLegacyAdmin e n g ms

/-- A new row: its address is taken by nobody and in normal form, and its id was never given. -/
structure NewRow (row : Operator) (ms : List VaultMark) : Prop where
  untaken : ∀ r ∈ operatorsAfter ms, r.email ≠ row.email
  normal : ∃ email, row.email = e.normal email
  id : row.id = lastIdAfter ms + 1
  active : row.active = true

/-- Start `n` found no operators, then read the address and then the hash of the settings' admin, and
the row has these. -/
def FromSettings (n : ℕ) (row : Operator) (ms : List VaultMark) : Prop :=
  ∃ email hash counted atEmail atHash,
    (.noOperators n :: counted) <:+ atEmail ∧ operatorsAfter counted = [] ∧
    (.took n "admin_email" email :: atEmail) <:+ atHash ∧ Reads "admin_email" email atEmail ∧
    (.took n "admin_password_hash" hash :: atHash) <:+ ms ∧
      Reads "admin_password_hash" hash atHash ∧ email ≠ "" ∧ hash ≠ "" ∧
    row.email = e.normal email ∧ row.passwordHash = hash ∧ row.role = .admin

/-- The session of an admin. -/
def AdmittedAdmin (n : ℕ) (ms : List VaultMark) : Prop :=
  ∃ claims, Admitted e n claims ms ∧ isAdmin claims = true

/-- Why there is a mark after these. -/
def Reason : VaultMark → List VaultMark → Prop
  | .attempt _ _ _, _ => True
  | .found _ row, ms => row ∈ operatorsAfter ms
  | .read _ key value, ms => Reads key value ms
  | .signed n secret g, ms => Reads "jwt_secret" secret ms ∧ secret ≠ "" ∧
      g.payloadB64.isSome = true ∧ LoggedIn e n g ms
  | .checked _ _ secret _, ms => Reads "jwt_secret" secret ms
  | .added n row, ms => AdmittedAdmin e n ms ∧ NewRow e row ms
  | .switched n _ _, ms => AdmittedAdmin e n ms
  | .removed n _, ms => AdmittedAdmin e n ms
  | .noOperators _, ms => operatorsAfter ms = []
  | .took _ key value, ms => Reads key value ms
  | .migrated n row, ms => FromSettings e n row ms ∧ NewRow e row ms
  | .filled, _ => True
  | .wrote n _ _, ms => ∃ claims, Admitted e n claims ms
  | .deleted n _, ms => ∃ claims, Admitted e n claims ms
  | .drew n _, ms => ∃ claims, Admitted e n claims ms
  | .shown n key value, ms => (∃ claims, Admitted e n claims ms) ∧
      ∀ r, lastWritten key ms = some r → value = some r

/-- Each mark has its reason. -/
def Justified : List VaultMark → Prop
  | [] => True
  | m :: ms => Reason e m ms ∧ Justified ms

/-- The marks account for the vault. -/
structure VaultInv (s : Vault) : Prop where
  justified : Justified e s.marks
  operators : s.operators = operatorsAfter s.marks
  lastId : s.lastOperatorId = lastIdAfter s.marks
  settings : ∃ v, Analysis.Shows e.hosts s.settings v ∧
    ∀ key r, lastWritten key s.marks = some r → v.written key = some (r, ())

/-- The terms of the requests: the marks grow and account for the vault. -/
def vaultDiscipline : Discipline Vault where
  inv := VaultInv e
  rely _ s t := s.marks <:+ t.marks
  guar _ s t := s.marks <:+ t.marks ∧ VaultInv e t
  rely_refl _ s := List.suffix_refl s.marks
  rely_trans _ _ _ _ h h' := h.trans h'
  guar_rely _ _ _ _ _ _ h _ := h.1
  keep _ _ _ _ h _ := h.2

end Mailman.Interface
