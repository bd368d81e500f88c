import Mailman.Library.Text
import Mailman.Model.Handshake
import Mailman.Model.Tables

/-!
# Contacts and their addresses

The two routes that store a contact, and the cleaner the import runs first. `str.lower` and
SHA-256 are parameters. The audit rows are left out, and of an import's error texts the row,
the reason and the cell are kept.
-/

set_option autoImplicit false

namespace Mailman.Model

open Mailman.Library

/-- `str.lower`, and the hexadecimal SHA-256 of a text. -/
structure Texts where
  lower : String → String
  sha256 : String → String

/-- `_email_hash`. SOURCE: terminal/routes_admin.py:47-48 -/
def Texts.emailHash (x : Texts) (email : String) : String := x.sha256 (x.lower email)

/-! ## The cleaner -/

/-- A lower-case letter or a digit. -/
def isLowerAlnum (c : Char) : Bool := ('a' ≤ c && c ≤ 'z') || ('0' ≤ c && c ≤ '9')

/-- What the local part of an address is made of, the dots apart. -/
def isLocalChar (c : Char) : Bool := isLowerAlnum c || "!#$%&'*+/=?^_\x60\x7b|\x7d~-".toList.contains c

/-- A label of a domain: 1 to 63 letters, digits and hyphens, with no hyphen at an end. -/
def isDomainLabel (l : List Char) : Bool :=
  l.length ≤ 63 && l.all (fun c => isLowerAlnum c || c = '-') && l.head?.any isLowerAlnum &&
    l.getLast?.any isLowerAlnum

/-- `_EMAIL_RE.match`: `$` also matches before a line break that ends the string.
SOURCE: terminal/email_clean.py:14-15 -/
def matchesEmailRe (email : String) : Bool :=
  let s := email.toList
  let s := if s.getLast? = some '\n' then s.dropLast else s
  let localPart := s.takeWhile (· ≠ '@')
  let domain := ((s.dropWhile (· ≠ '@')).drop 1).splitOn '.'
  s.contains '@' && (localPart.splitOn '.').all (fun a => a ≠ [] && a.all isLocalChar) &&
    domain.dropLast ≠ [] && domain.dropLast.all isDomainLabel &&
    domain.getLast?.any fun tld => 2 ≤ tld.length && tld.all fun c => 'a' ≤ c && c ≤ 'z'

/-- `_ROLE_LOCALPARTS`. SOURCE: terminal/email_clean.py:18-23 -/
def roleLocalparts : List String :=
  ["info", "admin", "administrator", "support", "sales", "contact", "hello", "help",
    "office", "enquiries", "inquiries", "noreply", "no-reply", "donotreply", "postmaster",
    "abuse", "webmaster", "hostmaster", "marketing", "team", "mail", "billing", "accounts",
    "careers", "jobs", "hr", "press", "media", "legal", "privacy", "security", "root"]

/-- `_DISPOSABLE_DOMAINS`. SOURCE: terminal/email_clean.py:26-30 -/
def disposableDomains : List String :=
  ["mailinator.com", "guerrillamail.com", "10minutemail.com", "tempmail.com",
    "throwawaymail.com", "yopmail.com", "trashmail.com", "getnada.com", "sharklasers.com",
    "maildrop.cc", "dispostable.com", "fakeinbox.com", "temp-mail.org"]

/-- Why the cleaner drops an address. -/
inductive DropReason where
  | empty
  | badSyntax
  | roleAccount
  | disposableDomain
  deriving DecidableEq, Repr

/-- `clean_email`. SOURCE: terminal/email_clean.py:34-47 -/
def cleanEmail (lower : String → String) (raw : String) : Except DropReason String :=
  if raw = "" then .error .empty
  else
    let email := lower (Text.strip raw)
    let email := Text.stripBy "<> \t".toList.contains ((Text.afterPrefix "mailto:" email).getD email)
    if !matchesEmailRe email then .error .badSyntax
    else if roleLocalparts.contains (.ofList (email.toList.takeWhile (· ≠ '@'))) then
      .error .roleAccount
    else if disposableDomains.contains
        (.ofList ((email.toList.dropWhile (· ≠ '@')).drop 1)) then .error .disposableDomain
    else .ok email

/-! ## The routes -/

variable {Id : Type}

/-- What the database adds to the rows of a request: the time, and how many ids AUTOINCREMENT has
passed over when the row of a line is stored. A removed contact and every insert that was ignored
have used one up. -/
structure RowClock where
  now : String := ""
  skipped : ℕ → ℕ := fun _ => 0

/-- The id of a new contact: past every id there is, and past those that were used up. -/
def Db.nextContactId (db : Db Id) (skipped : ℕ) : ℕ :=
  (db.contacts.map (·.id)).foldl max 0 + 1 + skipped

/-- The `UNIQUE` columns of `contacts`: a row that meets one of them. -/
def Db.contactTaken (db : Db Id) (email : String) (externalId : Option String) : Bool :=
  db.contacts.any fun c => c.email = email || (externalId.isSome && c.externalId = externalId)

/-- `ContactIn`. SOURCE: terminal/routes_admin.py:58-63 -/
structure ContactIn where
  email : String
  name : Option String := none
  tags : Option String := none
  consentSource : String := "manual"
  externalId : Option String := none

/-- `create_contact`: the database after it and the address that is stored.
SOURCE: terminal/routes_admin.py:97-126 -/
def createContact (x : Texts) (clock : RowClock) (db : Db Id) (c : ContactIn) :
    Except HttpError (Db Id × String) :=
  let email := x.lower (Text.strip c.email)
  if !email.toList.contains '@' then .error ⟨400, "invalid email"⟩
  else match db.suppressions (x.emailHash email) with
    | some sup => .error ⟨409, "email is in suppression (reason=" ++ sup.reason.text ++ ")"⟩
    | none =>
      if db.contactTaken email c.externalId then .error ⟨409, "email already exists"⟩
      else
        let row : Contact :=
          { id := db.nextContactId (clock.skipped 0), email, name := c.name.getD "", tags := c.tags
            consentTs := clock.now, consentSource := c.consentSource, externalId := c.externalId }
        .ok ({ db with contacts := db.contacts ++ [row] }, email)

/-- What `csv_import` counts. -/
structure ImportCount where
  imported : ℕ := 0
  skippedSuppressed : ℕ := 0
  skippedInvalid : ℕ := 0
  dropped : List DropReason := []
  errors : List (ℕ × DropReason × String) := []

/-- `_col` of a row. SOURCE: terminal/routes_admin.py:174-180 -/
def csvCol (header row : List String) (name default : String) : String :=
  match header.idxOf? name with
  | some idx => (row[idx]?.map Text.strip).getD default
  | none => default

/-- The tags of an imported row: those of its cell and the batch's.
SOURCE: terminal/routes_admin.py:204-210 -/
def mergeTags (csvTags batchTag : String) : String :=
  if batchTag = "" then csvTags
  else
    let parts := (csvTags.toList.splitOn '|').map fun l => Text.strip (.ofList l)
    let existing := parts.filter (· ≠ "")
    let tag := Text.strip batchTag
    let existing := if tag ≠ "" ∧ ¬ existing.contains tag then existing ++ [tag] else existing
    "|".intercalate existing

/-- A text, or NULL for the empty one. -/
def orNull (s : String) : Option String := if s = "" then none else some s

/-- One row of `csv_import`. SOURCE: terminal/routes_admin.py:188-223 -/
def importRow (x : Texts) (clock : RowClock) (batchTag : String) (header : List String)
    (acc : Db Id × ImportCount) (line : List String × ℕ) : Db Id × ImportCount :=
  let (db, n) := acc
  let (row, i) := line
  let cell := csvCol header row "email" ""
  if row = [] then acc
  else match cleanEmail x.lower cell with
    | .error reason =>
      let errors := if n.errors.length < 20 then n.errors ++ [(i + 2, reason, cell)] else n.errors
      (db, { n with skippedInvalid := n.skippedInvalid + 1, dropped := n.dropped ++ [reason], errors })
    | .ok email =>
      let externalId := orNull (csvCol header row "external_id" "")
      if (db.suppressions (x.emailHash email)).isSome then
        (db, { n with skippedSuppressed := n.skippedSuppressed + 1 })
      else if db.contactTaken email externalId then acc
      else
        let row : Contact :=
          { id := db.nextContactId (clock.skipped i), email, name := csvCol header row "name" ""
            tags := orNull (mergeTags (csvCol header row "tags" "") batchTag)
            consentTs := clock.now
            consentSource := csvCol header row "consent_source" "csv_import", externalId }
        ({ db with contacts := db.contacts ++ [row] }, { n with imported := n.imported + 1 })

/-- `MAX_CSV_ROWS`. SOURCE: terminal/routes_admin.py:129 -/
def maxCsvRows : ℕ := 10000

/-- `csv_import` of the rows the file is read as. SOURCE: terminal/routes_admin.py:143-234 -/
def csvImport (x : Texts) (clock : RowClock) (batchTag : String) (db : Db Id)
    (rows : List (List String)) : Except HttpError (Db Id × ImportCount) :=
  if maxCsvRows + 1 < rows.length then .error ⟨413, s!"chunk exceeds {maxCsvRows} rows"⟩
  else
    -- a first row whose first cell has no "@" is the header
    let titled := rows.head?.any fun row => !(row.headD "").toList.contains '@'
    let header := if titled then (rows.headD []).map fun h => x.lower (Text.strip h)
      else ["email", "name", "tags", "consent_source", "external_id"]
    let dataRows := if titled then rows.tail else rows
    .ok (dataRows.zipIdx.foldl (importRow x clock batchTag header) (db, {}))

end Mailman.Model
