import Mailman.Library.Csv
import Mailman.Library.Keyset
import Mailman.Model.Contacts
import Mailman.Model.World

/-!
# Contact files

The export of the contacts and the import of a text file, as texts: `export_contacts` writes what
`csv.reader` reads for `csv_import`, and the page of the contacts uploads a long file in chunks.
The bytes of a text (UTF-8 both ways), the file name and the XLSX branch are left out.
-/

set_option autoImplicit false

namespace Mailman.Model

open Mailman.Library

/-- `csv.field_size_limit()` -/
def csvFieldLimit : ℕ := 131072

/-- The columns of an export. SOURCE: terminal/routes_admin.py:286 -/
def exportColumns : List String :=
  ["email", "name", "tags", "consent_source", "external_id", "created_at"]

/-- The values of a contact under these columns; NULL is the empty text. `created_at` is not a
field of the model's contacts, so it is given. SOURCE: terminal/routes_admin.py:287-288 -/
def exportValues (createdAt : Contact → String) (c : Contact) : List String :=
  [c.email, c.name, c.tags.getD "", c.consentSource, c.externalId.getD "", createdAt c]

/-- A row of quoted values. SOURCE: terminal/routes_admin.py:270, 287-288 -/
def exportLine (values : List String) : List Char :=
  Csv.line (values.map fun v => Csv.quoted v.toList)

/-- `export_contacts`: the chosen contacts, or all of them, by id.
SOURCE: terminal/routes_admin.py:266-289 -/
def exportContacts (createdAt : Contact → String) (ids : Option (List ℕ))
    (contacts : List Contact) : String :=
  let rows := orderBy (·.id) (contacts.filter fun c => ids.all (·.contains c.id))
  .ofList <| Csv.text <|
    Csv.line (exportColumns.map (·.toList)) :: rows.map fun c => exportLine (exportValues createdAt c)

variable {Id : Type}

/-- `csv_import` of a text; a text that the reader refuses is an internal error.
SOURCE: terminal/routes_admin.py:143-234 -/
def importFile (x : Texts) (clock : RowClock) (batchTag : String) (db : Db Id) (text : String) :
    Except HttpError (Db Id × ImportCount) :=
  match Csv.read csvFieldLimit text.toList with
  | .error _ => .error ⟨500, "Internal Server Error"⟩
  | .ok rows => csvImport x clock batchTag db rows

/-! ## The upload -/

/-- What `String.prototype.trim` removes at the ends. -/
def isJsSpace (c : Char) : Bool :=
  [9, 10, 11, 12, 13, 32, 160, 0x1680, 0x2028, 0x2029, 0x202f, 0x205f, 0x3000, 0xfeff].contains
    c.toNat || (0x2000 ≤ c.toNat && c.toNat ≤ 0x200a)

/-- `text.split(/\r?\n/)`. -/
def splitLines (text : List Char) : List (List Char) :=
  let parts := text.splitOn '\n'
  let dropCr (l : List Char) := if l.getLast? = some '\r' then l.dropLast else l
  parts.dropLast.map dropCr ++ parts.getLast?.toList

/-- `CHUNK`. SOURCE: terminal/admin_ui.py:1698 -/
def uploadChunk : ℕ := 10000

/-- The texts that `csvUpload` posts: each chunk under the title line, if there is one.
SOURCE: terminal/admin_ui.py:1693-1704 -/
def uploadChunks (text : List Char) : List (List Char) :=
  let allLines := splitLines text
  let first := allLines.headD []
  let hasHeader := first ≠ [] && !first.contains '@'
  let dataLines := (if hasHeader then allLines.tail else allLines).filter (·.any (!isJsSpace ·))
  (sliceBy uploadChunk dataLines.length dataLines).map fun rows =>
    Csv.text (if hasHeader then first :: rows else rows)

/-- An error that `csvUpload` shows: that of a chunk, or one of its rows. -/
inductive UploadError where
  | chunk (number : ℕ) (error : HttpError)
  | row (row : ℕ) (reason : DropReason) (cell : String)

/-- What `csvUpload` counts. SOURCE: terminal/admin_ui.py:1706 -/
structure UploadCount where
  imported : ℕ := 0
  suppressed : ℕ := 0
  invalid : ℕ := 0
  errors : List UploadError := []

/-- One chunk: an error of the server is shown, and the next chunk goes on.
SOURCE: terminal/admin_ui.py:1707-1725, 1872-1883 -/
def uploadOne (x : Texts) (clock : ℕ → RowClock) (batchTag : String) (acc : Db Id × UploadCount)
    (chunk : List Char × ℕ) : Db Id × UploadCount :=
  match importFile x (clock chunk.2) batchTag acc.1 (.ofList chunk.1) with
  | .error e => (acc.1, { acc.2 with errors := acc.2.errors ++ [.chunk (chunk.2 + 1) e] })
  | .ok (db, n) => (db,
    { imported := acc.2.imported + n.imported
      suppressed := acc.2.suppressed + n.skippedSuppressed
      invalid := acc.2.invalid + n.skippedInvalid
      errors := acc.2.errors ++ (n.errors.take 5).map fun e => .row e.1 e.2.1 e.2.2 })

/-- `csvUpload` of a text; every request is answered.
SOURCE: terminal/admin_ui.py:1675-1736 -/
def csvUpload (x : Texts) (clock : ℕ → RowClock) (batchTag : String) (db : Db Id) (text : String) :
    Db Id × UploadCount :=
  (uploadChunks text.toList).zipIdx.foldl (uploadOne x clock batchTag) (db, {})

end Mailman.Model
