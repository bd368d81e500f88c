import Mailman.Model.Contacts

/-!
# Tags

A contact's tags are one text, joined with `|`. The routes that store it, the two that rewrite it
and the two that read it: `list_tags` and the selection of `add_recipients`. The rewriting
routes look only at the rows that a `LIKE` finds, so SQLite's `LIKE` is part of the model. Audit
rows are left out.
-/

set_option autoImplicit false

namespace Mailman.Model

open Mailman.Library

/-- `tags.split("|")` -/
def tagParts (tags : String) : List String := (tags.toList.splitOn '|').map .ofList

/-- `"|".join(parts)` -/
def joinTags (parts : List String) : String := .ofList (['|'].intercalate (parts.map (·.toList)))

/-- `LIKE` does not tell the cases of ASCII letters apart. -/
def foldAscii (c : Char) : Char := if 'A' ≤ c ∧ c ≤ 'Z' then Char.ofNat (c.toNat + 32) else c

/-- `text LIKE pattern` -/
def like : List Char → List Char → Bool
  | [], text => text.isEmpty
  | p :: pattern, text =>
    if p = '%' then text.tails.any (like pattern)
    else
      match text with
      | [] => false
      | c :: text => (p = '_' || foldAscii p = foldAscii c) && like pattern text

/-- `Contact.tags.like(f"%{tag}%")`; NULL is like nothing. -/
def tagsLike (tag : String) (tags : Option String) : Bool :=
  tags.any fun text => like ('%' :: tag.toList ++ ['%']) text.toList

variable {Id : Type}

/-! ## Readers -/

/-- The tags of a row that is read, one for each part that is not blank. -/
def countedTags (contacts : List Contact) : List String :=
  (contacts.flatMap fun c =>
    match c.tags with
    | none => []
    | some text => (tagParts text).map Text.strip).filter (· ≠ "")

/-- The tags in the order of their first occurrence, then those of the highest count first.
SOURCE: terminal/routes_admin.py:1487-1495 -/
def listTagsData (contacts : List Contact) : List (String × ℕ) :=
  let tags := countedTags contacts
  (tags.eraseDups.map fun t => (t, tags.count t)).mergeSort fun a b => b.2 ≤ a.2

/-- The contacts that `by_tag` adds to the set. SOURCE: terminal/routes_admin.py:445-449 -/
def selectByTag (byTag : String) (contacts : List Contact) : List Contact :=
  contacts.filter fun c =>
    match c.tags with
    | none => false
    | some text => (tagParts text).contains (Text.strip byTag)

/-! ## Writers -/

/-- `edit_contact`. SOURCE: terminal/routes_admin.py:1376-1393 -/
def editContact (db : Db Id) (contactId : ℕ) (name tags : Option String) :
    Except HttpError (Db Id × Bool) :=
  if !db.contacts.any (·.id = contactId) then .error ⟨404, "no such contact"⟩
  else if name = none ∧ tags = none then .ok (db, false)
  else
    let contacts := updateRows db.contacts (·.id = contactId) fun c =>
      { c with name := name.getD c.name, tags := tags.orElse fun _ => c.tags }
    .ok ({ db with contacts }, true)

/-- The tags of a row after a rename, for the rows that are looked at. -/
def renameIn (old new : String) (text : String) : String :=
  let tags := tagParts text
  let newTags := tags.map fun t => if Text.strip t = old then new else t
  if newTags ≠ tags then joinTags newTags else text

/-- `rename_tag`. SOURCE: terminal/routes_admin.py:1503-1524 -/
def renameTag (db : Db Id) (oldTag newTag : String) : Except HttpError (Db Id) :=
  let old := Text.strip oldTag
  let new := Text.strip newTag
  if old = "" ∨ new = "" then .error ⟨400, "old_tag and new_tag must not be empty"⟩
  else
    .ok { db with contacts := updateRows db.contacts (tagsLike old ·.tags) fun c =>
      { c with tags := c.tags.map (renameIn old new) } }

/-- The tags of a row without one; NULL when no part is left. -/
def deleteIn (tag : String) (text : String) : Option String :=
  let tags := (tagParts text).filter fun t => Text.strip t ≠ tag
  if tags = [] then none else some (joinTags tags)

/-- `delete_tag`. SOURCE: terminal/routes_admin.py:1531-1553 -/
def deleteTag (db : Db Id) (tag : String) : Except HttpError (Db Id) :=
  let tag := Text.strip tag
  if tag = "" then .error ⟨400, "tag must not be empty"⟩
  else
    .ok { db with contacts := updateRows db.contacts (tagsLike tag ·.tags) fun c =>
      { c with tags := c.tags.bind (deleteIn tag) } }

/-! ## Runs -/

/-- A call that may change the tags of contacts. -/
inductive TagOp where
  | create (clock : RowClock) (c : ContactIn)
  | csvImport (clock : RowClock) (batchTag : String) (rows : List (List String))
  | edit (contactId : ℕ) (name tags : Option String)
  | rename (oldTag newTag : String)
  | delete (tag : String)

/-- The database after a call; a refused one changes nothing. -/
def TagOp.run (x : Texts) (db : Db Id) : TagOp → Db Id
  | .create clock c =>
    match createContact x clock db c with
    | .ok (db, _) => db
    | .error _ => db
  | .csvImport clock batchTag rows =>
    match Model.csvImport x clock batchTag db rows with
    | .ok (db, _) => db
    | .error _ => db
  | .edit contactId name tags =>
    match editContact db contactId name tags with
    | .ok (db, _) => db
    | .error _ => db
  | .rename oldTag newTag =>
    match renameTag db oldTag newTag with
    | .ok db => db
    | .error _ => db
  | .delete tag =>
    match deleteTag db tag with
    | .ok db => db
    | .error _ => db

end Mailman.Model
