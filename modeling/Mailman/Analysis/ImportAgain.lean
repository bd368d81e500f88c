import Mailman.Analysis.ContactFiles
import Mailman.Analysis.TagRuns

/-!
# Contacts imported twice

An imported file adds nothing when it is imported again, whatever was added, suppressed or edited
in between, and an upload that broke off is finished by doing it again.
-/

set_option autoImplicit false

namespace Mailman.Analysis

open Mailman.Library Mailman.Model

variable {Id : Type} {x : Texts} {clock : RowClock} {batchTag : String}

/-! ## The same rows again -/

/-- The later database suppresses whom the earlier one did and has the keys of its contacts. -/
structure KeysKept (db later : Db Id) : Prop where
  suppressed : ∀ h, (db.suppressions h).isSome → (later.suppressions h).isSome
  contacts : ∀ c ∈ db.contacts, ∃ c' ∈ later.contacts,
    c'.email = c.email ∧ c'.externalId = c.externalId

/-- The database has, or suppresses, whom the row names. -/
def Covered (x : Texts) (db : Db Id) (header row : List String) : Prop :=
  row ≠ [] → ∀ email, cleanEmail x.lower (csvCol header row "email" "") = .ok email →
    (db.suppressions (x.emailHash email)).isSome ∨
      db.contactTaken email (orNull (csvCol header row "external_id" ""))

/-- Two counts of the same refusals. -/
structure SameRefusals (n n' : ImportCount) : Prop where
  invalid : n.skippedInvalid = n'.skippedInvalid
  dropped : n.dropped = n'.dropped
  errors : n.errors = n'.errors

section again

variable {db db' db₂ : Db Id} {n n' : ImportCount} {header row : List String} {i : ℕ}

/-- A database keeps its own keys. -/
theorem KeysKept.refl (db : Db Id) : KeysKept db db :=
  ⟨fun _ h => h, fun c hc => ⟨c, hc, rfl, rfl⟩⟩

/-- Keeping the keys is transitive. -/
theorem KeysKept.trans {db₁ db₂ db₃ : Db Id} (h : KeysKept db₁ db₂) (h' : KeysKept db₂ db₃) :
    KeysKept db₁ db₃ := by
  refine ⟨fun hash hs => h'.suppressed hash (h.suppressed hash hs), fun c hc => ?_⟩
  obtain ⟨c', hc', hemail, hexternal⟩ := h.contacts c hc
  obtain ⟨c'', hc'', hemail', hexternal'⟩ := h'.contacts c' hc'
  exact ⟨c'', hc'', hemail'.trans hemail, hexternal'.trans hexternal⟩

/-- A contact that is taken stays taken. -/
theorem KeysKept.taken (h : KeysKept db db₂) {email : String} {externalId : Option String}
    (htaken : db.contactTaken email externalId = true) : db₂.contactTaken email externalId := by
  obtain ⟨c, hc, hkey⟩ := List.any_eq_true.mp htaken
  obtain ⟨c', hc', hemail, hexternal⟩ := h.contacts c hc
  refine List.any_eq_true.mpr ⟨c', hc', ?_⟩
  rwa [hemail, hexternal]

/-- A covered row stays covered. -/
theorem Covered.later (h : Covered x db header row) (hkept : KeysKept db db₂) :
    Covered x db₂ header row := by
  intro hne email hclean
  apply (h hne email hclean).imp
  · exact hkept.suppressed _
  · exact hkept.taken

/-- One row: the keys stay, the row is covered, and its refusal does not depend on the database. -/
theorem importRow_covers (clock : RowClock) (batchTag : String) (db : Db Id) (n : ImportCount)
    (header row : List String) (i : ℕ) :
    KeysKept db (importRow x clock batchTag header (db, n) (row, i)).1 ∧
      Covered x (importRow x clock batchTag header (db, n) (row, i)).1 header row := by
  unfold importRow
  dsimp only
  split
  · next hnil => exact ⟨.refl db, fun hne => absurd hnil hne⟩
  · split
    · next reason hclean =>
      refine ⟨.refl db, fun _ email hok => ?_⟩
      rw [hclean] at hok
      cases hok
    · next email hclean =>
      have hsame : ∀ email', cleanEmail x.lower (csvCol header row "email" "") = .ok email' →
          email' = email := by
        intro email' hok
        rw [hclean] at hok
        cases hok
        rfl
      split
      · next hsup => exact ⟨.refl db, fun _ email' hok => by rw [hsame email' hok]; exact .inl hsup⟩
      · split
        · next htaken =>
          exact ⟨.refl db, fun _ email' hok => by rw [hsame email' hok]; exact .inr htaken⟩
        · refine ⟨⟨fun _ h => h, fun c hc => ⟨c, List.mem_append_left _ hc, rfl, rfl⟩⟩,
            fun _ email' hok => .inr ?_⟩
          rw [hsame email' hok, contactTaken_append]
          simp

/-- A covered row adds nothing. -/
theorem importRow_covered (h : Covered x db header row) (clock : RowClock) (batchTag : String)
    (n : ImportCount) (i : ℕ) :
    (importRow x clock batchTag header (db, n) (row, i)).1 = db ∧
      (importRow x clock batchTag header (db, n) (row, i)).2.imported = n.imported := by
  unfold importRow
  dsimp only
  split
  · exact ⟨rfl, rfl⟩
  · next hne =>
    split
    · exact ⟨rfl, rfl⟩
    · next email hclean =>
      split
      · exact ⟨rfl, rfl⟩
      · next hsup =>
        rw [if_pos ((h hne email hclean).resolve_left hsup)]
        exact ⟨rfl, rfl⟩

/-- What a row is refused for does not depend on the database. -/
theorem importRow_refusals (h : SameRefusals n n') (clock : RowClock) (batchTag : String)
    (clock' : RowClock) (batchTag' : String) (db db' : Db Id) (header row : List String) (i : ℕ) :
    SameRefusals (importRow x clock batchTag header (db, n) (row, i)).2
      (importRow x clock' batchTag' header (db', n') (row, i)).2 := by
  have hcount : ∀ tag : String, ∀ stamp : RowClock, ∀ base : Db Id, ∀ m : ImportCount,
      ∀ email, row ≠ [] → cleanEmail x.lower (csvCol header row "email" "") = .ok email →
      SameRefusals (importRow x stamp tag header (base, m) (row, i)).2 m := by
    intro tag stamp base m email hne hclean
    unfold importRow
    dsimp only
    rw [if_neg hne, hclean]
    dsimp only
    split_ifs <;> exact ⟨rfl, rfl, rfl⟩
  by_cases hne : row = []
  · unfold importRow
    dsimp only
    rw [if_pos hne, if_pos hne]
    exact h
  · cases hclean : cleanEmail x.lower (csvCol header row "email" "") with
    | error reason =>
      unfold importRow
      dsimp only
      rw [if_neg hne, if_neg hne, hclean]
      dsimp only
      constructor
      · exact congrArg (· + 1) h.invalid
      · exact congrArg (· ++ [reason]) h.dropped
      · rw [h.errors]
    | ok email =>
      have h₁ := hcount batchTag clock db n email hne hclean
      have h₂ := hcount batchTag' clock' db' n' email hne hclean
      exact ⟨h₁.invalid.trans (h.invalid.trans h₂.invalid.symm),
        h₁.dropped.trans (h.dropped.trans h₂.dropped.symm),
        h₁.errors.trans (h.errors.trans h₂.errors.symm)⟩

/-- All rows of a file. -/
theorem importRows_cover (clock : RowClock) (batchTag : String) (header : List String)
    (rows : List (List String)) (db : Db Id) (n : ImportCount) (i : ℕ) :
    KeysKept db ((rows.zipIdx i).foldl (importRow x clock batchTag header) (db, n)).1 ∧
      ∀ row ∈ rows,
        Covered x ((rows.zipIdx i).foldl (importRow x clock batchTag header) (db, n)).1 header row := by
  induction rows generalizing db n i with
  | nil => exact ⟨.refl db, fun row hrow => absurd hrow List.not_mem_nil⟩
  | cons row rows ih =>
    rw [List.zipIdx_cons, List.foldl_cons]
    obtain ⟨hkept, hcovered⟩ := @importRow_covers Id x clock batchTag db n header row i
    obtain ⟨hrest, hrows⟩ := ih (importRow x clock batchTag header (db, n) (row, i)).1
      (importRow x clock batchTag header (db, n) (row, i)).2 (i + 1)
    refine ⟨hkept.trans hrest, fun row' hrow' => ?_⟩
    rcases List.mem_cons.mp hrow' with rfl | hrow'
    · exact hcovered.later hrest
    · exact hrows row' hrow'

/-- Covered rows add nothing. -/
theorem importRows_covered {rows : List (List String)} (h : ∀ row ∈ rows, Covered x db header row)
    (clock : RowClock) (batchTag : String) (n : ImportCount) (i : ℕ) :
    ((rows.zipIdx i).foldl (importRow x clock batchTag header) (db, n)).1 = db ∧
      ((rows.zipIdx i).foldl (importRow x clock batchTag header) (db, n)).2.imported =
        n.imported := by
  induction rows generalizing n i with
  | nil => exact ⟨rfl, rfl⟩
  | cons row rows ih =>
    rw [List.zipIdx_cons, List.foldl_cons]
    obtain ⟨hdb, himported⟩ := importRow_covered (h row (List.mem_cons_self ..)) clock batchTag n i
    have hpair : importRow x clock batchTag header (db, n) (row, i) =
        (db, (importRow x clock batchTag header (db, n) (row, i)).2) := Prod.ext hdb rfl
    rw [hpair, ← himported]
    exact ih (fun row hrow => h row (List.mem_cons_of_mem _ hrow)) _ _

/-- What rows are refused for does not depend on the database. -/
theorem importRows_refusals (h : SameRefusals n n') (clock : RowClock) (batchTag : String)
    (clock' : RowClock) (batchTag' : String) (db db' : Db Id) (header : List String) (rows : List (List String)) (i : ℕ) :
    SameRefusals ((rows.zipIdx i).foldl (importRow x clock batchTag header) (db, n)).2
      ((rows.zipIdx i).foldl (importRow x clock' batchTag' header) (db', n')).2 := by
  induction rows generalizing db db' n n' i with
  | nil => exact h
  | cons row rows ih =>
    rw [List.zipIdx_cons, List.foldl_cons, List.foldl_cons]
    exact ih (importRow_refusals h clock batchTag clock' batchTag' db db' header row i) _ _ _

/-- The database has, or suppresses, all whom the file names. -/
def CoversFile (x : Texts) (db : Db Id) (text : String) : Prop :=
  ∀ rows, Csv.read csvFieldLimit text.toList = .ok rows → rows.length ≤ maxCsvRows + 1 →
    ∀ row ∈ dataRowsOf rows, Covered x db (headerOf x rows) row

/-- An imported file is covered. -/
theorem importFile_covers {text : String}
    (h : importFile x clock batchTag db text = .ok (db', n)) :
    KeysKept db db' ∧ CoversFile x db' text := by
  obtain ⟨rows, hread, -, heq⟩ := importFile_eq_ok.mp h
  obtain ⟨hkept, hcovered⟩ := @importRows_cover Id x clock batchTag (headerOf x rows)
    (dataRowsOf rows) db {} 0
  rw [heq] at hkept hcovered
  refine ⟨hkept, fun rows' hread' _ => ?_⟩
  rw [hread] at hread'
  cases hread'
  exact hcovered

/-- **A file that was imported adds nothing later**, under any tag, as long as no contact was
removed and no suppression lifted; the same rows are refused. -/
theorem import_again {text : String} (h : importFile x clock batchTag db text = .ok (db', n))
    (hkept : KeysKept db' db₂) (clock' : RowClock) (batchTag' : String) :
    ∃ m, importFile x clock' batchTag' db₂ text = .ok (db₂, m) ∧ m.imported = 0 ∧
      SameRefusals n m := by
  have hcovers := (importFile_covers h).2
  obtain ⟨rows, hread, hfew, heq⟩ := importFile_eq_ok.mp h
  obtain ⟨hsame, himported⟩ := importRows_covered
    (fun row hrow => (hcovers rows hread hfew row hrow).later hkept) clock' batchTag' {} 0
  have hrefusals := @importRows_refusals Id x {} {} ⟨rfl, rfl, rfl⟩ clock batchTag clock' batchTag' db
    db₂ (headerOf x rows) (dataRowsOf rows) 0
  rw [heq] at hrefusals
  exact ⟨_, importFile_eq_ok.mpr ⟨rows, hread, hfew, Prod.ext hsame rfl⟩, himported, hrefusals⟩

end again

/-! ## The upload again -/

section uploads

variable {times times' : ℕ → RowClock} {db db₂ : Db Id} {n : UploadCount}

/-- One chunk keeps the keys and is covered: a chunk that is refused names nobody. -/
theorem uploadOne_covers (times : ℕ → RowClock) (batchTag : String) (db : Db Id) (n : UploadCount)
    (chunk : List Char × ℕ) :
    KeysKept db (uploadOne x times batchTag (db, n) chunk).1 ∧
      CoversFile x (uploadOne x times batchTag (db, n) chunk).1 (.ofList chunk.1) := by
  unfold uploadOne
  dsimp only
  cases hfile : importFile x (times chunk.2) batchTag db (.ofList chunk.1) with
  | ok r => exact importFile_covers hfile
  | error e =>
    refine ⟨.refl db, fun rows hread hfew => ?_⟩
    rw [importFile_eq_ok.mpr ⟨rows, hread, hfew, rfl⟩] at hfile
    cases hfile

/-- A covered chunk adds nothing. -/
theorem uploadOne_covered {chunk : List Char × ℕ} (h : CoversFile x db (.ofList chunk.1))
    (times : ℕ → RowClock) (batchTag : String) (n : UploadCount) :
    (uploadOne x times batchTag (db, n) chunk).1 = db ∧
      (uploadOne x times batchTag (db, n) chunk).2.imported = n.imported := by
  unfold uploadOne
  dsimp only
  cases hfile : importFile x (times chunk.2) batchTag db (.ofList chunk.1) with
  | error e => exact ⟨rfl, rfl⟩
  | ok r =>
    obtain ⟨rows, hread, hfew, heq⟩ := importFile_eq_ok.mp hfile
    obtain ⟨hdb, himported⟩ :=
      importRows_covered (h rows hread hfew) (times chunk.2) batchTag {} 0
    rw [heq] at hdb himported
    refine ⟨hdb, ?_⟩
    show n.imported + r.2.imported = n.imported
    rw [himported]
    rfl

/-- A covered file stays covered. -/
theorem CoversFile.later {text : String} (h : CoversFile x db text) (hkept : KeysKept db db₂) :
    CoversFile x db₂ text :=
  fun rows hread hfew row hrow => (h rows hread hfew row hrow).later hkept

/-- Uploaded chunks are covered. -/
theorem uploads_cover (times : ℕ → RowClock) (batchTag : String) (chunks : List (List Char × ℕ))
    (db : Db Id) (n : UploadCount) :
    KeysKept db (chunks.foldl (uploadOne x times batchTag) (db, n)).1 ∧ ∀ chunk ∈ chunks,
      CoversFile x (chunks.foldl (uploadOne x times batchTag) (db, n)).1 (.ofList chunk.1) := by
  induction chunks generalizing db n with
  | nil => exact ⟨.refl db, fun chunk hchunk => absurd hchunk List.not_mem_nil⟩
  | cons chunk chunks ih =>
    rw [List.foldl_cons]
    obtain ⟨hkept, hcovers⟩ := @uploadOne_covers Id x times batchTag db n chunk
    obtain ⟨hrest, hchunks⟩ := ih (uploadOne x times batchTag (db, n) chunk).1
      (uploadOne x times batchTag (db, n) chunk).2
    refine ⟨hkept.trans hrest, fun chunk' hchunk' => ?_⟩
    rcases List.mem_cons.mp hchunk' with rfl | hchunk'
    · exact hcovers.later hrest
    · exact hchunks chunk' hchunk'

/-- Covered chunks add nothing. -/
theorem uploads_covered {chunks : List (List Char × ℕ)}
    (h : ∀ chunk ∈ chunks, CoversFile x db (.ofList chunk.1)) (times : ℕ → RowClock)
    (batchTag : String) (n : UploadCount) :
    (chunks.foldl (uploadOne x times batchTag) (db, n)).1 = db ∧
      (chunks.foldl (uploadOne x times batchTag) (db, n)).2.imported = n.imported := by
  induction chunks generalizing n with
  | nil => exact ⟨rfl, rfl⟩
  | cons chunk chunks ih =>
    rw [List.foldl_cons]
    obtain ⟨hdb, himported⟩ :=
      uploadOne_covered (h chunk (List.mem_cons_self ..)) times batchTag n
    have hpair : uploadOne x times batchTag (db, n) chunk =
        (db, (uploadOne x times batchTag (db, n) chunk).2) := Prod.ext hdb rfl
    rw [hpair, ← himported]
    exact ih (fun chunk' hchunk' => h chunk' (List.mem_cons_of_mem _ hchunk')) _

/-- **An upload done again adds nobody**, in whole or in part, under any tag, whatever was added
or suppressed since. -/
theorem upload_again (times : ℕ → RowClock) (batchTag : String) (db : Db Id) (text : String)
    (hkept : KeysKept (csvUpload x times batchTag db text).1 db₂) (times' : ℕ → RowClock)
    (batchTag' : String) :
    (csvUpload x times' batchTag' db₂ text).1 = db₂ ∧
      (csvUpload x times' batchTag' db₂ text).2.imported = 0 := by
  have hcovers := (@uploads_cover Id x times batchTag (uploadChunks text.toList).zipIdx db {}).2
  exact uploads_covered (fun chunk hchunk => (hcovers chunk hchunk).later hkept) times' batchTag' {}

/-- Four rows: two contacts, an address that is none, and one that is suppressed. -/
private def sentFile : String := "email,name,external_id\na@b.co,Al,1\nnobody,,\nc@d.org,Cy,2\ns@t.org,,"

/-- A database that suppresses the last of them. -/
private def sentDb : Db ℕ :=
  { suppressions := fun h =>
      if h = "s@t.org" then some { reason := .manual, source := none, addedAt := "s" } else none }

/-- Under another tag, after the contacts were tagged, someone was added and one suppressed. -/
theorem upload_again_tagged :
    let db := (csvUpload ⟨id, id⟩ (fun _ => { now := "t" }) "" sentDb sentFile).1
    let later : Db ℕ := { db with
      contacts := db.contacts.map (fun c => { c with tags := some "vip" }) ++
        [{ id := 9, email := "b@c.org" }]
      suppressions := Function.update db.suppressions "c@d.org"
        (some { reason := .complaint, source := none, addedAt := "s" }) }
    (csvUpload ⟨id, id⟩ (fun _ => { now := "u" }) "2024" later sentFile).1 = later ∧
      (csvUpload ⟨id, id⟩ (fun _ => { now := "u" }) "2024" later sentFile).2.imported = 0 := by
  intro db later
  have hkept : KeysKept db later := by
    constructor
    · intro h hs
      show (Function.update db.suppressions "c@d.org" _ h).isSome
      by_cases heq : h = "c@d.org"
      · rw [heq, Function.update_self]
        rfl
      · rw [Function.update_of_ne heq]
        exact hs
    · intro c hc
      exact ⟨{ c with tags := some "vip" },
        List.mem_append_left _ (List.mem_map_of_mem hc), rfl, rfl⟩
  exact upload_again (fun _ => { now := "t" }) "" sentDb sentFile hkept
    (fun _ => { now := "u" }) "2024"

/-- The chunks of an upload up to the `k`-th. -/
def uploadBroken (x : Texts) (times : ℕ → RowClock) (batchTag : String) (db : Db Id) (text : String)
    (k : ℕ) : Db Id :=
  (((uploadChunks text.toList).zipIdx.take k).foldl (uploadOne x times batchTag) (db, {})).1

/-! ## Up to ids -/

/-- A contact whatever its id. -/
def anonymous (c : Contact) : Contact := { c with id := 0 }

/-- Two databases that differ in the ids of contacts at most. -/
def UpToIds (a b : Db Id) : Prop :=
  { a with contacts := a.contacts.map anonymous } = { b with contacts := b.contacts.map anonymous }

section upToIds

variable {a b : Db Id} {na nb : ImportCount} {clock clock' : RowClock}

/-- A database is itself, whatever its ids. -/
theorem UpToIds.refl (a : Db Id) : UpToIds a a := rfl

/-- What does not look at an id is the same. -/
theorem UpToIds.suppressions (h : UpToIds a b) : a.suppressions = b.suppressions :=
  congrArg (·.suppressions) h

/-- The contacts are the same, apart from their ids. -/
theorem UpToIds.contacts (h : UpToIds a b) :
    a.contacts.map anonymous = b.contacts.map anonymous := congrArg (·.contacts) h

/-- The keys that are taken are the same. -/
theorem UpToIds.taken (h : UpToIds a b) (email : String) (externalId : Option String) :
    a.contactTaken email externalId = b.contactTaken email externalId := by
  have hkeys : ∀ db : Db Id, db.contactTaken email externalId =
      (db.contacts.map anonymous).any fun c =>
        c.email = email || (externalId.isSome && c.externalId = externalId) := by
    intro db
    rw [List.any_map]
    rfl
  rw [hkeys, hkeys, h.contacts]

/-- A contact added to both under any ids. -/
theorem UpToIds.append (h : UpToIds a b) {c c' : Contact} (hc : anonymous c = anonymous c') :
    UpToIds { a with contacts := a.contacts ++ [c] } { b with contacts := b.contacts ++ [c'] } := by
  unfold UpToIds at h ⊢
  have hlast : (b.contacts ++ [c']).map anonymous = b.contacts.map anonymous ++ [anonymous c] := by
    rw [List.map_append, List.map_singleton, hc]
  dsimp only
  rw [List.map_append, List.map_singleton, hlast]
  exact congrArg (fun d : Db Id => { d with contacts := d.contacts ++ [anonymous c] }) h

/-- A row is imported alike into two such databases, and only adds. -/
theorem importRow_upToIds (h : UpToIds a b) (hclock : clock.now = clock'.now) (hcount : na = nb)
    (batchTag : String) (header : List String) (line : List String × ℕ) :
    UpToIds (importRow x clock batchTag header (a, na) line).1
        (importRow x clock' batchTag header (b, nb) line).1 ∧
      (importRow x clock batchTag header (a, na) line).2 =
        (importRow x clock' batchTag header (b, nb) line).2 := by
  obtain ⟨row, i⟩ := line
  subst hcount
  unfold importRow
  dsimp only
  split
  · exact ⟨h, rfl⟩
  · split
    · exact ⟨h, rfl⟩
    · next email _ =>
      have hsame : (b.suppressions (x.emailHash email)).isSome =
          (a.suppressions (x.emailHash email)).isSome := by rw [h.suppressions]
      by_cases hbarred : (a.suppressions (x.emailHash email)).isSome
      · rw [if_pos hbarred, if_pos (hsame.trans hbarred)]
        exact ⟨h, rfl⟩
      · have hopen : ¬ (b.suppressions (x.emailHash email)).isSome := by
          rw [hsame]
          exact hbarred
        rw [if_neg hbarred, if_neg hopen]
        by_cases htaken : a.contactTaken email (orNull (csvCol header row "external_id" ""))
        · rw [if_pos htaken, if_pos ((h.taken _ _).symm.trans htaken)]
          exact ⟨h, rfl⟩
        · have hfree : ¬ b.contactTaken email (orNull (csvCol header row "external_id" "")) := by
            rw [← h.taken]
            exact htaken
          rw [if_neg htaken, if_neg hfree]
          refine ⟨h.append ?_, rfl⟩
          unfold anonymous
          rw [hclock]

/-- So are all rows of a file. -/
theorem importRows_upToIds (h : UpToIds a b) (hclock : clock.now = clock'.now) (hcount : na = nb)
    (batchTag : String) (header : List String) (lines : List (List String × ℕ)) :
    UpToIds (lines.foldl (importRow x clock batchTag header) (a, na)).1
        (lines.foldl (importRow x clock' batchTag header) (b, nb)).1 ∧
      (lines.foldl (importRow x clock batchTag header) (a, na)).2 =
        (lines.foldl (importRow x clock' batchTag header) (b, nb)).2 := by
  induction lines generalizing a b na nb with
  | nil => exact ⟨h, hcount⟩
  | cons line lines ih =>
    rw [List.foldl_cons, List.foldl_cons]
    obtain ⟨hdb, hn⟩ := @importRow_upToIds Id x a b na nb clock clock' h hclock hcount batchTag
      header line
    exact ih hdb hn

/-- So is a chunk of an upload. -/
theorem uploadOne_upToIds (h : UpToIds a b) {times times' : ℕ → RowClock} (n n' : UploadCount)
    {chunk : List Char × ℕ} (hclock : (times chunk.2).now = (times' chunk.2).now)
    (batchTag : String) :
    UpToIds (uploadOne x times batchTag (a, n) chunk).1
      (uploadOne x times' batchTag (b, n') chunk).1 := by
  unfold uploadOne importFile
  dsimp only
  cases Csv.read csvFieldLimit (String.ofList chunk.1).toList with
  | error e => exact h
  | ok rows =>
    unfold csvImport
    dsimp only
    by_cases hfew : maxCsvRows + 1 < rows.length
    · rw [if_pos hfew, if_pos hfew]
      exact h
    · rw [if_neg hfew, if_neg hfew]
      exact (importRows_upToIds h hclock rfl batchTag _ _).1

/-- So are all chunks. -/
theorem uploads_upToIds (h : UpToIds a b) {times times' : ℕ → RowClock} (n n' : UploadCount)
    {chunks : List (List Char × ℕ)}
    (hclock : ∀ chunk ∈ chunks, (times chunk.2).now = (times' chunk.2).now) (batchTag : String) :
    UpToIds (chunks.foldl (uploadOne x times batchTag) (a, n)).1
      (chunks.foldl (uploadOne x times' batchTag) (b, n')).1 := by
  induction chunks generalizing a b n n' with
  | nil => exact h
  | cons chunk chunks ih =>
    rw [List.foldl_cons, List.foldl_cons]
    exact ih (uploadOne_upToIds h n n' (hclock chunk (List.mem_cons_self ..)) batchTag) _ _
      fun c hc => hclock c (List.mem_cons_of_mem _ hc)

end upToIds

/-! ## Only added -/

/-- The contacts that were there stay, under their ids. -/
theorem uploads_grow (times : ℕ → RowClock) (batchTag : String)
    (chunks : List (List Char × ℕ)) (acc : Db Id × UploadCount) :
    acc.1.contacts <+: (chunks.foldl (uploadOne x times batchTag) acc).1.contacts := by
  induction chunks generalizing acc with
  | nil => exact List.prefix_rfl
  | cons chunk chunks ih =>
    refine List.IsPrefix.trans ?_ (ih _)
    unfold uploadOne
    cases hfile : importFile x (times chunk.2) batchTag acc.1 (.ofList chunk.1) with
    | error e => exact List.prefix_rfl
    | ok r =>
      obtain ⟨rows, -, -, heq⟩ := importFile_eq_ok.mp hfile
      have hadds := @importRows_grow Id x (times chunk.2) batchTag (headerOf x rows)
        (dataRowsOf rows).zipIdx (acc.1, {})
      rw [heq] at hadds
      exact hadds

/-- **An upload that broke off is finished by doing it again**: after any number of chunks, the
second upload leaves, up to the ids of the contacts it adds, what one upload would have left with
the times of the chunks, and neither touches a contact that was there. -/
theorem upload_resumed (times times' : ℕ → RowClock) (skipped : ℕ → ℕ → ℕ) (batchTag : String)
    (db : Db Id) (text : String) (k : ℕ) :
    let twice := (csvUpload x times' batchTag (uploadBroken x times batchTag db text k) text).1
    let once := (csvUpload x (fun i =>
      { now := if i < k then (times i).now else (times' i).now, skipped := skipped i })
      batchTag db text).1
    UpToIds twice once ∧ db.contacts <+: twice.contacts ∧ db.contacts <+: once.contacts := by
  intro twice once
  let chunks := (uploadChunks text.toList).zipIdx
  let joined : ℕ → RowClock := fun i =>
    { now := if i < k then (times i).now else (times' i).now, skipped := skipped i }
  have hindex : ∀ chunk ∈ chunks.take k, chunk.2 < k := by
    intro chunk hchunk
    obtain ⟨i, hi, rfl⟩ := List.mem_iff_getElem.mp hchunk
    rw [List.length_take] at hi
    simp only [chunks, List.getElem_take, List.getElem_zipIdx]
    omega
  have hindex' : ∀ chunk ∈ chunks.drop k, k ≤ chunk.2 := by
    intro chunk hchunk
    obtain ⟨i, hi, rfl⟩ := List.mem_iff_getElem.mp hchunk
    simp only [chunks, List.getElem_drop, List.getElem_zipIdx]
    omega
  -- the first chunks: as they were, and without effect the second time
  have hfirst : UpToIds ((chunks.take k).foldl (uploadOne x times batchTag) (db, {})).1
      ((chunks.take k).foldl (uploadOne x joined batchTag) (db, {})).1 :=
    uploads_upToIds (.refl db) _ _
      (fun chunk hchunk => (if_pos (hindex chunk hchunk)).symm) batchTag
  have hcovers := (@uploads_cover Id x times batchTag (chunks.take k) db {}).2
  have hnothing := (uploads_covered hcovers times' batchTag {}).1
  have hsplit : chunks = chunks.take k ++ chunks.drop k := (List.take_append_drop k chunks).symm
  have honce : once = ((chunks.drop k).foldl (uploadOne x joined batchTag)
      ((chunks.take k).foldl (uploadOne x joined batchTag) (db, {}))).1 := by
    show (chunks.foldl (uploadOne x joined batchTag) (db, {})).1 = _
    rw [hsplit, List.foldl_append, ← hsplit]
  have htwice : twice = ((chunks.drop k).foldl (uploadOne x times' batchTag)
      ((chunks.take k).foldl (uploadOne x times' batchTag)
        (uploadBroken x times batchTag db text k, {}))).1 := by
    show (chunks.foldl (uploadOne x times' batchTag) _).1 = _
    rw [hsplit, List.foldl_append, ← hsplit]
  refine ⟨?_, ?_, uploads_grow joined batchTag chunks (db, {})⟩
  · -- the others: run once in both
    rw [honce, htwice]
    refine uploads_upToIds ?_ _ _ (fun chunk hchunk => ?_) batchTag
    · show UpToIds ((chunks.take k).foldl (uploadOne x times' batchTag)
        (uploadBroken x times batchTag db text k, {})).1 _
      unfold uploadBroken
      rw [hnothing]
      exact hfirst
    · exact (if_neg (Nat.not_lt.mpr (hindex' chunk hchunk))).symm
  · exact (uploads_grow times batchTag (chunks.take k) (db, {})).trans
      (uploads_grow times' batchTag chunks (uploadBroken x times batchTag db text k, {}))

end uploads

end Mailman.Analysis
