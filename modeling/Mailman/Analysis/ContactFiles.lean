import Mailman.Analysis.CleanAddress
import Mailman.Analysis.PushSafe
import Mailman.Analysis.TagsAgree
import Mailman.Analysis.TimeTexts
import Mailman.Model.ContactFiles

/-!
# Contacts through a file

An export is read back as the values it was written from, whatever they hold. Imported, it adds
the contacts that are new and not suppressed, as they were, and a file that was imported once adds
nothing when it is imported again.
-/

set_option autoImplicit false

namespace Mailman.Analysis

open Mailman.Library Mailman.Model

variable {Id : Type} {x : Texts} {clock : RowClock} {batchTag : String}

/-! ## Reading an export -/

/-- The contacts of an export, in its order. -/
def chosenContacts (ids : Option (List ℕ)) (contacts : List Contact) : List Contact :=
  orderBy (·.id) (contacts.filter fun c => ids.all (·.contains c.id))

/-- A chosen contact is one of the contacts. -/
theorem mem_of_mem_chosen {ids : Option (List ℕ)} {contacts : List Contact} {c : Contact}
    (h : c ∈ chosenContacts ids contacts) : c ∈ contacts :=
  List.mem_of_mem_filter (mem_orderBy.mp h)

/-- The title line of a file. -/
def titleLine : List Char := Csv.line (exportColumns.map (·.toList))

/-- A file of these contacts. -/
def contactsText (createdAt : Contact → String) (cs : List Contact) : List Char :=
  Csv.text (titleLine :: cs.map fun c => exportLine (exportValues createdAt c))

/-- The characters of an export. -/
theorem toList_exportContacts (createdAt : Contact → String) (ids : Option (List ℕ))
    (contacts : List Contact) : (exportContacts createdAt ids contacts).toList =
      contactsText createdAt (chosenContacts ids contacts) := String.toList_ofList

/-- **A file is read back**, line breaks, commas and quotes in its values included. -/
theorem read_contactsText (createdAt : Contact → String) (cs : List Contact)
    (hlimit : ∀ c ∈ cs, ∀ v ∈ exportValues createdAt c, v.length ≤ csvFieldLimit) :
    Csv.read csvFieldLimit (contactsText createdAt cs) =
      .ok (exportColumns :: cs.map (exportValues createdAt)) := by
  let titles : Csv.Row := exportColumns.map fun v => (v.toList, v.toList)
  let written : Contact → Csv.Row := fun c =>
    (exportValues createdAt c).map fun v => (Csv.quoted v.toList, v.toList)
  have htext : contactsText createdAt cs =
      Csv.text ((titles :: cs.map written).map Csv.Row.line) := by
    unfold contactsText
    rw [List.map_cons, List.map_map]
    congr 2
  have hrows : ∀ row ∈ titles :: cs.map written, Csv.Row.Written csvFieldLimit row := by
    intro row hrow
    rcases List.mem_cons.mp hrow with rfl | hrow
    · refine ⟨by simp [titles, exportColumns], fun cell hcell => ?_⟩
      obtain ⟨v, hv, rfl⟩ := List.mem_map.mp hcell
      have hshort : v.toList ≠ [] ∧ v.toList.length ≤ 14 := by
        revert v
        decide
      have hplain : ∀ ch ∈ v.toList, ch ∉ ['\n', '\r', '"', ','] := by
        have hall : exportColumns.all (fun v => v.toList.all fun ch =>
            !(['\n', '\r', '"', ','].contains ch)) = true := by decide
        intro ch hch
        simpa using List.all_eq_true.mp (List.all_eq_true.mp hall v hv) ch hch
      refine ⟨.plain _ hshort.1 hplain, hshort.2.trans ?_⟩
      unfold csvFieldLimit
      omega
    · obtain ⟨c, hc, rfl⟩ := List.mem_map.mp hrow
      refine ⟨by simp [written, exportValues], fun cell hcell => ?_⟩
      obtain ⟨v, hv, rfl⟩ := List.mem_map.mp hcell
      refine ⟨.quoted _, ?_⟩
      rw [String.length_toList]
      exact hlimit c hc v hv
  rw [htext, Csv.read_text _ (List.cons_ne_nil _ _) hrows, List.map_cons, List.map_map]
  congr 2
  apply List.map_congr_left
  intro c _
  simp [written, Csv.Row.values, List.map_map, Function.comp_def]

/-! ## One row of an export -/

/-- The contact as the import stores it, its id and its time apart: with the tag of the batch. -/
def restored (batchTag : String) (c : Contact) : Contact :=
  { c with id := 0, consentTs := "", tags := orNull (mergeTags (c.tags.getD "") batchTag) }

/-- What a file carries of a contact. -/
def carried (c : Contact) : Contact := { c with id := 0, consentTs := "" }

/-- A contact whose values the import takes as they are. -/
structure Portable (x : Texts) (c : Contact) : Prop where
  email : cleanEmail x.lower (Text.strip c.email) = .ok c.email
  name : Text.strip c.name = c.name
  tags : ∀ t, c.tags = some t → Text.strip t = t ∧ t ≠ ""
  consentSource : Text.strip c.consentSource = c.consentSource
  externalId : ∀ e, c.externalId = some e → Text.strip e = e ∧ e ≠ ""

/-- Neither the address nor the external id of one is that of the other. -/
def Apart (a b : Contact) : Prop :=
  a.email ≠ b.email ∧ ∀ e, a.externalId = some e → b.externalId ≠ some e

/-- The contact is suppressed. -/
def barred (x : Texts) (db : Db Id) (c : Contact) : Bool :=
  (db.suppressions (x.emailHash c.email)).isSome

/-- The database takes the contact: it is not suppressed there, and its keys are free. -/
def takes (x : Texts) (db : Db Id) (c : Contact) : Bool :=
  !barred x db c && !db.contactTaken c.email c.externalId

/-- A stripped text is kept, and nothing stays nothing. -/
theorem orNull_getD {o : Option String} (h : ∀ t, o = some t → Text.strip t = t ∧ t ≠ "") :
    orNull (Text.strip (o.getD "")) = o := by
  cases o with
  | none => rfl
  | some t =>
    obtain ⟨hstrip, hne⟩ := h t rfl
    rw [Option.getD_some, hstrip, orNull, if_neg hne]

/-- A stripped text, or none, is stripped. -/
theorem strip_getD {o : Option String} (h : ∀ t, o = some t → Text.strip t = t ∧ t ≠ "") :
    Text.strip (o.getD "") = o.getD "" := by
  cases o with
  | none => rfl
  | some t => exact (h t rfl).1

/-- The batch tag is the only change to the tags. -/
theorem restored_plain {c : Contact} (h : Portable x c) : restored "" c = carried c := by
  have htags := orNull_getD h.tags
  rw [strip_getD h.tags] at htags
  unfold restored mergeTags
  rw [if_pos rfl, htags]
  rfl

/-- The row of a contact is counted as suppressed, left out or stored as the contact it is. -/
theorem importRow_export {c : Contact} (h : Portable x c) (createdAt : Contact → String)
    (db : Db Id) (n : ImportCount) (i : ℕ) :
    importRow x clock batchTag exportColumns (db, n) (exportValues createdAt c, i) =
      if barred x db c then (db, { n with skippedSuppressed := n.skippedSuppressed + 1 })
      else if db.contactTaken c.email c.externalId then (db, n)
      else ({ db with contacts := db.contacts ++
          [{ restored batchTag c with
              id := db.nextContactId (clock.skipped i), consentTs := clock.now }] },
        { n with imported := n.imported + 1 }) := by
  have hemail : csvCol exportColumns (exportValues createdAt c) "email" "" =
    Text.strip c.email := rfl
  have hname : csvCol exportColumns (exportValues createdAt c) "name" "" =
    Text.strip c.name := rfl
  have htags : csvCol exportColumns (exportValues createdAt c) "tags" "" =
    Text.strip (c.tags.getD "") := rfl
  have hsource : csvCol exportColumns (exportValues createdAt c) "consent_source" "csv_import" =
    Text.strip c.consentSource := rfl
  have hexternal : csvCol exportColumns (exportValues createdAt c) "external_id" "" =
    Text.strip (c.externalId.getD "") := rfl
  have hne : exportValues createdAt c ≠ [] := List.cons_ne_nil _ _
  unfold importRow
  dsimp only
  rw [if_neg hne, hemail, h.email]
  dsimp only
  rw [hexternal, orNull_getD h.externalId, hname, h.name, htags, strip_getD h.tags, hsource,
    h.consentSource]
  rfl

/-! ## All of its rows -/

/-- A contact is taken by those before or by those added. -/
theorem contactTaken_append (db : Db Id) (added : List Contact) (email : String)
    (externalId : Option String) :
    Db.contactTaken { db with contacts := db.contacts ++ added } email externalId =
      (db.contactTaken email externalId || added.any fun c =>
        c.email = email || (externalId.isSome && c.externalId = externalId)) := by
  unfold Db.contactTaken
  exact List.any_append

/-- The contacts that the rows of `cs` add to the database: every contact is judged against the
database before them all. -/
structure Added (x : Texts) (batchTag : String) (cs : List Contact) (db db' : Db Id)
    (copies : List Contact) : Prop where
  stored : db' = { db with contacts := db.contacts ++ copies }
  carried : copies.map carried = (cs.filter (takes x db)).map (restored batchTag)

section Added

variable {db db₁ db₂ : Db Id} {cs cs' copies copies' : List Contact}

/-- A copy has the keys of what it copies. -/
theorem Added.of_copy (h : Added x batchTag cs db db₁ copies) {copy : Contact}
    (hcopy : copy ∈ copies) :
    ∃ a ∈ cs, copy.email = a.email ∧ copy.externalId = a.externalId := by
  have hin := List.mem_map_of_mem (f := Analysis.carried) hcopy
  rw [h.carried] at hin
  obtain ⟨a, ha, heq⟩ := List.mem_map.mp hin
  exact ⟨a, List.mem_of_mem_filter ha, (congrArg Contact.email heq).symm,
    (congrArg Contact.externalId heq).symm⟩

/-- The copies of other contacts take no key of this one. -/
theorem Added.takes_eq (h : Added x batchTag cs db db₁ copies) {b : Contact}
    (hapart : ∀ a ∈ cs, Apart a b) : takes x db₁ b = takes x db b := by
  have hnone : (copies.any fun c =>
      c.email = b.email || (b.externalId.isSome && c.externalId = b.externalId)) = false := by
    rw [List.any_eq_false]
    intro copy hcopy
    obtain ⟨a, ha, hemail, hexternal⟩ := h.of_copy hcopy
    rw [hemail, hexternal, Bool.not_eq_true, Bool.or_eq_false_iff]
    refine ⟨decide_eq_false (hapart a ha).1, ?_⟩
    cases hb : b.externalId with
    | none => rfl
    | some e =>
      have hne : a.externalId ≠ some e := fun hae => (hapart a ha).2 e hae hb
      simpa using hne
  rw [h.stored]
  unfold takes
  rw [contactTaken_append, hnone, Bool.or_false]
  rfl

/-- What is added in two parts is added in one. -/
theorem Added.append (h : Added x batchTag cs db db₁ copies)
    (h' : Added x batchTag cs' db₁ db₂ copies') (hapart : ∀ a ∈ cs, ∀ b ∈ cs', Apart a b) :
    Added x batchTag (cs ++ cs') db db₂ (copies ++ copies') := by
  constructor
  · rw [h'.stored, h.stored, List.append_assoc]
  · have hrest : cs'.filter (takes x db₁) = cs'.filter (takes x db) :=
      List.filter_congr fun b hb => h.takes_eq fun a ha => hapart a ha b hb
    rw [List.map_append, h.carried, h'.carried, hrest, List.filter_append, List.map_append]

/-- What is added changes no suppression. -/
theorem Added.barred_eq (h : Added x batchTag cs db db₁ copies) : barred x db₁ = barred x db := by
  rw [h.stored]
  rfl

/-- A contact that is not taken adds nothing. -/
theorem Added.none {c : Contact} (h : takes x db c = false) : Added x batchTag [c] db db [] := by
  constructor
  · rw [List.append_nil]
  · rw [List.filter_cons_of_neg (by simp [h])]
    rfl

/-- A contact that is taken adds its copy. -/
theorem Added.one {c copy : Contact} (h : takes x db c = true)
    (hcopy : Analysis.carried copy = restored batchTag c) :
    Added x batchTag [c] db { db with contacts := db.contacts ++ [copy] } [copy] := by
  constructor
  · rfl
  · rw [List.filter_cons_of_pos h, List.map_cons, hcopy]
    rfl

end Added

/-- What the import counts of these rows. -/
structure Counted (x : Texts) (cs : List Contact) (db : Db Id) (n n' : ImportCount)
    (copies : List Contact) : Prop where
  imported : n'.imported = n.imported + copies.length
  suppressed : n'.skippedSuppressed = n.skippedSuppressed + cs.countP (barred x db)
  invalid : n'.skippedInvalid = n.skippedInvalid
  dropped : n'.dropped = n.dropped
  errors : n'.errors = n.errors

/-- A row of an export adds its contact where it is taken. -/
theorem importRow_added {c : Contact} (h : Portable x c) (createdAt : Contact → String)
    (db : Db Id) (n : ImportCount) (i : ℕ) : ∃ db' n' copies,
      importRow x clock batchTag exportColumns (db, n) (exportValues createdAt c, i) = (db', n') ∧
      Added x batchTag [c] db db' copies ∧ Counted x [c] db n n' copies := by
  rw [importRow_export h]
  by_cases hsup : barred x db c
  · rw [if_pos hsup]
    have hnot : takes x db c = false := by
      unfold takes
      rw [hsup, Bool.not_true, Bool.false_and]
    refine ⟨_, _, [], rfl, Added.none hnot, rfl, ?_, rfl, rfl, rfl⟩
    rw [List.countP_cons_of_pos hsup]
    rfl
  · have hnone : [c].countP (barred x db) = 0 := by rw [List.countP_cons_of_neg hsup]; rfl
    rw [if_neg hsup]
    by_cases htaken : db.contactTaken c.email c.externalId
    · rw [if_pos htaken]
      have hnot : takes x db c = false := by
        unfold takes
        rw [htaken, Bool.not_true, Bool.and_false]
      exact ⟨_, _, [], rfl, Added.none hnot, rfl, by rw [hnone]; rfl, rfl, rfl, rfl⟩
    · rw [if_neg htaken]
      have htakes : takes x db c = true := by
        unfold takes
        rw [Bool.not_eq_true] at hsup htaken
        rw [hsup, htaken]
        rfl
      exact ⟨_, _, [_], rfl, Added.one htakes rfl, rfl, by rw [hnone]; rfl, rfl, rfl, rfl⟩

/-- One row after another. -/
theorem importRows_added (createdAt : Contact → String) {cs : List Contact}
    (h : ∀ c ∈ cs, Portable x c) (hapart : cs.Pairwise Apart) (db : Db Id) (n : ImportCount)
    (i : ℕ) : ∃ db' n' copies,
      ((cs.map (exportValues createdAt)).zipIdx i).foldl
        (importRow x clock batchTag exportColumns) (db, n) = (db', n') ∧
      Added x batchTag cs db db' copies ∧ Counted x cs db n n' copies := by
  induction cs generalizing db n i with
  | nil => exact ⟨db, n, [], rfl, ⟨by rw [List.append_nil], rfl⟩, rfl, rfl, rfl, rfl, rfl⟩
  | cons c cs ih =>
    obtain ⟨hhead, hapart⟩ := List.pairwise_cons.mp hapart
    obtain ⟨db₁, n₁, copies₁, heq, hadded, hcounted⟩ := @importRow_added Id x clock batchTag c
      (h c (List.mem_cons_self ..)) createdAt db n i
    obtain ⟨db₂, n₂, copies₂, hrun, hadded', hcounted'⟩ :=
      ih (fun a ha => h a (List.mem_cons_of_mem _ ha)) hapart db₁ n₁ (i + 1)
    refine ⟨db₂, n₂, copies₁ ++ copies₂, ?_, hadded.append hadded' ?_, ?_, ?_,
      hcounted'.invalid.trans hcounted.invalid, hcounted'.dropped.trans hcounted.dropped,
      hcounted'.errors.trans hcounted.errors⟩
    · rw [List.map_cons, List.zipIdx_cons, List.foldl_cons, heq, hrun]
    · intro a ha b hb
      rw [List.mem_singleton.mp ha]
      exact hhead b hb
    · rw [hcounted'.imported, hcounted.imported, List.length_append]
      omega
    · rw [hcounted'.suppressed, hcounted.suppressed, hadded.barred_eq]
      show _ = n.skippedSuppressed + ([c] ++ cs).countP (barred x db)
      rw [List.countP_append]
      omega

/-! ## What an import leaves -/

/-- Every contact is portable, and the keys are unique. -/
structure Transferable (x : Texts) (contacts : List Contact) : Prop where
  portable : ∀ c ∈ contacts, Portable x c
  apart : contacts.Pairwise Apart

/-- A cell is stripped. -/
theorem strip_csvCol {default : String} (hdefault : Text.strip default = default)
    (header row : List String) (name : String) :
    Text.strip (csvCol header row name default) = csvCol header row name default := by
  unfold csvCol
  split
  · next idx hidx =>
    cases row[idx]? with
    | none => exact hdefault
    | some cell => exact strip_strip cell
  · exact hdefault

/-- A text without blanks around it starts and ends with a character that is none. -/
theorem ends_of_strip {s : String} (h : Text.strip s = s) :
    (∀ c ∈ s.toList.head?, Text.isSpace c = false) ∧
      ∀ c ∈ s.toList.getLast?, Text.isSpace c = false := by
  have hlist : (s.toList.dropWhile Text.isSpace).rdropWhile Text.isSpace = s.toList := by
    unfold Text.strip Text.stripBy at h
    rw [← String.toList_inj, String.toList_ofList] at h
    exact h
  constructor
  · intro c hc
    cases hs : s.toList with
    | nil => simp [hs] at hc
    | cons d l =>
      rw [hs, List.head?_cons, Option.mem_some_iff] at hc
      subst hc
      by_contra hspace
      rw [Bool.not_eq_false] at hspace
      have hle := (List.rdropWhile_prefix Text.isSpace (s.toList.dropWhile Text.isSpace)).length_le
      rw [hlist, hs, List.dropWhile_cons_of_pos hspace] at hle
      have hdrop := (List.dropWhile_suffix Text.isSpace (l := l)).length_le
      rw [List.length_cons] at hle
      omega
  · intro c hc
    rw [← hlist] at hc
    have hne : (s.toList.dropWhile Text.isSpace).rdropWhile Text.isSpace ≠ [] := by
      intro hnil
      rw [hnil] at hc
      cases hc
    have hlast := List.rdropWhile_last_not Text.isSpace (s.toList.dropWhile Text.isSpace) hne
    rw [List.getLast?_eq_some_getLast hne, Option.mem_some_iff] at hc
    rw [← hc]
    simpa using hlast

/-- Tags that are joined have no blanks around them. -/
theorem strip_intercalate {parts : List String}
    (h : ∀ p ∈ parts, Text.strip p = p ∧ p ≠ "") :
    Text.strip ("|".intercalate parts) = "|".intercalate parts := by
  have hends : ∀ p ∈ parts, (∃ c, p.toList.head? = some c ∧ Text.isSpace c = false) ∧
      Csv.EndsIn (fun c => Text.isSpace c = false) p.toList := by
    intro p hp
    have hne : p.toList ≠ [] := fun hnil => (h p hp).2 (by rw [← String.ofList_toList (s := p), hnil])
    obtain ⟨hhead, hlast⟩ := ends_of_strip (h p hp).1
    exact ⟨⟨_, List.head?_eq_some_head hne, hhead _ (List.head?_eq_some_head hne)⟩,
      ⟨_, List.getLast?_eq_some_getLast hne, hlast _ (List.getLast?_eq_some_getLast hne)⟩⟩
  cases parts with
  | nil => rfl
  | cons p parts =>
    rw [← String.ofList_toList (s := "|".intercalate (p :: parts)), String.toList_intercalate]
    apply strip_ofList
    · intro c hc
      obtain ⟨d, hd, hspace⟩ := (hends p (List.mem_cons_self ..)).1
      have hsame : d = c := by
        cases parts with
        | nil => simpa [hd] using hc
        | cons q parts => simpa [List.intercalate_cons_cons, List.head?_append, hd] using hc
      rwa [← hsame]
    · obtain ⟨c, hlast, hspace⟩ := @Csv.endsIn_intercalate (fun c => Text.isSpace c = false)
        "|".toList ((p :: parts).map (·.toList)) (by simp) (by
          intro w hw
          obtain ⟨q, hq, rfl⟩ := List.mem_map.mp hw
          exact (hends q hq).2)
      intro d hd
      rw [hlast, Option.mem_some_iff] at hd
      rwa [← hd]

/-- Merged tags are stripped. -/
theorem strip_mergeTags {csvTags : String} (h : Text.strip csvTags = csvTags)
    (batchTag : String) : Text.strip (mergeTags csvTags batchTag) = mergeTags csvTags batchTag := by
  unfold mergeTags
  split
  · exact h
  · apply strip_intercalate
    have hparts : ∀ p ∈ ((csvTags.toList.splitOn '|').map fun l => Text.strip (.ofList l)).filter
        (· ≠ ""), Text.strip p = p ∧ p ≠ "" := by
      intro p hp
      rw [List.mem_filter] at hp
      obtain ⟨l, -, rfl⟩ := List.mem_map.mp hp.1
      exact ⟨strip_strip _, by simpa using hp.2⟩
    intro p hp
    split at hp
    · next htag =>
      rcases List.mem_append.mp hp with hp | hp
      · exact hparts p hp
      · rw [List.mem_singleton.mp hp]
        exact ⟨strip_strip _, htag.1⟩
    · exact hparts p hp

/-- A text that is no null is not empty. -/
theorem orNull_some {s t : String} (h : orNull s = some t) : s = t ∧ t ≠ "" := by
  unfold orNull at h
  split at h
  · cases h
  · next hne =>
    cases h
    exact ⟨rfl, hne⟩

/-- An address of the grammar has no blanks. -/
theorem strip_address {e : String} (h : IsAddress e.toList) : Text.strip e = e :=
  Text.stripBy_eq_self fun _ hc => isSpace_of_isAddressChar (h.char hc)

/-- A row whose address is cleaned to itself keeps the contacts transferable. -/
theorem importRow_transferable {header : List String} {db : Db Id} {n : ImportCount}
    {line : List String × ℕ} (hsound : SoundFor x.lower (csvCol header line.1 "email" ""))
    (h : Transferable x db.contacts) :
    Transferable x (importRow x clock batchTag header (db, n) line).1.contacts := by
  unfold importRow
  dsimp only
  split
  · exact h
  · split
    · exact h
    · next email hclean =>
      split
      · exact h
      · split
        · exact h
        · next htaken =>
          obtain ⟨haddress, -, -, hagain⟩ := hsound email hclean
          constructor
          · intro c hc
            rcases List.mem_append.mp hc with hc | hc
            · exact h.portable c hc
            · rw [List.mem_singleton.mp hc]
              constructor
              · rwa [strip_address haddress]
              · exact strip_csvCol (by decide) header line.1 "name"
              · intro t ht
                obtain ⟨rfl, hne⟩ := orNull_some ht
                exact ⟨strip_mergeTags (strip_csvCol (by decide) header line.1 "tags") batchTag, hne⟩
              · exact strip_csvCol (by decide) header line.1 "consent_source"
              · intro e he
                obtain ⟨rfl, hne⟩ := orNull_some he
                exact ⟨strip_csvCol (by decide) header line.1 "external_id", hne⟩
          · rw [List.pairwise_append]
            refine ⟨h.apart, List.pairwise_singleton _ _, fun a ha b hb => ?_⟩
            rw [List.mem_singleton.mp hb]
            rw [Bool.not_eq_true] at htaken
            have hfree := List.any_eq_false.mp htaken a ha
            rw [Bool.not_eq_true, Bool.or_eq_false_iff] at hfree
            refine ⟨of_decide_eq_false hfree.1, fun e hae hbe => ?_⟩
            have hsome := hfree.2
            dsimp only at hbe
            rw [hbe, hae] at hsome
            simp at hsome

/-- The header that `csv_import` reads the rows under. -/
def headerOf (x : Texts) (rows : List (List String)) : List String :=
  if rows.head?.any fun row => !(row.headD "").toList.contains '@' then
    (rows.headD []).map fun h => x.lower (Text.strip h)
  else ["email", "name", "tags", "consent_source", "external_id"]

/-- Its data rows. -/
def dataRowsOf (rows : List (List String)) : List (List String) :=
  if rows.head?.any fun row => !(row.headD "").toList.contains '@' then rows.tail else rows

/-- When a file is imported, and to what. -/
theorem importFile_eq_ok {db : Db Id} {text : String} {r : Db Id × ImportCount} :
    importFile x clock batchTag db text = .ok r ↔
      ∃ rows, Csv.read csvFieldLimit text.toList = .ok rows ∧ rows.length ≤ maxCsvRows + 1 ∧
        (dataRowsOf rows).zipIdx.foldl (importRow x clock batchTag (headerOf x rows)) (db, {}) = r := by
  unfold importFile
  constructor
  · intro h
    split at h
    · cases h
    · next rows hread =>
      unfold csvImport at h
      split at h
      · cases h
      · next hfew =>
        cases h
        exact ⟨rows, hread, by omega, rfl⟩
  · rintro ⟨rows, hread, hfew, rfl⟩
    rw [hread]
    dsimp only
    unfold csvImport
    rw [if_neg (by omega)]
    rfl

/-- Imported rows keep the contacts transferable. -/
theorem importRows_transferable {header : List String} {rows : List (List String)}
    (hsound : ∀ row ∈ rows, SoundFor x.lower (csvCol header row "email" "")) {db : Db Id}
    (h : Transferable x db.contacts) (n : ImportCount) (i : ℕ) : Transferable x
      (((rows.zipIdx i).foldl (importRow x clock batchTag header) (db, n)).1.contacts) := by
  induction rows generalizing db n i with
  | nil => exact h
  | cons row rows ih =>
    rw [List.zipIdx_cons, List.foldl_cons]
    have hone := @importRow_transferable Id x clock batchTag header db n (row, i)
      (hsound row (List.mem_cons_self ..)) h
    exact ih (fun row hrow => hsound row (List.mem_cons_of_mem _ hrow)) hone _ _

/-- **Every import keeps the contacts transferable**, where its addresses are cleaned to
themselves. -/
theorem importFile_transferable {db db' : Db Id} {text : String} {n : ImportCount}
    (himport : importFile x clock batchTag db text = .ok (db', n))
    (hsound : ∀ rows, Csv.read csvFieldLimit text.toList = .ok rows → ∀ row ∈ dataRowsOf rows,
      SoundFor x.lower (csvCol (headerOf x rows) row "email" ""))
    (h : Transferable x db.contacts) : Transferable x db'.contacts := by
  obtain ⟨rows, hread, -, heq⟩ := importFile_eq_ok.mp himport
  have hkeeps := @importRows_transferable Id x clock batchTag _ _ (hsound rows hread) db h {} 0
  rwa [heq] at hkeeps

/-! ## A file, and the upload of a file -/

/-- `str.lower` keeps the titles. -/
def KeepsTitles (x : Texts) : Prop := ∀ v ∈ exportColumns, x.lower v = v

/-- No value is longer than the reader takes. -/
def WithinLimit (createdAt : Contact → String) (c : Contact) : Prop :=
  ∀ v ∈ exportValues createdAt c, v.length ≤ csvFieldLimit

/-- An export that fits one file adds its contacts. -/
theorem importFile_added (createdAt : Contact → String) (hlower : KeepsTitles x)
    {cs : List Contact} (hrows : cs.length ≤ maxCsvRows)
    (hlimit : ∀ c ∈ cs, WithinLimit createdAt c) (h : ∀ c ∈ cs, Portable x c)
    (hapart : cs.Pairwise Apart) (db : Db Id) : ∃ db' n' copies,
      importFile x clock batchTag db (.ofList (contactsText createdAt cs)) = .ok (db', n') ∧
      Added x batchTag cs db db' copies ∧ Counted x cs db {} n' copies := by
  obtain ⟨db', n', copies, hrun, hadded⟩ :=
    @importRows_added Id x clock batchTag createdAt cs h hapart db {} 0
  have htitles : (exportColumns.map fun v => x.lower (Text.strip v)) = exportColumns := by
    rw [List.map_congr_left (g := id), List.map_id]
    intro v hv
    have hstrip : Text.strip v = v := by
      revert v
      decide
    rw [hstrip, hlower v hv]
    rfl
  have htitled : (exportColumns :: cs.map (exportValues createdAt)).head?.any
      (fun row => !(row.headD "").toList.contains '@') = true := by
    rw [List.head?_cons]
    decide
  refine ⟨db', n', copies, importFile_eq_ok.mpr
    ⟨exportColumns :: cs.map (exportValues createdAt), ?_, ?_, ?_⟩, hadded⟩
  · rw [String.toList_ofList, read_contactsText createdAt cs hlimit]
  · rw [List.length_cons, List.length_map]
    omega
  · unfold headerOf dataRowsOf
    rw [if_pos htitled, if_pos htitled, List.headD_cons, List.tail_cons, htitles, hrun]

/-! ## The upload -/

/-- What the upload counts of these contacts. -/
structure Tallied (x : Texts) (cs : List Contact) (db : Db Id) (n n' : UploadCount)
    (copies : List Contact) : Prop where
  imported : n'.imported = n.imported + copies.length
  suppressed : n'.suppressed = n.suppressed + cs.countP (barred x db)
  invalid : n'.invalid = n.invalid
  errors : n'.errors = n.errors

/-- One chunk after another. -/
theorem upload_added (createdAt : Contact → String) (hlower : KeepsTitles x)
    {times : ℕ → RowClock} {parts : List (List Contact)}
    (hrows : ∀ cs ∈ parts, cs.length ≤ maxCsvRows)
    (hlimit : ∀ c ∈ parts.flatten, WithinLimit createdAt c)
    (h : ∀ c ∈ parts.flatten, Portable x c) (hapart : parts.flatten.Pairwise Apart) (db : Db Id)
    (n : UploadCount) (i : ℕ) : ∃ db' n' copies,
      ((parts.map (contactsText createdAt)).zipIdx i).foldl (uploadOne x times batchTag) (db, n) =
        (db', n') ∧
      Added x batchTag parts.flatten db db' copies ∧ Tallied x parts.flatten db n n' copies := by
  induction parts generalizing db n i with
  | nil => exact ⟨db, n, [], rfl, ⟨by rw [List.append_nil], rfl⟩, rfl, rfl, rfl, rfl⟩
  | cons cs parts ih =>
    rw [List.flatten_cons] at hlimit h hapart ⊢
    obtain ⟨hcs, hparts, hcross⟩ := List.pairwise_append.mp hapart
    obtain ⟨db₁, n₁, copies₁, hfile, hadded, hcounted⟩ := @importFile_added Id x (times i) batchTag
      createdAt hlower cs (hrows cs (List.mem_cons_self ..))
      (fun c hc => hlimit c (List.mem_append_left _ hc))
      (fun c hc => h c (List.mem_append_left _ hc)) hcs db
    let n₂ : UploadCount :=
      { imported := n.imported + n₁.imported, suppressed := n.suppressed + n₁.skippedSuppressed
        invalid := n.invalid + n₁.skippedInvalid, errors := n.errors }
    have hone : uploadOne x times batchTag (db, n) (contactsText createdAt cs, i) = (db₁, n₂) := by
      unfold uploadOne
      rw [hfile]
      dsimp only
      rw [hcounted.errors]
      simp [n₂]
    obtain ⟨db', n', copies, hrun, hadded', htallied⟩ := ih
      (fun a ha => hrows a (List.mem_cons_of_mem _ ha))
      (fun c hc => hlimit c (List.mem_append_right _ hc))
      (fun c hc => h c (List.mem_append_right _ hc)) hparts db₁ n₂ (i + 1)
    refine ⟨db', n', copies₁ ++ copies, ?_, hadded.append hadded' hcross, ?_, ?_, ?_,
      htallied.errors⟩
    · rw [List.map_cons, List.zipIdx_cons, List.foldl_cons, hone, hrun]
    · rw [htallied.imported, List.length_append]
      show n.imported + n₁.imported + _ = _
      rw [hcounted.imported]
      show n.imported + (0 + _) + _ = _
      omega
    · rw [htallied.suppressed, hadded.barred_eq, List.countP_append]
      show n.suppressed + n₁.skippedSuppressed + _ = _
      rw [hcounted.suppressed]
      show n.suppressed + (0 + _) + _ = _
      omega
    · rw [htallied.invalid]
      show n.invalid + n₁.skippedInvalid = _
      rw [hcounted.invalid]
      rfl

/-- Lines without breaks are split as they were written. -/
theorem splitLines_text {lines : List (List Char)} (hne : lines ≠ [])
    (hbreak : ∀ l ∈ lines, '\n' ∉ l) (hcr : ∀ l ∈ lines, l.getLast? ≠ some '\r') :
    splitLines (Csv.text lines) = lines := by
  unfold splitLines Csv.text
  rw [List.splitOn_intercalate _ hbreak hne]
  dsimp only
  rw [List.map_congr_left (g := id), List.map_id, List.getLast?_eq_some_getLast hne]
  · exact List.dropLast_append_getLast hne
  · intro l hl
    rw [if_neg (hcr l (List.dropLast_subset _ hl))]
    rfl

/-- Slices of mapped entries are mapped slices. -/
theorem sliceBy_map {α β : Type} (f : α → β) (size fuel : ℕ) (xs : List α) :
    sliceBy size fuel (xs.map f) = (sliceBy size fuel xs).map (List.map f) := by
  induction fuel generalizing xs with
  | zero => simp [sliceBy]
  | succ fuel ih =>
    cases xs with
    | nil => simp [sliceBy]
    | cons a xs =>
      have htail := ih ((a :: xs).drop size)
      rw [List.map_drop] at htail
      simp only [List.map_cons, sliceBy] at htail ⊢
      rw [htail, ← List.map_cons, List.map_take]

/-- A slice has at most its size. -/
theorem length_of_mem_sliceBy {α : Type} {size fuel : ℕ} {xs part : List α}
    (h : part ∈ sliceBy size fuel xs) : part.length ≤ size := by
  induction fuel generalizing xs with
  | zero => simp [sliceBy] at h
  | succ fuel ih =>
    cases xs with
    | nil => simp [sliceBy] at h
    | cons a xs =>
      simp only [sliceBy, List.mem_cons] at h
      rcases h with rfl | h
      · exact List.length_take_le _ _
      · exact ih h

/-- A line of an export ends with a quote. -/
theorem endsIn_exportLine (createdAt : Contact → String) (c : Contact) :
    Csv.EndsIn (· = '"') (exportLine (exportValues createdAt c)) := by
  apply Csv.endsIn_intercalate
  · simp [exportValues]
  · intro w hw
    obtain ⟨v, -, rfl⟩ := List.mem_map.mp hw
    exact Csv.endsIn_quoted _

/-- A line of an export holds commas, quotes and characters of its values. -/
theorem mem_exportLine {values : List String} {ch : Char} (h : ch ∈ exportLine values) :
    ch = ',' ∨ ch = '"' ∨ ∃ v ∈ values, ch ∈ v.toList := by
  rcases mem_intercalate h with rfl | ⟨w, hw, hch⟩
  · exact Or.inl rfl
  · obtain ⟨v, hv, rfl⟩ := List.mem_map.mp hw
    exact Or.inr ((Csv.mem_quoted hch).imp_right fun hin => ⟨v, hv, hin⟩)

/-- The chunks of a file whose values hold no line break are files of consecutive contacts. -/
theorem uploadChunks_contacts (createdAt : Contact → String) {cs : List Contact}
    (hline : ∀ c ∈ cs, ∀ v ∈ exportValues createdAt c, '\n' ∉ v.toList) :
    uploadChunks (contactsText createdAt cs) =
      (sliceBy uploadChunk cs.length cs).map (contactsText createdAt) := by
  let write : Contact → List Char := fun c => exportLine (exportValues createdAt c)
  have hends : ∀ c, ∃ l, write c = l ++ ['"'] := by
    intro c
    obtain ⟨ch, hlast, rfl⟩ := endsIn_exportLine createdAt c
    exact ⟨(write c).dropLast, (List.dropLast_append_getLast? _ hlast).symm⟩
  have hlines : splitLines (contactsText createdAt cs) = titleLine :: cs.map write := by
    apply splitLines_text (List.cons_ne_nil _ _)
    · intro l hl hmem
      rcases List.mem_cons.mp hl with rfl | hl
      · revert hmem
        decide
      · obtain ⟨c, hc, rfl⟩ := List.mem_map.mp hl
        rcases mem_exportLine hmem with h | h | ⟨v, hv, hin⟩
        · cases h
        · cases h
        · exact hline c hc v hv hin
    · intro l hl hlast
      rcases List.mem_cons.mp hl with rfl | hl
      · revert hlast
        decide
      · obtain ⟨c, hc, rfl⟩ := List.mem_map.mp hl
        obtain ⟨l, heq⟩ := hends c
        rw [show exportLine (exportValues createdAt c) = l ++ ['"'] from heq,
          List.getLast?_concat] at hlast
        cases hlast
  have hkept : (cs.map write).filter (·.any (!isJsSpace ·)) = cs.map write := by
    rw [List.filter_eq_self]
    intro l hl
    obtain ⟨c, hc, rfl⟩ := List.mem_map.mp hl
    obtain ⟨l, heq⟩ := hends c
    rw [heq, List.any_append]
    have hquote : List.any ['"'] (!isJsSpace ·) = true := by decide
    rw [hquote, Bool.or_true]
  have htitle : titleLine ≠ [] ∧ titleLine.contains '@' = false := by decide
  unfold uploadChunks
  rw [hlines]
  simp only [List.headD_cons, List.tail_cons, htitle.2, ne_eq, htitle.1, not_false_eq_true,
    decide_true, Bool.not_false, Bool.and_self, if_true]
  rw [hkept, List.length_map, sliceBy_map, List.map_map]
  rfl

/-- **The upload of an export restores its contacts**, however many there are: those that the
other database does not have and does not suppress, as they were but for the tag of the batch. -/
theorem upload_of_export (createdAt : Contact → String) (ids : Option (List ℕ))
    {contacts : List Contact} (hlower : KeepsTitles x)
    (hlimit : ∀ c ∈ contacts, WithinLimit createdAt c)
    (hline : ∀ c ∈ contacts, ∀ v ∈ exportValues createdAt c, '\n' ∉ v.toList)
    (h : Transferable x contacts) (db : Db Id) (times : ℕ → RowClock) (batchTag : String) :
    ∃ copies,
      (csvUpload x times batchTag db (exportContacts createdAt ids contacts)).1 =
        { db with contacts := db.contacts ++ copies } ∧
      copies.map carried = ((chosenContacts ids contacts).filter (takes x db)).map
        (restored batchTag) ∧
      (csvUpload x times batchTag db (exportContacts createdAt ids contacts)).2 =
        { imported := copies.length
          suppressed := (chosenContacts ids contacts).countP (barred x db) } := by
  let chosen := chosenContacts ids contacts
  let parts := sliceBy uploadChunk chosen.length chosen
  have hflat : parts.flatten = chosen :=
    flatten_sliceBy (by decide) chosen.length chosen (Nat.le_refl _)
  have hmem : ∀ c ∈ parts.flatten, c ∈ contacts := by
    rw [hflat]
    exact fun c hc => mem_of_mem_chosen hc
  have hsymm : ∀ {a b : Contact}, Apart a b → Apart b a := fun hab =>
    ⟨hab.1.symm, fun e hb ha => hab.2 e ha hb⟩
  have hpairs : parts.flatten.Pairwise Apart := by
    rw [hflat]
    exact (List.Perm.pairwise_iff hsymm (perm_orderBy _)).mpr (h.apart.filter _)
  obtain ⟨db', n', copies, hrun, hadded, htallied⟩ := @upload_added Id x batchTag createdAt hlower
    times parts (fun cs hcs => length_of_mem_sliceBy hcs) (fun c hc => hlimit c (hmem c hc))
    (fun c hc => h.portable c (hmem c hc)) hpairs db {} 0
  rw [hflat] at hadded htallied
  have hupload : csvUpload x times batchTag db (exportContacts createdAt ids contacts) =
      (db', n') := by
    unfold csvUpload
    rw [toList_exportContacts, uploadChunks_contacts createdAt
      (fun c hc => hline c (mem_of_mem_chosen hc)), hrun]
  rw [hupload]
  refine ⟨copies, hadded.stored, hadded.carried, ?_⟩
  obtain ⟨imported, suppressed, invalid, errors⟩ := n'
  rw [UploadCount.mk.injEq]
  exact ⟨htallied.imported.trans (Nat.zero_add _), htallied.suppressed.trans (Nat.zero_add _),
    htallied.invalid, htallied.errors⟩

/-! ## A move -/

/-- Lower case of the ASCII letters, and a digest that is the text itself. -/
private def movedTexts : Texts := ⟨fun s => .ofList (s.toList.map Char.toLower), id⟩

/-- A name with a comma and quotes, and a contact with no more than an address. -/
private def movedContacts : List Contact :=
  [{ id := 3, email := "b@c.org", name := "Bo \"B\", Co", tags := some "vip|new", consentTs := "t"
     consentSource := "csv_import", externalId := some "7" },
    { id := 1, email := "a@b.co", name := "", tags := none, consentTs := "t"
      consentSource := "manual", externalId := none }]

/-- Two contacts are moved to an empty database. -/
theorem upload_of_export_moved : ∃ copies,
    (csvUpload movedTexts (fun _ => { now := "u" }) "2024" ({} : Db ℕ)
      (exportContacts (fun _ => "t") none movedContacts)).1 = { contacts := [] ++ copies } ∧
    copies.map carried = ((chosenContacts none movedContacts).filter
      (takes movedTexts ({} : Db ℕ))).map (restored "2024") ∧
    (csvUpload movedTexts (fun _ => { now := "u" }) "2024" ({} : Db ℕ)
      (exportContacts (fun _ => "t") none movedContacts)).2 =
      { imported := copies.length
        suppressed := (chosenContacts none movedContacts).countP
          (barred movedTexts ({} : Db ℕ)) } := by
  have hlower : KeepsTitles movedTexts := by
    unfold KeepsTitles
    decide
  have hlimit : ∀ c ∈ movedContacts, WithinLimit (fun _ => "t") c := by
    unfold WithinLimit
    decide
  have hline : ∀ c ∈ movedContacts, ∀ v ∈ exportValues (fun _ => "t") c, '\n' ∉ v.toList := by
    decide
  have htransferable : Transferable movedTexts movedContacts := by
    constructor
    · intro c hc
      have hclean : cleanEmail movedTexts.lower (Text.strip c.email) = .ok c.email := by
        revert c
        decide +kernel
      have hvalues : Text.strip c.name = c.name ∧ Text.strip c.consentSource = c.consentSource ∧
          (∀ t ∈ c.tags, Text.strip t = t ∧ t ≠ "") ∧
          ∀ e ∈ c.externalId, Text.strip e = e ∧ e ≠ "" := by
        revert c
        decide
      exact ⟨hclean, hvalues.1, hvalues.2.2.1, hvalues.2.1, hvalues.2.2.2⟩
    · refine List.pairwise_cons.mpr ⟨fun b hb => ?_, List.pairwise_singleton _ _⟩
      rw [List.mem_singleton.mp hb]
      exact ⟨by decide, fun e _ => Option.some_ne_none e |>.symm⟩
  exact upload_of_export (fun _ => "t") none hlower hlimit hline htransferable {}
    (fun _ => { now := "u" }) "2024"

end Mailman.Analysis
