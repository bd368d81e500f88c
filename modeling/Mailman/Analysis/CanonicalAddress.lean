import Mathlib.Data.Prod.Lex
import Mathlib.Data.String.Basic
import Mailman.Model.Contacts
import Mailman.Model.Launch

/-!
# Which spelling of an address a suppression reaches

`create_contact` strips and lower-cases what it is given, `csv_import` cleans it as well, and
`add_suppression` lower-cases only. So a suppression of some spelling reaches a contact exactly
where the spelling, lower-cased, is the stored address, lower-cased; and it shuts both routes to
the contact's own spelling only where they would store it under addresses that are all reached.
-/

set_option autoImplicit false

namespace Mailman.Analysis

open Mailman.Library Mailman.Model

variable {Id : Type}

/-! ## The stored address -/

/-- The address `create_contact` stores a spelling under. -/
def createForm (x : Texts) (s : String) : Option String :=
  let email := x.lower (Text.strip s)
  if email.toList.contains '@' then some email else none

/-- The address `csv_import` stores the spelling of a cell under. -/
def csvForm (x : Texts) (s : String) : Option String :=
  match cleanEmail x.lower (Text.strip s) with
  | .ok email => some email
  | .error _ => none

/-- `create_contact` or a row of `csv_import` stores the spelling under the address, on some
database. -/
inductive StoredAs (Id : Type) (x : Texts) (s email : String) : Prop where
  | create (clock : RowClock) (db db' : Db Id) (c : ContactIn) (hs : c.email = s)
      (h : createContact x clock db c = .ok (db', email))
  | imported (clock : RowClock) (batchTag : String) (header : List String) (acc : Db Id × ImportCount)
      (line : List String × ℕ) (row : Contact)
      (hs : csvCol header line.1 "email" "" = Text.strip s)
      (h : (importRow x clock batchTag header acc line).1.contacts = acc.1.contacts ++ [row])
      (hrow : row.email = email)

variable {x : Texts} {s email : String} {sup : Suppressions}

/-- `create_contact` stores what it has stripped and lower-cased, where that is not suppressed. -/
theorem createContact_ok {clock : RowClock} {db db' : Db Id} {c : ContactIn}
    (h : createContact x clock db c = .ok (db', email)) :
    createForm x c.email = some email ∧ db.suppressions (x.emailHash email) = none := by
  unfold createContact at h
  unfold createForm
  dsimp only at h ⊢
  split at h
  · cases h
  · next hat =>
    split at h
    · cases h
    · next hfree =>
      split at h
      · cases h
      · cases h
        exact ⟨if_pos (by simpa using hat), hfree⟩

/-- A spelling whose address is neither suppressed nor taken is stored. -/
theorem createContact_free (clock : RowClock) {db : Db Id} {c : ContactIn}
    (hform : createForm x c.email = some email)
    (hfree : db.suppressions (x.emailHash email) = none)
    (hnew : db.contactTaken email c.externalId = false) :
    ∃ db', createContact x clock db c = .ok (db', email) := by
  unfold createForm at hform
  dsimp only at hform
  split at hform
  · next hat =>
    cases hform
    unfold createContact
    dsimp only
    rw [if_neg (by simpa using hat), hfree]
    dsimp only
    rw [if_neg (by simpa using hnew)]
    exact ⟨_, rfl⟩
  · cases hform

/-- A row is imported under what its cell is cleaned to, where that is not suppressed. -/
theorem importRow_contacts {clock : RowClock} {batchTag : String} {header : List String}
    {acc : Db Id × ImportCount} {line : List String × ℕ}
    (hs : csvCol header line.1 "email" "" = Text.strip s) :
    (importRow x clock batchTag header acc line).1.contacts = acc.1.contacts ∨
      ∃ row, (importRow x clock batchTag header acc line).1.contacts = acc.1.contacts ++ [row] ∧
        csvForm x s = some row.email ∧ acc.1.suppressions (x.emailHash row.email) = none := by
  unfold importRow csvForm
  dsimp only
  rw [hs]
  split
  · exact .inl rfl
  · cases hclean : cleanEmail x.lower (Text.strip s) with
    | error reason => exact .inl rfl
    | ok e =>
      dsimp only
      split
      · exact .inl rfl
      · next hfree =>
        split
        · exact .inl rfl
        · exact .inr ⟨_, rfl, rfl, by simpa using hfree⟩

/-- A row whose cell is cleaned to an address that is not suppressed is imported, where there are
no contacts. -/
theorem importRow_free (clock : RowClock) (batchTag : String) (n : ImportCount)
    (hform : csvForm x s = some email) (hfree : sup (x.emailHash email) = none) :
    ∃ row, (importRow x clock batchTag ["email"] (({ suppressions := sup } : Db Id), n)
      ([s], 0)).1.contacts = [row] ∧ row.email = email := by
  have hcell : csvCol ["email"] [s] "email" "" = Text.strip s := rfl
  unfold csvForm at hform
  split at hform
  · next e hclean =>
    cases hform
    unfold importRow
    dsimp only
    rw [hcell, hclean, if_neg (List.cons_ne_nil s [])]
    dsimp only
    rw [if_neg (by simp [hfree])]
    exact ⟨_, rfl, rfl⟩
  · cases hform

/-- The two routes store a spelling under its two forms, and under nothing else. -/
theorem storedAs_iff :
    StoredAs Id x s email ↔ createForm x s = some email ∨ csvForm x s = some email := by
  constructor
  · intro h
    cases h with
    | create clock db db' c hs h => exact .inl (hs ▸ (createContact_ok h).1)
    | imported clock batchTag header acc line row hs h hrow =>
      right
      cases importRow_contacts hs with
      | inl hsame =>
        have hlen := congrArg List.length (hsame.symm.trans h)
        simp at hlen
      | inr hnew =>
        obtain ⟨row', happ, hform, -⟩ := hnew
        obtain rfl : row' = row := by simpa using happ.symm.trans h
        rw [hform, hrow]
  · intro h
    let db : Db Id := { suppressions := fun _ => none }
    cases h with
    | inl hform =>
      have hfree : db.suppressions (x.emailHash email) = none := rfl
      have hnew : db.contactTaken email none = false := rfl
      obtain ⟨db', hdb⟩ := createContact_free (c := { email := s }) {} hform hfree hnew
      exact .create {} db db' { email := s } rfl hdb
    | inr hform =>
      obtain ⟨row, hrow, hemail⟩ : ∃ row, (importRow x {} "" ["email"] (db, {}) ([s], 0)).1.contacts =
          [row] ∧ row.email = email := importRow_free {} "" {} hform rfl
      exact .imported {} "" ["email"] (db, {}) ([s], 0) row rfl hrow hemail

/-! ## What a suppression reaches -/

variable [LinearOrder Id] {env : Setup Id}

/-- The suppression table shuts out the contact with this address, under this spelling: the hash
blocks both kinds of campaign, neither route stores the spelling, whatever else the database
holds, and no plan chooses a send to it. -/
structure ShutOut (env : Setup Id) (x : Texts) (sup : Suppressions) (s email : String) : Prop where
  mapped : ∀ kind, (suppressedMap kind sup (x.emailHash email)).isSome
  create : ∀ clock (db : Db Id) c, db.suppressions = sup → c.email = s →
    ∃ e, createContact x clock db c = .error e
  imported : ∀ clock batchTag header (acc : Db Id × ImportCount) line, acc.1.suppressions = sup →
    csvCol header line.1 "email" "" = Text.strip s →
      (importRow x clock batchTag header acc line).1.contacts = acc.1.contacts
  planned : ∀ kind campaignId createdAt sendKey jobs plan r, r.email = email →
    ∃ reason, planSend env campaignId createdAt sendKey (suppressedMap kind sup) jobs plan r =
      .ok { plan with suppressed := plan.suppressed ++ [(r.contactId, reason)] }

/-- What was in the table before, and what was given to `add_suppression`: the contact has no
unsubscribe of promotional mail only, and each address the spelling may be stored under is
suppressed already, or is what was given but for the case of its letters. -/
structure Reached (x : Texts) (sup : Suppressions) (s s' email : String) : Prop where
  scope : ∀ row, sup (x.emailHash email) = some row → row.reason = .unsubscribe → row.scope = .all
  forms : ∀ e, createForm x s = some e ∨ csvForm x s = some e →
    (sup (x.emailHash e)).isSome ∨ x.lower s' = x.lower e

/-- What `add_suppression` leaves in the table. -/
theorem addSuppression_table {sup' : Suppressions} {now s' reason h text : String}
    (hadd : addSuppression x.emailHash now sup s' reason = .ok (sup', h, text)) :
    ∃ r, sup' = sup.insertOrIgnore (x.emailHash s')
      { reason := r, source := some "manual:admin", addedAt := now } := by
  unfold addSuppression at hadd
  split at hadd
  · cases hadd
  · cases hadd
    exact ⟨_, rfl⟩

/-- A row of an address after the insert. -/
theorem insertOrIgnore_apply (k h : String) (row : SuppressionRow) :
    sup.insertOrIgnore k row h = (sup h).or (if h = k then some row else none) := by
  unfold Suppressions.insertOrIgnore
  by_cases hk : h = k
  · subst hk
    cases hrow : sup h <;> simp [hrow]
  · cases hrow : sup k with
    | some r => simp [hk]
    | none => simp [hk]

/-- Every row of the hash blocks both kinds, unless it unsubscribes from promotional mail only. -/
theorem mapped_iff {h : String} : (∀ kind, (suppressedMap kind sup h).isSome) ↔
    ∃ row, sup h = some row ∧ (row.reason = .unsubscribe → row.scope = .all) := by
  unfold suppressedMap
  cases hrow : sup h with
  | none =>
    constructor
    · intro hall
      cases hall .transactional
    · rintro ⟨_, heq, -⟩
      cases heq
  | some row =>
    constructor
    · intro hall
      refine ⟨row, rfl, fun hunsub => ?_⟩
      simpa [Option.filter, hunsub] using hall .transactional
    · rintro ⟨row', heq, hscope⟩ kind
      cases heq
      by_cases hunsub : row.reason = .unsubscribe
      · simp [Option.filter, hscope hunsub]
      · simp [Option.filter, hunsub]

/-- What shuts a contact out is a row for its address that blocks both kinds, and a row for each
address the spelling may be stored under. -/
theorem shutOut_iff (henv : env.emailHash = x.emailHash) : ShutOut env x sup s email ↔
    (∃ row, sup (x.emailHash email) = some row ∧ (row.reason = .unsubscribe → row.scope = .all)) ∧
      ∀ e, createForm x s = some e ∨ csvForm x s = some e → (sup (x.emailHash e)).isSome := by
  constructor
  · intro h
    refine ⟨mapped_iff.mp h.mapped, fun e he => ?_⟩
    by_contra hfree
    have hnone : sup (x.emailHash e) = none := by simpa using hfree
    cases he with
    | inl hform =>
      let db : Db Id := { suppressions := sup }
      have hnew : db.contactTaken e none = false := rfl
      obtain ⟨db', hok⟩ := createContact_free (c := { email := s }) {} hform hnone hnew
      obtain ⟨err, herr⟩ := h.create {} db { email := s } rfl rfl
      cases hok.symm.trans herr
    | inr hform =>
      let db : Db Id := { suppressions := sup }
      obtain ⟨row, hrow, -⟩ : ∃ row, (importRow x {} "" ["email"] (db, {}) ([s], 0)).1.contacts =
          [row] ∧ row.email = e := importRow_free {} "" {} hform hnone
      have hsame := h.imported {} "" ["email"] (db, {}) ([s], 0) rfl rfl
      cases hrow.symm.trans hsame
  · rintro ⟨hmapped, hforms⟩
    refine ⟨mapped_iff.mpr hmapped, ?_, ?_, ?_⟩
    · intro clock db c hdb hs
      cases hc : createContact x clock db c with
      | error e => exact ⟨e, rfl⟩
      | ok r =>
        obtain ⟨hform, hfree⟩ : createForm x c.email = some r.2 ∧
            db.suppressions (x.emailHash r.2) = none := createContact_ok hc
        have hrow := hforms r.2 (.inl (hs ▸ hform))
        rw [← hdb, hfree] at hrow
        cases hrow
    · intro clock batchTag header acc line hdb hs
      rcases importRow_contacts hs with hsame | ⟨row, -, hform, hfree⟩
      · exact hsame
      · have hrow := hforms row.email (.inr hform)
        rw [← hdb, hfree] at hrow
        cases hrow
    · intro kind campaignId createdAt sendKey jobs plan r hr
      obtain ⟨reason, hreason⟩ := Option.isSome_iff_exists.mp (mapped_iff.mpr hmapped kind)
      refine ⟨reason, ?_⟩
      unfold planSend
      rw [henv, hr, hreason]

/-- **Which spelling of an address a suppression reaches**, for all spellings, databases and
reasons: after `add_suppression` of `s'`, the contact that `create_contact` or `csv_import` stores
the spelling `s` as is shut out if and only if `Reached` holds of what was there before.
SOURCE: terminal/routes_admin.py:47-48, 97-126, 143-234, 584-598; terminal/email_clean.py:34-47;
terminal/launch.py:507-568 -/
theorem suppression_shutsOut_iff (hsha : Function.Injective x.sha256)
    (henv : env.emailHash = x.emailHash) {s' now reason h text : String} {sup' : Suppressions}
    (hstored : StoredAs Id x s email)
    (hadd : addSuppression x.emailHash now sup s' reason = .ok (sup', h, text)) :
    ShutOut env x sup' s email ↔ Reached x sup s s' email := by
  obtain ⟨r, rfl⟩ := addSuppression_table hadd
  have hhash : ∀ e, x.emailHash e = x.emailHash s' ↔ x.lower s' = x.lower e :=
    fun e => ⟨fun heq => (hsha heq).symm, fun heq => congrArg x.sha256 heq.symm⟩
  rw [shutOut_iff henv]
  simp only [insertOrIgnore_apply, hhash]
  constructor
  · rintro ⟨⟨row, hrow, hscope⟩, hforms⟩
    refine ⟨fun row' hrow' hunsub => ?_, fun e he => ?_⟩
    · obtain rfl : row' = row := by simpa [hrow'] using hrow
      exact hscope hunsub
    · have hsome := hforms e he
      cases hold : sup (x.emailHash e) with
      | some _ => exact .inl rfl
      | none =>
        right
        by_contra hne
        simp [hold, hne] at hsome
  · rintro ⟨hscope, hforms⟩
    refine ⟨?_, fun e he => ?_⟩
    · cases hold : sup (x.emailHash email) with
      | some row => exact ⟨row, rfl, hscope row hold⟩
      | none =>
        have heq : x.lower s' = x.lower email := by
          cases hforms email (storedAs_iff.mp hstored) with
          | inl hsome => simp [hold] at hsome
          | inr heq => exact heq
        refine ⟨_, if_pos heq, fun _ => rfl⟩
    · cases hforms e he with
      | inl hsome =>
        obtain ⟨row, hrow⟩ := Option.isSome_iff_exists.mp hsome
        simp [hrow]
      | inr heq => cases hold : sup (x.emailHash e) <;> simp [heq]

/-! ## Spellings -/

/-- Lower case of the ASCII letters, and a digest that is the text itself. -/
private def plainTexts : Texts := ⟨fun s => .ofList (s.toList.map Char.toLower), id⟩

private def plainSetup : Setup (ℕ ×ₗ String) := { Setup.plain with emailHash := plainTexts.emailHash }

/-- A manual suppression of a spelling, on an empty table. -/
private def suppressed (s' : String) : Suppressions :=
  Suppressions.insertOrIgnore (fun _ => none) (plainTexts.emailHash s')
    { reason := .manual, source := some "manual:admin", addedAt := "t" }

private def storedPlain (s email : String) : Prop := StoredAs (ℕ ×ₗ String) plainTexts s email

/-- A spelling with capital letters. -/
theorem suppression_shutsOut_iff_capitals :
    ShutOut plainSetup plainTexts (suppressed "A@B.co") "a@b.co" "a@b.co" ↔
      Reached plainTexts (fun _ => none) "a@b.co" "A@B.co" "a@b.co" := by
  have hstored : storedPlain "a@b.co" "a@b.co" := .create {} {} _ { email := "a@b.co" } rfl rfl
  have hadd : addSuppression plainTexts.emailHash "t" (fun _ => none) "A@B.co" "manual" =
      .ok (suppressed "A@B.co", _, _) := rfl
  exact suppression_shutsOut_iff Function.injective_id rfl hstored hadd

/-- A suppression of a spelling with a blank in front misses the contact that `create_contact`
and `csv_import` store the spelling as. -/
theorem padded_spelling_missed : storedPlain "a@b.co" "a@b.co" ∧ storedPlain " a@b.co" "a@b.co" ∧
    addSuppression plainTexts.emailHash "t" (fun _ => none) " a@b.co" "manual" =
      .ok (suppressed " a@b.co", " a@b.co", "manual") ∧
    ¬ ShutOut plainSetup plainTexts (suppressed " a@b.co") "a@b.co" "a@b.co" := by
  refine ⟨.create {} {} _ { email := "a@b.co" } rfl rfl,
    .create {} {} _ { email := " a@b.co" } rfl rfl, rfl, fun h => ?_⟩
  have hmapped := h.mapped .transactional
  revert hmapped
  decide

end Mailman.Analysis
