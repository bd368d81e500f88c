import Mailman.Model.Rendering

/-!
# Rendering as one substitution

`_render` and `_sub` replace one token after another in the whole text, so that what an earlier
value says is read again for the later tokens, and `had_unsub_token` reads the rendered text. The
mail is what one pass over the template makes, whatever the template says, exactly when the
recipient's values hold nothing that the later tokens or the two words take for their own
(`renders_once_iff`). A name that reads `companyName` in double braces is filled in as the
company's name.
-/

set_option autoImplicit false

namespace Mailman.Analysis

open Mailman.Library Mailman.Library.Text Mailman.Model

/-! ## The one pass -/

/-- Variables as a table of tokens. -/
def varTable (vars : List (String × String)) : Table Char :=
  vars.map fun e => ((token e.1).toList, e.2.toList)

/-- A text with its variables filled in one pass. -/
def onePass (vars : List (String × String)) (s : String) : String :=
  .ofList (substitute (varTable vars) s.toList)

/-- The compliance links as variables. -/
def linkVars (unsubUrl erasureUrl : String) : List (String × String) :=
  unsubNames.map (·, unsubUrl) ++ erasureNames.map (·, erasureUrl)

/-- A rendered mail is its template with each variable filled in one pass, and whether it counts as
carrying a link of its own is a matter of the template. -/
structure FilledOnce (vars : List (String × String)) (unsubUrl erasureUrl : String)
    (template : Template) (mail : MailText) : Prop where
  subject : mail.subject = onePass vars template.subject
  html : sub unsubUrl erasureUrl mail.html =
    onePass (vars ++ linkVars unsubUrl erasureUrl) template.htmlBody
  text : sub unsubUrl erasureUrl mail.text =
    onePass (vars ++ linkVars unsubUrl erasureUrl) (template.textBody.getD "")
  flag : hadUnsubToken mail.html mail.text =
    hadUnsubToken template.htmlBody (template.textBody.getD "")

/-- `_render` succeeds, and what it makes is filled in one pass. -/
def RendersOnce (template : Template) (contact : SendRow) (companyName : Option String)
    (unsubUrl erasureUrl : String) : Prop :=
  ∃ first mail, firstName contact.name = some first ∧
    render template contact companyName = some mail ∧
    FilledOnce (renderVars contact.email contact.name first companyName) unsubUrl erasureUrl
      template mail

/-- Values that hold nothing of what is looked for after them. -/
structure PlainValues (vars links : List (String × String)) : Prop where
  subject : Table.Settled (varTable vars).active
  body : Table.Settled (varTable (vars ++ links)).active
  words : ∀ v ∈ vars, ∀ w ∈ unsubWords, ¬ Touches v.2.toList w.toList

/-! ## The code as replacements in turn -/

section code

variable {vars : List (String × String)} {s unsubUrl erasureUrl email name first : String}
  {companyName : Option String}

/-- A replaced text is its replaced characters. -/
@[simp] theorem toList_replace (old new s : String) :
    (replace old new s).toList = replaceAll old.toList new.toList s.toList := String.toList_ofList

/-- Filling the variables is replacing their tokens in turn. -/
theorem toList_fillVars (vars : List (String × String)) (s : String) :
    (fillVars vars s).toList = inTurn (varTable vars) s.toList := by
  induction vars generalizing s with
  | nil => rfl
  | cons e vars ih =>
    have h := ih (replace (token e.1) e.2 s)
    rw [toList_replace] at h
    exact h

/-- Putting the links in is filling their variables. -/
theorem sub_eq_fillVars (unsubUrl erasureUrl s : String) :
    sub unsubUrl erasureUrl s = fillVars (linkVars unsubUrl erasureUrl) s := by
  unfold sub
  split
  · next hs =>
    rw [hs, ← String.toList_inj, toList_fillVars]
    simp
  · rfl

/-- The links are filled in turn, after everything else. -/
theorem toList_sub_fillVars (vars : List (String × String)) (unsubUrl erasureUrl s : String) :
    (sub unsubUrl erasureUrl (fillVars vars s)).toList =
      inTurn (varTable (vars ++ linkVars unsubUrl erasureUrl)) s.toList := by
  rw [sub_eq_fillVars, toList_fillVars, toList_fillVars, varTable, varTable, varTable,
    List.map_append, inTurn_append]

/-- The flag is set when a word stands in one of the bodies. -/
theorem hadUnsubToken_iff (html text : String) : hadUnsubToken html text = true ↔
    ∃ w ∈ unsubWords, w.toList <:+: html.toList ∨ w.toList <:+: text.toList := by
  have hempty : ∀ w ∈ unsubWords, ∀ t : String, w.toList <:+: t.toList → t ≠ "" := by
    rintro w hw t hin rfl
    have hnil : w.toList = [] := List.eq_nil_of_infix_nil hin
    revert w
    decide
  simp only [hadUnsubToken, Bool.or_eq_true, Bool.and_eq_true, decide_eq_true_eq, List.any_eq_true,
    contains]
  constructor
  · rintro (⟨-, w, hw, hin⟩ | ⟨-, w, hw, hin⟩)
    · exact ⟨w, hw, .inl hin⟩
    · exact ⟨w, hw, .inr hin⟩
  · rintro ⟨w, hw, hin | hin⟩
    · exact .inl ⟨hempty w hw html hin, w, hw, hin⟩
    · exact .inr ⟨hempty w hw text hin, w, hw, hin⟩

end code

/-! ## The tokens -/

section tokens

/-- The tokens of some variables. -/
def tokensOf (names : List String) : List (List Char) := names.map fun n => (token n).toList

/-- The names of what a contact or a company says. -/
def renderNames : List String :=
  ["email", "name", "first_name", "firstName", "full_name", "fullName", "companyName"]

/-- Every name that a mail may hold a token of. -/
def mailNames : List String := renderNames ++ (unsubNames ++ erasureNames)

variable {vars : List (String × String)}

/-- A token is its name in double braces. -/
theorem toList_token (n : String) : (token n).toList = bracketed '\x7b' '\x7d' n.toList := by
  simp [token, bracketed]

/-- The tokens of the variables are those of their names. -/
theorem tokens_varTable (vars : List (String × String)) :
    (varTable vars).tokens = tokensOf (vars.map Prod.fst) := by
  simp [varTable, Table.tokens, tokensOf]

/-- No name of a variable holds a brace. -/
theorem mailNames_no_brace :
    ∀ n ∈ mailNames, '\x7b' ∉ n.toList ∧ '\x7d' ∉ n.toList := by decide +kernel

/-- The tokens of a mail do not overlap. -/
theorem overlapFree_mailNames : OverlapFree (tokensOf mailNames) := by
  have htokens : tokensOf mailNames = (mailNames.map String.toList).map (bracketed '\x7b' '\x7d') := by
    rw [tokensOf, List.map_map]
    exact List.map_congr_left fun n _ => toList_token n
  rw [htokens]
  apply overlapFree_bracketed (by decide)
  intro n hn
  obtain ⟨m, hm, rfl⟩ := List.mem_map.mp hn
  exact mailNames_no_brace m hm

/-- The tokens of a mail differ. -/
theorem nodup_mailNames : (tokensOf mailNames).Nodup := by
  have hinj : Function.Injective fun n : String => (token n).toList := by
    intro a b h
    exact String.toList_inj.mp (by simpa [token] using h)
  exact List.Nodup.map hinj (by decide)

/-- No word of the flag holds a brace or stands in a name. -/
theorem words_no_brace : ∀ w ∈ unsubWords, w.toList ≠ [] ∧ '\x7b' ∉ w.toList ∧ '\x7d' ∉ w.toList ∧
    ∀ n ∈ renderNames, ¬ w.toList <:+: n.toList := by decide +kernel

/-- The two words have nothing in common with a token of a contact or a company. -/
theorem words_untouched {w : String} (hw : w ∈ unsubWords) {t : List Char}
    (ht : t ∈ tokensOf renderNames) : ¬ t <:+: w.toList ∧ ¬ Touches t w.toList := by
  obtain ⟨n, hn, rfl⟩ := List.mem_map.mp ht
  obtain ⟨-, ho, hc, hno⟩ := words_no_brace w hw
  rw [toList_token]
  constructor
  · intro hin
    exact ho (hin.subset (by simp [bracketed]))
  · intro htouches
    exact hno n hn (infix_of_touches ho hc htouches)

/-- No word stands in a part of a word. -/
theorem words_apart : ∀ w ∈ unsubWords, ∀ u ∈ unsubWords,
    (∀ x ∈ w.toList.inits, x ≠ w.toList → ¬ u.toList <:+: x) ∧
      ∀ y ∈ w.toList.tails, y ≠ w.toList → ¬ u.toList <:+: y := by decide +kernel

/-- The variables of a render have its names. -/
theorem renderVars_names (email name first : String) (companyName : Option String) :
    ((renderVars email name first companyName).map Prod.fst).Sublist renderNames := by
  cases companyName with
  | none =>
    exact (by decide : ["email", "name", "first_name", "firstName", "full_name",
      "fullName"].Sublist renderNames)
  | some c => exact List.Sublist.refl renderNames

/-- The variables of a body have the names of a mail. -/
theorem bodyVars_names (email name first : String) (companyName : Option String)
    (unsubUrl erasureUrl : String) : ((renderVars email name first companyName ++
      linkVars unsubUrl erasureUrl).map Prod.fst).Sublist mailNames := by
  rw [List.map_append]
  exact (renderVars_names email name first companyName).append (List.Sublist.refl _)

/-- Variables of a mail have tokens that never overlap. -/
theorem tokens_of_names (h : (vars.map Prod.fst).Sublist mailNames) :
    OverlapFree (varTable vars).tokens ∧ (varTable vars).tokens.Nodup := by
  rw [tokens_varTable]
  have hsub : (tokensOf (vars.map Prod.fst)).Sublist (tokensOf mailNames) := h.map _
  exact ⟨overlapFree_mailNames.mono hsub.subset, nodup_mailNames.sublist hsub⟩

end tokens

/-! ## The flag -/

section flag

variable {vars : List (String × String)}

/-- Values that the words take nothing of leave the flag to the template. -/
theorem hadUnsubToken_onePass (hnames : (vars.map Prod.fst).Sublist renderNames)
    (hwords : ∀ v ∈ vars, ∀ w ∈ unsubWords, ¬ Touches v.2.toList w.toList) (html text : String) :
    hadUnsubToken (onePass vars html) (onePass vars text) = hadUnsubToken html text := by
  obtain ⟨hfree, hnodup⟩ := tokens_of_names (hnames.trans (List.sublist_append_left _ _))
  have hstands : ∀ w ∈ unsubWords, ∀ s : String,
      w.toList <:+: (onePass vars s).toList ↔ w.toList <:+: s.toList := by
    intro w hw s
    rw [onePass, String.toList_ofList]
    apply infix_substitute_iff hfree hnodup (words_no_brace w hw).1
    intro e he
    obtain ⟨v, hv, rfl⟩ := List.mem_map.mp he
    have htoken : (token v.1).toList ∈ tokensOf renderNames :=
      List.mem_map_of_mem (hnames.subset (List.mem_map_of_mem hv))
    exact ⟨(words_untouched hw htoken).2, hwords v hv w hw⟩
  rw [Bool.eq_iff_iff, hadUnsubToken_iff, hadUnsubToken_iff]
  apply exists_congr
  intro w
  apply and_congr_right
  intro hw
  rw [hstands w hw, hstands w hw]

/-- A value that a word takes something of changes the flag of some template. -/
theorem exists_flag_changed (hnames : (vars.map Prod.fst).Sublist renderNames)
    {v : String × String} (hv : v ∈ vars) {w : String} (hw : w ∈ unsubWords)
    (htouches : Touches v.2.toList w.toList) :
    ∃ html, hadUnsubToken html "" = false ∧ hadUnsubToken (onePass vars html) "" = true := by
  obtain ⟨hfree, hnodup⟩ := tokens_of_names (hnames.trans (List.sublist_append_left _ _))
  obtain ⟨x, y, hmade, hx, hy⟩ := htouches.exists_parts
  have hne := (words_no_brace w hw).1
  have hx' : x <+: w.toList ∧ x ≠ w.toList := by
    rcases hx with rfl | ⟨b, hb, hw'⟩
    · exact ⟨List.nil_prefix, hne.symm⟩
    · rw [hw']
      exact ⟨List.prefix_append x b, fun h => hb (List.append_right_eq_self.mp h.symm)⟩
  have hy' : y <:+ w.toList ∧ y ≠ w.toList := by
    rcases hy with rfl | ⟨a, ha, hw'⟩
    · exact ⟨List.nil_suffix, hne.symm⟩
    · rw [hw']
      exact ⟨List.suffix_append a y, fun h => ha (List.append_left_eq_self.mp h.symm)⟩
  have hplain : ∀ t ∈ (varTable vars).tokens, ¬ t <:+: x ∧ ¬ t <:+: y := by
    intro t ht
    rw [tokens_varTable] at ht
    have ht' : t ∈ tokensOf renderNames := (hnames.map _).subset ht
    have hno := (words_untouched hw ht').1
    exact ⟨fun hin => hno (hin.trans hx'.1.isInfix), fun hin => hno (hin.trans hy'.1.isInfix)⟩
  have hmem : ((token v.1).toList, v.2.toList) ∈ varTable vars := List.mem_map.mpr ⟨v, hv, rfl⟩
  have hfilled : substitute (varTable vars) (x ++ (token v.1).toList ++ y) = x ++ v.2.toList ++ y := by
    rw [substitute_around_token hfree hnodup hmem, substitute_eq_self fun t ht => (hplain t ht).1,
      substitute_eq_self fun t ht => (hplain t ht).2]
  refine ⟨.ofList (x ++ (token v.1).toList ++ y), ?_, ?_⟩
  · rw [Bool.eq_false_iff, Ne, hadUnsubToken_iff]
    rintro ⟨u, hu, hin | hin⟩
    · have htoken : (token v.1).toList ∈ tokensOf renderNames :=
        List.mem_map_of_mem (hnames.subset (List.mem_map_of_mem hv))
      rw [String.toList_ofList, infix_around_iff (words_untouched hu htoken).2
        (words_no_brace u hu).1] at hin
      obtain ⟨hinits, htails⟩ := words_apart w hw u hu
      rcases hin with hin | hin
      · exact hinits x ((List.mem_inits x _).mpr hx'.1) hx'.2 hin
      · exact htails y ((List.mem_tails y _).mpr hy'.1) hy'.2 hin
    · exact (words_no_brace u hu).1 (List.eq_nil_of_infix_nil hin)
  · rw [hadUnsubToken_iff]
    refine ⟨w, hw, .inl ?_⟩
    rw [onePass, String.toList_ofList, String.toList_ofList, hfilled]
    exact hmade

end flag

/-! ## The mail -/

section mail

variable {vars : List (String × String)} {contact : SendRow} {companyName : Option String}
  {unsubUrl erasureUrl first : String}

/-- What a template says in its subject, its html and its text. -/
def textTemplate (subject html text : String) : Template :=
  { id := 0, subject, htmlBody := html, textBody := some text, templateHash := "" }

/-- The mail of some variables. -/
def filledMail (vars : List (String × String)) (template : Template) : MailText :=
  { subject := fillVars vars template.subject
    html := fillVars vars template.htmlBody
    text := fillVars vars (template.textBody.getD "") }

/-- With a first name the render is the filled mail. -/
theorem render_of_first (hfirst : firstName contact.name = some first) (template : Template) :
    render template contact companyName =
      some (filledMail (renderVars contact.email contact.name first companyName) template) := by
  rw [render, hfirst, Option.map_some]
  rfl

/-- Replacing in turn is one pass where it is substituting. -/
theorem onePass_eq_of_inTurn {s t : String} (h : t.toList = inTurn (varTable vars) s.toList)
    (hturn : ∀ s, inTurn (varTable vars) s = substitute (varTable vars) s) : t = onePass vars s := by
  rw [← String.toList_inj, h, hturn, onePass, String.toList_ofList]

/-- With plain values the code fills every template in one pass. -/
theorem filledOnce_of_plainValues (hnames : (vars.map Prod.fst).Sublist renderNames)
    (hbody : ((vars ++ linkVars unsubUrl erasureUrl).map Prod.fst).Sublist mailNames)
    (h : PlainValues vars (linkVars unsubUrl erasureUrl)) (template : Template) :
    FilledOnce vars unsubUrl erasureUrl template (filledMail vars template) := by
  obtain ⟨hfree, hnodup⟩ := tokens_of_names (hnames.trans (List.sublist_append_left _ _))
  obtain ⟨hfree', hnodup'⟩ := tokens_of_names hbody
  have hturn := (inTurn_eq_substitute_iff hfree hnodup).mpr h.subject
  have hturn' := (inTurn_eq_substitute_iff hfree' hnodup').mpr h.body
  have hfill : ∀ s, fillVars vars s = onePass vars s :=
    fun s => onePass_eq_of_inTurn (toList_fillVars vars s) hturn
  have hlink : ∀ s, sub unsubUrl erasureUrl (fillVars vars s) =
      onePass (vars ++ linkVars unsubUrl erasureUrl) s :=
    fun s => onePass_eq_of_inTurn (toList_sub_fillVars vars unsubUrl erasureUrl s) hturn'
  refine ⟨hfill _, hlink _, hlink _, ?_⟩
  have hflag := hadUnsubToken_onePass hnames h.words template.htmlBody (template.textBody.getD "")
  rwa [← hfill, ← hfill] at hflag

/-- Values with which every template is filled in one pass are plain. -/
theorem plainValues_of_filledOnce (hnames : (vars.map Prod.fst).Sublist renderNames)
    (hbody : ((vars ++ linkVars unsubUrl erasureUrl).map Prod.fst).Sublist mailNames)
    (h : ∀ template, FilledOnce vars unsubUrl erasureUrl template (filledMail vars template)) :
    PlainValues vars (linkVars unsubUrl erasureUrl) := by
  obtain ⟨hfree, hnodup⟩ := tokens_of_names (hnames.trans (List.sublist_append_left _ _))
  obtain ⟨hfree', hnodup'⟩ := tokens_of_names hbody
  have hturn : ∀ s, inTurn (varTable vars) s = substitute (varTable vars) s := by
    intro s
    have hs : fillVars vars (.ofList s) = onePass vars (.ofList s) :=
      (h (textTemplate (.ofList s) "" "")).subject
    have hs' := congrArg String.toList hs
    rwa [toList_fillVars, onePass, String.toList_ofList, String.toList_ofList] at hs'
  have hturn' : ∀ s, inTurn (varTable (vars ++ linkVars unsubUrl erasureUrl)) s =
      substitute (varTable (vars ++ linkVars unsubUrl erasureUrl)) s := by
    intro s
    have hs : sub unsubUrl erasureUrl (fillVars vars (.ofList s)) =
        onePass (vars ++ linkVars unsubUrl erasureUrl) (.ofList s) :=
      (h (textTemplate "" (.ofList s) "")).html
    have hs' := congrArg String.toList hs
    rwa [toList_sub_fillVars, onePass, String.toList_ofList, String.toList_ofList] at hs'
  refine ⟨(inTurn_eq_substitute_iff hfree hnodup).mp hturn,
    (inTurn_eq_substitute_iff hfree' hnodup').mp hturn', fun v hv w hw htouches => ?_⟩
  obtain ⟨html, hplain, hchanged⟩ := exists_flag_changed hnames hv hw htouches
  have hflag : hadUnsubToken (fillVars vars html) (fillVars vars "") = hadUnsubToken html "" :=
    (h (textTemplate "" html "")).flag
  have hempty : fillVars vars "" = "" := by
    rw [← String.toList_inj, toList_fillVars]
    simp
  rw [onePass_eq_of_inTurn (toList_fillVars vars html) hturn, hempty, hplain, hchanged] at hflag
  cases hflag

/-- Every template is rendered in one pass exactly when the name is not of spaces alone and the
values of the contact and the company are plain. -/
theorem renders_once_iff (contact : SendRow) (companyName : Option String)
    (unsubUrl erasureUrl : String) :
    (∀ template, RendersOnce template contact companyName unsubUrl erasureUrl) ↔
      ∃ first, firstName contact.name = some first ∧
        PlainValues (renderVars contact.email contact.name first companyName)
          (linkVars unsubUrl erasureUrl) := by
  have hnames := renderVars_names contact.email contact.name
  have hbody := bodyVars_names contact.email contact.name
  constructor
  · intro h
    obtain ⟨first, -, hfirst, -⟩ := h (textTemplate "" "" "")
    refine ⟨first, hfirst, plainValues_of_filledOnce (hnames first companyName)
      (hbody first companyName unsubUrl erasureUrl) fun template => ?_⟩
    obtain ⟨first', mail, hfirst', hmail, hfilled⟩ := h template
    obtain rfl : first = first' := Option.some.inj (hfirst.symm.trans hfirst')
    rw [render_of_first hfirst] at hmail
    rwa [← Option.some.inj hmail] at hfilled
  · rintro ⟨first, hfirst, h⟩ template
    exact ⟨first, _, hfirst, render_of_first hfirst template, filledOnce_of_plainValues
      (hnames first companyName) (hbody first companyName unsubUrl erasureUrl) h template⟩

/-- A contact that is named like the company's variable. -/
private def namedAsVariable : SendRow :=
  { contactId := some 1, email := "bob@demo.example", name := token "companyName" }

private def greeting : Template := textTemplate ("Hi " ++ token "name") "<p>Hi</p>" "Hi"

/-- A contact named like the company's variable is greeted by the company's name. -/
theorem name_filled_as_company :
    ¬ ∀ (template : Template) (contact : SendRow) (companyName : Option String)
      (unsubUrl erasureUrl : String),
        RendersOnce template contact companyName unsubUrl erasureUrl := by
  intro h
  obtain ⟨first, mail, hfirst, hmail, hfilled⟩ := h greeting namedAsVariable (some "Acme Studio")
    "https://mail.example.com/u/x" "https://mail.example.com/e/x"
  have hname : firstName namedAsVariable.name = some (token "companyName") := by decide +kernel
  have hcode : (render greeting namedAsVariable (some "Acme Studio")).map (·.subject) =
      some "Hi Acme Studio" := by decide +kernel
  have hpass : onePass (renderVars namedAsVariable.email namedAsVariable.name (token "companyName")
      (some "Acme Studio")) greeting.subject = "Hi " ++ token "companyName" := by decide +kernel
  obtain rfl := Option.some.inj (hfirst.symm.trans hname)
  rw [hmail, Option.map_some] at hcode
  have hsubject := hfilled.subject
  rw [hpass, Option.some.inj hcode] at hsubject
  exact absurd hsubject (by decide +kernel)

end mail

end Mailman.Analysis
