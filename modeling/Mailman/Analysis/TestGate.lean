import Mathlib.Data.Prod.Lex
import Mathlib.Data.String.Basic
import Mailman.Analysis.LifecycleTurns
import Mailman.Library.Text
import Mailman.Model.Templates

/-!
# What the test gate lets through

The digest of a template is taken over its subject, its from-name and its HTML body, with a line
break between two of them. `TestsKept` says what the stored digests are digests of, after every
run. A launch that passes the gate therefore sends the text that was tested exactly where two
things are as they were: the text body, which is not in the digest, and how many line breaks the
subject and the from-name hold, without which the joined text has more than one reading.
-/

set_option autoImplicit false

namespace Mailman.Analysis

open Mailman.Library Mailman.Model Mailman.Interface

variable {Id : Type} {env : Setup Id} {sha256 : String → String}

/-! ## The digest -/

/-- The digest of a text. -/
def textHash (sha256 : String → String) (x : TemplateText) : String :=
  templateHash sha256 x.subject x.fromName x.htmlBody

/-- The text body and the line breaks of two texts agree. -/
structure SameBreaks (x y : TemplateText) : Prop where
  textBody : x.textBody = y.textBody
  subject : Text.count '\n' x.subject = Text.count '\n' y.subject
  fromName : Text.count '\n' x.fromName = Text.count '\n' y.fromName

/-- Two texts of one digest are the same where `SameBreaks` says so. -/
theorem text_eq_iff (hsha : Function.Injective sha256) {x y : TemplateText}
    (hhash : textHash sha256 x = textHash sha256 y) : x = y ↔ SameBreaks x y := by
  constructor
  · rintro rfl
    exact ⟨rfl, rfl, rfl⟩
  · intro hsame
    have hjoined : x.subject ++ "\n" ++ (x.fromName ++ "\n" ++ x.htmlBody) =
        y.subject ++ "\n" ++ (y.fromName ++ "\n" ++ y.htmlBody) := by
      simpa only [String.append_assoc] using hsha hhash
    obtain ⟨hsubject, hrest⟩ := Text.join_inj hsame.subject hjoined
    obtain ⟨hname, hbody⟩ := Text.join_inj hsame.fromName hrest
    cases x
    cases y
    simp only [TemplateText.mk.injEq]
    exact ⟨hsubject, hname, hbody, hsame.textBody⟩

/-! ## The invariant -/

/-- The digest stored with a campaign's test. -/
def hashAtTest (t : Terminal Id) (c : ℕ) : Option String :=
  (t.campaign? c).bind (·.templateHashAtTest)

/-- Every stored digest of a template is that of its row, and every digest stored with a test is
that of the text that was tested. -/
structure TestsKept (sha256 : String → String) (s : TestHistory Id) : Prop where
  hashed : ∀ x ∈ s.world.terminal.templates, x.templateHash = textHash sha256 x.text
  tested : ∀ c, hashAtTest s.world.terminal c = (s.tested c).map (textHash sha256)

/-- A turn that marks no test leaves the digests of the tests. -/
theorem hashAtTest_turn {may : ℕ → WriteKind → Prop} {t t' : Terminal Id} {c : ℕ}
    (h : TerminalTurn may t t') (htested : ¬ may c .tested) :
    hashAtTest t' c = hashAtTest t c := by
  unfold hashAtTest
  have hrow := h.rows c
  generalize t.campaign? c = row, t'.campaign? c = row' at hrow
  cases hrow with
  | same => rfl
  | create _ hfresh => exact hfresh.untested
  | write x y hw =>
    cases hw with
    | tested _ _ hk => exact absurd hk htested
    | _ => rfl

/-- One request of an operation keeps the invariant. -/
abbrev KeepsTests (sha256 : String → String) (p : Proc (TestHistory Id) (WorldInput Id) Unit) :
    Prop :=
  p.Every fun s _ t => TestsKept sha256 s → TestsKept sha256 t

/-- A program that marks no test and leaves the templates. -/
theorem keepsTests_of_turns {may : ℕ → WriteKind → Prop} {post : PackIn Id → Prop}
    {p : WorldProc Id Unit} (h : p.Every fun s _ t => WorldTurn env may post s t)
    (htested : ∀ c, ¬ may c .tested) : KeepsTests sha256 (withTests none p) := by
  apply h.zoom
  intro s i w hturn hs
  constructor
  · intro x hx
    have hmem : x ∈ w.terminal.templates := hx
    rw [hturn.terminal.templates] at hmem
    exact hs.hashed x hmem
  · intro c
    have hkept : hashAtTest w.terminal c = hashAtTest s.world.terminal c :=
      hashAtTest_turn hturn.terminal (htested c)
    exact hkept.trans (hs.tested c)

/-! ## The routes of the templates -/

/-- A request that leaves the campaigns, and stores templates with their digests. -/
structure TemplateWrite (sha256 : String → String) (s t : World Id) : Prop where
  campaigns : t.terminal.campaigns = s.terminal.campaigns
  templates : ∀ x ∈ t.terminal.templates,
    x ∈ s.terminal.templates ∨ x.templateHash = textHash sha256 x.text

/-- Doing nothing is a write of templates. -/
theorem TemplateWrite.refl (s : World Id) : TemplateWrite sha256 s s :=
  ⟨rfl, fun _ hx => .inl hx⟩

/-- A press makes the writes of its program. -/
theorem every_press {R : World Id → WorldInput Id → World Id → Prop} {p : LaunchProc Id Unit}
    (h : Fallible.Yields R (fun _ => True) p) : (press p).Every R :=
  Proc.Yields.bind h fun _ _ => trivial

/-- A session that writes `templates`. -/
theorem templateWrite_session {α : Type} {f : Terminal Id → WorldInput Id → Terminal Id × α}
    (h : ∀ w : World Id, ∀ i, TemplateWrite sha256 w { w with terminal := (f w.terminal i).1 }) :
    Fallible.Yields (fun s _ t => TemplateWrite sha256 s t) (fun _ => True) (session f) := by
  apply Fallible.Yields.act
  intro w i
  split
  · exact ⟨.refl w, fun _ _ => trivial⟩
  · exact ⟨h w i, fun _ _ => trivial⟩

/-- A program that writes templates keeps the tests. -/
theorem keepsTests_of_writes {p : LaunchProc Id Unit}
    (h : Fallible.Yields (fun s _ t => TemplateWrite sha256 s t) (fun _ => True) p) :
    KeepsTests sha256 (withTests none (press p)) := by
  apply (every_press h).zoom
  intro s i w hwrite hs
  constructor
  · intro x hx
    cases hwrite.templates x hx with
    | inl hold => exact hs.hashed x hold
    | inr hnew => exact hnew
  · intro c
    have hrow : w.terminal.campaign? c = s.world.terminal.campaign? c :=
      campaign?_congr hwrite.campaigns c
    have hkept : hashAtTest w.terminal c = hashAtTest s.world.terminal c := by
      rw [hashAtTest, hrow, hashAtTest]
    exact hkept.trans (hs.tested c)

/-- A refusal writes nothing. -/
theorem writes_require {p : Prop} [Decidable p] {e : LaunchError} :
    Fallible.Yields (fun s _ t => TemplateWrite sha256 s t) (fun _ => True)
      (Fallible.require p e : LaunchProc Id Unit) :=
  Fallible.Yields.require.mono (fun _ _ _ h => h) fun _ _ => trivial

/-- A new template is a write of templates. -/
theorem writes_createTemplate (body : TemplateIn) :
    Fallible.Yields (fun s _ t => TemplateWrite sha256 s t) (fun _ => True)
      (createTemplate sha256 body : LaunchProc Id Unit) := by
  apply (templateWrite_session ?_).bind fun _ _ => writes_require
  intro w i
  dsimp only
  split
  · exact .refl w
  · constructor
    · rfl
    · intro x hx
      cases List.mem_append.mp hx with
      | inl hold => exact .inl hold
      | inr hnew =>
        rw [List.mem_singleton.mp hnew]
        exact .inr rfl

/-- An edit of a template is a write of templates. -/
theorem writes_updateTemplate (templateId : ℕ) (body : TemplateIn) :
    Fallible.Yields (fun s _ t => TemplateWrite sha256 s t) (fun _ => True)
      (updateTemplate sha256 templateId body : LaunchProc Id Unit) := by
  apply (templateWrite_session ?_).bind fun _ _ => writes_require.bind fun _ _ => writes_require
  intro w i
  dsimp only
  split
  · exact .refl w
  · split
    · exact .refl w
    · constructor
      · rfl
      · intro x hx
        obtain ⟨y, hy, rfl⟩ := List.mem_map.mp hx
        split
        · exact .inr rfl
        · exact .inl hy

/-- A delete of a template is a write of templates. -/
theorem writes_deleteTemplate (templateId : ℕ) :
    Fallible.Yields (fun s _ t => TemplateWrite sha256 s t) (fun _ => True)
      (deleteTemplate templateId : LaunchProc Id Unit) := by
  apply (templateWrite_session ?_).bind
  · intro refused _
    cases refused with
    | some text => exact Fallible.Yields.throw
    | none => exact Fallible.Yields.pure trivial
  · intro w i
    split
    · exact .refl w
    · split
      · exact .refl w
      · split
        · exact .refl w
        · exact ⟨rfl, fun x hx => .inl (List.mem_of_mem_filter hx)⟩

/-! ## A test -/

/-- The template of a campaign. -/
def templateOf (t : Terminal Id) (c : ℕ) : Option Template :=
  (t.campaign? c).bind fun camp => t.template? camp.templateId

/-- What the session of `mark_tested` does. -/
structure TestWrite (c : ℕ) (s : World Id) (i : WorldInput Id) (t : World Id) : Prop where
  templates : t.terminal.templates = s.terminal.templates
  others : ∀ c', c' ≠ c → hashAtTest t.terminal c' = hashAtTest s.terminal c'
  failed : i.fails = true → hashAtTest t.terminal c = hashAtTest s.terminal c
  missing : templateOf s.terminal c = none → hashAtTest t.terminal c = hashAtTest s.terminal c
  tested : i.fails = false → ∀ tmpl, templateOf s.terminal c = some tmpl →
    hashAtTest t.terminal c = some tmpl.templateHash

/-- An update that stores the template's hash is the write of a test. -/
theorem testWrite_updateCampaign {c : ℕ} {s : World Id} {i : WorldInput Id} {tmpl : Template}
    {f : Campaign → Campaign} (hid : ∀ x, (f x).id = x.id)
    (hhash : ∀ x, (f x).templateHashAtTest = some tmpl.templateHash)
    (hfails : i.fails = false) (htmpl : templateOf s.terminal c = some tmpl) :
    TestWrite c s i { s with terminal := s.terminal.updateCampaign c (fun _ => true) f } where
  templates := rfl
  others c' hc := by
    unfold hashAtTest
    dsimp only
    rw [campaign?_updateCampaign hid]
    cases hrow : s.terminal.campaign? c' with
    | none => rfl
    | some x =>
      have hne : ¬ (x.id = c ∧ true = true) := fun h => hc ((campaign?_id hrow).symm.trans h.1)
      rw [Option.map_some, if_neg hne]
  failed h := absurd h (by simp [hfails])
  missing h := absurd h (by simp [htmpl])
  tested _ tmpl' htmpl' := by
    obtain rfl : tmpl = tmpl' := Option.some.inj (htmpl.symm.trans htmpl')
    obtain ⟨x, hrow, -⟩ := Option.bind_eq_some_iff.mp htmpl
    unfold hashAtTest
    dsimp only
    rw [campaign?_updateCampaign hid, hrow, Option.map_some, if_pos ⟨campaign?_id hrow, rfl⟩]
    exact hhash x

/-- Without a template a test writes nothing. -/
theorem testWrite_of_missing {c : ℕ} {s : World Id} {i : WorldInput Id}
    (h : templateOf s.terminal c = none) : TestWrite c s i s :=
  ⟨rfl, fun _ _ => rfl, fun _ => rfl, fun _ => rfl, fun _ tmpl htmpl => by simp [h] at htmpl⟩

/-- A commit that fails writes nothing. -/
theorem testWrite_of_fails {c : ℕ} {s : World Id} {i : WorldInput Id} (h : i.fails = true) :
    TestWrite c s i s :=
  ⟨rfl, fun _ _ => rfl, fun _ => rfl, fun _ => rfl, fun hfails => by simp [h] at hfails⟩

/-- A test mail makes the write of a test. -/
theorem testWrite_markTested (c : ℕ) :
    (press (markTested c) : WorldProc Id Unit).Every (TestWrite c) := by
  apply every_press
  apply Fallible.Yields.bind (Q := fun _ => True) _ fun _ _ =>
    Fallible.Yields.require.mono (fun _ _ _ h => h) fun _ _ => trivial
  apply Fallible.Yields.act
  intro w i
  split
  · next hfails => exact ⟨testWrite_of_fails hfails, fun _ _ => trivial⟩
  · next hfails =>
    refine ⟨?_, fun _ _ => trivial⟩
    dsimp only
    split
    · next hnone => exact testWrite_of_missing hnone
    · next tmpl htmpl =>
      exact testWrite_updateCampaign (fun _ => rfl) (fun _ => rfl) (by simpa using hfails) htmpl

/-- The request of a `mark_tested` stores the digest of the text it reads. -/
theorem keepsTests_markTested (c : ℕ) :
    KeepsTests sha256 (withTests (some c) (press (markTested c) : WorldProc Id Unit)) := by
  apply (testWrite_markTested c).zoom
  intro s i w hwrite hs
  have hhashed : ∀ x ∈ w.terminal.templates, x.templateHash = textHash sha256 x.text := by
    rw [hwrite.templates]
    exact hs.hashed
  have hsame : hashAtTest w.terminal c = hashAtTest s.world.terminal c →
      ∀ c', hashAtTest w.terminal c' = (s.tested c').map (textHash sha256) := by
    intro hc c'
    by_cases h : c' = c
    · rw [h, hc, hs.tested]
    · rw [hwrite.others c' h, hs.tested]
  unfold TestHistory.after
  dsimp only
  split
  · next tmpl htmpl =>
    split
    · next hfails => exact ⟨hhashed, hsame (hwrite.failed hfails)⟩
    · next hfails =>
      refine ⟨hhashed, fun c' => ?_⟩
      dsimp only
      by_cases h : c' = c
      · subst h
        have hmem : tmpl ∈ s.world.terminal.templates := by
          obtain ⟨camp, -, hfound⟩ := Option.bind_eq_some_iff.mp htmpl
          exact List.mem_of_find?_eq_some hfound
        rw [hwrite.tested (by simpa using hfails) tmpl htmpl, Function.update_self, Option.map_some,
          hs.hashed tmpl hmem]
      · rw [hwrite.others c' h, Function.update_of_ne h, hs.tested]
  · next hnone => exact ⟨hhashed, hsame (hwrite.missing hnone)⟩

/-! ## Runs -/

variable [LinearOrder Id]

/-- Every operation keeps the tests. -/
theorem keepsTests_templateCode (n : ℕ) (op : TemplateOp Id) :
    KeepsTests sha256 (templateCode env sha256 n op) := by
  cases op with
  | createTemplate body => exact keepsTests_of_writes (writes_createTemplate body)
  | updateTemplate templateId body =>
    exact keepsTests_of_writes (writes_updateTemplate templateId body)
  | deleteTemplate templateId => exact keepsTests_of_writes (writes_deleteTemplate templateId)
  | lifecycle op =>
    cases htests : op.tests with
    | some c =>
      obtain rfl : op = .world (.markTested c) := by
        unfold LifecycleOp.tests at htests
        split at htests <;> simp_all
      exact keepsTests_markTested c
    | none =>
      have hcode : templateCode env sha256 n (.lifecycle op) =
          withTests none (lifecycleCode env id n op) := by rw [templateCode, htests]
      rw [hcode]
      apply keepsTests_of_turns (turn_lifecycleCode n op)
      intro c htested
      cases op with
      | world op => cases op <;> simp_all [lifecycleWrites, opWrites, LifecycleOp.tests]
      | _ => simp_all [lifecycleWrites]

/-- Every run keeps the tests. -/
theorem templateRun_kept (t : Terminal Id) (es : List (Event (TemplateOp Id) (WorldInput Id))) :
    TestsKept sha256 (templateRun env sha256 t es) := by
  have hsteps := Pool.steps_of_every (C := fun s t => TestsKept sha256 s → TestsKept sha256 t)
    (@keepsTests_templateCode _ env sha256 _) (fun _ hs => hs) (fun _ _ _ h => h)
    (p := .idle { world := World.start { t with campaigns := [], templates := [] } })
    (fun _ => trivial) es
  apply hsteps.related (T := fun s t => TestsKept sha256 s → TestsKept sha256 t)
  · exact fun _ hs => hs
  · exact fun _ _ _ h h' hs => h' (h hs)
  · exact ⟨fun x hx => absurd hx List.not_mem_nil, fun c => rfl⟩

omit [LinearOrder Id] in
/-- What a normal or scheduled launch has read when it is past the gate. -/
theorem loadLaunch_gate {t : Terminal Id} {c : ℕ} {camp : Campaign} {tmpl : Template}
    {recipients : List Candidate}
    (h : t.loadLaunch c none false false = .ok (camp, tmpl, recipients)) :
    tmpl ∈ t.templates ∧ hashAtTest t c = some tmpl.templateHash := by
  unfold Terminal.loadLaunch at h
  unfold hashAtTest
  split at h
  · cases h
  · next x hcamp =>
    rw [hcamp, Option.bind_some]
    dsimp only at h
    split at h
    · cases h
    · split at h
      · cases h
      · split at h
        · cases h
        · next y htmpl =>
          have hmem : y ∈ t.templates := List.mem_of_find?_eq_some htmpl
          split at h
          · cases h
          · next hhash =>
            have hsame : x.templateHashAtTest = some y.templateHash := by simpa using hhash
            split at h
            · cases h
            · cases h
              exact ⟨hmem, hsame⟩

/-- **What the test gate lets through**, in every run of template creates, edits and deletes,
tests and everything else that may run, of any texts: a normal or scheduled launch that passes
the gate has a test behind it, and it reads the subject, from-name, HTML body and text body of
that test if and only if the text body is that of the test, and the subject and the from-name
hold as many line breaks as they did then.
SOURCE: terminal/routes_admin.py:51-53, 313-351, 481-501; terminal/launch.py:289-319 -/
theorem launch_sends_tested_text (env : Setup Id) (hsha : Function.Injective sha256)
    (t : Terminal Id) (es : List (Event (TemplateOp Id) (WorldInput Id))) (c : ℕ)
    {camp : Campaign} {tmpl : Template} {recipients : List Candidate}
    (hgate : (templateRun env sha256 t es).world.terminal.loadLaunch c none false false =
      .ok (camp, tmpl, recipients)) :
    ∃ x, (templateRun env sha256 t es).tested c = some x ∧
      (tmpl.text = x ↔ SameBreaks tmpl.text x) := by
  obtain ⟨hashed, tested⟩ : TestsKept sha256 (templateRun env sha256 t es) := templateRun_kept t es
  obtain ⟨hmem, hhash⟩ := loadLaunch_gate hgate
  rw [tested c] at hhash
  obtain ⟨x, hx, hdigest⟩ := Option.map_eq_some_iff.mp hhash
  refine ⟨x, hx, text_eq_iff hsha ?_⟩
  rw [hdigest, hashed tmpl hmem]

/-- A template, a campaign that uses it, a test of the campaign and an edit of the template. -/
private def testedThen (edit : TemplateIn) :
    List (Event (TemplateOp (ℕ ×ₗ String)) (WorldInput (ℕ ×ₗ String))) :=
  let body : TemplateIn :=
    { name := "n", subject := "s", fromName := "f", htmlBody := "h", textBody := some "old" }
  [.start 0 (.createTemplate body), .step 0 {},
    .start 1 (.lifecycle (.world (.createCampaign 1 .transactional none .empty))), .step 1 {},
    .start 2 (.lifecycle (.world (.markTested 1))), .step 2 {},
    .start 3 (.updateTemplate 1 edit), .step 3 {}]

/-- An edit that only renames the template. -/
private def renamedRun : TestHistory (ℕ ×ₗ String) :=
  templateRun .plain id {} <| testedThen
    { name := "m", subject := "s", fromName := "f", htmlBody := "h", textBody := some "old" }

/-- An edit that only changes the text body. -/
private def editedRun : TestHistory (ℕ ×ₗ String) :=
  templateRun .plain id {} <| testedThen
    { name := "n", subject := "s", fromName := "f", htmlBody := "h", textBody := some "new" }

/-- A renamed template passes the gate, with the text that was tested. -/
theorem launch_sends_tested_text_renamed : ∃ x, renamedRun.tested 1 = some x ∧
    ((⟨"s", "f", "h", some "old"⟩ : TemplateText) = x ↔
      SameBreaks ⟨"s", "f", "h", some "old"⟩ x) := by
  have hgate : renamedRun.world.terminal.loadLaunch 1 none false false =
      .ok (_, ⟨1, "m", "s", "f", "h", some "old", "s\nf\nh"⟩, []) := rfl
  exact launch_sends_tested_text .plain Function.injective_id {} _ 1 hgate

/-- A template with a text body that was never tested passes the gate. -/
theorem edited_text_passes_gate : ∃ camp tmpl recipients x,
    editedRun.world.terminal.loadLaunch 1 none false false = .ok (camp, tmpl, recipients) ∧
      editedRun.tested 1 = some x ∧ tmpl.text ≠ x :=
  ⟨_, _, _, _, rfl, rfl, by decide⟩

end Mailman.Analysis
