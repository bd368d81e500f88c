import Mailman.Model.Lifecycle

/-!
# Templates and the test gate

The routes that write `templates`, beside everything else that may run, and a history of the
tests: for each campaign, what its template said when `mark_tested` last read it. SHA-256 is a
parameter; `tracking_enabled` is left out, as nothing that sends reads it.
-/

set_option autoImplicit false

namespace Mailman.Model

open Mailman.Library

variable {Id : Type} [LinearOrder Id]

/-- What a template says to a recipient. -/
structure TemplateText where
  subject : String
  fromName : String
  htmlBody : String
  textBody : Option String := none
  deriving DecidableEq, Repr

/-- `TemplateIn`. SOURCE: terminal/routes_admin.py:295-301 -/
structure TemplateIn extends TemplateText where
  name : String
  deriving DecidableEq, Repr

/-- `_template_hash`. SOURCE: terminal/routes_admin.py:51-53 -/
def templateHash (sha256 : String → String) (subject fromName htmlBody : String) : String :=
  sha256 (subject ++ "\n" ++ fromName ++ "\n" ++ htmlBody)

/-- The text of a row. -/
def Template.text (t : Template) : TemplateText :=
  { subject := t.subject, fromName := t.fromName, htmlBody := t.htmlBody, textBody := t.textBody }

/-- The row that a body is stored as. -/
def TemplateIn.row (sha256 : String → String) (t : TemplateIn) (id : ℕ) : Template :=
  { id, name := t.name, subject := t.subject, fromName := t.fromName, htmlBody := t.htmlBody
    textBody := t.textBody, templateHash := templateHash sha256 t.subject t.fromName t.htmlBody }

/-- `create_template`. The new id is past every id there ever was (AUTOINCREMENT); how far past
those that are left is drawn. SOURCE: terminal/routes_admin.py:313-331 -/
def createTemplate (sha256 : String → String) (body : TemplateIn) : LaunchProc Id Unit := do
  let done ← session fun t i =>
    if t.templates.any (·.name = body.name) then (t, false)
    else
      let row := body.row sha256 ((t.templates.map (·.id)).foldl max 0 + 1 + i.draw 0)
      ({ t with templates := t.templates ++ [row] }, true)
  Fallible.require (done = true) ⟨.other, "template name already exists"⟩

/-- `update_template`. A name that another row has fails the `UPDATE`.
SOURCE: terminal/routes_admin.py:334-351 -/
def updateTemplate (sha256 : String → String) (templateId : ℕ) (body : TemplateIn) :
    LaunchProc Id Unit := do
  let (found, done) ← session fun t _ =>
    if (t.template? templateId).isNone then (t, false, false)
    else if t.templates.any fun x => x.name = body.name && x.id ≠ templateId then (t, true, false)
    else
      let templates := updateRows t.templates (·.id = templateId) fun _ => body.row sha256 templateId
      ({ t with templates }, true, true)
  Fallible.require (found = true) ⟨.other, "no such template"⟩
  Fallible.require (done = true) ⟨.other, "IntegrityError"⟩

/-- `delete_template`. A stage that uses the template fails the `DELETE` (a foreign key).
SOURCE: terminal/routes_admin.py:1398-1411 -/
def deleteTemplate (templateId : ℕ) : LaunchProc Id Unit := do
  let refused ← session fun t _ =>
    if (t.template? templateId).isNone then (t, some "no such template")
    else if t.campaigns.any (·.templateId = templateId) then
      (t, some "template is referenced by one or more campaigns")
    else if t.stages.any (·.templateId = templateId) then (t, some "IntegrityError")
    else ({ t with templates := t.templates.filter (·.id ≠ templateId) }, none)
  match refused with
  | some text => throw ⟨.other, text⟩
  | none => pure ()

/-! ## The history of the tests -/

/-- The world, and for each campaign the text `mark_tested` last read. -/
structure TestHistory (Id : Type) where
  world : World Id
  tested : ℕ → Option TemplateText := fun _ => none

/-- The campaign that an operation marks as tested. -/
def LifecycleOp.tests : LifecycleOp Id → Option ℕ
  | .world (.markTested c) => some c
  | _ => none

/-- One request on the world; the request of a `mark_tested` that goes through leaves the text
it read. -/
def TestHistory.after (tests : Option ℕ) (s : TestHistory Id) (i : WorldInput Id) (w : World Id) :
    TestHistory Id :=
  match tests with
  | none => { s with world := w }
  | some c =>
    let t := s.world.terminal
    match (t.campaign? c).bind fun camp => t.template? camp.templateId with
    | some tmpl =>
      if i.fails then { s with world := w }
      else { world := w, tested := Function.update s.tested c (some tmpl.text) }
    | none => { s with world := w }

/-- What may be started. -/
inductive TemplateOp (Id : Type) where
  | lifecycle (op : LifecycleOp Id)
  | createTemplate (body : TemplateIn)
  | updateTemplate (templateId : ℕ) (body : TemplateIn)
  | deleteTemplate (templateId : ℕ)

/-- A program of the world, with the history of the tests. -/
def withTests (tests : Option ℕ) (p : WorldProc Id Unit) :
    Proc (TestHistory Id) (WorldInput Id) Unit :=
  p.zoom (·.world) (fun _ i => i) (TestHistory.after tests)

/-- The program of each operation, run under number `n`. -/
def templateCode (env : Setup Id) (sha256 : String → String) (n : ℕ) :
    TemplateOp Id → Proc (TestHistory Id) (WorldInput Id) Unit
  | .lifecycle op => withTests op.tests (lifecycleCode env id n op)
  | .createTemplate body => withTests none (press (createTemplate sha256 body))
  | .updateTemplate templateId body =>
    withTests none (press (updateTemplate sha256 templateId body))
  | .deleteTemplate templateId => withTests none (press (deleteTemplate templateId))

/-- What is left of a run of any of these operations, on a terminal that starts without
templates and campaigns. -/
def templateRun (env : Setup Id) (sha256 : String → String) (t : Terminal Id)
    (es : List (Event (TemplateOp Id) (WorldInput Id))) : TestHistory Id :=
  let start := World.start { t with campaigns := [], templates := [] }
  ((Pool.idle { world := start }).run (templateCode env sha256) es).state

end Mailman.Model
