import Mailman.Library.Substitute
import Mailman.Library.Text
import Mailman.Model.World

/-!
# The text of a mail

`_render` with its variables, `_inject_compliance` with its tokens and its footer, `_html_to_text`
and the refusal of leftover variables. The two compliance tokens of a mail are drawn at random, so
their texts are parameters, and so is the public host of their links.
-/

set_option autoImplicit false

namespace Mailman.Model

open Mailman.Library Mailman.Library.Text

/-- `str.replace`. -/
def replace (old new s : String) : String := .ofList (replaceAll old.toList new.toList s.toList)

/-- `sub in s`. -/
def contains (sub s : String) : Bool := sub.toList <:+: s.toList

/-- The token of a variable: its name in double braces. -/
def token (name : String) : String := "\x7b\x7b" ++ name ++ "\x7d\x7d"

/-- `name.split()[0] if name else ""`; a name of spaces alone has no first word. -/
def firstName (name : String) : Option String :=
  let word := (name.toList.dropWhile isSpace).takeWhile fun c => !isSpace c
  if name = "" then some "" else if word = [] then none else some (.ofList word)

/-- The variables of a mail in the order they are filled. SOURCE: terminal/launch.py:98-111 -/
def renderVars (email name first : String) (companyName : Option String) : List (String × String) :=
  [("email", email), ("name", name), ("first_name", first), ("firstName", first),
    ("full_name", name), ("fullName", name)] ++ companyName.toList.map fun c => ("companyName", c)

/-- Variables filled one after another. -/
def fillVars (vars : List (String × String)) (s : String) : String :=
  vars.foldl (fun s e => replace (token e.1) e.2 s) s

/-- The three texts of a mail. -/
structure MailText where
  subject : String
  html : String
  text : String
  deriving DecidableEq, Repr

/-- `_render`; `none` is the `IndexError` of a name of spaces alone.
SOURCE: terminal/launch.py:94-112 -/
def render (template : Template) (contact : SendRow) (companyName : Option String) :
    Option MailText :=
  (firstName contact.name).map fun first =>
    let fill := fillVars (renderVars contact.email contact.name first companyName)
    { subject := fill template.subject
      html := fill template.htmlBody
      text := fill (template.textBody.getD "") }

/-- `_TOKEN_RE`: what it finds at the front of a text. -/
def tokenRe : Rule Char (List Char)
  | '\x7b' :: '\x7b' :: s =>
    let inner := s.takeWhile fun c => c ≠ '\x7b' && c ≠ '\x7d'
    match s.drop inner.length with
    | '\x7d' :: '\x7d' :: _ =>
      some (inner.length + 4, ['\x7b' :: '\x7b' :: inner ++ ['\x7d', '\x7d']])
    | _ => none
  | _ => none

/-- `_TOKEN_RE.finditer`. -/
def leftTokens (s : String) : List String := (rewrite tokenRe (fun _ => []) s.toList).map .ofList

/-- The texts of a set in order. -/
def sortedSet (l : List String) : List String := l.dedup.mergeSort fun a b => decide (a ≤ b)

/-- `assert_sendable`. SOURCE: terminal/launch.py:118-124 -/
def assertSendable (mail : MailText) : Except String Unit :=
  let parts := [mail.subject, mail.html, mail.text]
  if parts.any (contains "\x7b\x7b") then
    let found := sortedSet (parts.flatMap leftTokens)
    .error ("unfilled template variables: " ++
      ", ".intercalate (if found = [] then ["\x7b\x7b"] else found) ++
      " - use only the variables listed on the Templates page")
  else .ok ()

/-! ## The text of an html body -/

/-- `<br\s*/?>`, in either case. -/
def brTag : Rule Char Char
  | '<' :: b :: r :: s =>
    if (b = 'b' ∨ b = 'B') ∧ (r = 'r' ∨ r = 'R') then
      let spaces := s.takeWhile isSpace
      match s.drop spaces.length with
      | '>' :: _ => some (spaces.length + 4, ['\n'])
      | '/' :: '>' :: _ => some (spaces.length + 5, ['\n'])
      | _ => none
    else none
  | _ => none

/-- `</p>`, in either case. -/
def closingP : Rule Char Char
  | '<' :: '/' :: p :: '>' :: _ => if p = 'p' ∨ p = 'P' then some (4, ['\n', '\n']) else none
  | _ => none

/-- `<[^>]+>`. -/
def anyTag : Rule Char Char
  | '<' :: s =>
    let inner := s.takeWhile (· ≠ '>')
    if inner ≠ [] ∧ inner.length < s.length then some (inner.length + 2, []) else none
  | _ => none

/-- `\n{3,}`. -/
def blankLines : Rule Char Char := fun s =>
  let lines := s.takeWhile (· = '\n')
  if 3 ≤ lines.length then some (lines.length, ['\n', '\n']) else none

/-- `re.sub`, of a pattern that takes at least one character. -/
def reSub (pattern : Rule Char Char) (s : List Char) : List Char := rewrite pattern (fun c => [c]) s

/-- `_html_to_text`. SOURCE: terminal/launch.py:171-177 -/
def htmlToText (html : String) : String :=
  let t := reSub brTag html.toList
  let t := reSub closingP t
  let t := reSub anyTag t
  let t := reSub blankLines t
  strip (.ofList t)

/-! ## The compliance links -/

/-- The names an unsubscribe link goes by. -/
def unsubNames : List String := ["unsubscribeUrl", "unsubscribe_url", "unsubUrl"]

/-- The names an erasure link goes by. -/
def erasureNames : List String := ["erasureUrl", "erasure_url", "deleteUrl"]

/-- `_sub`. SOURCE: terminal/launch.py:186-193 -/
def sub (unsubUrl erasureUrl s : String) : String :=
  if s = "" then s
  else
    let s := unsubNames.foldl (fun s name => replace (token name) unsubUrl s) s
    erasureNames.foldl (fun s name => replace (token name) erasureUrl s) s

/-- The words that count as an unsubscribe link of the author's own. -/
def unsubWords : List String := ["unsubscribeUrl", "unsubscribe_url"]

/-- `had_unsub_token`. SOURCE: terminal/launch.py:195-196 -/
def hadUnsubToken (html text : String) : Bool :=
  (html ≠ "" && unsubWords.any (contains · html)) || (text ≠ "" && unsubWords.any (contains · text))

/-- The footer of the html part. SOURCE: terminal/launch.py:203-210 -/
def footerHtml (footerAddr unsubUrl erasureUrl : String) : String :=
  "<hr style='margin:24px 0;border:0;border-top:1px solid #ddd'>" ++
  "<p style='font-size:11px;color:#888;line-height:1.5'>" ++ footerAddr ++ "<br>" ++
  "<a href='" ++ unsubUrl ++ "' style='color:#666'>Unsubscribe</a> \u00B7 " ++
  "<a href='" ++ erasureUrl ++ "' style='color:#666'>Delete my data</a>" ++ "</p>"

/-- The footer of the text part. SOURCE: terminal/launch.py:215-218 -/
def footerText (footerAddr unsubUrl erasureUrl : String) : String :=
  "\n\n---\n" ++ footerAddr ++ "\n" ++
    "Unsubscribe: " ++ unsubUrl ++ "\nDelete my data: " ++ erasureUrl ++ "\n"

/-- `_inject_compliance`. SOURCE: terminal/launch.py:180-221 -/
def injectCompliance (footerAddr html text unsubUrl erasureUrl : String) (kind : SendKind) :
    String × String :=
  let had := hadUnsubToken html text
  let html := sub unsubUrl erasureUrl html
  let text := sub unsubUrl erasureUrl text
  match kind with
  | .promotional =>
    let html :=
      if !had && footerAddr ≠ "" then html ++ footerHtml footerAddr unsubUrl erasureUrl else html
    let text := if text = "" then htmlToText html else text
    let text := if !had then text ++ footerText footerAddr unsubUrl erasureUrl else text
    (html, text)
  | .transactional => (html, if text = "" then htmlToText html else text)

/-- What a mail is made of beside its recipient. -/
structure MailCtx where
  template : Template
  companyName : Option String
  kind : SendKind
  publicHost : String
  footerAddr : String

/-- The links of a mail. SOURCE: terminal/launch.py:707-708 -/
def unsubLink (publicHost unsubToken : String) : String :=
  "https://" ++ publicHost ++ "/u/" ++ unsubToken

def erasureLink (publicHost erasureToken : String) : String :=
  "https://" ++ publicHost ++ "/e/" ++ erasureToken

/-- The text that `_build_pack` seals, or why it raises. SOURCE: terminal/launch.py:696-710 -/
def mailText (ctx : MailCtx) (r : SendRow) (unsubToken erasureToken : String) :
    Except String MailText := do
  let some mail := render ctx.template r ctx.companyName | .error "IndexError"
  let unsubUrl := unsubLink ctx.publicHost unsubToken
  let erasureUrl := erasureLink ctx.publicHost erasureToken
  let (html, text) :=
    injectCompliance ctx.footerAddr mail.html mail.text unsubUrl erasureUrl ctx.kind
  let mail := { mail with html, text }
  assertSendable mail
  pure mail

end Mailman.Model
