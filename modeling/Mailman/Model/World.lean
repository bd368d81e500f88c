import Mathlib.Data.Nat.Pairing
import Mailman.Library.Fallible
import Mailman.Model.Campaigns
import Mailman.Model.Dispatcher
import Mailman.Model.Keys
import Mailman.Model.Outcomes

/-!
# The terminal and the cloud together

The state that the terminal's programs and the cloud's programs share, and what passes
between them. A `POST /packs` is a request the cloud may serve at any time after it was
sent, as often as the environment likes and perhaps not to the end, and a reply that the
terminal may or may not see: that covers a refused chunk, a chunk stored in part, and an
acknowledgement that is lost.

`chosen`, `reports`, `polled` and `recorded` are history: the sends that `_plan_sends` has
chosen, what the cloud has said about keys, the rows of polls whose cursor was stored, and
the jobs recorded so far, each with the acknowledgement it was recorded under.
-/

set_option autoImplicit false

namespace Mailman.Model

open Mailman.Library

/-- The send generation of a pack: `"main"`, `"relaunch:<g>"` or `"stage:<id>"`.
SOURCE: terminal/launch.py:391, 519-520 -/
inductive SendKey where
  | main
  | relaunch (gen : ℕ)
  | stage (stageId : ℕ)
  deriving DecidableEq, Repr

/-- `_gen_key_for`. SOURCE: terminal/launch.py:519-520 -/
def genKeyFor (gen : ℕ) : SendKey := if gen = 0 then .main else .relaunch gen

/-- The arguments of `_pack_id`. SOURCE: terminal/launch.py:489-495 -/
structure SendId where
  campaignId : ℕ
  createdAt : String
  sendKey : SendKey
  contactId : ℕ
  ordinal : ℕ
  deriving DecidableEq, Repr

/-- Pack ids: `_pack_id` is a name-based uuid5, taken to be injective, and the random uuid4 of
a seed pack has another version digit. -/
structure PackIds (Id : Type) where
  packId : SendId → Id
  uuid4 : ℕ → Id
  packId_injective : Function.Injective packId
  packId_ne_uuid4 : ∀ k n, packId k ≠ uuid4 n

/-- A number for each generation. -/
def SendKey.code : SendKey → ℕ
  | .main => 0
  | .relaunch gen => 2 * gen + 1
  | .stage stageId => 2 * stageId + 2

/-- The codes of send keys differ. -/
theorem SendKey.code_injective : Function.Injective SendKey.code := by
  intro a b h
  cases a <;> cases b <;> simp only [SendKey.code] at h <;> first | rfl | omega | congr 1; omega

/-- Pack ids that can be computed: the numbers of a send in one, and its `created_at`. -/
def PackIds.paired : PackIds (ℕ ×ₗ String) where
  packId k := toLex
    (2 * Nat.pair k.campaignId (Nat.pair k.sendKey.code (Nat.pair k.contactId k.ordinal)),
      k.createdAt)
  uuid4 n := toLex (2 * n + 1, "")
  packId_injective := by
    rintro ⟨c, t, g, x, a⟩ ⟨c', t', g', x', a'⟩ h
    have hpair := toLex.injective h
    simp only [Prod.mk.injEq, Nat.mul_right_inj Nat.two_pos.ne', Nat.pair_eq_pair] at hpair
    obtain ⟨⟨rfl, hcode, rfl, rfl⟩, rfl⟩ := hpair
    rw [SendKey.code_injective hcode]
  packId_ne_uuid4 k n h := by
    have hfst : 2 * _ = 2 * n + 1 := congrArg Prod.fst (toLex.injective h)
    omega

/-- The sender of a campaign: provider key, address and name.
SOURCE: terminal/launch.py:353-370 -/
structure Sender where
  resendKey : String
  emailFrom : String
  emailFromName : String
  deriving DecidableEq, Repr

/-- A selected recipient: `contact_id`, `status`, `email` and `name`; a seed has no contact. -/
structure SendRow where
  contactId : Option ℕ
  status : RecipientStatus := .queued
  email : String
  name : String := ""
  deriving DecidableEq, Repr

/-- What the programs of a terminal are given: the pack ids, the hashes, the text of a mail
(`_render` with the compliance links, whose tokens are drawn at random), and
`PACK_PUSH_CHUNK`. -/
structure Setup (Id : Type) where
  ids : PackIds Id
  /-- the SHA-256 text of a lower-cased address -/
  emailHash : String → String
  contentHash : MailBody → String
  kTempId : KTemp → String
  compose : Campaign → Template → Sender → String → Option String → SendRow → ℕ → MailBody
  packPushChunk : ℕ
  packPushChunk_pos : 0 < packPushChunk

/-- A setup that can be computed: short texts, and chunks of one pack. -/
def Setup.plain : Setup (ℕ ×ₗ String) where
  ids := .paired
  emailHash := id
  contentHash mail := mail.subject
  kTempId _ := "k"
  compose _ _ _ _ _ r _ := ⟨"", r.email, "", "", ""⟩
  packPushChunk := 1
  packPushChunk_pos := Nat.one_pos

/-- What ends a press. The kinds are the exception classes the callers tell apart.
SOURCE: terminal/launch.py:52-70, 571-573 -/
inductive LaunchErrorKind where
  | launch
  | retryable
  | closed
  | conflict
  | push
  | other
  deriving DecidableEq, Repr

structure LaunchError where
  kind : LaunchErrorKind
  text : String
  deriving DecidableEq, Repr

/-- The acknowledgement of `POST /packs`. SOURCE: cloud/packs.py:105-106 -/
structure PushAck (Id : Type) where
  accepted : ℕ := 0
  submitted : ℕ := 0
  enqueued : ℕ := 0
  deferred : ℕ := 0
  held : List (PackOutcome Id) := []

/-- The terminal, the cloud and the requests between them. -/
structure World (Id : Type) where
  clock : ℕ := 0
  cloud : Cloud Id
  keys : KeyTable := {}
  terminal : Terminal Id
  requests : List (Actor × List (PackIn Id)) := []
  replies : ℕ → Option (PushAck Id) := fun _ => none
  chosen : List SendId := []
  reports : List KTempReport := []
  polled : List (Pack Id) := []
  recorded : List (Id × List (PackOutcome Id)) := []

/-- What the environment decides for one step. -/
structure WorldInput (Id : Type) where
  /-- the seconds that pass on the cloud clock -/
  tick : ℕ := 0
  /-- what one request on the pack table meets, the clock apart -/
  cloud : CloudInput Id := {}
  /-- the transaction, or the exchange, raises -/
  fails : Bool := false
  /-- the packs whose outcome transaction raises -/
  failing : Id → Bool := fun _ => false
  /-- a check that refuses, or an exchange that ends in an error -/
  refused : Option LaunchError := none
  /-- the text of the terminal's clock, and the second it shows -/
  nowText : String := ""
  now : Stamp := 0
  /-- random draws -/
  draw : ℕ → ℕ := id
  /-- the credentials of the campaign's company, and its name -/
  sender : Option Sender := none
  company : Option String := none
  /-- what `compute_send_ats` answers -/
  sendAts : List Stamp := []
  /-- the reads of a poll -/
  read : PollRead Id := { now := 0, lag := fun _ _ => 0, visited := fun _ => [] }

abbrev WorldProc (Id α : Type) := Proc (World Id) (WorldInput Id) α

/-- A program of the terminal: it returns or raises. -/
abbrev LaunchProc (Id α : Type) := Fallible (World Id) (WorldInput Id) LaunchError α

variable {Id : Type} [LinearOrder Id]

/-- The terminal as it is before the first send: no job is recorded, and the cloud holds no
pack. -/
def World.start (t : Terminal Id) : World Id where
  cloud := .empty
  terminal := { t with jobs := [] }

/-- A program of the pack table, on the world's clock. -/
def onCloud {α : Type} (p : CloudProc Id α) : WorldProc Id α :=
  p.zoom (·.cloud) (fun w i => { i.cloud with now := w.clock + i.tick })
    fun w i c => { w with clock := w.clock + i.tick, cloud := c }

/-- A program of the key table, on the world's clock. -/
def onKeys {α : Type} (p : KeyProc α) : WorldProc Id α :=
  p.zoom (·.keys) (fun w i => w.clock + i.tick)
    fun w i k => { w with clock := w.clock + i.tick, keys := k }

/-- One database session of the terminal: it reads and writes in one transaction, or raises. -/
def session {α : Type} (f : Terminal Id → WorldInput Id → Terminal Id × α) : LaunchProc Id α :=
  Fallible.act fun w i =>
    if i.fails then (w, .error ⟨.other, "OperationalError"⟩)
    else ({ w with terminal := (f w.terminal i).1 }, .ok (f w.terminal i).2)

/-- A session that only reads. -/
def query {α : Type} (f : Terminal Id → α) : LaunchProc Id α := session fun t _ => (t, f t)

/-- A session that only writes. -/
def commit (f : Terminal Id → WorldInput Id → Terminal Id) : LaunchProc Id Unit :=
  session fun t i => (f t i, ())

/-- A check whose verdict depends on texts and settings that are not followed here. -/
def checked : LaunchProc Id Unit :=
  Fallible.act fun w i => match i.refused with
    | some e => (w, .error e)
    | none => (w, .ok ())

/-! ## The cloud's side of a push -/

/-- A pack as `/packs` lists it under `held`. SOURCE: cloud/packs.py:101-103 -/
def Pack.outcome (p : Pack Id) : PackOutcome Id where
  packId := p.packId
  status := p.status
  resendMessageId := p.resendMessageId
  failureReason := p.failureReason

/-- The loop of `packs_push`. SOURCE: cloud/packs.py:83-104 -/
def packsPushLoop (now : Stamp) (actor : Actor) :
    List (PackIn Id) → PushAck Id → CloudProc Id (PushAck Id)
  | [], ack => pure ack
  | p :: packs, ack => do
    let inserted ← putPack p actor
    if inserted then
      packsPushLoop now actor packs
        (if p.sendAt ≤ now then
          { ack with accepted := ack.accepted + 1, enqueued := ack.enqueued + 1 }
        else { ack with accepted := ack.accepted + 1, deferred := ack.deferred + 1 })
    else do
      let cur ← getPack p.packId
      packsPushLoop now actor packs
        { ack with held := ack.held ++ (cur.map Pack.outcome).toList }

/-- `packs_push`. SOURCE: cloud/packs.py:67-106 -/
def packsPush (actor : Actor) (packs : List (PackIn Id)) : CloudProc Id (PushAck Id) := do
  let now ← Proc.get fun _ i => i.now
  packsPushLoop now actor packs { submitted := packs.length }

/-- The cloud serves a request it has received, and answers. -/
def servePush (request : ℕ) : WorldProc Id Unit := do
  let body ← Proc.get fun w _ => w.requests[request]?
  match body with
  | none => pure ()
  | some (actor, packs) => do
    let ack ← onCloud (packsPush actor packs)
    Proc.modify fun w _ => { w with replies := Function.update w.replies request (some ack) }

/-! ## The terminal's side of a push -/

/-- A job as `_build_pack` returns it beside the pack. SOURCE: terminal/launch.py:733-735 -/
structure JobIn (Id : Type) where
  packId : Id
  contactId : Option ℕ
  recipientHash : String
  contentHash : String
  sendAt : Stamp
  isSeed : Bool
  deriving DecidableEq

/-- One `POST /packs` of the terminal: the request leaves, and later there is a reply, an
error, or nothing. -/
def postPacks (actor : Actor) (part : List (PackIn Id)) : LaunchProc Id (PushAck Id) := do
  let request ← Fallible.act fun w _ =>
    ({ w with requests := w.requests ++ [(actor, part)] }, .ok w.requests.length)
  Fallible.act fun w i =>
    (w, match i.refused, w.replies request with
      | some e, _ => .error e
      | none, some ack => .ok ack
      | none, none => .error ⟨.other, "ReadTimeout"⟩)

/-- How `_push_packs` ends when it does not raise: with the ack of every chunk, or, as
`_PushInterrupted`, with the error, the number of packs acknowledged before it and what the
cloud held of them. SOURCE: terminal/launch.py:739-744, 772-799 -/
inductive Pushed (Id : Type) where
  | done (ack : PushAck Id)
  | interrupted (error : LaunchError) (pushed : ℕ) (held : List (PackOutcome Id))

/-- `agg[k] += j.get(k, 0)` and `agg["held"].extend(...)`. -/
def PushAck.add (agg j : PushAck Id) : PushAck Id where
  accepted := agg.accepted + j.accepted
  submitted := agg.submitted + j.submitted
  enqueued := agg.enqueued + j.enqueued
  deferred := agg.deferred + j.deferred
  held := agg.held ++ j.held

/-- The loop of `_push_packs` over the chunks. -/
def pushParts (actor : Actor) :
    List (List (PackIn Id)) → ℕ → PushAck Id → LaunchProc Id (Pushed Id)
  | [], _, agg => pure (.done agg)
  | part :: parts, pushed, agg => do
    let reply ← (postPacks actor part).attempt
    match reply with
    | .ok ack => pushParts actor parts (pushed + part.length) (agg.add ack)
    | .error e => if 0 < pushed then pure (.interrupted e pushed agg.held) else throw e

/-- `xs[i:i + size]` for every `i` in `range(0, len(xs), size)`; the first argument is
`len(xs)`. -/
def sliceBy {α : Type} (size : ℕ) : ℕ → List α → List (List α)
  | 0, _ => []
  | _, [] => []
  | fuel + 1, xs => xs.take size :: sliceBy size fuel (xs.drop size)

/-- `_push_packs`. SOURCE: terminal/launch.py:772-799 -/
def pushPacks (env : Setup Id) (actor : Actor) (packs : List (PackIn Id)) :
    LaunchProc Id (Pushed Id) :=
  pushParts actor (sliceBy env.packPushChunk packs.length packs) 0 {}

/-- One job of `_record_dispatch`: the insert fails on a job id that is there already, and
seeds have no job. SOURCE: terminal/launch.py:808-823 -/
def Terminal.recordJob (campaignId : ℕ) (nowText : String) (t : Terminal Id) (j : JobIn Id) :
    Option (Terminal Id) :=
  match j.contactId with
  | none => some t
  | some contactId =>
    if j.isSeed then some t
    else if (t.job? j.packId).isSome then none
    else
      let job : Job Id :=
        { jobId := j.packId, campaignId := campaignId, recipientId := contactId
          recipientHash := j.recipientHash, contentHash := j.contentHash }
      some ({ t with jobs := t.jobs ++ [job] }.updateRecipients campaignId
        (·.contactId = contactId) fun r => { r with status := .sent, sentAt := some nowText })

/-- `_record_dispatch`, one transaction; `held` is the acknowledgement it runs under, which
only the history keeps. SOURCE: terminal/launch.py:802-823 -/
def recordDispatch (campaignId : ℕ) (jobs : List (JobIn Id)) (held : List (PackOutcome Id)) :
    LaunchProc Id Unit :=
  Fallible.act fun w i =>
    if i.fails then (w, .error ⟨.other, "OperationalError"⟩)
    else match jobs.foldlM (Terminal.recordJob campaignId i.nowText) w.terminal with
      | none => (w, .error ⟨.other, "IntegrityError"⟩)
      | some t =>
        ({ w with
            terminal := t
            recorded := (jobs.filter fun j => j.contactId.isSome && !j.isSeed).map
              (fun j => (j.packId, held)) ++ w.recorded }, .ok ())

/-- `_apply_pack_outcome` as a transaction of its own, which may raise. -/
def applyOutcome (p : PackOutcome Id) : LaunchProc Id Unit :=
  Fallible.act fun w i =>
    if i.failing p.packId then (w, .error ⟨.other, "OperationalError"⟩)
    else ({ w with terminal :=
        { w.terminal with toDb := applyPackOutcome i.nowText w.terminal.toDb p } }, .ok ())

/-- The loop of `_apply_held_outcomes`: one failure does not stop the rest.
SOURCE: terminal/launch.py:827-841 -/
def applyHeldOutcomes : List (PackOutcome Id) → LaunchProc Id Unit
  | [] => pure ()
  | p :: held => do
    if p.status.resolved then
      let _ ← (applyOutcome p).attempt
      applyHeldOutcomes held
    else applyHeldOutcomes held

/-- Recording and the held outcomes, which the event loop runs without a break. `turn` says
what else may come in between: what other threads commit (`id`). -/
def recordAndApply (turn : LaunchProc Id Unit → LaunchProc Id Unit) (campaignId : ℕ)
    (jobs : List (JobIn Id)) (held : List (PackOutcome Id)) : LaunchProc Id Unit :=
  turn do
    recordDispatch campaignId jobs held
    applyHeldOutcomes held

/-- `_PUSHING[campaign_id] += n`. -/
def countPush (campaignId : ℕ) (f : ℕ → ℕ) : LaunchProc Id Unit :=
  Fallible.lift (Proc.modify fun w _ => { w with terminal :=
    { w.terminal with
      pushing := Function.update w.terminal.pushing campaignId (f (w.terminal.pushing campaignId)) } })

/-- `_push_and_record`. SOURCE: terminal/launch.py:844-882 -/
def pushAndRecord (env : Setup Id) (turn : LaunchProc Id Unit → LaunchProc Id Unit) (actor : Actor)
    (campaignId : ℕ) (packs : List (PackIn Id)) (jobs : List (JobIn Id)) :
    LaunchProc Id (PushAck Id) := do
  countPush campaignId (· + 1)
  let result ← Fallible.attempt do
    let pushed ← pushPacks env actor packs
    match pushed with
    | .interrupted error n held => do
      -- what the cloud acknowledged is recorded, and the error stands
      let _ ← (recordAndApply turn campaignId (jobs.take n) held).attempt
      throw error
    | .done ack => do
      recordAndApply turn campaignId jobs ack.held
      pure { ack with held := [] }
  countPush campaignId (· - 1)
  match result with
  | .ok ack => pure ack
  | .error e => throw e

end Mailman.Model
