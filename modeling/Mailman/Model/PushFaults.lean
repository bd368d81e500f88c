import Mailman.Model.Presses

/-!
# A push and its faults

`_push_and_record` as a whole: its chunks one after another, each answered or ended by an error
after the cloud has stored some of it, and the local transaction that follows, which may raise.
What the cloud does with a chunk is `packs_push` on the packs that it gets to, and the recording is
that of `Terminal.recordJob`. Between two attempts everything else of the system may move.
-/

set_option autoImplicit false

namespace Mailman.Model

open Mailman.Library

variable {Id : Type} [LinearOrder Id]

/-- How the request of a chunk ends. A refusal before or after part of it is stored and an answer
that is lost are all of the second kind. -/
inductive ChunkFate where
  | answered
  /-- the cloud has stored the first packs of the chunk, and the terminal sees an error -/
  | raised (stored : ℕ) (error : LaunchError)
  deriving DecidableEq, Repr

/-- What an attempt meets: the fate of each chunk, the cloud's clock and its reads, whether the
transaction of `_record_dispatch` raises, and the held outcomes whose transaction does. -/
structure PushFaults (Id : Type) where
  fate : ℕ → ChunkFate := fun _ => .answered
  cloud : CloudInput Id := {}
  recordFails : Bool := false
  failing : Id → Bool := fun _ => false
  nowText : String := ""

/-- The packs of the cloud and the terminal. -/
structure PushDesk (Id : Type) where
  cloud : Cloud Id
  terminal : Terminal Id

/-- The loop of `_push_packs`, from the `n`-th on: the cloud that it leaves, and
how it ends. SOURCE: terminal/launch.py:772-799 -/
def pushChunks (actor : Actor) (faults : PushFaults Id) :
    ℕ → List (List (PackIn Id)) → ℕ → PushAck Id → Cloud Id →
      Cloud Id × Except LaunchError (Pushed Id)
  | _, [], _, agg, c => (c, .ok (.done agg))
  | n, part :: parts, pushed, agg, c =>
    match faults.fate n with
    | .answered =>
      let served := (packsPush actor part).result c faults.cloud
      pushChunks actor faults (n + 1) parts (pushed + part.length) (agg.add served.2) served.1
    | .raised stored e =>
      (((packsPush actor (part.take stored)).result c faults.cloud).1,
        if 0 < pushed then .ok (.interrupted e pushed agg.held) else .error e)

/-- `_record_dispatch`. SOURCE: terminal/launch.py:802-823 -/
def recordNow (faults : PushFaults Id) (campaignId : ℕ) (jobs : List (JobIn Id))
    (t : Terminal Id) : Except LaunchError (Terminal Id) :=
  if faults.recordFails then .error ⟨.other, "OperationalError"⟩
  else match jobs.foldlM (Terminal.recordJob campaignId faults.nowText) t with
    | none => .error ⟨.other, "IntegrityError"⟩
    | some t => .ok t

/-- `_apply_held_outcomes`. SOURCE: terminal/launch.py:826-841 -/
def applyHeldNow (faults : PushFaults Id) (held : List (PackOutcome Id)) (t : Terminal Id) :
    Terminal Id :=
  held.foldl (fun t p =>
    if p.status.resolved && !faults.failing p.packId then
      { t with toDb := applyPackOutcome faults.nowText t.toDb p }
    else t) t

/-- Recording, and then the held outcomes. -/
def recordHeldNow (faults : PushFaults Id) (campaignId : ℕ) (jobs : List (JobIn Id))
    (held : List (PackOutcome Id)) (t : Terminal Id) : Except LaunchError (Terminal Id) :=
  (recordNow faults campaignId jobs t).map (applyHeldNow faults held)

/-- `_PUSHING[campaign_id] += n`. -/
def Terminal.countPushing (campaignId : ℕ) (f : ℕ → ℕ) (t : Terminal Id) : Terminal Id :=
  { t with pushing := Function.update t.pushing campaignId (f (t.pushing campaignId)) }

/-- The jobs that are recorded after the push, and the packs that the cloud had already. -/
def recordOf (jobs : List (JobIn Id)) :
    Except LaunchError (Pushed Id) → List (JobIn Id) × List (PackOutcome Id)
  | .error _ => ([], [])
  | .ok (.interrupted _ n held) => (jobs.take n, held)
  | .ok (.done ack) => (jobs, ack.held)

/-- What follows the push: what was acknowledged is recorded, and the error of the push stands.
SOURCE: terminal/launch.py:852-882 -/
def settlePush (faults : PushFaults Id) (campaignId : ℕ) (jobs : List (JobIn Id))
    (t : Terminal Id) : Except LaunchError (Pushed Id) →
      Terminal Id × Except LaunchError (PushAck Id)
  | .error e => (t, .error e)
  | .ok (.interrupted e n held) =>
    match recordHeldNow faults campaignId (jobs.take n) held t with
    | .ok t => (t, .error e)
    | .error _ => (t, .error e)
  | .ok (.done ack) =>
    match recordHeldNow faults campaignId jobs ack.held t with
    | .ok t => (t, .ok { ack with held := [] })
    | .error e => (t, .error e)

/-- `_push_packs`. SOURCE: terminal/launch.py:772-799 -/
def pushAll (env : Setup Id) (faults : PushFaults Id) (actor : Actor) (packs : List (PackIn Id))
    (c : Cloud Id) : Cloud Id × Except LaunchError (Pushed Id) :=
  pushChunks actor faults 0 (sliceBy env.packPushChunk packs.length packs) 0 {} c

/-- `_push_and_record` of packs and their jobs. SOURCE: terminal/launch.py:844-882 -/
def pushAttempt (env : Setup Id) (faults : PushFaults Id) (actor : Actor) (campaignId : ℕ)
    (built : List (PackIn Id × JobIn Id)) (d : PushDesk Id) :
    PushDesk Id × Except LaunchError (PushAck Id) :=
  let pushed := pushAll env faults actor (built.map (·.1)) d.cloud
  let settled := settlePush faults campaignId (built.map (·.2))
    (d.terminal.countPushing campaignId (· + 1)) pushed.2
  (⟨pushed.1, settled.1.countPushing campaignId (· - 1)⟩, settled.2)

/-- The same faults up to chunk `n`, which is cut after `stored` of its packs. -/
def PushFaults.cutAt (faults : PushFaults Id) (n stored : ℕ) : PushFaults Id :=
  { faults with fate := fun m => if m < n then faults.fate m else .raised stored ⟨.other, ""⟩ }

/-- The moments of an attempt: some packs are stored, then the jobs are recorded, and then the
held outcomes are applied one after another. -/
inductive PushMoment (env : Setup Id) (faults : PushFaults Id) (actor : Actor) (campaignId : ℕ)
    (built : List (PackIn Id × JobIn Id)) (d : PushDesk Id) : PushDesk Id → Prop where
  | pushing (n stored : ℕ) : PushMoment env faults actor campaignId built d
      ⟨(pushAll env (faults.cutAt n stored) actor (built.map (·.1)) d.cloud).1,
        d.terminal.countPushing campaignId (· + 1)⟩
  | recording (n : ℕ) (t : Terminal Id)
      (h : recordNow faults campaignId
        (recordOf (built.map (·.2)) (pushAll env faults actor (built.map (·.1)) d.cloud).2).1
        (d.terminal.countPushing campaignId (· + 1)) = .ok t) :
      PushMoment env faults actor campaignId built d
        ⟨(pushAll env faults actor (built.map (·.1)) d.cloud).1,
          applyHeldNow faults ((recordOf (built.map (·.2))
            (pushAll env faults actor (built.map (·.1)) d.cloud).2).2.take n) t⟩
  | returned : PushMoment env faults actor campaignId built d
      (pushAttempt env faults actor campaignId built d).1

/-! ## The attempts of one generation -/

/-- A generation of a campaign: the arguments of its pack ids, and which recipients it selects. -/
structure Generation where
  campaignId : ℕ
  createdAt : String
  kind : SendKind
  sendKey : SendKey
  selects : Recipient → Bool

/-- The remaining candidates. -/
def Generation.candidates (g : Generation) (t : Terminal Id) : List Candidate :=
  t.candidates g.campaignId g.selects

/-- `_plan_sends` over the remaining candidates. SOURCE: terminal/launch.py:541-568 -/
def Generation.plan (env : Setup Id) (g : Generation) (t : Terminal Id) :
    Except LaunchError SendPlan :=
  (g.candidates t).foldlM (planSend env g.campaignId g.createdAt g.sendKey
    (suppressedMap g.kind t.suppressions) (t.jobs.filter (·.campaignId = g.campaignId))) {}

/-- The id of a contact's pack. -/
def Generation.sendId (g : Generation) (contactId ordinal : ℕ) : SendId :=
  ⟨g.campaignId, g.createdAt, g.sendKey, contactId, ordinal⟩

/-- An attempt: who pushes, the context, the packs to build with their draws, and what it meets. -/
structure PushTry (Id : Type) where
  actor : Actor
  ctx : SendCtx
  targets : List Target
  draw : ℕ → ℕ
  faults : PushFaults Id

/-- The targets of an attempt are the sends of a plan, with any seeds among them. -/
structure PushTry.Builds (a : PushTry Id) (plan : SendPlan) : Prop where
  sends : a.targets.filterMap (·.send) = plan.sends.map (·.2)
  rows : ∀ t ∈ a.targets, ∀ k, t.send = some k → t.row.contactId = some k.contactId

/-- The attempt is of a fresh plan for the remaining candidates. -/
def PushTry.Fresh (env : Setup Id) (g : Generation) (a : PushTry Id) (d : PushDesk Id) : Prop :=
  ∃ plan, g.plan env d.terminal = .ok plan ∧ a.Builds plan

/-- The packs and jobs of an attempt. -/
def PushTry.built (env : Setup Id) (a : PushTry Id) : List (PackIn Id × JobIn Id) :=
  buildPacks env a.ctx a.targets a.draw

def PushTry.run (env : Setup Id) (g : Generation) (a : PushTry Id) (d : PushDesk Id) :
    PushDesk Id × Except LaunchError (PushAck Id) :=
  pushAttempt env a.faults a.actor g.campaignId (a.built env) d

end Mailman.Model
