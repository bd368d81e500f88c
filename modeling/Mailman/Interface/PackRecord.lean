import Mailman.Interface.PackLife

/-!
# The record of one pack

`PackWrite` is everything one request may write of a pack, field by field, with no look at
who may write when; `Life` says that. `PackHistory` is what the versions of a pack, newest
first, always satisfy, and `PackWrite.history` its step lemma.
-/

set_option autoImplicit false

namespace Mailman.Interface

open Mailman.Library Mailman.Model

variable {Id : Type}

/-- What one request at second `now` writes of the versions of pack `id`. -/
inductive PackWrite (id : Id) (now : Stamp) : List (Pack Id) → List (Pack Id) → Prop where
  | same (l) : PackWrite id now l l
  | put (p : PackIn Id) (pushedBy : Actor) (h : p.packId = id) :
      PackWrite id now [] [p.item pushedBy now]
  | claim (v l) (h : v.status = .pending) :
      PackWrite id now (v :: l) ({ v with status := .claimed, claimedAt := some now } :: v :: l)
  | cancel (v l) (h : v.status = .pending) :
      PackWrite id now (v :: l)
        ({ v with status := .cancelled, encryptedPayload := none, resolvedAt := some now } ::
          v :: l)
  | expire (v l) (h : v.status = .claimed) :
      PackWrite id now (v :: l)
        ({ v with status := .unknown, failureReason := some (staleClaimReason v.claimedAt)
                  encryptedPayload := none, resolvedAt := some now } :: v :: l)
  | stuck (v l reason) :
      PackWrite id now (v :: l)
        ({ v with status := .stuckNoKey, failureReason := reason, resolvedAt := some now } ::
          v :: l)
  | fail (v l reason) :
      PackWrite id now (v :: l)
        ({ v with status := .failed, failureReason := reason, encryptedPayload := none
                  resolvedAt := some now } :: v :: l)
  | finalize (v l st msgId reason) (h : st = .unknown ∨ st = .failed ∨ st = .sent) :
      PackWrite id now (v :: l)
        ({ v with status := st, sentAt := if st = .sent then some now else none
                  resendMessageId := msgId, failureReason := reason, encryptedPayload := none
                  resolvedAt := some now } :: v :: l)

/-- No write changes what the pack is, and none takes a version back. -/
theorem PackWrite.sameItem {id : Id} {now : Stamp} {l l' : List (Pack Id)}
    (h : PackWrite id now l l') : l' = l ∨
    (∃ p pushedBy, p.packId = id ∧ l = [] ∧ l' = [PackIn.item p pushedBy now]) ∨
    ∃ v v' l₀, l = v :: l₀ ∧ l' = v' :: v :: l₀ ∧ v'.packId = v.packId ∧
      v'.campaignId = v.campaignId ∧ v'.pushedBy = v.pushedBy := by
  cases h with
  | same => exact .inl rfl
  | put p pushedBy h => exact .inr (.inl ⟨p, pushedBy, h, rfl, rfl⟩)
  | claim v l | cancel v l | expire v l | stuck v l | fail v l | finalize v l =>
    exact .inr (.inr ⟨v, _, l, rfl, rfl, rfl, rfl, rfl⟩)

/-- A write keeps the versions. -/
theorem PackWrite.mem {id : Id} {now : Stamp} {l l' : List (Pack Id)} (h : PackWrite id now l l')
    {v : Pack Id} (hv : v ∈ l) : v ∈ l' := by
  rcases h.sameItem with rfl | ⟨_, _, _, rfl, -⟩ | ⟨w, w', l₀, rfl, rfl, -⟩
  · exact hv
  · cases hv
  · exact List.mem_cons_of_mem _ hv

/-- The versions of a pack are filed under its id and are of one campaign. -/
def OneCampaign (id : Id) (l : List (Pack Id)) : Prop :=
  ∀ u ∈ l, u.packId = id ∧ ∀ v ∈ l, v.campaignId = u.campaignId

/-- A write keeps the versions in one campaign. -/
theorem PackWrite.oneCampaign {id : Id} {now : Stamp} {l l' : List (Pack Id)}
    (h : PackWrite id now l l') (hl : OneCampaign id l) : OneCampaign id l' := by
  rcases h.sameItem with rfl | ⟨p, a, hid, rfl, rfl⟩ | ⟨w, w', l₀, rfl, rfl, hpack, hcamp, -⟩
  · exact hl
  · intro u hu
    obtain rfl := List.mem_singleton.mp hu
    refine ⟨hid, fun v hv => ?_⟩
    rw [List.mem_singleton.mp hv]
  · have hw := List.mem_cons_self (a := w) (l := l₀)
    -- the new version is of the campaign of the one it was written over
    have hold : ∀ u ∈ w' :: w :: l₀, u.packId = id ∧ u.campaignId = w.campaignId := by
      intro u hu
      rcases List.mem_cons.mp hu with rfl | hu
      · exact ⟨hpack.trans (hl w hw).1, hcamp⟩
      · exact ⟨(hl u hu).1, (hl w hw).2 u hu⟩
    exact fun u hu => ⟨(hold u hu).1, fun v hv => (hold v hv).2.trans (hold u hu).2.symm⟩

/-- The versions of a pack have one `send_at`. -/
def OneSendAt (l : List (Pack Id)) : Prop := ∀ u ∈ l, ∀ v ∈ l, u.sendAt = v.sendAt

/-- One more version with the same time. -/
theorem OneSendAt.cons {v v' : Pack Id} {l : List (Pack Id)} (hl : OneSendAt (v :: l))
    (h : v'.sendAt = v.sendAt) : OneSendAt (v' :: v :: l) := by
  have hold : ∀ u ∈ v' :: v :: l, u.sendAt = v.sendAt := by
    intro u hu
    rcases List.mem_cons.mp hu with rfl | hu
    · exact h
    · exact hl u hu v (List.mem_cons_self ..)
  exact fun u hu u' hu' => (hold u hu).trans (hold u' hu').symm

/-- A write keeps the time of all versions. -/
theorem PackWrite.oneSendAt {id : Id} {now : Stamp} {l l' : List (Pack Id)}
    (h : PackWrite id now l l') (hl : OneSendAt l) : OneSendAt l' := by
  cases h with
  | same => exact hl
  | put p pushedBy _ =>
    intro u hu v hv
    rw [List.mem_singleton.mp hu, List.mem_singleton.mp hv]
  | claim | cancel | expire | stuck | fail | finalize => exact hl.cons rfl

/-- A pack is resolved exactly in the five resolved statuses. -/
theorem resolved_iff (st : PackStatus) :
    st.resolved = true ↔ st ≠ .pending ∧ st ≠ .claimed := by
  cases st <;> decide

/-- What the newest version `v` of a pack owes to the version `first` that `put_pack` stored
and to the question whether the pack was ever claimed. -/
structure RecordOk (first v : Pack Id) (claimed : Prop) : Prop where
  resolved : v.resolvedAt ≠ none ↔ v.status.resolved = true
  kept : v.status = .pending ∨ v.status = .claimed → v.encryptedPayload = first.encryptedPayload
  gone : v.status = .sent ∨ v.status = .failed ∨ v.status = .cancelled ∨ v.status = .unknown →
    v.encryptedPayload = none
  sent : v.sentAt ≠ none ↔ v.status = .sent
  claimed : v.claimedAt = none ↔ ¬ claimed

/-- The versions of a stored pack, newest first. -/
structure PackHistory (l : List (Pack Id)) : Prop where
  put : ∃ p pushedBy now, l.getLast? = some (PackIn.item p pushedBy now)
  record : ∀ first v, l.getLast? = some first → l.head? = some v →
    RecordOk first v (∃ u ∈ l, u.status = .claimed)

/-- A sent pack has no other write. -/
def SentStays (l l' : List (Pack Id)) : Prop :=
  ∀ v, l.head? = some v → v.status = .sent → ∃ v', l'.head? = some v' ∧ v'.status = .sent

/-- A pack that is not sent after a write was not sent before it. -/
theorem SentStays.not_sent {v v' : Pack Id} {l l' : List (Pack Id)} (h : SentStays (v :: l) l')
    (hv' : l'.head? = some v') (hne : v'.status ≠ .sent) : v.status ≠ .sent := by
  intro hst
  obtain ⟨w, hw, hsent⟩ := h v rfl hst
  rw [hv'] at hw
  cases hw
  exact hne hsent

/-- A pushed pack has a history of one version. -/
theorem packHistory_put (p : PackIn Id) (pushedBy : Actor) (now : Stamp) :
    PackHistory [p.item pushedBy now] := by
  refine ⟨⟨p, pushedBy, now, rfl⟩, fun first v hfirst hv => ?_⟩
  cases hfirst
  cases hv
  constructor <;> simp [PackIn.item, PackStatus.resolved, resolvedPackStatuses]

/-- A write on top of version `v` keeps the history if it keeps the record. -/
theorem PackHistory.cons {v v' : Pack Id} {l : List (Pack Id)} (h : PackHistory (v :: l))
    (hv' : ∀ first, RecordOk first v (∃ u ∈ v :: l, u.status = .claimed) →
      RecordOk first v' (∃ u ∈ v' :: v :: l, u.status = .claimed)) :
    PackHistory (v' :: v :: l) := by
  obtain ⟨p, pushedBy, now, hlast⟩ := h.put
  have hsame : (v' :: v :: l).getLast? = (v :: l).getLast? := List.getLast?_cons_cons
  refine ⟨⟨p, pushedBy, now, hsame.trans hlast⟩, fun first w hfirst hw => ?_⟩
  cases hw
  exact hv' first (h.record first v (hsame.symm.trans hfirst) rfl)

/-- Only a sent pack has a `sent_at`. -/
theorem RecordOk.sentAt {first v : Pack Id} {claimed : Prop} (h : RecordOk first v claimed)
    (hne : v.status ≠ .sent) : v.sentAt = none := by
  by_contra hat
  exact hne (h.sent.mp hat)

/-- A resolving write keeps the record, unless it takes a sent pack back. -/
theorem RecordOk.resolve {first v v' : Pack Id} {l : List (Pack Id)}
    (h : RecordOk first v (∃ u ∈ v :: l, u.status = .claimed))
    (hres : v'.status.resolved = true) (hat : v'.resolvedAt ≠ none)
    (hpayload : v'.status ≠ .stuckNoKey → v'.encryptedPayload = none)
    (hsent : v'.sentAt ≠ none ↔ v'.status = .sent) (hclaimed : v'.claimedAt = v.claimedAt) :
    RecordOk first v' (∃ u ∈ v' :: v :: l, u.status = .claimed) := by
  have hne := (resolved_iff v'.status).mp hres
  refine ⟨by simp [hat, hres], fun hst => ?_, fun hst => hpayload ?_, hsent, ?_⟩
  · rcases hst with hst | hst
    · exact absurd hst hne.1
    · exact absurd hst hne.2
  · rcases hst with hst | hst | hst | hst <;> rw [hst] <;> decide
  · rw [hclaimed, h.claimed]
    simp [hne.2]

/-- **Every write keeps the history of a pack.** -/
theorem PackWrite.history {id : Id} {now : Stamp} {l l' : List (Pack Id)}
    (h : PackWrite id now l l') (hsent : SentStays l l') (hl : l = [] ∨ PackHistory l) :
    l' = [] ∨ PackHistory l' := by
  have hold : ∀ v l₀, l = v :: l₀ → PackHistory (v :: l₀) := by
    intro v l₀ heq
    subst heq
    exact hl.resolve_left (List.cons_ne_nil _ _)
  cases h with
  | same => exact hl
  | put p pushedBy hp => exact .inr (packHistory_put p pushedBy now)
  | claim v l₀ hst =>
    refine .inr ((hold v l₀ rfl).cons fun first hv => ?_)
    have hnone : v.resolvedAt = none := by
      by_contra hne
      have := hv.resolved.mp hne
      rw [hst] at this
      cases this
    refine ⟨?_, fun _ => hv.kept (.inl hst), by simp, ?_, by simp⟩
    · simp [hnone, PackStatus.resolved, resolvedPackStatuses]
    · have hat := hv.sentAt (by rw [hst]; decide)
      simp [hat]
  | cancel v l₀ hst =>
    refine .inr ((hold v l₀ rfl).cons fun first hv => ?_)
    refine hv.resolve (by simp [PackStatus.resolved, resolvedPackStatuses]) (by simp)
      (fun _ => rfl) ?_ rfl
    have hat := hv.sentAt (by rw [hst]; decide)
    simp [hat]
  | expire v l₀ hst =>
    refine .inr ((hold v l₀ rfl).cons fun first hv => ?_)
    refine hv.resolve (by simp [PackStatus.resolved, resolvedPackStatuses]) (by simp)
      (fun _ => rfl) ?_ rfl
    have hat := hv.sentAt (by rw [hst]; decide)
    simp [hat]
  | stuck v l₀ reason =>
    refine .inr ((hold v l₀ rfl).cons fun first hv => ?_)
    refine hv.resolve (by simp [PackStatus.resolved, resolvedPackStatuses]) (by simp)
      (fun hne => absurd rfl hne) ?_ rfl
    have hat := hv.sentAt (hsent.not_sent rfl (by simp))
    simp [hat]
  | fail v l₀ reason =>
    refine .inr ((hold v l₀ rfl).cons fun first hv => ?_)
    refine hv.resolve (by simp [PackStatus.resolved, resolvedPackStatuses]) (by simp)
      (fun _ => rfl) ?_ rfl
    have hat := hv.sentAt (hsent.not_sent rfl (by simp))
    simp [hat]
  | finalize v l₀ st msgId reason hst =>
    refine .inr ((hold v l₀ rfl).cons fun first hv => ?_)
    refine hv.resolve ?_ (by simp) (fun _ => rfl) ?_ rfl
    · rcases hst with rfl | rfl | rfl <;> rfl
    · rcases hst with rfl | rfl | rfl <;> simp

end Mailman.Interface
