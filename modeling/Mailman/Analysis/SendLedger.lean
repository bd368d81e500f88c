import Mailman.Analysis.DispatcherSafe
import Mailman.Model.Presses

/-!
# The ledger of sends

What the terminal and the cloud owe each other while sends are planned, pushed, recorded
and resolved (`Ledger`), and what only grows (`Onward`). A pack enters the cloud only in a
request, a request holds only chosen sends, and a send is chosen only when every earlier
ordinal of the same contact and generation is gone. `Ledger.extend` is the one step lemma:
it asks of a step only what it adds.
-/

set_option autoImplicit false

namespace Mailman.Analysis

open Mailman.Library Mailman.Model Mailman.Interface

variable {Id : Type} [LinearOrder Id]

/-- The cloud holds the pack. -/
def Stored (s : Cloud Id) (id : Id) : Prop := s.status id ≠ none

/-- The cloud holds the pack with a status that lets the operator mail again. -/
def Gone (s : Cloud Id) (id : Id) : Prop := ∃ st, Dead st ∧ s.status id = some st

/-- A dead status that an outcome reports is the pack's status. -/
def Truthful (s : Cloud Id) (o : PackOutcome Id) : Prop :=
  Dead o.status → s.status o.packId = some o.status

/-- `created_at` of a campaign. -/
def createdAt? (w : World Id) (campaignId : ℕ) : Option String :=
  (w.terminal.campaign? campaignId).map (·.createdAt)

/-- The pack is no planned send, or one that has been chosen. -/
def Planned (env : Setup Id) (w : World Id) (id : Id) : Prop :=
  ∀ k, id = env.ids.packId k → k ∈ w.chosen

/-- Every earlier ordinal of the same contact and generation is gone. -/
def EarlierGone (env : Setup Id) (s : Cloud Id) (k : SendId) : Prop :=
  ∀ a < k.ordinal, Gone s (env.ids.packId { k with ordinal := a })

/-- The cloud has reported the K_temp of that name. -/
def KeyReported (w : World Id) (keyId : String) : Prop :=
  ∃ r ∈ w.reports, keyId = "K_temp_" ++ r.keyId

/-- A key lives for one of the accepted times from the moment it was set. -/
structure KTempItem.Bounded (item : KTempItem) : Prop where
  ttl : item.ttlSeconds ∈ validTtls
  expires : item.expiresAt = item.setAt + item.ttlSeconds

/-- A report of a key that had not expired. -/
structure KTempReport.Bounded (r : KTempReport) : Prop where
  ttl : r.ttlSeconds ∈ validTtls
  expires : r.expiresAt = r.setAt + r.ttlSeconds
  alive : (r.reportedAt : ℤ) ≤ r.expiresAt

/-- Every key item is filed under its own id and has a bounded life. -/
def KeysOk (keys : KeyTable) : Prop :=
  ∀ kid item, keys.items kid = some item → item.keyId = kid ∧ KTempItem.Bounded item

/-- What a reply to a request promises. -/
structure Answered (s : Cloud Id) (packs : List (PackIn Id)) (ack : PushAck Id) : Prop where
  stored : ∀ p ∈ packs, Stored s p.packId
  held : ∀ o ∈ ack.held, Truthful s o

/-- What a recorded job promises. -/
structure JobOk (s : Cloud Id) (j : Job Id) : Prop where
  stored : Stored s j.jobId
  retryable : j.status.retryable = true → Gone s j.jobId

/-- What a request promises. -/
structure RequestOk (env : Setup Id) (w : World Id) (p : PackIn Id) : Prop where
  planned : Planned env w p.packId
  key : KeyReported w p.keyId

/-- What a chosen send promises. -/
structure ChosenOk (env : Setup Id) (w : World Id) (k : SendId) : Prop where
  created : createdAt? w k.campaignId = some k.createdAt
  before : EarlierGone env w.cloud k

/-- The promises of all parties. -/
structure Ledger (env : Setup Id) (w : World Id) : Prop where
  stored : ∀ id, Stored w.cloud id → Planned env w id
  chosen : ∀ k ∈ w.chosen, ChosenOk env w k
  requests : ∀ r ∈ w.requests, ∀ p ∈ r.2, RequestOk env w p
  replies : ∀ n ack, w.replies n = some ack →
    ∃ r, w.requests[n]? = some r ∧ Answered w.cloud r.2 ack
  jobs : ∀ j ∈ w.terminal.jobs, JobOk w.cloud j
  reports : ∀ r ∈ w.reports, KTempReport.Bounded r
  keys : KeysOk w.keys

/-- What two moments of a run have to do with each other. -/
structure Onward (s t : World Id) : Prop where
  lives : CloudLater s.cloud t.cloud
  chosen : s.chosen ⊆ t.chosen
  requests : s.requests <+: t.requests
  reports : s.reports ⊆ t.reports
  created : ∀ c x, createdAt? s c = some x → createdAt? t c = some x

/-- A world follows itself. -/
theorem Onward.refl (s : World Id) : Onward s s :=
  ⟨.refl _, List.Subset.refl _, List.prefix_rfl, List.Subset.refl _, fun _ _ h => h⟩

/-- Onward is transitive. -/
theorem Onward.trans {s t u : World Id} (h : Onward s t) (h' : Onward t u) : Onward s u where
  lives := h.lives.trans h'.lives
  chosen := fun _ hk => h'.chosen (h.chosen hk)
  requests := h.requests.trans h'.requests
  reports := fun _ hr => h'.reports (h.reports hr)
  created c x hx := h'.created c x (h.created c x hx)

/-! ## What stays true -/

/-- A stored pack stays stored. -/
theorem Stored.later {s t : Cloud Id} {id : Id} (h : Stored s id) (hst : CloudLater s t) :
    Stored t id := (hst id).stored h

/-- A dead status stays. -/
theorem status_of_dead {s t : Cloud Id} {id : Id} {st : PackStatus} (hd : Dead st)
    (h : s.status id = some st) (hst : CloudLater s t) : t.status id = some st := by
  have hlife := (hst id).dead st hd h
  exact (congrArg Life.status hlife).trans h

/-- A pack that is gone stays gone. -/
theorem Gone.later {s t : Cloud Id} {id : Id} (h : Gone s id) (hst : CloudLater s t) :
    Gone t id := by
  obtain ⟨st, hd, hs⟩ := h
  exact ⟨st, hd, status_of_dead hd hs hst⟩

/-- A true outcome stays true. -/
theorem Truthful.later {s t : Cloud Id} {o : PackOutcome Id} (h : Truthful s o)
    (hst : CloudLater s t) : Truthful t o := fun hd => status_of_dead hd (h hd) hst

/-- An answer stays true. -/
theorem Answered.later {s t : Cloud Id} {packs : List (PackIn Id)} {ack : PushAck Id}
    (h : Answered s packs ack) (hst : CloudLater s t) : Answered t packs ack :=
  ⟨fun p hp => (h.stored p hp).later hst, fun o ho => (h.held o ho).later hst⟩

/-- A good job stays good. -/
theorem JobOk.later {s t : Cloud Id} {j : Job Id} (h : JobOk s j) (hst : CloudLater s t) :
    JobOk t j := ⟨h.stored.later hst, fun hr => (h.retryable hr).later hst⟩

section onward

variable {env : Setup Id} {s t : World Id}

/-- A planned send stays planned. -/
theorem Planned.onward {id : Id} (h : Planned env s id) (hst : Onward s t) : Planned env t id :=
  fun k hk => hst.chosen (h k hk)

/-- A reported key stays reported. -/
theorem KeyReported.onward {keyId : String} (h : KeyReported s keyId) (hst : Onward s t) :
    KeyReported t keyId := by
  obtain ⟨r, hr, hk⟩ := h
  exact ⟨r, hst.reports hr, hk⟩

/-- A good request stays good. -/
theorem RequestOk.onward {p : PackIn Id} (h : RequestOk env s p) (hst : Onward s t) :
    RequestOk env t p := ⟨h.planned.onward hst, h.key.onward hst⟩

/-- A chosen id stays chosen. -/
theorem ChosenOk.onward {k : SendId} (h : ChosenOk env s k) (hst : Onward s t) :
    ChosenOk env t k :=
  ⟨hst.created _ _ h.created, fun a ha => (h.before a ha).later hst.lives⟩

/-- A request stays where it was made. -/
theorem getElem?_requests {n : ℕ} {r : Actor × List (PackIn Id)} (h : s.requests[n]? = some r)
    (hst : Onward s t) : t.requests[n]? = some r := by
  obtain ⟨more, hmore⟩ := hst.requests
  rw [← hmore]
  have hn : n < s.requests.length := (List.getElem?_eq_some_iff.mp h).1
  rw [List.getElem?_append_left hn, h]

/-- **The step lemma**: the ledger holds after a step if it holds of what the step adds. -/
theorem Ledger.extend (h : Ledger env s) (hst : Onward s t)
    (stored : ∀ id, Stored t.cloud id → Stored s.cloud id ∨ Planned env t id)
    (chosen : ∀ k ∈ t.chosen, k ∈ s.chosen ∨ ChosenOk env t k)
    (requests : ∀ r ∈ t.requests, r ∈ s.requests ∨ ∀ p ∈ r.2, RequestOk env t p)
    (replies : ∀ n ack, t.replies n = some ack → s.replies n = some ack ∨
      ∃ r, t.requests[n]? = some r ∧ Answered t.cloud r.2 ack)
    (jobs : ∀ j ∈ t.terminal.jobs, j ∈ s.terminal.jobs ∨ JobOk t.cloud j)
    (reports : ∀ r ∈ t.reports, r ∈ s.reports ∨ KTempReport.Bounded r)
    (keys : KeysOk t.keys) : Ledger env t where
  stored id hid := by
    rcases stored id hid with hold | hnew
    · exact (h.stored id hold).onward hst
    · exact hnew
  chosen k hk := by
    rcases chosen k hk with hold | hnew
    · exact (h.chosen k hold).onward hst
    · exact hnew
  requests r hr p hp := by
    rcases requests r hr with hold | hnew
    · exact (h.requests r hold p hp).onward hst
    · exact hnew p hp
  replies n ack hack := by
    rcases replies n ack hack with hold | hnew
    · obtain ⟨r, hr, ha⟩ := h.replies n ack hold
      exact ⟨r, getElem?_requests hr hst, ha.later hst.lives⟩
    · exact hnew
  jobs j hj := by
    rcases jobs j hj with hold | hnew
    · exact (h.jobs j hold).later hst.lives
    · exact hnew
  reports r hr := by
    rcases reports r hr with hold | hnew
    · exact h.reports r hold
    · exact hnew
  keys := keys

end onward

/-! ## The terms -/

/-- The terms on which everything that runs shares the world. -/
def worldDiscipline (env : Setup Id) : Discipline (World Id) where
  inv w := CloudInv w.cloud ∧ Ledger env w
  rely n s t := CloudRely n s.cloud t.cloud ∧ Onward s t
  guar n s t := CloudStep (Planned env s) n s.cloud t.cloud ∧ Onward s t ∧ Ledger env t
  rely_refl n s := ⟨(cloudDiscipline fun _ => True).rely_refl n s.cloud, .refl s⟩
  rely_trans n _ _ _ h h' :=
    ⟨(cloudDiscipline fun _ => True).rely_trans n _ _ _ h.1 h'.1, h.2.trans h'.2⟩
  guar_rely m n s _ hmn hs h _ :=
    ⟨(cloudDiscipline (Planned env s)).guar_rely m n _ _ hmn hs.1 h.1 trivial, h.2.1⟩
  keep _ _ _ hs h _ := ⟨h.1.inv hs.1, h.2.2⟩

/-- The terms of the world go onward. -/
theorem worldDiscipline_grows (env : Setup Id) : (worldDiscipline env).Grows Onward where
  refl := .refl
  trans _ _ _ := .trans
  rely _ _ _ h := h.2
  guar _ _ _ _ h := h.2.1

section steps

variable {env : Setup Id} {n : ℕ} {s t : World Id}

/-- No change is a step. -/
theorem CloudStep.of_eq {allowed : Id → Prop} {a b : Cloud Id} (h : b = a) :
    CloudStep allowed n a b := h ▸ .refl _ _ _

/-- No change leaves the table later. -/
theorem CloudLater.of_eq {a b : Cloud Id} (h : b = a) : CloudLater a b := h ▸ .refl _

/-- A step of the terminal, or of nobody: it adds no job that breaks its promise, and no
campaign changes its `created_at`. -/
theorem guar_terminal (hs : Ledger env s)
    (ht : t = { s with clock := t.clock, terminal := t.terminal, polled := t.polled,
                       recorded := t.recorded })
    (hjobs : ∀ j ∈ t.terminal.jobs, j ∈ s.terminal.jobs ∨ JobOk s.cloud j)
    (hcreated : ∀ c x, createdAt? s c = some x → createdAt? t c = some x) :
    (worldDiscipline env).guar n s t := by
  have hcloud : t.cloud = s.cloud := by rw [ht]
  have hchosen : t.chosen = s.chosen := by rw [ht]
  have hrequests : t.requests = s.requests := by rw [ht]
  have hreplies : t.replies = s.replies := by rw [ht]
  have hreports : t.reports = s.reports := by rw [ht]
  have hkeys : t.keys = s.keys := by rw [ht]
  have hon : Onward s t :=
    ⟨.of_eq hcloud, by rw [hchosen]; exact List.Subset.refl _, hrequests ▸ List.prefix_rfl,
      by rw [hreports]; exact List.Subset.refl _, hcreated⟩
  refine ⟨.of_eq hcloud, hon, hs.extend hon ?_ ?_ ?_ ?_ ?_ ?_ (hkeys ▸ hs.keys)⟩
  · rw [hcloud]; exact fun _ h => .inl h
  · rw [hchosen]; exact fun _ h => .inl h
  · rw [hrequests]; exact fun _ h => .inl h
  · rw [hreplies]; exact fun _ _ h => .inl h
  · rw [hcloud]; exact hjobs
  · rw [hreports]; exact fun _ h => .inl h

/-- Doing nothing keeps the terms. -/
theorem guar_refl (hs : Ledger env s) : (worldDiscipline env).guar n s s :=
  guar_terminal hs rfl (fun _ h => .inl h) fun _ _ h => h

/-- A step of the pack table. -/
theorem guar_cloud (hs : Ledger env s) {clock : ℕ} {c : Cloud Id}
    (hc : CloudStep (Planned env s) n s.cloud c) :
    (worldDiscipline env).guar n s { s with clock := clock, cloud := c } := by
  have hon : Onward s { s with clock := clock, cloud := c } :=
    ⟨hc.later, List.Subset.refl _, List.prefix_rfl, List.Subset.refl _, fun _ _ h => h⟩
  refine ⟨hc, hon, hs.extend hon (fun id hid => ?_) (fun _ h => .inl h) (fun _ h => .inl h)
    (fun _ _ h => .inl h) (fun _ h => .inl h) (fun _ h => .inl h) hs.keys⟩
  by_cases hplan : Planned env s id
  · exact .inr hplan
  · refine .inl fun hnone => hid ?_
    exact (hc id).1.unstored hplan hnone

/-- A step of the key table. -/
theorem guar_keys (hs : Ledger env s) {clock : ℕ} {keys : KeyTable} (hk : KeysOk keys) :
    (worldDiscipline env).guar n s { s with clock := clock, keys := keys } := by
  have hon : Onward s { s with clock := clock, keys := keys } :=
    ⟨.refl _, List.Subset.refl _, List.prefix_rfl, List.Subset.refl _, fun _ _ h => h⟩
  exact ⟨.refl _ _ _, hon, hs.extend hon (fun _ h => .inl h) (fun _ h => .inl h)
    (fun _ h => .inl h) (fun _ _ h => .inl h) (fun _ h => .inl h) (fun _ h => .inl h) hk⟩

/-- The sends that a plan chooses. -/
theorem guar_chosen (hs : Ledger env s) {ks : List SendId} (hks : ∀ k ∈ ks, ChosenOk env s k) :
    (worldDiscipline env).guar n s { s with chosen := ks ++ s.chosen } := by
  have hon : Onward s { s with chosen := ks ++ s.chosen } :=
    ⟨.refl _, List.subset_append_right _ _, List.prefix_rfl, List.Subset.refl _, fun _ _ h => h⟩
  refine ⟨.refl _ _ _, hon, hs.extend hon (fun _ h => .inl h) (fun k hk => ?_)
    (fun _ h => .inl h) (fun _ _ h => .inl h) (fun _ h => .inl h) (fun _ h => .inl h) hs.keys⟩
  rcases List.mem_append.mp hk with hnew | hold
  · exact .inr ((hks k hnew).onward hon)
  · exact .inl hold

/-- A request that leaves the terminal. -/
theorem guar_request (hs : Ledger env s) {actor : Actor} {packs : List (PackIn Id)}
    (hp : ∀ p ∈ packs, RequestOk env s p) :
    (worldDiscipline env).guar n s { s with requests := s.requests ++ [(actor, packs)] } := by
  have hon : Onward s { s with requests := s.requests ++ [(actor, packs)] } :=
    ⟨.refl _, List.Subset.refl _, List.prefix_append _ _, List.Subset.refl _, fun _ _ h => h⟩
  refine ⟨.refl _ _ _, hon, hs.extend hon (fun _ h => .inl h) (fun _ h => .inl h)
    (fun r hr => ?_) (fun _ _ h => .inl h) (fun _ h => .inl h) (fun _ h => .inl h) hs.keys⟩
  rcases List.mem_append.mp hr with hold | hnew
  · exact .inl hold
  · rw [List.mem_singleton.mp hnew]
    exact .inr fun p hmem => (hp p hmem).onward hon

/-- A reply of the cloud. -/
theorem guar_reply (hs : Ledger env s) {request : ℕ} {r : Actor × List (PackIn Id)}
    {ack : PushAck Id} (hr : s.requests[request]? = some r) (ha : Answered s.cloud r.2 ack) :
    (worldDiscipline env).guar n s
      { s with replies := Function.update s.replies request (some ack) } := by
  have hon : Onward s { s with replies := Function.update s.replies request (some ack) } :=
    ⟨.refl _, List.Subset.refl _, List.prefix_rfl, List.Subset.refl _, fun _ _ h => h⟩
  refine ⟨.refl _ _ _, hon, hs.extend hon (fun _ h => .inl h) (fun _ h => .inl h)
    (fun _ h => .inl h) (fun m ack' hm => ?_) (fun _ h => .inl h) (fun _ h => .inl h) hs.keys⟩
  by_cases hmr : m = request
  · subst hmr
    have heq : some ack = some ack' := by simpa using hm
    cases heq
    exact .inr ⟨r, hr, ha⟩
  · exact .inl (by simpa [Function.update_of_ne hmr] using hm)

/-- What the cloud says about a key. -/
theorem guar_reports (hs : Ledger env s) {rs : List KTempReport}
    (hrs : ∀ r ∈ rs, KTempReport.Bounded r) :
    (worldDiscipline env).guar n s { s with reports := rs ++ s.reports } := by
  have hon : Onward s { s with reports := rs ++ s.reports } :=
    ⟨.refl _, List.Subset.refl _, List.prefix_rfl, List.subset_append_right _ _, fun _ _ h => h⟩
  refine ⟨.refl _ _ _, hon, hs.extend hon (fun _ h => .inl h) (fun _ h => .inl h)
    (fun _ h => .inl h) (fun _ _ h => .inl h) (fun _ h => .inl h) (fun r hr => ?_) hs.keys⟩
  rcases List.mem_append.mp hr with hnew | hold
  · exact .inr (hrs r hnew)
  · exact .inl hold

end steps

end Mailman.Analysis
