import Mailman.Library.Solo
import Mailman.Model.Keys

/-!
# A provisioned key and the readers of an older one

`get_active_k_temp` reads the pointer and the key item in two requests, and when the item has
expired it wipes whatever the pointer names by then. So a reader that found an old key expired can
delete the key that a terminal has provisioned in the meantime. When no request made by a call that
was under way as `set_k_temp` returned changes the pointer or the key's item, every later lookup
finds the key until it expires: lookups that begin afterwards never wipe it.
-/

set_option autoImplicit false

namespace Mailman.Analysis

open Mailman.Library Mailman.Model

variable {kid : String} {k : KTemp} {expiresAt : ℤ} {s t : KeyClock}

/-- The pointer names the key's item, and the item holds the key. -/
structure KeyHeld (kid : String) (k : KTemp) (expiresAt : ℤ) (keys : KeyTable) : Prop where
  active : keys.active = some kid
  item : ∃ item, keys.items kid = some item ∧ item.keyId = kid ∧ item.keyBytes = k ∧
    item.expiresAt = expiresAt

/-- The key's item is left as it is. -/
def SameItem (kid : String) (s t : KeyClock) : Prop := t.keys.items kid = s.keys.items kid

/-- Up to the expiry, the pointer and the key's item are left as they are. -/
def KeepsKey (kid : String) (expiresAt : ℤ) (s t : KeyClock) : Prop :=
  (t.now : ℤ) ≤ expiresAt → t.keys.active = s.keys.active ∧ SameItem kid s t

/-- The terms on which calls share the table up to the key's expiry. -/
def servedDiscipline (kid : String) (k : KTemp) (expiresAt : ℤ) : Discipline KeyClock where
  inv w := (w.now : ℤ) ≤ expiresAt → KeyHeld kid k expiresAt w.keys
  rely _ s t := s.now ≤ t.now
  guar _ s t := s.now ≤ t.now ∧ KeepsKey kid expiresAt s t
  rely_refl _ _ := le_refl _
  rely_trans _ _ _ _ := le_trans
  guar_rely _ _ _ _ _ _ h _ := h.1
  keep _ s t hs hguar _ ht := by
    obtain ⟨hactive, hitem⟩ := hguar.2 ht
    have hmono : (s.now : ℤ) ≤ t.now := Int.ofNat_le.mpr hguar.1
    have hheld := hs (by omega)
    exact ⟨hactive.trans hheld.active, by rw [hitem]; exact hheld.item⟩

/-- A request that only reads keeps the terms. -/
theorem keepsKey_read (elapsed : ℕ) : s.now ≤ s.now + elapsed ∧
    KeepsKey kid expiresAt s { s with now := s.now + elapsed } :=
  ⟨Nat.le_add_right .., fun _ => ⟨rfl, rfl⟩⟩

/-- Past the expiry anything goes. -/
theorem keepsKey_late (hlate : expiresAt < (s.now : ℤ)) (elapsed : ℕ) (keys : KeyTable) :
    s.now ≤ s.now + elapsed ∧ KeepsKey kid expiresAt s { now := s.now + elapsed, keys } := by
  refine ⟨Nat.le_add_right .., fun h => ?_⟩
  push_cast at h
  omega

/-- A call past the expiry. -/
theorem safe_late {α : Type} {n : ℕ} (p : KeyProc α) (hlate : expiresAt < (s.now : ℤ)) :
    (servedDiscipline kid k expiresAt).Safe n (onKeyClock p) (fun _ _ => True) s := by
  induction p generalizing s with
  | ret a => trivial
  | atom upd next ih =>
    intro t ht _ i
    have hmono : (s.now : ℤ) ≤ t.now := Int.ofNat_le.mpr ht
    refine ⟨keepsKey_late (by omega) i _, ih _ _ ?_⟩
    push_cast
    omega

/-- A lookup keeps the terms. -/
theorem safe_getKeys {n : ℕ} (s : KeyClock) : (servedDiscipline kid k expiresAt).Safe n
    (onKeyClock getActiveKTempItem) (fun _ _ => True) s := by
  intro t ht hi i
  refine ⟨keepsKey_read i, ?_⟩
  dsimp only
  cases hactive : t.keys.active with
  | none => trivial
  | some found =>
    intro u hu hiu j
    refine ⟨keepsKey_read j, ?_⟩
    simp only [Proc.ret_bind]
    cases hitem : u.keys.items found with
    | none => trivial
    | some item =>
      simp only
      split
      · next hexpired =>
        apply safe_late
        -- an item found expired is not the key's, unless the key has expired
        by_contra hearly
        have hclock : ((t.now + i : ℕ) : ℤ) ≤ u.now := Int.ofNat_le.mpr hu
        push_cast at hexpired hearly hclock
        have hptr := (hi (by omega)).active
        rw [hactive, Option.some.injEq] at hptr
        obtain ⟨item', hitem', -, -, hexp⟩ := (hiu (by omega)).item
        rw [← hptr, hitem, Option.some.injEq] at hitem'
        subst hitem'
        omega
      · trivial

/-- A status query keeps the terms. -/
theorem safe_status {n : ℕ} (s : KeyClock) : (servedDiscipline kid k expiresAt).Safe n
    (onKeyClock kTempStatus) (fun _ _ => True) s := by
  intro t ht hi i
  refine ⟨keepsKey_read i, ?_⟩
  dsimp only
  cases hactive : t.keys.active with
  | none => trivial
  | some found =>
    intro u hu hiu j
    refine ⟨keepsKey_read j, ?_⟩
    simp only [Proc.ret_bind]
    cases u.keys.items found with
    | none => trivial
    | some item =>
      simp only
      split <;> trivial

/-! ## What a lookup finds -/

/-- A call of two requests that met `l` has answered well, if it has answered, and has answered as
soon as it made both. -/
def Answers {α : Type} (p : KeyProc α) (good : α → Prop) (l : List (KeyClock × ℕ)) : Prop :=
  (∀ r, (onKeyClock p).follow l = .ret r → good r) ∧
    (2 ≤ l.length → ∃ r, (onKeyClock p).follow l = .ret r)

/-- What a status query reports of the key. -/
def Present (kid : String) (expiresAt : ℤ) (r : Option KTempReport) : Prop :=
  ∃ report, r = some report ∧ report.keyId = kid ∧ report.expiresAt = expiresAt

/-- The requests were made while the key was in place, up to its expiry. -/
def MadeInTime (kid : String) (k : KTemp) (expiresAt : ℤ) (x : KeyClock × KeyClock) : Prop :=
  KeyHeld kid k expiresAt x.1.keys ∧ (x.2.now : ℤ) ≤ expiresAt

variable {l : List (KeyClock × ℕ)}

/-- A call that has made at most one of its requests, and waits to make the next. -/
theorem Answers.waiting {α : Type} {p : KeyProc α} {good : α → Prop} (hlen : l.length < 2)
    (hwait : ∀ r, (onKeyClock p).follow l ≠ .ret r) : Answers p good l :=
  ⟨fun r hr => absurd hr (hwait r), fun htwo => absurd htwo (by omega)⟩

/-- A lookup whose requests are made in time finds the key. -/
theorem answers_get (h : ∀ x ∈ (onKeyClock getActiveKTempItem).wrote l,
    MadeInTime kid k expiresAt x) : Answers getActiveKTempItem (fun r => r = some k) l := by
  cases l with
  | nil => exact Answers.waiting (by simp) fun r hr => by cases hr
  | cons x rest =>
    obtain ⟨a, i⟩ := x
    obtain ⟨hheld, -⟩ := h _ (List.mem_cons_self ..)
    have hactive : a.keys.active = some kid := hheld.active
    simp only [onKeyClock, getActiveKTempItem, Proc.get, Proc.act, Proc.bind_eq, Proc.bind,
      Proc.zoom, Proc.wrote, hactive] at h
    simp only [Answers, onKeyClock, getActiveKTempItem, Proc.get, Proc.act, Proc.bind_eq, Proc.bind,
      Proc.zoom, Proc.follow, hactive]
    cases rest with
    | nil => exact ⟨fun r hr => (by cases hr), fun hlen => absurd hlen (by simp)⟩
    | cons y rest =>
      obtain ⟨b, j⟩ := y
      obtain ⟨hb, hlive⟩ := h _ (List.mem_cons_of_mem _ (List.mem_cons_self ..))
      obtain ⟨item, hitem, -, hbytes, hexp⟩ := hb.item
      have hitem' : b.keys.items kid = some item := hitem
      have hfresh : ¬ item.expiresAt < ((b.now + j : ℕ) : ℤ) := by
        rw [hexp]
        exact not_lt.mpr hlive
      simp only [Proc.follow, hitem', hfresh, if_false, Proc.pure_eq, Proc.zoom, hbytes,
        Proc.follow_ret]
      exact ⟨fun r hr => (Proc.ret.inj hr).symm, fun _ => ⟨_, rfl⟩⟩

/-- A status query whose requests are made in time reports the key. -/
theorem answers_status (h : ∀ x ∈ (onKeyClock kTempStatus).wrote l,
    MadeInTime kid k expiresAt x) : Answers kTempStatus (Present kid expiresAt) l := by
  cases l with
  | nil => exact Answers.waiting (by simp) fun r hr => by cases hr
  | cons x rest =>
    obtain ⟨a, i⟩ := x
    obtain ⟨hheld, -⟩ := h _ (List.mem_cons_self ..)
    have hactive : a.keys.active = some kid := hheld.active
    simp only [onKeyClock, kTempStatus, Proc.get, Proc.act, Proc.bind_eq, Proc.bind, Proc.zoom,
      Proc.wrote, hactive] at h
    simp only [Answers, onKeyClock, kTempStatus, Proc.get, Proc.act, Proc.bind_eq, Proc.bind,
      Proc.zoom, Proc.follow, hactive]
    cases rest with
    | nil => exact ⟨fun r hr => (by cases hr), fun hlen => absurd hlen (by simp)⟩
    | cons y rest =>
      obtain ⟨b, j⟩ := y
      obtain ⟨hb, hlive⟩ := h _ (List.mem_cons_of_mem _ (List.mem_cons_self ..))
      obtain ⟨item, hitem, hkid, -, hexp⟩ := hb.item
      have hitem' : b.keys.items kid = some item := hitem
      have hfresh : ¬ item.expiresAt < ((b.now + j : ℕ) : ℤ) := by
        rw [hexp]
        exact not_lt.mpr hlive
      simp only [Proc.follow, hitem', hfresh, if_false, Proc.pure_eq, Proc.zoom, Proc.follow_ret]
      exact ⟨fun r hr => ⟨_, (Proc.ret.inj hr).symm, hkid, hexp⟩, fun _ => ⟨_, rfl⟩⟩

/-! ## Runs -/

variable {kTempId : KTemp → String}

/-- No call turns the clock back. -/
theorem clock_keyCode (n : ℕ) (op : KeyOp) :
    (keyCode kTempId n op).Every fun s _ t => s.now ≤ t.now := by
  have hcall : ∀ {α : Type} (p : KeyProc α), (onKeyClock p).Every fun s _ t => s.now ≤ t.now :=
    fun p => p.every_true.zoom fun t i _ _ => Nat.le_add_right t.now i
  cases op with
  | get => exact (hcall _).bind fun _ => trivial
  | set k ttlSeconds setBy => exact (hcall _).bind fun _ => trivial
  | status => exact (hcall _).bind fun _ => trivial
  | wipe => exact (hcall _).bind fun _ => trivial

/-- The clock of a run goes forward. -/
theorem clock_run {p : Pool KeyClock ℕ}
    (hp : ∀ n, (p.running n).Every fun s _ t => s.now ≤ t.now) (es : List (Event KeyOp ℕ)) :
    p.state.now ≤ (p.run (keyCode kTempId) es).state.now := by
  have hsteps : p.Steps (keyCode kTempId) (fun s t => s.now ≤ t.now) es :=
    Pool.steps_of_every (C := fun s t : KeyClock => s.now ≤ t.now) clock_keyCode (fun _ => le_refl _)
      (fun _ _ _ h => h) hp es
  exact hsteps.related (T := fun s t : KeyClock => s.now ≤ t.now) (fun _ => le_refl _) fun _ _ _ => le_trans

/-- The event is none of number `m`. -/
def NotOf (m : ℕ) : Event KeyOp ℕ → Prop
  | .start n _ => n ≠ m
  | .step n _ => n ≠ m
  | .stop n => n ≠ m

/-- Events of other numbers keep the program. -/
theorem running_notOf {p : Pool KeyClock ℕ} {m : ℕ} {es : List (Event KeyOp ℕ)}
    (h : ∀ e ∈ es, NotOf m e) : (p.run (keyCode kTempId) es).running m = p.running m := by
  rw [Pool.run_follow, Pool.met_eq_nil, Proc.follow_nil]
  · exact fun i hi => h _ hi rfl
  · exact fun op hop => h _ hop rfl
  · exact fun hstop => h _ hstop rfl

/-- The two requests of a provisioning. -/
theorem keyCode_set {ttlSeconds : ℤ} (setBy : Actor) (m : ℕ) (httl : ttlSeconds ∈ validTtls) :
    keyCode kTempId m (.set k ttlSeconds setBy) =
      .atom (fun w elapsed =>
        let item : KTempItem :=
          { keyId := kTempId k, keyBytes := k
            expiresAt := ((w.now + elapsed : ℕ) : ℤ) + ttlSeconds, setAt := w.now + elapsed, setBy
            ttlSeconds }
        { now := w.now + elapsed
          keys := { w.keys with items := Function.update w.keys.items (kTempId k) (some item) } })
      fun _ _ => .atom (fun w elapsed =>
        { now := w.now + elapsed, keys := { w.keys with active := some (kTempId k) } })
      fun _ _ => .ret () := by
  simp only [keyCode, setKTemp, if_pos httl]
  rfl

/-- A call that has made its two writes has put the key in place. -/
theorem held_of_set {p : Pool KeyClock ℕ} {m i j : ℕ} {ttlSeconds : ℤ} {setBy : Actor}
    {fs : List (Event KeyOp ℕ)} (httl : ttlSeconds ∈ validTtls)
    (hrun : p.running m = keyCode kTempId m (.set k ttlSeconds setBy)) (hfs : ∀ e ∈ fs, NotOf m e)
    (hitem : (p.exec (keyCode kTempId) (.step m i)).Steps (keyCode kTempId)
      (SameItem (kTempId k)) fs) :
    KeyHeld (kTempId k) k ((p.state.now + i : ℕ) + ttlSeconds)
      (((p.exec (keyCode kTempId) (.step m i)).run (keyCode kTempId) fs).exec
        (keyCode kTempId) (.step m j)).state.keys := by
  rw [keyCode_set setBy m httl] at hrun
  have hkept := hitem.related (T := SameItem (kTempId k)) (fun _ => rfl)
    fun _ _ _ hst htu => htu.trans hst
  have hown : ((p.exec (keyCode kTempId) (.step m i)).run (keyCode kTempId) fs).running m =
      (p.exec (keyCode kTempId) (.step m i)).running m := running_notOf hfs
  simp only [SameItem, Pool.exec, hrun, Function.update_self] at hkept
  simp only [Pool.exec, hrun, Function.update_self] at hown
  simp only [Pool.exec, hrun, hown]
  exact ⟨rfl, _, hkept, rfl, rfl, rfl⟩

/-- A run in which a provisioning of the key under `number` makes its two writes and returns, with
what happens before it is called, before its first write and between its writes. -/
structure Provisioning (kTempId : KTemp → String) (k : KTemp) where
  start : KeyClock
  before : List (Event KeyOp ℕ)
  number : ℕ
  ttlSeconds : ℤ
  setBy : Actor
  waiting : List (Event KeyOp ℕ)
  first : ℕ
  between : List (Event KeyOp ℕ)
  second : ℕ
  ttl : ttlSeconds ∈ validTtls
  idle : ((Pool.idle start).run (keyCode kTempId) before).running number = .ret ()
  alone : ∀ e ∈ waiting ++ between, NotOf number e

namespace Provisioning

variable (c : Provisioning kTempId k)

/-- The pool up to the first write. -/
def called : Pool KeyClock ℕ :=
  (Pool.idle c.start).run (keyCode kTempId)
    (c.before ++ .start c.number (.set k c.ttlSeconds c.setBy) :: c.waiting)

/-- The pool after the first write. -/
def stored : Pool KeyClock ℕ := c.called.exec (keyCode kTempId) (.step c.number c.first)

/-- The pool as the call has returned. -/
def returned : Pool KeyClock ℕ :=
  (c.stored.run (keyCode kTempId) c.between).exec (keyCode kTempId) (.step c.number c.second)

/-- The expiry that the call has written. -/
def expiry : ℤ := (c.called.state.now + c.first : ℕ) + c.ttlSeconds

/-- The call has not made a request yet. -/
theorem called_running :
    c.called.running c.number = keyCode kTempId c.number (.set k c.ttlSeconds c.setBy) := by
  have hwaiting : ∀ e ∈ c.waiting, NotOf c.number e :=
    fun e he => c.alone e (List.mem_append_left _ he)
  rw [called, Pool.run_append, Pool.run_cons, running_notOf hwaiting]
  simp [Pool.exec, c.idle]

/-- The key is held as the provisioning returns. -/
theorem held (hitem : c.stored.Steps (keyCode kTempId) (SameItem (kTempId k)) c.between) :
    KeyHeld (kTempId k) k c.expiry c.returned.state.keys :=
  held_of_set c.ttl c.called_running (fun e he => c.alone e (List.mem_append_right _ he)) hitem

/-- What is under way keeps the clock forward. -/
theorem returned_clock (n : ℕ) : (c.returned.running n).Every fun s _ t => s.now ≤ t.now := by
  have hrun : c.returned = (Pool.idle c.start).run (keyCode kTempId)
      ((c.before ++ .start c.number (.set k c.ttlSeconds c.setBy) :: c.waiting) ++
        .step c.number c.first :: c.between ++ [.step c.number c.second]) := by
    rw [Pool.run_append, Pool.run_append]
    rfl
  have hidle : ∀ n, ((Pool.idle c.start : Pool KeyClock ℕ).running n).Every
      fun s _ t => s.now ≤ t.now := fun _ => trivial
  rw [hrun]
  exact Pool.every_run clock_keyCode hidle _ n

end Provisioning

/-- Lookups and status queries keep the terms. -/
theorem safe_keyCode {op : KeyOp} (hop : op = .get ∨ op = .status) (n : ℕ) (s : KeyClock) :
    (servedDiscipline kid k expiresAt).Safe n (keyCode kTempId n op) (fun _ _ => True) s := by
  rcases hop with rfl | rfl
  · exact Discipline.Safe.bind ((safe_getKeys s).weaken fun _ _ _ => trivial)
  · exact Discipline.Safe.bind ((safe_status s).weaken fun _ _ _ => trivial)

/-- In a run that behaves, the requests of a call are made while the key is in place. -/
theorem madeInTime_of_behaves {p : Pool KeyClock ℕ} {n : ℕ} {es : List (Event KeyOp ℕ)}
    (hp : ∀ n, (p.running n).Every fun s _ t => s.now ≤ t.now)
    (h : (servedDiscipline kid k expiresAt).Behaves (keyCode kTempId) p es)
    (hcalls : ∀ n op, .start n op ∈ es → op = .get ∨ op = .status) (hstop : ∀ n, .stop n ∉ es)
    (hstart : ∀ op, .start n op ∉ es)
    (hlive : ((p.run (keyCode kTempId) es).state.now : ℤ) ≤ expiresAt) :
    ∀ x ∈ (p.running n).wrote (p.met (keyCode kTempId) n es), MadeInTime kid k expiresAt x := by
  intro x hx
  obtain ⟨es₁, i, es₂, rfl, hbefore, hafter⟩ :=
    Pool.mem_wrote_met (keyCode kTempId) hstart (hstop n) hx
  have hthere := Discipline.Behaves.run h
    (fun m op hop s _ => safe_keyCode (hcalls m op (List.mem_append_left _ hop)) m s)
    (fun m hm => hstop m (List.mem_append_left _ hm)) (Pool.steps_of_forall _ (fun _ _ => trivial) _ _)
  have hclock : ∀ fs n, ((p.run (keyCode kTempId) fs).running n).Every fun s _ t => s.now ≤ t.now :=
    fun fs => Pool.every_run clock_keyCode hp fs
  have hnext : x.1.now ≤ x.2.now := by
    rw [hbefore, hafter, Pool.run_append]
    exact clock_run (hclock es₁) _
  have hend : x.2.now ≤ (p.run (keyCode kTempId) (es₁ ++ .step n i :: es₂)).state.now := by
    rw [hafter, ← List.singleton_append (l := es₂), ← List.append_assoc, Pool.run_append _ p (_ ++ _)]
    exact clock_run (hclock _) _
  have hlate : (x.2.now : ℤ) ≤ expiresAt := le_trans (Int.ofNat_le.mpr hend) hlive
  refine ⟨?_, hlate⟩
  have hheld := hthere.1
  rw [← hbefore] at hheld
  exact hheld (le_trans (Int.ofNat_le.mpr hnext) hlate)

/-- **A key that is held is served**: while no call that is under way changes the pointer or the
key's item, and no other provisioning and no `DELETE /key/temp` starts, every lookup that begins
yields the key and every status query reports it, up to the expiry. -/
theorem served_of_held {p : Pool KeyClock ℕ}
    (hclock : ∀ n, (p.running n).Every fun s _ t => s.now ≤ t.now)
    (hheld : KeyHeld kid k expiresAt p.state.keys) {es₁ es₂ : List (Event KeyOp ℕ)} {n : ℕ}
    {op : KeyOp} (hkeeps : ∀ m, ∀ x ∈ (p.running m).wrote
      (p.met (keyCode kTempId) m (es₁ ++ .start n op :: es₂)), KeepsKey kid expiresAt x.1 x.2)
    (hcalls : ∀ m op', .start m op' ∈ es₁ ++ .start n op :: es₂ → op' = .get ∨ op' = .status)
    (hstop : ∀ m, .stop m ∉ es₁ ++ .start n op :: es₂)
    (hbegin : (p.run (keyCode kTempId) es₁).running n = .ret ()) (hcall : ∀ op', .start n op' ∉ es₂)
    (hlive : ((p.run (keyCode kTempId) (es₁ ++ .start n op :: es₂)).state.now : ℤ) ≤ expiresAt) :
    let l := (p.run (keyCode kTempId) (es₁ ++ [.start n op])).met (keyCode kTempId) n es₂
    (op = .get → Answers getActiveKTempItem (fun r => r = some k) l) ∧
    (op = .status → Answers kTempStatus (Present kid expiresAt) l) := by
  intro l
  have hsplit : es₁ ++ .start n op :: es₂ = (es₁ ++ [.start n op]) ++ es₂ := by simp
  rw [hsplit] at hkeeps hcalls hstop hlive
  have hbehaves : (servedDiscipline kid k expiresAt).Behaves (keyCode kTempId) p
      ((es₁ ++ [.start n op]) ++ es₂) := by
    refine ⟨fun _ => hheld, fun m => .inr fun x hx => ⟨?_, hkeeps m x hx⟩⟩
    obtain ⟨_, hmono⟩ := (hclock m).wrote _ x hx
    exact hmono
  have hrest := Discipline.Behaves.run hbehaves
    (fun m op' hop s _ => safe_keyCode (hcalls m op' (List.mem_append_left _ hop)) m s)
    (fun m hm => hstop m (List.mem_append_left _ hm)) (Pool.steps_of_forall _ (fun _ _ => trivial) _ _)
  rw [Pool.run_append _ _ (_ ++ _)] at hlive
  have htime := madeInTime_of_behaves (Pool.every_run clock_keyCode hclock _) hrest
    (fun m op' hop => hcalls m op' (List.mem_append_right _ hop))
    (fun m hm => hstop m (List.mem_append_right _ hm)) hcall hlive
  have hrun : (p.run (keyCode kTempId) (es₁ ++ [.start n op])).running n =
      keyCode kTempId n op := by
    rw [Pool.run_append, Pool.run_cons, Pool.run_nil]
    simp [Pool.exec, hbegin]
  rw [hrun] at htime
  refine ⟨?_, ?_⟩
  · rintro rfl
    rw [keyCode, Proc.wrote_drop] at htime
    exact answers_get htime
  · rintro rfl
    rw [keyCode, Proc.wrote_drop] at htime
    exact answers_status htime

/-- **A key is served**: in every run, once a provisioning of `k` has returned, and until it expires
or another provisioning or a `DELETE /key/temp` starts, every lookup that begins afterwards yields
`k` and every status query reports it, as long as no other request touched the key's item between
the two writes of the provisioning, and none made by a call that was under way when it returned
changes the pointer or the key's item.
SOURCE: cloud/keys_dynamo.py:30-150 -/
theorem set_key_served (kTempId : KTemp → String) (k : KTemp) (c : Provisioning kTempId k)
    (es₁ es₂ : List (Event KeyOp ℕ)) (n : ℕ) (op : KeyOp)
    (hitem : c.stored.Steps (keyCode kTempId) (SameItem (kTempId k)) c.between)
    (hkeeps : ∀ m, ∀ x ∈ (c.returned.running m).wrote
      (c.returned.met (keyCode kTempId) m (es₁ ++ .start n op :: es₂)),
        KeepsKey (kTempId k) c.expiry x.1 x.2)
    (hcalls : ∀ m op', .start m op' ∈ es₁ ++ .start n op :: es₂ → op' = .get ∨ op' = .status)
    (hstop : ∀ m, .stop m ∉ es₁ ++ .start n op :: es₂)
    (hbegin : (c.returned.run (keyCode kTempId) es₁).running n = .ret ())
    (hcall : ∀ op', .start n op' ∉ es₂)
    (hlive : ((c.returned.run (keyCode kTempId) (es₁ ++ .start n op :: es₂)).state.now : ℤ) ≤
      c.expiry) :
    let l := (c.returned.run (keyCode kTempId) (es₁ ++ [.start n op])).met (keyCode kTempId) n es₂
    (op = .get → Answers getActiveKTempItem (fun r => r = some k) l) ∧
    (op = .status → Answers kTempStatus (Present (kTempId k) c.expiry) l) := by
  exact served_of_held c.returned_clock (c.held hitem) hkeeps hcalls hstop hbegin hcall hlive

section witness

private def twoKeys (k : KTemp) : String := if k.bytes = 0 then "old" else "new"

private def oldItem : KTempItem where
  keyId := "old"
  keyBytes := ⟨0⟩
  expiresAt := 10
  setAt := 0
  setBy := .operator
  ttlSeconds := 3600

/-- A reader finds the old key expired; then a terminal provisions a new one. -/
private def overReader : Provisioning twoKeys ⟨1⟩ where
  start := { keys := { active := some "old", items := fun h => if h = "old" then some oldItem else none } }
  before := [.start 0 .get, .step 0 20, .step 0 0]
  number := 1
  ttlSeconds := 3600
  setBy := .operator
  waiting := []
  first := 0
  between := []
  second := 0
  ttl := by decide
  idle := rfl
  alone := nofun

/-- The reader goes on to wipe, a second lookup begins, and its answer is `none`, an hour before the
new key expires. -/
theorem reader_wipes_new_key :
    (onKeyClock getActiveKTempItem).follow ((overReader.returned.run (keyCode twoKeys)
      (List.replicate 3 (.step 0 0) ++ [.start 2 .get])).met (keyCode twoKeys) 2 [.step 2 0]) =
        .ret none ∧
    (overReader.returned.run (keyCode twoKeys)
      (List.replicate 3 (.step 0 0) ++ .start 2 .get :: [.step 2 0])).state.now + 3600 =
        overReader.expiry := by
  exact ⟨rfl, by decide +kernel⟩

/-- Two readers have taken the old pointer when a terminal provisions a new key, and one of them
reads the old item between the two writes. -/
private def pastReaders : Provisioning twoKeys ⟨1⟩ where
  start := { keys := { active := some "old", items := fun h => if h = "old" then some oldItem else none } }
  before := [.start 0 .get, .start 3 .get, .step 0 2, .step 3 1]
  number := 1
  ttlSeconds := 3600
  setBy := .operator
  waiting := []
  first := 0
  between := [.step 3 2]
  second := 0
  ttl := by decide
  idle := rfl
  alone := by simp [NotOf]

/-- The other reader goes on to the old key, which has not expired either, and leaves the table as
it is: the next lookup finds the new key. -/
theorem set_key_served_demo :
    Answers getActiveKTempItem (fun r => r = some ⟨1⟩)
      ((pastReaders.returned.run (keyCode twoKeys) [.step 0 2, .start 2 .get]).met
        (keyCode twoKeys) 2 [.step 2 0, .step 2 5]) := by
  refine (set_key_served twoKeys ⟨1⟩ pastReaders [.step 0 2] [.step 2 0, .step 2 5] 2 .get ?_
    (fun m y hy => ?_) ?_ ?_ rfl (by simp) ?_).1 rfl
  · exact ⟨rfl, trivial⟩
  · by_cases hreader : m = 0
    · subst hreader
      cases List.mem_singleton.mp hy
      exact (keepsKey_read 2).2
    · have hnone : pastReaders.returned.running m = .ret () := by
        by_cases hm : m = 1
        · subst hm
          rfl
        · by_cases hpast : m = 3
          · subst hpast
            rfl
          · change ((Pool.idle pastReaders.start).run (keyCode twoKeys) [.start 0 .get, .start 3 .get,
              .step 0 2, .step 3 1, .start 1 (.set ⟨1⟩ 3600 .operator), .step 1 0, .step 3 2,
              .step 1 0]).running m = _
            rw [Pool.run_follow]
            · exact Proc.follow_ret () _
            · simp [hreader, hm, hpast]
            · simp
      rw [hnone, Proc.wrote_ret] at hy
      cases hy
  · simp
  · simp
  · decide +kernel

end witness

end Mailman.Analysis
