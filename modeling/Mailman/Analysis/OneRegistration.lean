import Mailman.Analysis.RevokeSessions
import Mailman.Library.Following

/-!
# One registration of a role

`init_handshake` looks for a stored key, stores its own and issues a bearer in three requests, and
a revocation deletes the key, scans and updates in many. When no key is stored between a
registration's look and its write, no other call comes between the key and the bearer of a
registration, and every scan reaches what it is to revoke and nothing newer, then a role is
registered at most once between two revocations, and at rest its only bearer that is not revoked
is the one of the call that stored its key.
-/

set_option autoImplicit false

namespace Mailman.Analysis

open Mailman.Library Mailman.Model

/-- The requests of registrations and revocations do not run into each other. -/
structure HandshakeTerms (env : HandshakeEnv) (s t : Registry) : Prop where
  /-- a key is stored only while the role has none -/
  keyFree : ∀ role row, t.pubkeys role = some row → s.stores.length ≤ row.ticket →
    s.pubkeys role = none
  /-- a bearer is stored only while the role's key is the one its registration stored -/
  keyOwn : ∀ mark, t.marks = mark :: s.marks → ∀ role ticket bearer,
    mark = .answered role ticket bearer → (s.pubkeys role).map (·.ticket) = some ticket
  /-- the first page of a scan holds every session of the role that is not revoked, and among them
  none of the call that stored the role's key -/
  scanMeets : ∀ scan, t.scans = scan :: s.scans → ∀ k < s.drawn,
    s.active scan.role (env.sha256 (env.tokenUrlsafe k)) →
      env.sha256 (env.tokenUrlsafe k) ∈ scan.page ∧
      ∀ role, (s.pubkeys role).map (·.ticket) ≠
        (s.sessions (env.sha256 (env.tokenUrlsafe k))).map (·.ticket)

/-- The marks since the role's key was last deleted. -/
def epoch (role : Actor) (marks : List HandshakeMark) : List HandshakeMark :=
  marks.takeWhile (· ≠ .keyDeleted role)

/-- The session belongs to a call that stored no key that is there now. -/
def Superseded (s : Registry) (h : String) : Prop :=
  ∃ row, s.sessions h = some row ∧ row.ticket < s.stores.length ∧
    ∀ role key, s.pubkeys role = some key → key.ticket ≠ row.ticket

/-- What holds in every state of a run that meets the terms. -/
structure RegistryInv (env : HandshakeEnv) (s : Registry) : Prop where
  keyStored : ∀ role key, s.pubkeys role = some key → ∃ call, s.stores[key.ticket]? = some (call, role)
  answered : ∀ role ticket bearer, .answered role ticket bearer ∈ s.marks →
    (∃ call, s.stores[ticket]? = some (call, role)) ∧ ∃ row,
      s.sessions (env.sha256 bearer) = some row ∧ row.actor = role ∧ row.ticket = ticket
  answeredOnce : ∀ role ticket bearer role' bearer', .answered role ticket bearer ∈ s.marks →
    .answered role' ticket bearer' ∈ s.marks → bearer = bearer'
  session : ∀ h row, s.sessions h = some row → ∃ k < s.drawn, h = env.sha256 (env.tokenUrlsafe k) ∧
    .answered row.actor row.ticket (env.tokenUrlsafe k) ∈ s.marks
  inEpoch : ∀ role ticket bearer, .answered role ticket bearer ∈ epoch role s.marks →
    (s.pubkeys role).map (·.ticket) = some ticket
  apart : ∀ role l₁ l₂ l₃ t b t' b',
    s.marks = l₁ ++ .answered role t b :: l₂ ++ .answered role t' b' :: l₃ → .keyDeleted role ∈ l₂
  current : ∀ role key h row, s.pubkeys role = some key → s.sessions h = some row →
    row.ticket = key.ticket → row.revokedAt = none
  covered : ∀ role h, s.active role h →
    (s.pubkeys role).map (·.ticket) = (s.sessions h).map (·.ticket) ∨ ∃ d ∈ s.deletes, d.due h
  scanned : ∀ scan ∈ s.scans, (∀ h ∈ scan.found, Superseded s h) ∧
    ∃ d, s.deletes[scan.ticket]? = some d ∧ ∀ h, d.due h → Revoked s h ∨ h ∈ scan.found

variable {env : HandshakeEnv} {s t u : Registry} {n : ℕ} {role actor : Actor} {h : String}

/-! ## What a later state keeps -/

/-- Nothing that has been written is taken back, and every new key has a new ticket. -/
structure RegistryGrown (s t : Registry) : Prop where
  stores : s.stores <+: t.stores
  deletes : s.deletes <+: t.deletes
  scans : ∀ scan ∈ s.scans, scan ∈ t.scans
  marks : ∀ mark ∈ s.marks, mark ∈ t.marks
  sessions : ∀ h row, s.sessions h = some row → ∃ row', t.sessions h = some row' ∧
    row'.actor = row.actor ∧ row'.ticket = row.ticket ∧
    (row.revokedAt.isSome → row'.revokedAt.isSome)
  keys : ∀ role key, t.pubkeys role = some key →
    s.pubkeys role = some key ∨ s.stores.length ≤ key.ticket

/-- A registry has grown from itself. -/
theorem RegistryGrown.refl (s : Registry) : RegistryGrown s s where
  stores := List.prefix_rfl
  deletes := List.prefix_rfl
  scans _ h := h
  marks _ h := h
  sessions _ row h := ⟨row, h, rfl, rfl, id⟩
  keys _ _ h := .inl h

/-- Growth is transitive. -/
theorem RegistryGrown.trans (hst : RegistryGrown s t) (htu : RegistryGrown t u) :
    RegistryGrown s u where
  stores := hst.stores.trans htu.stores
  deletes := hst.deletes.trans htu.deletes
  scans scan h := htu.scans scan (hst.scans scan h)
  marks mark h := htu.marks mark (hst.marks mark h)
  sessions h row hrow := by
    obtain ⟨row', hrow', hactor, hticket, hrev⟩ := hst.sessions h row hrow
    obtain ⟨row'', hrow'', hactor', hticket', hrev'⟩ := htu.sessions h row' hrow'
    exact ⟨row'', hrow'', hactor'.trans hactor, hticket'.trans hticket, hrev' ∘ hrev⟩
  keys role key hkey := by
    rcases htu.keys role key hkey with hkey | hnew
    · exact hst.keys role key hkey
    · exact .inr (hst.stores.length_le.trans hnew)

/-- What a prefix has at a place, the list has there. -/
theorem getElem?_mono {α : Type} {l l' : List α} (hp : l <+: l') {k : ℕ} {a : α}
    (ha : l[k]? = some a) : l'[k]? = some a := by
  obtain ⟨tail, rfl⟩ := hp
  rw [List.getElem?_append_left (List.getElem?_eq_some_iff.mp ha).1, ha]

/-- A revoked session stays revoked. -/
theorem RegistryGrown.revoked (hst : RegistryGrown s t) (hrev : Revoked s h) : Revoked t h := by
  obtain ⟨row, hrow, hset⟩ := hrev
  obtain ⟨row', hrow', -, -, hset'⟩ := hst.sessions h row hrow
  exact ⟨row', hrow', hset' hset⟩

/-- A superseded session stays superseded. -/
theorem RegistryGrown.superseded (hst : RegistryGrown s t) (hold : Superseded s h) :
    Superseded t h := by
  obtain ⟨row, hrow, hlt, hkeys⟩ := hold
  obtain ⟨row', hrow', -, hticket, -⟩ := hst.sessions h row hrow
  refine ⟨row', hrow', by have := hst.stores.length_le; omega, fun role key hkey => ?_⟩
  rcases hst.keys role key hkey with hkey | hnew
  · rw [hticket]
    exact hkeys role key hkey
  · omega

/-- Nothing is written in the name of number `n`. -/
structure OwnKept (n : ℕ) (s t : Registry) : Prop where
  stores : ∀ (ticket : ℕ) role, t.stores[ticket]? = some (n, role) →
    s.stores[ticket]? = some (n, role)
  deletes : ∀ d ∈ t.deletes, d.call = n → d ∈ s.deletes
  answers : ∀ role ticket bearer role', s.stores[ticket]? = some (n, role') →
    .answered role ticket bearer ∈ t.marks → .answered role ticket bearer ∈ s.marks

/-- A call keeps its own marks by doing nothing. -/
theorem OwnKept.refl (n : ℕ) (s : Registry) : OwnKept n s s :=
  ⟨fun _ _ h => h, fun _ h _ => h, fun _ _ _ _ _ h => h⟩

/-- The terms on which the calls share the table. -/
def handshakeDiscipline (env : HandshakeEnv) : Discipline Registry where
  inv := RegistryInv env
  rely n s t := RegistryGrown s t ∧ OwnKept n s t
  guar n s t := (HandshakeTerms env s t → RegistryInv env t) ∧ RegistryGrown s t ∧
    ∀ m, m ≠ n → OwnKept m s t
  cond := HandshakeTerms env
  rely_refl n s := ⟨.refl s, .refl n s⟩
  rely_trans n s t u := by
    rintro ⟨hst, hown⟩ ⟨htu, hown'⟩
    refine ⟨hst.trans htu, ⟨fun ticket role h => ?_, fun d hd hcall => ?_,
      fun role ticket bearer role' hstore hmark => ?_⟩⟩
    · exact hown.stores _ _ (hown'.stores _ _ h)
    · exact hown.deletes d (hown'.deletes d hd hcall) hcall
    · have hstore' := getElem?_mono hst.stores hstore
      exact hown.answers _ _ _ _ hstore (hown'.answers _ _ _ _ hstore' hmark)
  guar_rely m n s t hmn _ hguar _ := ⟨hguar.2.1, hguar.2.2 n (Ne.symm hmn)⟩
  keep n s t _ hguar hC := hguar.1 hC

/-- A request that only reads. -/
theorem guar_reads (hs : RegistryInv env s) : (handshakeDiscipline env).guar n s s :=
  ⟨fun _ => hs, .refl s, fun m _ => .refl m s⟩

/-! ## Writes to session items -/

/-- A session item is rewritten for the same call, and stays revoked. -/
structure RowKept (row row' : SessionRow) : Prop where
  actor : row'.actor = row.actor
  ticket : row'.ticket = row.ticket
  revoked : row.revokedAt.isSome → row'.revokedAt.isSome

/-- All session items rewritten. -/
def rewriteRows (s : Registry) (g : String → SessionRow → SessionRow) : Registry :=
  { s with sessions := fun h => (s.sessions h).map (g h) }

variable {g : String → SessionRow → SessionRow}

/-- Rewriting rows that keep what they are lets the registry grow. -/
theorem grown_rewriteRows (hg : ∀ h row, RowKept row (g h row)) :
    RegistryGrown s (rewriteRows s g) where
  stores := List.prefix_rfl
  deletes := List.prefix_rfl
  scans _ h := h
  marks _ h := h
  sessions h row hrow := by
    have hkept := hg h row
    exact ⟨g h row, by simp [rewriteRows, hrow], hkept.actor, hkept.ticket, hkept.revoked⟩
  keys _ _ h := .inl h

/-- Rewriting rows keeps the invariant where live rows are revoked only when superseded. -/
theorem inv_rewriteRows (hs : RegistryInv env s) (hg : ∀ h row, RowKept row (g h row))
    (hcurrent : ∀ h row, s.sessions h = some row →
      (g h row).revokedAt = row.revokedAt ∨ Superseded s h) :
    RegistryInv env (rewriteRows s g) := by
  have hgrown : RegistryGrown s (rewriteRows s g) := grown_rewriteRows hg
  have hrows : ∀ {h row'}, (rewriteRows s g).sessions h = some row' →
      ∃ row, s.sessions h = some row ∧ row' = g h row := by
    intro h row' hrow'
    obtain ⟨row, hrow, rfl⟩ := Option.map_eq_some_iff.mp hrow'
    exact ⟨row, hrow, rfl⟩
  refine ⟨hs.keyStored, fun role ticket bearer hmark => ?_, hs.answeredOnce, fun h row' hrow' => ?_,
    hs.inEpoch, hs.apart, fun role key h row' hkey hrow' hticket => ?_, fun role h hactive => ?_,
    fun scan hscan => ?_⟩
  · obtain ⟨hstore, row, hrow, hactor, hticket⟩ := hs.answered role ticket bearer hmark
    obtain ⟨row', hrow', hactor', hticket', -⟩ := hgrown.sessions _ row hrow
    exact ⟨hstore, row', hrow', hactor'.trans hactor, hticket'.trans hticket⟩
  · obtain ⟨row, hrow, rfl⟩ := hrows hrow'
    rw [(hg h row).actor, (hg h row).ticket]
    exact hs.session h row hrow
  · obtain ⟨row, hrow, rfl⟩ := hrows hrow'
    rw [(hg h row).ticket] at hticket
    rcases hcurrent h row hrow with hsame | ⟨row', hrow', -, hkeys⟩
    · rw [hsame]
      exact hs.current role key h row hkey hrow hticket
    · rw [hrow, Option.some.injEq] at hrow'
      exact absurd (hrow' ▸ hticket.symm) (hkeys role key hkey)
  · obtain ⟨row', hrow', hactor, hnone⟩ := active_iff.mp hactive
    obtain ⟨row, hrow, rfl⟩ := hrows hrow'
    have hbefore : s.active role h := by
      refine active_iff.mpr ⟨row, hrow, (hg h row).actor ▸ hactor, ?_⟩
      cases hrev : row.revokedAt with
      | none => rfl
      | some now =>
        have hset := (hg h row).revoked (by rw [hrev]; rfl)
        rw [hnone] at hset
        cases hset
    have hcovered := hs.covered role h hbefore
    rw [hrow, Option.map_some] at hcovered
    rw [hrow', Option.map_some, (hg h row).ticket]
    exact hcovered
  · obtain ⟨hfound, d, hd, hdue⟩ := hs.scanned scan hscan
    exact ⟨fun h hmem => hgrown.superseded (hfound h hmem),
      d, hd, fun h hh => (hdue h hh).imp_left hgrown.revoked⟩

/-- One session item rewritten. -/
theorem rewriteRows_one (s : Registry) (h : String) (f : SessionRow → SessionRow) :
    { s with sessions := Function.update s.sessions h ((s.sessions h).map f) } =
      rewriteRows s fun h' row => if h' = h then f row else row := by
  have hsessions : Function.update s.sessions h ((s.sessions h).map f) =
      fun h' => (s.sessions h').map fun row => if h' = h then f row else row := by
    funext h'
    by_cases heq : h' = h
    · simp [heq]
    · simp [heq]
  rw [hsessions]
  rfl

/-- Rewriting one row keeps the terms. -/
theorem guar_rewrite {f : SessionRow → SessionRow} (hs : RegistryInv env s)
    (hf : ∀ row, RowKept row (f row))
    (hcurrent : (∀ row, (f row).revokedAt = row.revokedAt) ∨ Superseded s h) :
    (handshakeDiscipline env).guar n s
      { s with sessions := Function.update s.sessions h ((s.sessions h).map f) } := by
  have hkept : ∀ h' row, RowKept row (if h' = h then f row else row) := by
    intro h' row
    split
    · exact hf row
    · exact ⟨rfl, rfl, id⟩
  rw [rewriteRows_one]
  refine ⟨fun _ => inv_rewriteRows hs hkept fun h' row _ => ?_, grown_rewriteRows hkept,
    fun m _ => ⟨fun _ _ h => h, fun _ h _ => h, fun _ _ _ _ _ h => h⟩⟩
  by_cases heq : h' = h
  · rw [if_pos heq, heq]
    exact hcurrent.imp_left fun hf => hf row
  · exact .inl (by rw [if_neg heq])

/-- Touching a session keeps the terms. -/
theorem guar_touch (hs : RegistryInv env s) (now : Stamp) :
    (handshakeDiscipline env).guar n s (s.touch h now) :=
  guar_rewrite hs (fun _ => ⟨rfl, rfl, id⟩) (.inl fun _ => rfl)

/-- Revoking a superseded session keeps the terms. -/
theorem guar_revoke (hs : RegistryInv env s) (hold : Superseded s h) (now : Stamp) :
    (handshakeDiscipline env).guar n s (s.revoke h now) :=
  guar_rewrite hs (fun _ => ⟨rfl, rfl, fun _ => rfl⟩) (.inr hold)

/-! ## A key is stored or deleted -/

/-- An answer of the epoch is the newest mark or was there before. -/
theorem inEpoch_of_cons {mark : HandshakeMark} {marks : List HandshakeMark} {ticket : ℕ}
    {bearer : String} (hmem : .answered role ticket bearer ∈ epoch role (mark :: marks)) :
    mark = .answered role ticket bearer ∨ .answered role ticket bearer ∈ epoch role marks := by
  unfold epoch at hmem ⊢
  rw [List.takeWhile_cons] at hmem
  split at hmem
  · exact (List.mem_cons.mp hmem).imp_left Eq.symm
  · cases hmem

/-- An answer that no deletion of the key separates from the present. -/
theorem mem_epoch {l₁ l₂ : List HandshakeMark} {mark : HandshakeMark}
    (hno : .keyDeleted role ∉ l₁) (hmark : mark ≠ .keyDeleted role) :
    mark ∈ epoch role (l₁ ++ mark :: l₂) := by
  unfold epoch
  rw [List.takeWhile_append_of_pos]
  · rw [List.takeWhile_cons_of_pos (by simpa using hmark)]
    exact List.mem_append_right _ (List.mem_cons_self ..)
  · intro m hm
    have hne : m ≠ .keyDeleted role := fun heq => hno (heq ▸ hm)
    simpa using hne

/-- The ticket of a session has been given out. -/
theorem RegistryInv.session_ticket (hs : RegistryInv env s) {row : SessionRow}
    (hrow : s.sessions h = some row) : row.ticket < s.stores.length := by
  obtain ⟨k, -, -, hmark⟩ := hs.session h row hrow
  obtain ⟨⟨call, hstore⟩, -⟩ := hs.answered _ _ _ hmark
  exact (List.getElem?_eq_some_iff.mp hstore).1

/-- The state after `put_pubkey`. -/
def storeKey (s : Registry) (n : ℕ) (actor : Actor) (key : PubkeyRow) : Registry :=
  { s with pubkeys := Function.update s.pubkeys actor (some key), stores := s.stores ++ [(n, actor)] }

/-- Storing a key under the next ticket keeps the terms. -/
theorem guar_storeKey (hs : RegistryInv env s) {key : PubkeyRow}
    (hticket : key.ticket = s.stores.length) :
    (handshakeDiscipline env).guar n s (storeKey s n actor key) := by
  have hgrown : RegistryGrown s (storeKey s n actor key) := by
    refine ⟨List.prefix_append .., List.prefix_rfl, fun _ h => h, fun _ h => h,
      fun _ row h => ⟨row, h, rfl, rfl, id⟩, fun role key' hkey => ?_⟩
    by_cases hrole : role = actor
    · subst hrole
      simp only [storeKey, Function.update_self, Option.some.injEq] at hkey
      exact .inr (by rw [← hkey, hticket])
    · simp only [storeKey, Function.update_of_ne hrole] at hkey
      exact .inl hkey
  refine ⟨fun hterms => ?_, hgrown, fun m hm => ⟨fun ticket role hstore => ?_,
    fun _ h _ => h, fun _ _ _ _ _ h => h⟩⟩
  · -- the role had no key
    have hfree : s.pubkeys actor = none :=
      hterms.keyFree actor key (by simp [storeKey]) hticket.ge
    have hother : ∀ {role}, role ≠ actor →
        (storeKey s n actor key).pubkeys role = s.pubkeys role := fun hrole => by
      simp [storeKey, Function.update_of_ne hrole]
    have hself : (storeKey s n actor key).pubkeys actor = some key := by simp [storeKey]
    refine ⟨fun role key' hkey => ?_, fun role ticket bearer hmark => ?_, hs.answeredOnce,
      hs.session, fun role ticket bearer hmark => ?_, hs.apart,
      fun role key' h row hkey hrow hsame => ?_, fun role h hactive => ?_, fun scan hscan => ?_⟩
    · by_cases hrole : role = actor
      · subst hrole
        rw [hself, Option.some.injEq] at hkey
        rw [← hkey, hticket]
        exact ⟨n, by simp [storeKey]⟩
      · rw [hother hrole] at hkey
        obtain ⟨call, hstore⟩ := hs.keyStored role key' hkey
        exact ⟨call, getElem?_mono hgrown.stores hstore⟩
    · obtain ⟨⟨call, hstore⟩, hrow⟩ := hs.answered role ticket bearer hmark
      exact ⟨⟨call, getElem?_mono hgrown.stores hstore⟩, hrow⟩
    · have hkey := hs.inEpoch role ticket bearer hmark
      by_cases hrole : role = actor
      · rw [hrole, hfree] at hkey
        cases hkey
      · rw [hother hrole]
        exact hkey
    · by_cases hrole : role = actor
      · subst hrole
        rw [hself, Option.some.injEq] at hkey
        have hlt := hs.session_ticket hrow
        rw [← hkey, hticket] at hsame
        omega
      · rw [hother hrole] at hkey
        exact hs.current role key' h row hkey hrow hsame
    · by_cases hrole : role = actor
      · subst hrole
        rcases hs.covered role h hactive with hkey | hdue
        · obtain ⟨row, hrow, -⟩ := active_iff.mp hactive
          rw [hfree, show s.sessions h = some row from hrow] at hkey
          cases hkey
        · exact .inr hdue
      · rw [hother hrole]
        exact hs.covered role h hactive
    · obtain ⟨hfound, hdue⟩ := hs.scanned scan hscan
      exact ⟨fun h hmem => hgrown.superseded (hfound h hmem), hdue⟩
  · simp only [storeKey] at hstore
    rw [List.getElem?_append] at hstore
    split at hstore
    · exact hstore
    · rw [List.getElem?_singleton] at hstore
      split at hstore
      · simp only [Option.some.injEq, Prod.mk.injEq] at hstore
        exact absurd hstore.1.symm hm
      · cases hstore

/-- The state after `delete_pubkey`. -/
def deleteKey (s : Registry) (n : ℕ) (actor : Actor) : Registry :=
  { s with
    pubkeys := Function.update s.pubkeys actor none
    deletes := s.deletes ++ [{ call := n, due := s.active actor }]
    marks := .keyDeleted actor :: s.marks }

/-- Deleting a key keeps the terms. -/
theorem guar_deleteKey (hs : RegistryInv env s) :
    (handshakeDiscipline env).guar n s (deleteKey s n actor) := by
  have hother : ∀ {role}, role ≠ actor → (deleteKey s n actor).pubkeys role = s.pubkeys role :=
    fun hrole => by simp [deleteKey, Function.update_of_ne hrole]
  have hself : (deleteKey s n actor).pubkeys actor = none := by simp [deleteKey]
  have hkeys : ∀ {role key}, (deleteKey s n actor).pubkeys role = some key →
      s.pubkeys role = some key := by
    intro role key hkey
    by_cases hrole : role = actor
    · rw [hrole, hself] at hkey
      cases hkey
    · rwa [hother hrole] at hkey
  have hgrown : RegistryGrown s (deleteKey s n actor) :=
    ⟨List.prefix_rfl, List.prefix_append .., fun _ h => h, fun _ h => List.mem_cons_of_mem _ h,
      fun _ row h => ⟨row, h, rfl, rfl, id⟩, fun _ _ hkey => .inl (hkeys hkey)⟩
  have hmarks : ∀ {role ticket bearer},
      HandshakeMark.answered role ticket bearer ∈ (deleteKey s n actor).marks →
        .answered role ticket bearer ∈ s.marks := by
    intro role ticket bearer hmark
    rcases List.mem_cons.mp hmark with heq | hmark
    · cases heq
    · exact hmark
  refine ⟨fun _ => ?_, hgrown, fun m hm => ⟨fun _ _ h => h, fun d hd hcall => ?_,
    fun _ _ _ _ _ hmark => hmarks hmark⟩⟩
  · refine ⟨fun role key hkey => hs.keyStored role key (hkeys hkey),
      fun role ticket bearer hmark => hs.answered role ticket bearer (hmarks hmark),
      fun role ticket bearer role' bearer' hmark hmark' =>
        hs.answeredOnce role ticket bearer role' bearer' (hmarks hmark) (hmarks hmark'),
      fun h row hrow => ?_, fun role ticket bearer hmark => ?_,
      fun role l₁ l₂ l₃ t b t' b' hsplit => ?_,
      fun role key h row hkey => hs.current role key h row (hkeys hkey),
      fun role h hactive => ?_, fun scan hscan => ?_⟩
    · obtain ⟨k, hk, heq, hmark⟩ := hs.session h row hrow
      exact ⟨k, hk, heq, List.mem_cons_of_mem _ hmark⟩
    · by_cases hrole : role = actor
      · -- the epoch of the role begins anew
        rw [hrole] at hmark
        simp [deleteKey, epoch] at hmark
      · rw [hother hrole]
        rcases inEpoch_of_cons hmark with heq | hmark
        · cases heq
        · exact hs.inEpoch role ticket bearer hmark
    · cases l₁ with
      | nil => cases (List.cons.inj hsplit).1
      | cons x l₁ => exact hs.apart role l₁ l₂ l₃ t b t' b' (List.cons.inj hsplit).2
    · by_cases hrole : role = actor
      · subst hrole
        exact .inr ⟨_, List.mem_append_right _ (List.mem_singleton_self _), hactive⟩
      · rw [hother hrole]
        rcases hs.covered role h hactive with hkey | ⟨d, hd, hdue⟩
        · exact .inl hkey
        · exact .inr ⟨d, List.mem_append_left _ hd, hdue⟩
    · obtain ⟨hfound, d, hd, hdue⟩ := hs.scanned scan hscan
      exact ⟨fun h hmem => hgrown.superseded (hfound h hmem), d,
        getElem?_mono hgrown.deletes hd, hdue⟩
  · rcases List.mem_append.mp hd with hd | hd
    · exact hd
    · rw [List.mem_singleton.mp hd] at hcall
      exact absurd hcall.symm hm

/-- The scan finds what is on its page; it has to come to everything that its deletion left to be
revoked. -/
theorem guar_scan (hs : RegistryInv env s) {scan : RegistryScan} {d : Deletion}
    (hd : s.deletes[scan.ticket]? = some d)
    (hdue : ∀ h, d.due h → Revoked s h ∨ s.active scan.role h)
    (hfound : scan.found = scan.page.filter (s.active scan.role)) :
    (handshakeDiscipline env).guar n s { s with scans := scan :: s.scans } := by
  have hgrown : RegistryGrown s { s with scans := scan :: s.scans } :=
    ⟨List.prefix_rfl, List.prefix_rfl, fun _ h => List.mem_cons_of_mem _ h, fun _ h => h,
      fun _ row h => ⟨row, h, rfl, rfl, id⟩, fun _ _ h => .inl h⟩
  refine ⟨fun hterms => ?_, hgrown,
    fun m _ => ⟨fun _ _ h => h, fun _ h _ => h, fun _ _ _ _ _ h => h⟩⟩
  refine { hs with scanned := fun scan' hscan' => ?_ }
  rcases List.mem_cons.mp hscan' with rfl | hscan'
  · refine ⟨fun h hmem => ?_, d, hd, fun h hh => (hdue h hh).imp_right fun hactive => ?_⟩
    · rw [hfound, List.mem_filter] at hmem
      obtain ⟨row, hrow, -⟩ := active_iff.mp hmem.2
      obtain ⟨k, hk, rfl, -⟩ := hs.session h row hrow
      obtain ⟨-, hkeys⟩ := hterms.scanMeets _ rfl k hk hmem.2
      refine ⟨row, hrow, hs.session_ticket hrow, fun role key hkey heq => ?_⟩
      apply hkeys role
      rw [hkey, hrow, Option.map_some, Option.map_some, heq]
    · obtain ⟨row, hrow, -⟩ := active_iff.mp hactive
      obtain ⟨k, hk, rfl, -⟩ := hs.session h row hrow
      rw [hfound, List.mem_filter]
      exact ⟨(hterms.scanMeets _ rfl k hk hactive).1, hactive⟩
  · exact hs.scanned scan' hscan'

/-- The state after `put_session`. -/
def storeSession (env : HandshakeEnv) (s : Registry) (actor : Actor) (row : SessionRow) : Registry :=
  { s with
    sessions := Function.update s.sessions (env.sha256 (env.tokenUrlsafe s.drawn)) (some row)
    drawn := s.drawn + 1
    marks := .answered actor row.ticket (env.tokenUrlsafe s.drawn) :: s.marks }

/-- Storing a fresh session of an unanswered ticket keeps the terms. -/
theorem guar_storeSession (hs : RegistryInv env s) {row : SessionRow} (hactor : row.actor = actor)
    (hnew : row.revokedAt = none) (hstore : s.stores[row.ticket]? = some (n, actor))
    (hunanswered : ∀ role bearer, .answered role row.ticket bearer ∉ s.marks) :
    (handshakeDiscipline env).guar n s (storeSession env s actor row) := by
  have hfresh : ∀ {h old}, s.sessions h = some old →
      (storeSession env s actor row).sessions h = some old := by
    intro h old hold
    obtain ⟨k, hk, rfl, -⟩ := hs.session h old hold
    have hne : env.sha256 (env.tokenUrlsafe k) ≠ env.sha256 (env.tokenUrlsafe s.drawn) :=
      fun heq => absurd (env.token_fresh heq) (by omega)
    simpa [storeSession, Function.update_of_ne hne] using hold
  have hself : (storeSession env s actor row).sessions
      (env.sha256 (env.tokenUrlsafe s.drawn)) = some row := by simp [storeSession]
  have hcases : ∀ {h row'}, (storeSession env s actor row).sessions h = some row' →
      (h = env.sha256 (env.tokenUrlsafe s.drawn) ∧ row' = row) ∨ s.sessions h = some row' := by
    intro h row' hrow'
    by_cases heq : h = env.sha256 (env.tokenUrlsafe s.drawn)
    · rw [heq, hself, Option.some.injEq] at hrow'
      exact .inl ⟨heq, hrow'.symm⟩
    · simp only [storeSession, Function.update_of_ne heq] at hrow'
      exact .inr hrow'
  have hgrown : RegistryGrown s (storeSession env s actor row) :=
    ⟨List.prefix_rfl, List.prefix_rfl, fun _ h => h, fun _ h => List.mem_cons_of_mem _ h,
      fun _ old h => ⟨old, hfresh h, rfl, rfl, id⟩, fun _ _ h => .inl h⟩
  refine ⟨fun hterms => ?_, hgrown, fun m hm => ⟨fun _ _ h => h, fun _ h _ => h,
    fun role ticket bearer role' hown hmark => ?_⟩⟩
  · -- the role's key is the one of this call
    have hown : (s.pubkeys actor).map (·.ticket) = some row.ticket :=
      hterms.keyOwn _ rfl _ _ _ rfl
    refine ⟨hs.keyStored, fun role ticket bearer hmark => ?_,
      fun role ticket bearer role' bearer' hmark hmark' => ?_, fun h row' hrow' => ?_,
      fun role ticket bearer hmark => ?_, fun role l₁ l₂ l₃ t b t' b' hsplit => ?_,
      fun role key h row' hkey hrow' hsame => ?_, fun role h hactive => ?_, fun scan hscan => ?_⟩
    · rcases List.mem_cons.mp hmark with heq | hmark
      · cases heq
        exact ⟨⟨n, hstore⟩, row, hself, hactor, rfl⟩
      · obtain ⟨hcall, old, hold, hrest⟩ := hs.answered role ticket bearer hmark
        exact ⟨hcall, old, hfresh hold, hrest⟩
    · rcases List.mem_cons.mp hmark with heq | hmark
      · cases heq
        rcases List.mem_cons.mp hmark' with heq | hmark'
        · cases heq
          rfl
        · exact absurd hmark' (hunanswered role' bearer')
      · rcases List.mem_cons.mp hmark' with heq | hmark'
        · cases heq
          exact absurd hmark (hunanswered role bearer)
        · exact hs.answeredOnce role ticket bearer role' bearer' hmark hmark'
    · rcases hcases hrow' with ⟨rfl, rfl⟩ | hold
      · exact ⟨s.drawn, Nat.lt_succ_self _, rfl, by rw [hactor]; exact List.mem_cons_self ..⟩
      · obtain ⟨k, hk, heq, hmark⟩ := hs.session h row' hold
        exact ⟨k, Nat.lt_succ_of_lt hk, heq, List.mem_cons_of_mem _ hmark⟩
    · rcases inEpoch_of_cons hmark with heq | hmark
      · cases heq
        exact hown
      · exact hs.inEpoch role ticket bearer hmark
    · cases l₁ with
      | nil =>
        obtain ⟨hhead, htail⟩ := List.cons.inj hsplit
        cases hhead
        by_contra hno
        -- the older answer would be one to this call's own key
        have hepoch : .answered actor t' b' ∈ epoch actor s.marks := by
          rw [htail]
          exact mem_epoch hno nofun
        have hticket := hs.inEpoch actor t' b' hepoch
        rw [hown, Option.some.injEq] at hticket
        subst hticket
        exact hunanswered actor b' (htail ▸ List.mem_append_right _ (List.mem_cons_self ..))
      | cons x l₁ => exact hs.apart role l₁ l₂ l₃ t b t' b' (List.cons.inj hsplit).2
    · rcases hcases hrow' with ⟨rfl, rfl⟩ | hold
      · exact hnew
      · exact hs.current role key h row' hkey hold hsame
    · obtain ⟨row', hrow', hrole, hnone⟩ := active_iff.mp hactive
      rcases hcases hrow' with ⟨rfl, rfl⟩ | hold
      · left
        rw [hself, ← hrole, hactor]
        exact hown
      · have hcovered := hs.covered role h (active_iff.mpr ⟨row', hold, hrole, hnone⟩)
        rw [hrow', ← hold]
        exact hcovered
    · obtain ⟨hfound, d, hd, hdue⟩ := hs.scanned scan hscan
      exact ⟨fun h hmem => hgrown.superseded (hfound h hmem), d, hd,
        fun h hh => (hdue h hh).imp_left hgrown.revoked⟩
  · rcases List.mem_cons.mp hmark with heq | hmark
    · cases heq
      rw [hstore, Option.some.injEq, Prod.mk.injEq] at hown
      exact absurd hown.1.symm hm
    · exact hmark

/-! ## The calls -/

/-- What a number that runs nothing has done: every key it stored has been answered for, and
everything its deletions left to be revoked is revoked. -/
structure CallSettled (n : ℕ) (s : Registry) : Prop where
  answered : ∀ (ticket : ℕ) role, s.stores[ticket]? = some (n, role) →
    ∃ bearer, .answered role ticket bearer ∈ s.marks
  revoked : ∀ d ∈ s.deletes, d.call = n → ∀ h, d.due h → Revoked s h

/-- A settled call stays settled. -/
theorem CallSettled.stable (hs : CallSettled n s) (hst : RegistryGrown s t ∧ OwnKept n s t) :
    CallSettled n t := by
  obtain ⟨hgrown, hown⟩ := hst
  refine ⟨fun ticket role hstore => ?_, fun d hd hcall h hdue => ?_⟩
  · obtain ⟨bearer, hmark⟩ := hs.answered ticket role (hown.stores ticket role hstore)
    exact ⟨bearer, hgrown.marks _ hmark⟩
  · exact hgrown.revoked (hs.revoked d (hown.deletes d hd hcall) hcall h hdue)

/-- A call that stores its session for the key it stored is settled. -/
theorem CallSettled.storeSession {row : SessionRow} {key : PubkeyRow} (hs : CallSettled n s)
    (hst : (handshakeDiscipline env).rely n (storeKey s n actor key) t)
    (hlast : RegistryGrown t (storeSession env t actor row))
    (hrow : row.ticket = s.stores.length) : CallSettled n (storeSession env t actor row) := by
  obtain ⟨hgrown, hown⟩ := hst
  refine ⟨fun ticket role hstore => ?_, fun d hd hcall h hdue => ?_⟩
  · have hbefore := hown.stores ticket role hstore
    simp only [storeKey] at hbefore
    rw [List.getElem?_append] at hbefore
    split at hbefore
    · obtain ⟨bearer, hmark⟩ := hs.answered ticket role hbefore
      exact ⟨bearer, List.mem_cons_of_mem _ (hgrown.marks _ hmark)⟩
    · next hge =>
      rw [List.getElem?_singleton] at hbefore
      split at hbefore
      · next hzero =>
        simp only [Option.some.injEq, Prod.mk.injEq] at hbefore
        obtain rfl : ticket = row.ticket := by omega
        obtain rfl : actor = role := hbefore.2
        exact ⟨_, List.mem_cons_self ..⟩
      · cases hbefore
  · have hrev := hs.revoked d (hown.deletes d hd hcall) hcall h hdue
    exact hlast.revoked (hgrown.revoked hrev)

/-- A registration keeps the terms and ends settled. -/
theorem safe_initHandshake (body : HandshakeIn) (bootstrap : Option String)
    (hs : CallSettled n s) : (handshakeDiscipline env).Safe n (initHandshake env n body bootstrap)
      (fun _ t => RegistryInv env t → CallSettled n t) s := by
  unfold initHandshake
  split
  · exact fun _ => hs
  · next role kemPub _ =>
    refine Discipline.Safe.act fun t ht hi i => ⟨guar_reads hi, ?_⟩
    have hst : CallSettled n t := hs.stable ht
    dsimp only
    cases t.pubkeys role with
    | some row => exact fun _ => hst
    | none =>
      refine Discipline.Safe.act fun u hu hiu j => ⟨guar_storeKey hiu rfl, ?_⟩
      have hsu : CallSettled n u := hst.stable hu
      refine Discipline.Safe.act fun v hv hiv k => ?_
      -- nobody else has answered with this call's ticket
      have hstore : v.stores[u.stores.length]? = some (n, role) :=
        getElem?_mono hv.1.stores (by simp)
      have hunanswered : ∀ role' bearer, .answered role' u.stores.length bearer ∉ v.marks := by
        intro role' bearer hmark
        have hbefore := hv.2.answers role' u.stores.length bearer role (by simp) hmark
        obtain ⟨⟨call, hcall⟩, -⟩ := hiu.answered _ _ _ hbefore
        have hlt := (List.getElem?_eq_some_iff.mp hcall).1
        omega
      let row : SessionRow := { actor := role, createdAt := k.now, ticket := u.stores.length }
      have hguar : (handshakeDiscipline env).guar n v (storeSession env v role row) :=
        guar_storeSession hiv rfl rfl hstore hunanswered
      exact ⟨hguar, fun _ => hsu.storeSession hv hguar.2.1 rfl⟩

/-- A session that there is is revoked by the revocation. -/
theorem revoked_revoke (hrow : ∃ row, s.sessions h = some row) (now : Stamp) :
    Revoked (s.revoke h now) h := by
  obtain ⟨row, hrow⟩ := hrow
  exact ⟨{ row with revokedAt := some now }, by simp [Registry.revoke, hrow], rfl⟩

/-- The updates stay within the terms and revoke what they come to. -/
theorem safe_revokeEach {scan : RegistryScan} (now : Stamp) (hs : List String)
    (hfound : ∀ h ∈ hs, h ∈ scan.found) (hscan : scan ∈ s.scans)
    (hrows : ∀ h ∈ hs, ∃ row, s.sessions h = some row) :
    (handshakeDiscipline env).Safe n (Registry.revokeEach now hs)
      (fun _ t => (handshakeDiscipline env).rely n s t ∧ ∀ h ∈ hs, Revoked t h) s := by
  induction hs generalizing s with
  | nil => exact ⟨(handshakeDiscipline env).rely_refl n s, fun _ h => nomatch h⟩
  | cons h hs ih =>
    refine Discipline.Safe.act fun t ht hi i => ?_
    have hold : Superseded t h :=
      (hi.scanned scan (ht.1.scans scan hscan)).1 h (hfound h (List.mem_cons_self ..))
    have hguar := guar_revoke (n := n) hi hold now
    have hown : (handshakeDiscipline env).rely n t (t.revoke h now) :=
      ⟨hguar.2.1, fun _ _ h => h, fun _ h _ => h, fun _ _ _ _ _ h => h⟩
    have hrely := (handshakeDiscipline env).rely_trans n s t _ ht hown
    refine ⟨hguar, Discipline.Safe.bind ((ih (fun h hh => hfound h (List.mem_cons_of_mem _ hh))
      (hrely.1.scans scan hscan) fun h hh => ?_).weaken fun count u hu => ?_)⟩
    · obtain ⟨row, hrow⟩ := hrows h (List.mem_cons_of_mem _ hh)
      obtain ⟨row', hrow', -⟩ := hrely.1.sessions h row hrow
      exact ⟨row', hrow'⟩
    · refine ⟨(handshakeDiscipline env).rely_trans n s _ u hrely hu.1, fun h' hh' => ?_⟩
      rcases List.mem_cons.mp hh' with rfl | hh'
      · obtain ⟨row, hrow⟩ := hrows h' (List.mem_cons_self ..)
        obtain ⟨row', hrow', -⟩ := ht.1.sessions h' row hrow
        exact hu.1.1.revoked (revoked_revoke ⟨row', hrow'⟩ now)
      · exact hu.2 h' hh'

/-- A call that has deleted a key is settled once the sessions are revoked. -/
theorem CallSettled.deleteKey (hs : CallSettled n s)
    (hst : (handshakeDiscipline env).rely n (deleteKey s n actor) t)
    (hdone : RegistryInv env t → ∀ h, s.active actor h → Revoked t h) (ht : RegistryInv env t) :
    CallSettled n t := by
  obtain ⟨hgrown, hown⟩ := hst
  refine ⟨fun ticket role hstore => ?_, fun d hd hcall h hdue => ?_⟩
  · obtain ⟨bearer, hmark⟩ := hs.answered ticket role (hown.stores ticket role hstore)
    exact ⟨bearer, hgrown.marks _ (List.mem_cons_of_mem _ hmark)⟩
  · rcases List.mem_append.mp (hown.deletes d hd hcall) with hold | hnew
    · exact hgrown.revoked (hs.revoked d hold hcall h hdue)
    · rw [List.mem_singleton.mp hnew] at hdue
      exact hdone ht h hdue

/-- A session that was not revoked is not revoked or revoked later. -/
theorem RegistryGrown.revoked_or_active (hst : RegistryGrown s t) (hactive : s.active role h) :
    Revoked t h ∨ t.active role h := by
  obtain ⟨row, hrow, hrole, -⟩ := active_iff.mp hactive
  obtain ⟨row', hrow', hactor, -⟩ := hst.sessions h row hrow
  cases hrev : row'.revokedAt with
  | none => exact .inr (active_iff.mpr ⟨row', hrow', hactor.trans hrole, hrev⟩)
  | some now => exact .inl ⟨row', hrow', by rw [hrev]; rfl⟩

/-- A revocation keeps the terms and ends settled. -/
theorem safe_handshakeRevoke (roleText : String) (bootstrap : Option String)
    (hs : CallSettled n s) :
    (handshakeDiscipline env).Safe n (handshakeRevoke env n roleText bootstrap)
      (fun _ t => RegistryInv env t → CallSettled n t) s := by
  unfold handshakeRevoke
  split
  · exact fun _ => hs
  · exact fun _ => hs
  · split
    · exact fun _ => hs
    · next role _ =>
      refine Discipline.Safe.act fun t ht hi i => ⟨guar_deleteKey hi, ?_⟩
      have hst : CallSettled n t := hs.stable ht
      refine Discipline.Safe.bind (Discipline.Safe.act fun u hu hiu j => ?_)
      have hd : u.deletes[t.deletes.length]? = some { call := n, due := t.active role } :=
        getElem?_mono hu.1.deletes (by simp)
      have hdue : ∀ h, t.active role h → Revoked u h ∨ u.active role h :=
        fun h hactive => hu.1.revoked_or_active hactive
      let scan : RegistryScan :=
        { ticket := t.deletes.length, role, page := j.pages.headD []
          found := (j.pages.headD []).filter (u.active role) }
      have hguar : (handshakeDiscipline env).guar n u { u with scans := scan :: u.scans } :=
        guar_scan hiu hd hdue rfl
      have hupdates : (handshakeDiscipline env).Safe n (Registry.revokeEach j.now scan.found)
          (fun _ v => (handshakeDiscipline env).rely n { u with scans := scan :: u.scans } v ∧
            ∀ h ∈ scan.found, Revoked v h) { u with scans := scan :: u.scans } := by
        refine safe_revokeEach j.now scan.found (fun _ h => h) (List.mem_cons_self ..) ?_
        intro h hmem
        obtain ⟨row, hrow, -⟩ := active_iff.mp (List.mem_filter.mp hmem).2
        exact ⟨row, hrow⟩
      refine ⟨hguar, hupdates.weaken fun count v hv => ?_⟩
      have hown : (handshakeDiscipline env).rely n u { u with scans := scan :: u.scans } :=
        ⟨hguar.2.1, fun _ _ h => h, fun _ h _ => h, fun _ _ _ _ _ h => h⟩
      have hrely := (handshakeDiscipline env).rely_trans n _ _ _ hu
        ((handshakeDiscipline env).rely_trans n _ _ _ hown hv.1)
      refine fun hiv => hst.deleteKey hrely (fun _ h hactive => ?_) hiv
      -- the scan found the session, or it was revoked by then
      obtain ⟨-, d, hd', hdone⟩ := hiv.scanned scan (hv.1.1.scans _ (List.mem_cons_self ..))
      have hsame := getElem?_mono (hown.1.trans hv.1.1).deletes hd
      rw [hd', Option.some.injEq] at hsame
      subst hsame
      rcases hdone h hactive with hrev | hmem
      · exact hrev
      · exact hv.2 h hmem

/-- A check of a bearer keeps the terms and ends settled. -/
theorem safe_requireBearer (authorization : Option String) (hs : CallSettled n s) :
    (handshakeDiscipline env).Safe n (requireBearer env authorization)
      (fun _ t => RegistryInv env t → CallSettled n t) s := by
  unfold requireBearer
  split
  · exact fun _ => hs
  · next rest _ =>
    refine Discipline.Safe.act fun t ht hi i => ⟨guar_reads hi, ?_⟩
    have hst : CallSettled n t := hs.stable ht
    dsimp only
    cases t.sessions (env.sha256 (Text.strip rest)) with
    | none => exact fun _ => hst
    | some row =>
      dsimp only
      split
      · exact fun _ => hst
      · refine Discipline.Safe.act fun u hu hiu j => ?_
        have hguar : (handshakeDiscipline env).guar n u
            (u.touch (env.sha256 (Text.strip rest)) j.now) := guar_touch hiu j.now
        refine ⟨hguar, fun _ => (hst.stable hu).stable ?_⟩
        exact ⟨hguar.2.1, fun _ _ h => h, fun _ h _ => h, fun _ _ _ _ _ h => h⟩

/-- Every request keeps the terms and ends settled. -/
theorem safe_handshakeCode (n : ℕ) (op : HandshakeOp) (s : Registry) (hs : CallSettled n s) :
    (handshakeDiscipline env).Safe n (handshakeCode env n op)
      (fun _ t => RegistryInv env t → CallSettled n t) s := by
  cases op with
  | post body bootstrap => exact Discipline.Safe.bind (safe_initHandshake body bootstrap hs)
  | delete role bootstrap => exact Discipline.Safe.bind (safe_handshakeRevoke role bootstrap hs)
  | authenticate authorization => exact Discipline.Safe.bind (safe_requireBearer authorization hs)

/-! ## Runs -/

/-- The empty registry keeps the invariant. -/
theorem inv_empty : RegistryInv env {} where
  keyStored _ _ h := nomatch h
  answered _ _ _ h := nomatch h
  answeredOnce _ _ _ _ _ h := nomatch h
  session _ _ h := nomatch h
  inEpoch _ _ _ h := nomatch h
  apart _ l₁ _ _ _ _ _ _ h := by simp at h
  current _ _ _ _ h := nomatch h
  covered _ _ h := nomatch h
  scanned _ h := nomatch h

/-- Between any two registrations of a role that answered, its key was deleted. -/
def AnswersApart (role : Actor) (marks : List HandshakeMark) : Prop :=
  ∀ l₁ l₂ l₃ t b t' b', marks = l₁ ++ .answered role t b :: l₂ ++ .answered role t' b' :: l₃ →
    .keyDeleted role ∈ l₂

/-- The only bearer of the role that is not revoked is the one of the registration that stored the
role's key. -/
def OnlyBearer (env : HandshakeEnv) (s : Registry) (role : Actor) (key : PubkeyRow) : Prop :=
  ∃ bearer, .answered role key.ticket bearer ∈ s.marks ∧
    ∀ h, s.active role h = true ↔ h = env.sha256 bearer

/-- When all calls are settled, the key has its own bearer alone. -/
theorem onlyBearer_of_settled (hs : RegistryInv env s) (hsettled : ∀ n, CallSettled n s)
    {key : PubkeyRow} (hkey : s.pubkeys role = some key) : OnlyBearer env s role key := by
  obtain ⟨call, hstore⟩ := hs.keyStored role key hkey
  obtain ⟨bearer, hmark⟩ := (hsettled call).answered key.ticket role hstore
  refine ⟨bearer, hmark, fun h => ⟨fun hactive => ?_, ?_⟩⟩
  · rcases hs.covered role h hactive with hown | ⟨d, hd, hdue⟩
    · obtain ⟨row, hrow, hactor, -⟩ := active_iff.mp hactive
      obtain ⟨k, -, rfl, hmark'⟩ := hs.session h row hrow
      rw [hkey, hrow, Option.map_some, Option.map_some, Option.some.injEq] at hown
      rw [← hown] at hmark'
      rw [hs.answeredOnce _ _ _ _ _ hmark hmark']
    · -- what a finished revocation was to revoke is revoked
      obtain ⟨row, hrow, hset⟩ := (hsettled d.call).revoked d hd rfl h hdue
      obtain ⟨row', hrow', -, hnone⟩ := active_iff.mp hactive
      rw [hrow, Option.some.injEq] at hrow'
      rw [hrow', hnone] at hset
      cases hset
  · rintro rfl
    obtain ⟨-, row, hrow, hactor, hticket⟩ := hs.answered role key.ticket bearer hmark
    exact active_iff.mpr ⟨row, hrow, hactor, hs.current role key _ row hkey hrow hticket⟩

/-- **One registration of a role**: in every run whose steps meet the terms, any two registrations
of a role that answer success have a deletion of its key between them, and whenever a role has a
stored key and no call is in progress, the only bearer of the role that is not revoked is the one
that the registration which stored the key returned.
SOURCE: cloud/handshake.py:52-120, cloud/dynamo.py:301-416 -/
theorem one_registration (env : HandshakeEnv) (es : List (Event HandshakeOp RegistryInput))
    (hstop : ∀ n, .stop n ∉ es)
    (hterms : (Pool.idle {}).Steps (handshakeCode env) (HandshakeTerms env) es) (role : Actor) :
    AnswersApart role (handshakeRun env es).state.marks ∧
    ∀ key, (handshakeRun env es).state.pubkeys role = some key →
      (∀ n, (handshakeRun env es).running n = .ret ()) →
        OnlyBearer env (handshakeRun env es).state role key := by
  have hidle : (handshakeDiscipline env).Keeps CallSettled
      (Pool.idle {} : Pool Registry RegistryInput) :=
    ⟨inv_empty, fun n _ => ⟨fun _ _ h => (nomatch h), fun _ h => (nomatch h)⟩⟩
  have hrun := Discipline.run_keeps hidle es (fun _ _ _ _ hst hs => hs.stable hst)
    (fun n op s _ hs => safe_handshakeCode n op s hs) hstop hterms
  refine ⟨hrun.1.apart role, fun key hkey hdone => ?_⟩
  exact onlyBearer_of_settled hrun.1 (fun n => hrun.ended (hdone n)) hkey

section witness

/-- The terms, evaluated. -/
private def termsMet (env : HandshakeEnv) (s t : Registry) : Bool :=
  ([.operator, .client].all fun role => (t.pubkeys role).all fun row =>
    row.ticket < s.stores.length || (s.pubkeys role).isNone) &&
  (match t.marks.head? with
    | some (.answered role ticket _) =>
      t.marks.length ≤ s.marks.length || (s.pubkeys role).map (·.ticket) = some ticket
    | _ => true) &&
  (match t.scans.head? with
    | some scan => t.scans.length ≤ s.scans.length || (List.range s.drawn).all fun k =>
      let h := env.sha256 (env.tokenUrlsafe k)
      !s.active scan.role h || (h ∈ scan.page && [.operator, .client].all fun role =>
        (s.pubkeys role).map (·.ticket) ≠ (s.sessions h).map (·.ticket))
    | none => true)

/-- What the check of the terms accepts meets them. -/
private theorem terms_of_met (hmet : termsMet env s t = true) : HandshakeTerms env s t := by
  simp only [termsMet, Bool.and_eq_true, List.all_eq_true] at hmet
  obtain ⟨⟨hkeys, hmarks⟩, hscans⟩ := hmet
  have hroles : ∀ role : Actor, role ∈ [Actor.operator, Actor.client] := by
    intro role
    cases role <;> decide
  refine ⟨fun role row hrow hle => ?_, fun mark hmark role ticket bearer heq => ?_,
    fun scan hscan k hk hactive => ?_⟩
  · have hrole := hkeys role (hroles role)
    rw [hrow] at hrole
    simp only [Option.all_some, Bool.or_eq_true, decide_eq_true_eq, Option.isNone_iff_eq_none]
      at hrole
    exact hrole.resolve_left (by omega)
  · rw [hmark, heq] at hmarks
    simp only [List.head?_cons, List.length_cons, Bool.or_eq_true, decide_eq_true_eq] at hmarks
    exact hmarks.resolve_left (by omega)
  · rw [hscan] at hscans
    simp only [List.head?_cons, List.length_cons, Bool.or_eq_true, decide_eq_true_eq,
      List.all_eq_true, List.mem_range, Bool.and_eq_true, Bool.not_eq_true'] at hscans
    have hlonger : ¬ s.scans.length + 1 ≤ s.scans.length := by omega
    rcases (hscans.resolve_left hlonger) k hk with hinactive | ⟨hpage, hapart⟩
    · rw [hactive] at hinactive
      cases hinactive
    · exact ⟨hpage, fun role => by simpa using hapart role (hroles role)⟩

/-- Thirty-two zero bytes. -/
private def zeroKey : String := .ofList (.replicate 43 'A' ++ ['='])

private def register (n : ℕ) : Event HandshakeOp RegistryInput :=
  .start n (.post ⟨"operator", zeroKey⟩ (some "bootstrap"))

/-- A registration, a revocation and another registration. -/
private def registerAgain : List (Event HandshakeOp RegistryInput) :=
  [register 0, .step 0 {}, .step 0 {}, .step 0 {},
    .start 1 (.delete "operator" (some "bootstrap")), .step 1 {}, .step 1 { pages := [["t"]] },
    .step 1 {}, register 2, .step 2 {}, .step 2 {}, .step 2 {}]

private def atRest : RegistryProc Unit → Bool
  | .ret _ => true
  | .atom _ _ => false

/-- A program at rest has returned. -/
private theorem ret_of_atRest {q : RegistryProc Unit} (h : atRest q = true) : q = .ret () := by
  cases q with
  | ret r => rfl
  | atom upd next => cases h

/-- Two registrations that both look before either writes. -/
private def registerTwice : List (Event HandshakeOp RegistryInput) :=
  [register 0, register 1, .step 0 {}, .step 1 {}, .step 0 {}, .step 1 {}, .step 0 {}, .step 1 {}]

/-- Two calls register the same role: both answer success, no key was deleted, and both bearers are
accepted. -/
theorem registered_twice :
    ¬ AnswersApart .operator (handshakeRun .plain registerTwice).state.marks ∧
    (handshakeRun .plain registerTwice).state.active .operator "t" ∧
    (handshakeRun .plain registerTwice).state.active .operator "tt" := by
  have hmarks : (handshakeRun .plain registerTwice).state.marks =
      [] ++ .answered .operator 1 "tt" :: [] ++ .answered .operator 0 "t" :: [] := by
    decide +kernel
  refine ⟨fun hapart => ?_, by decide +kernel, by decide +kernel⟩
  exact nomatch hapart _ _ _ _ _ _ _ hmarks

/-- A second registration after a revocation. -/
theorem one_registration_demo :
    AnswersApart .operator (handshakeRun .plain registerAgain).state.marks ∧
    ∃ key, (handshakeRun .plain registerAgain).state.pubkeys .operator = some key ∧
      OnlyBearer .plain (handshakeRun .plain registerAgain).state .operator key := by
  have hterms : (Pool.idle {}).Steps (handshakeCode .plain) (HandshakeTerms .plain)
      registerAgain := by
    have hmet : (Pool.idle {}).Steps (handshakeCode .plain)
        (fun s t => termsMet .plain s t = true) registerAgain := by decide +kernel
    exact hmet.mono fun _ _ => terms_of_met
  obtain ⟨hapart, honly⟩ := one_registration .plain registerAgain (by simp [registerAgain, register])
    hterms .operator
  obtain ⟨key, hkey⟩ : ∃ key,
      (handshakeRun .plain registerAgain).state.pubkeys .operator = some key :=
    Option.isSome_iff_exists.mp (by decide +kernel)
  refine ⟨hapart, key, hkey, honly key hkey fun n => ?_⟩
  by_cases hn : n < 3
  · have hall : ∀ n < 3, atRest ((handshakeRun .plain registerAgain).running n) = true := by
      decide +kernel
    exact ret_of_atRest (hall n hn)
  · unfold handshakeRun
    rw [Pool.run_follow]
    · exact Proc.follow_ret () _
    · intro op hmem
      simp [registerAgain, register] at hmem
      omega
    · simp [registerAgain, register]

end witness

end Mailman.Analysis
