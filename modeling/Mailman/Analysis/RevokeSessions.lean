import Mailman.Model.Handshake

/-!
# A revocation and the bearers of its role

`DELETE /init/handshake/{role}` finds the sessions of the role with a filtered scan of a table
that it shares with packs, events and webhooks, and does not continue the scan after its first
page. It revokes what is on that page. Every bearer of the role is rejected from then on if and
only if the first page holds every session of the role that is not revoked; the bearers of the
other role are not touched.
-/

set_option autoImplicit false

namespace Mailman.Analysis

open Mailman.Library Mailman.Model

variable {env : HandshakeEnv} {s t : Registry} {role : Actor} {h : String}

/-! ## Sessions -/

/-- An active session has a row of the role that is not revoked. -/
theorem active_iff : s.active role h = true ↔
    ∃ row, s.sessions h = some row ∧ row.actor = role ∧ row.revokedAt = none := by
  cases hrow : s.sessions h with
  | none => simp [Registry.active, hrow]
  | some row => simp [Registry.active, hrow]

/-- The session exists and is revoked. -/
def Revoked (s : Registry) (h : String) : Prop :=
  ∃ row, s.sessions h = some row ∧ row.revokedAt.isSome

/-- The item after `revoke_sessions_for_actor` has come to it. -/
theorem sessions_revoke (now : Stamp) (h' : String) : (s.revoke h now).sessions h' =
    if h' = h then (s.sessions h).map fun row => { row with revokedAt := some now }
    else s.sessions h' := by
  simp [Registry.revoke, Function.update_apply]

/-- The updates run to their end. -/
theorem revokeEach_alone {ρ : Type} {now : Stamp} {hs : List String} {f : ℕ → ρ} {r : ρ}
    {is : List RegistryInput}
    (hrun : ((Registry.revokeEach now hs).bind fun c => .ret (f c)).alone s is = (t, .ret r)) :
    (∃ c, r = f c) ∧ t = hs.foldl (fun s h => s.revoke h now) s := by
  induction hs generalizing s f is with
  | nil =>
    have hret : ((Registry.revokeEach now []).bind fun c => .ret (f c)).alone s is =
        (s, .ret (f 0)) := by cases is <;> rfl
    rw [hret, Prod.mk.injEq, Proc.ret.injEq] at hrun
    exact ⟨⟨0, hrun.2.symm⟩, hrun.1.symm⟩
  | cons h hs ih =>
    cases is with
    | nil => exact absurd (congrArg Prod.snd hrun) nofun
    | cons i is =>
      simp only [Registry.revokeEach, Proc.bind_eq, Proc.modify, Proc.act, Proc.bind, Proc.alone,
        Proc.bind_assoc] at hrun
      obtain ⟨⟨c, hc⟩, hend⟩ := ih (f := fun c => f (c + 1)) hrun
      exact ⟨⟨c + 1, hc⟩, hend⟩

/-- What the updates leave of a session. -/
theorem sessions_revokeAll (now : Stamp) (hs : List String) (s : Registry) (h : String) :
    (hs.foldl (fun s h => s.revoke h now) s).sessions h =
      if h ∈ hs then (s.sessions h).map fun row => { row with revokedAt := some now }
      else s.sessions h := by
  induction hs generalizing s with
  | nil => simp
  | cons h' hs ih =>
    rw [List.foldl_cons, ih, sessions_revoke]
    by_cases hmem : h ∈ hs
    · by_cases heq : h = h'
      · subst heq
        simp [hmem, Option.map_map, Function.comp_def]
      · simp [hmem, heq]
    · by_cases heq : h = h'
      · subst heq
        simp [hmem]
      · simp [hmem, heq]

/-- Revoking draws no token. -/
theorem drawn_revokeAll (now : Stamp) (hs : List String) (s : Registry) :
    (hs.foldl (fun s h => s.revoke h now) s).drawn = s.drawn := by
  induction hs generalizing s with
  | nil => rfl
  | cons h hs ih => rw [List.foldl_cons, ih, Registry.revoke]

/-- What a revocation that ran to its success has done: the sessions of the role on the first page
are revoked, and no other session has changed. -/
theorem handshakeRevoke_effect {n : ℕ} {roleText : String} {bootstrap : Option String}
    {i₀ i₁ : RegistryInput} {is : List RegistryInput}
    (hrun : (handshakeRevoke env n roleText bootstrap).alone s (i₀ :: i₁ :: is) =
      (t, .ret (.ok role))) :
    t.drawn = s.drawn ∧ ∀ h, t.sessions h = if h ∈ i₁.pages.headD [] ∧ s.active role h
      then (s.sessions h).map fun row => { row with revokedAt := some i₁.now }
      else s.sessions h := by
  unfold handshakeRevoke at hrun
  split at hrun
  · cases hrun
  · cases hrun
  · split at hrun
    · cases hrun
    · next role' _ =>
      simp only [Registry.deletePubkey, Registry.revokeSessionsForActor, Proc.bind_eq,
        Proc.act, Proc.bind, Proc.alone, Proc.pure_eq] at hrun
      obtain ⟨⟨_, hrole⟩, hend⟩ := revokeEach_alone hrun
      obtain rfl : role = role' := Except.ok.inj hrole
      refine ⟨by rw [hend, drawn_revokeAll], fun h => ?_⟩
      rw [hend, sessions_revokeAll]
      simp only [List.mem_filter]
      rfl

/-! ## Bearers -/

/-- A bearer that was drawn and issued to the role. -/
structure Issued (env : HandshakeEnv) (s : Registry) (role : Actor) (bearer : String) : Prop where
  drawn : ∃ k < s.drawn, bearer = env.tokenUrlsafe k
  row : ∃ row, s.sessions (env.sha256 bearer) = some row ∧ row.actor = role

/-- What `require_bearer` answers to a request that carries the bearer. -/
def answerTo (env : HandshakeEnv) (s : Registry) (bearer : String) (i : RegistryInput) :
    Except HttpError Actor :=
  ((requireBearer env (some ("Bearer " ++ bearer))).result s i).2

/-- The answer to an issued token is that of its row. -/
theorem answerTo_issued (hb : Issued env s role h) (t : Registry) (i : RegistryInput) :
    answerTo env t h i = match t.sessions (env.sha256 h) with
      | none => .error ⟨401, "bearer not recognised or revoked"⟩
      | some row =>
        if row.revokedAt.isSome then .error ⟨401, "bearer not recognised or revoked"⟩
        else .ok row.actor := by
  obtain ⟨⟨k, -, rfl⟩, -⟩ := hb
  have hstrip : Text.strip (env.tokenUrlsafe k) = env.tokenUrlsafe k :=
    Text.stripBy_eq_self (env.token_noSpace k)
  simp only [answerTo, requireBearer, Option.bind_some, Text.afterPrefix_append, hstrip,
    Registry.getSessionByBearer, Proc.get, Proc.act, Proc.bind_eq, Proc.bind, Proc.result]
  cases hrow : t.sessions (env.sha256 (env.tokenUrlsafe k)) with
  | none => rfl
  | some row =>
    dsimp only
    split <;> rfl

/-- An issued token is rejected exactly where its row is revoked. -/
theorem rejected_iff (hb : Issued env s role h) (t : Registry) (i : RegistryInput) :
    (∃ e, answerTo env t h i = .error e) ↔ ∀ row, t.sessions (env.sha256 h) = some row →
      row.revokedAt.isSome := by
  rw [answerTo_issued hb]
  cases t.sessions (env.sha256 h) with
  | none => simp
  | some row =>
    cases hrev : row.revokedAt with
    | none => simp [hrev]
    | some now => simp [hrev]

/-! ## Revoked sessions stay revoked -/

/-- Every session of a bearer drawn so far that is revoked stays revoked. -/
structure StaysRevoked (env : HandshakeEnv) (s t : Registry) : Prop where
  drawn : s.drawn ≤ t.drawn
  revoked : ∀ k < s.drawn, Revoked s (env.sha256 (env.tokenUrlsafe k)) →
    Revoked t (env.sha256 (env.tokenUrlsafe k))

/-- A registry keeps its revocations. -/
theorem StaysRevoked.refl (s : Registry) : StaysRevoked env s s := ⟨le_refl _, fun _ _ h => h⟩

/-- Keeping revocations is transitive. -/
theorem StaysRevoked.trans {u : Registry} (hst : StaysRevoked env s t)
    (htu : StaysRevoked env t u) : StaysRevoked env s u := by
  refine ⟨hst.drawn.trans htu.drawn, fun k hk h => ?_⟩
  exact htu.revoked k (lt_of_lt_of_le hk hst.drawn) (hst.revoked k hk h)

/-- A write to a session that leaves a revoked one revoked. -/
theorem stays_map {f : SessionRow → SessionRow} (hdrawn : t.drawn = s.drawn)
    (hf : ∀ row, row.revokedAt.isSome → (f row).revokedAt.isSome)
    (ht : t.sessions = Function.update s.sessions h ((s.sessions h).map f)) :
    StaysRevoked env s t := by
  refine ⟨hdrawn.ge, fun k _ hrev => ?_⟩
  obtain ⟨row, hrow, hset⟩ := hrev
  by_cases heq : env.sha256 (env.tokenUrlsafe k) = h
  · subst heq
    exact ⟨f row, by rw [ht, Function.update_self, hrow, Option.map_some], hf row hset⟩
  · exact ⟨row, by rw [ht, Function.update_of_ne heq, hrow], hset⟩

/-- The same sessions are revoked as before. -/
theorem stays_of_sessions (hsessions : t.sessions = s.sessions) (hdrawn : t.drawn = s.drawn) :
    StaysRevoked env s t :=
  ⟨hdrawn.ge, fun _ _ ⟨row, hrow, hset⟩ => ⟨row, by rw [hsessions, hrow], hset⟩⟩

/-- A session under a fresh token lifts no revocation. -/
theorem stays_putSession {row : SessionRow} (hdrawn : t.drawn = s.drawn + 1)
    (ht : t.sessions =
      Function.update s.sessions (env.sha256 (env.tokenUrlsafe s.drawn)) (some row)) :
    StaysRevoked env s t := by
  refine ⟨by omega, fun k hk hrev => ?_⟩
  obtain ⟨old, hold, hset⟩ := hrev
  -- a bearer drawn before has another hash than the one drawn now
  have hne : env.sha256 (env.tokenUrlsafe k) ≠ env.sha256 (env.tokenUrlsafe s.drawn) :=
    fun heq => absurd (env.token_fresh heq) (by omega)
  exact ⟨old, by rw [ht, Function.update_of_ne hne, hold], hset⟩

/-- Revoking lifts no revocation. -/
theorem stays_revokeEach {now : Stamp} (hs : List String) :
    (Registry.revokeEach now hs).Every fun s _ t => StaysRevoked env s t := by
  induction hs with
  | nil => trivial
  | cons h hs ih =>
    apply Proc.Every.bind
    · exact Proc.Every.act fun s i => stays_map rfl (fun _ _ => rfl) rfl
    · exact fun _ => ih.bind fun _ => trivial

/-- No call of an endpoint takes a revocation back. -/
theorem stays_code (n : ℕ) (op : HandshakeOp) :
    (handshakeCode env n op).Every fun s _ t => StaysRevoked env s t := by
  cases op with
  | post body bootstrap =>
    refine Proc.Every.bind ?_ fun _ => trivial
    unfold initHandshake
    split
    · trivial
    · apply Proc.Every.bind (Proc.Every.get fun s _ => StaysRevoked.refl s)
      intro existing
      cases existing with
      | some row => trivial
      | none =>
        apply Proc.Every.bind
        · exact Proc.Every.act fun s i => stays_of_sessions rfl rfl
        · intro ticket
          apply Proc.Every.bind
          · exact Proc.Every.act fun s i => stays_putSession rfl rfl
          · exact fun _ => trivial
  | delete role bootstrap =>
    refine Proc.Every.bind ?_ fun _ => trivial
    unfold handshakeRevoke
    split
    · trivial
    · trivial
    · split
      · trivial
      · apply Proc.Every.bind
        · exact Proc.Every.act fun s i => stays_of_sessions rfl rfl
        · intro _
          refine Proc.Every.bind ?_ fun _ => trivial
          apply Proc.Every.bind
          · exact Proc.Every.act fun s i => stays_of_sessions rfl rfl
          · exact fun found => stays_revokeEach found.1
  | authenticate authorization =>
    refine Proc.Every.bind ?_ fun _ => trivial
    unfold requireBearer
    split
    · trivial
    · apply Proc.Every.bind (Proc.Every.get fun s _ => StaysRevoked.refl s)
      intro row
      cases row with
      | none => trivial
      | some row =>
        dsimp only
        split
        · trivial
        · apply Proc.Every.bind
          · apply Proc.Every.act
            intro s i
            apply stays_map (f := fun row => { row with lastSeenAt := some i.now })
            · rfl
            · exact fun _ h => h
            · rfl
          · exact fun _ => trivial

/-- No run lifts a revocation. -/
theorem stays_run (s : Registry) (es : List (Event HandshakeOp RegistryInput)) :
    StaysRevoked env s ((Pool.idle s).run (handshakeCode env) es).state := by
  have hidle : ∀ n, ((Pool.idle s : Pool Registry RegistryInput).running n).Every
      fun s _ t => StaysRevoked env s t := fun _ => trivial
  have hsteps : (Pool.idle s).Steps (handshakeCode env) (StaysRevoked env) es :=
    Pool.steps_of_every stays_code StaysRevoked.refl (fun _ _ _ h => h) hidle es
  exact hsteps.related StaysRevoked.refl fun _ _ _ => StaysRevoked.trans

/-! ## The revocation -/

/-- What a revocation is to do: from then on the role's bearers are rejected, whatever else is
called, and the bearers of the other role that are not revoked are still accepted. -/
structure RoleRevoked (env : HandshakeEnv) (s t : Registry) (role : Actor) : Prop where
  rejected : ∀ bearer, Issued env s role bearer →
    ∀ (es : List (Event HandshakeOp RegistryInput)) (i : RegistryInput),
      ∃ e, answerTo env ((Pool.idle t).run (handshakeCode env) es).state bearer i = .error e
  accepted : ∀ other bearer, other ≠ role → Issued env s other bearer →
    s.active other (env.sha256 bearer) → ∀ i, answerTo env t bearer i = .ok other

/-- **A revocation is complete if and only if its first page is**: after a `DELETE` that answered
success, all bearers of the role are rejected and those of the other role are not touched, exactly
when every session of the role that was not revoked lies on the first page of the scan.
SOURCE: cloud/dynamo.py:333-353, cloud/handshake.py:108-120, cloud/sync.py:24-36 -/
theorem revoke_complete_iff (env : HandshakeEnv) (n : ℕ) (s t : Registry) (roleText : String)
    (role : Actor) (bootstrap : Option String) (i₀ i₁ : RegistryInput) (is : List RegistryInput)
    (hrun : (handshakeRevoke env n roleText bootstrap).alone s (i₀ :: i₁ :: is) =
      (t, .ret (.ok role))) :
    RoleRevoked env s t role ↔ ∀ bearer, Issued env s role bearer →
      s.active role (env.sha256 bearer) → env.sha256 bearer ∈ i₁.pages.headD [] := by
  obtain ⟨hdrawn, hsessions⟩ := handshakeRevoke_effect hrun
  constructor
  · intro hdone bearer hissued hactive
    by_contra hpage
    have hrej := (rejected_iff hissued t {}).mp (hdone.rejected bearer hissued [] {})
    obtain ⟨row, hrow, -, hnone⟩ := active_iff.mp hactive
    have hkept : t.sessions (env.sha256 bearer) = some row := by
      rw [hsessions, if_neg fun h => hpage h.1, hrow]
    have hset := hrej row hkept
    rw [hnone] at hset
    cases hset
  · intro hpage
    refine ⟨fun bearer hissued es i => ?_, fun other bearer hother hissued hactive i => ?_⟩
    · obtain ⟨k, hk, rfl⟩ := hissued.drawn
      obtain ⟨row, hrow, hrole⟩ := hissued.row
      -- the session is revoked when the call ends
      have hend : Revoked t (env.sha256 (env.tokenUrlsafe k)) := by
        by_cases hactive : s.active role (env.sha256 (env.tokenUrlsafe k))
        · refine ⟨{ row with revokedAt := some i₁.now }, ?_, rfl⟩
          rw [hsessions, if_pos ⟨hpage _ hissued hactive, hactive⟩, hrow, Option.map_some]
        · refine ⟨row, by rw [hsessions, if_neg fun h => hactive h.2, hrow], ?_⟩
          cases hrev : row.revokedAt with
          | none => exact absurd (active_iff.mpr ⟨row, hrow, hrole, hrev⟩) hactive
          | some now => rfl
      obtain ⟨row', hrow', hset⟩ := (stays_run t es).revoked k (by omega) hend
      refine (rejected_iff hissued _ i).mpr fun row'' hrow'' => ?_
      rw [hrow', Option.some.injEq] at hrow''
      exact hrow'' ▸ hset
    · obtain ⟨row, hrow, hactor, hnone⟩ := active_iff.mp hactive
      have hkept : t.sessions (env.sha256 bearer) = some row := by
        rw [hsessions, if_neg, hrow]
        rintro ⟨-, hrole⟩
        obtain ⟨row', hrow', hactor', -⟩ := active_iff.mp hrole
        rw [hrow, Option.some.injEq] at hrow'
        exact hother (by rw [← hactor, hrow', hactor'])
      rw [answerTo_issued hissued]
      simp [hkept, hnone, hactor]

section witness

/-- Both roles have registered. -/
private def bothRegistered : Registry where
  pubkeys _ := some { kemPub := [], registeredAt := 0, ticket := 0 }
  sessions h :=
    if h = "t" then some { actor := .operator, createdAt := 0, ticket := 0 }
    else if h = "tt" then some { actor := .client, createdAt := 0, ticket := 1 }
    else none
  drawn := 2
  stores := [(0, .operator), (1, .client)]

/-- A revocation of the operator whose scan is cut into the given pages, after its last request. -/
private def afterRevoke (pages : List (List String)) : Registry :=
  ((handshakeRevoke .plain 2 "operator" (some "bootstrap")).alone bothRegistered
    [{}, { pages }, {}]).1

/-- The sessions lie on the second page of the scan: the call answers success and the bearer of
the revoked role is still accepted. -/
theorem revoke_skips_second_page :
    (handshakeRevoke .plain 2 "operator" (some "bootstrap")).alone bothRegistered
      [{}, { pages := [["PACK#1"], ["t", "tt"]] }, {}] =
        (afterRevoke [["PACK#1"], ["t", "tt"]], .ret (.ok .operator)) ∧
    Issued .plain bothRegistered .operator "t" ∧
    answerTo .plain (afterRevoke [["PACK#1"], ["t", "tt"]]) "t" {} = .ok .operator ∧
    ¬ RoleRevoked .plain bothRegistered (afterRevoke [["PACK#1"], ["t", "tt"]]) .operator := by
  have hissued : Issued .plain bothRegistered .operator "t" :=
    ⟨⟨0, by decide, by decide⟩, ⟨_, rfl, rfl⟩⟩
  have hanswer : answerTo .plain (afterRevoke [["PACK#1"], ["t", "tt"]]) "t" {} = .ok .operator := by
    decide +kernel
  refine ⟨rfl, hissued, hanswer, fun hdone => ?_⟩
  obtain ⟨e, he⟩ := hdone.rejected "t" hissued [] {}
  rw [Pool.run_nil] at he
  exact nomatch hanswer.symm.trans he

/-- Two sessions on two pages are revoked. -/
theorem revoke_complete_iff_demo :
    RoleRevoked .plain bothRegistered (afterRevoke [["t", "tt"]]) .operator := by
  apply (revoke_complete_iff .plain 2 bothRegistered (afterRevoke [["t", "tt"]]) "operator" .operator
    (some "bootstrap") {} { pages := [["t", "tt"]] } [{}] rfl).mpr
  intro bearer hissued hactive
  obtain ⟨k, hk, rfl⟩ := hissued.drawn
  have hcases : k = 0 ∨ k = 1 := by
    change k < 2 at hk
    omega
  rcases hcases with rfl | rfl
  · decide +kernel
  · decide +kernel

end witness

end Mailman.Analysis
