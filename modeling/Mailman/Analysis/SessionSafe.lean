import Mailman.Interface.SessionTerms

/-!
# Every request keeps to the terms

One lemma for each request to the database says that the marks go on accounting for the vault, and
one for each route that its marks have their reasons, whatever the other requests do meanwhile.
-/

set_option autoImplicit false

namespace Mailman.Analysis

open Mailman.Interface Mailman.Library Mailman.Model Mailman.Model.Sessions

variable {e : SessionEnv} {n : ℕ} {s t : Vault} {ms ms' : List VaultMark}

/-! ## Marks stay -/

/-- Who was admitted stays so. -/
theorem admitted_mono {claims : List (Json.Text × Json.Value)} (h : Admitted e n claims ms)
    (hms : ms <:+ ms') : Admitted e n claims ms' := by
  obtain ⟨token, secret, now, hmem, hverdict⟩ := h
  exact ⟨token, secret, now, hms.subset hmem, hverdict⟩

/-- An admin that was admitted stays so. -/
theorem admittedAdmin_mono (h : AdmittedAdmin e n ms) (hms : ms <:+ ms') :
    AdmittedAdmin e n ms' := by
  obtain ⟨claims, hclaims, hadmin⟩ := h
  exact ⟨claims, admitted_mono hclaims hms, hadmin⟩

/-- Who has logged in stays so. -/
theorem loggedIn_mono {g : Grant} (h : LoggedIn e n g ms) (hms : ms <:+ ms') :
    LoggedIn e n g ms' := by
  cases h with
  | inl h =>
    obtain ⟨email, password, row, hattempt, hfound, hrest⟩ := h
    exact Or.inl ⟨email, password, row, hms.subset hattempt, hms.subset hfound, hrest⟩
  | inr h =>
    obtain ⟨email, password, adminEmail, adminHash, hattempt, hemail, hhash, hrest⟩ := h
    exact Or.inr ⟨email, password, adminEmail, adminHash, hms.subset hattempt,
      hms.subset hemail, hms.subset hhash, hrest⟩

/-! ## One request -/

/-- The mark leaves the operators and the settings alone. -/
structure Quiet (m : VaultMark) : Prop where
  operators : ∀ ms, operatorsAfter (m :: ms) = operatorsAfter ms
  lastId : ∀ ms, lastIdAfter (m :: ms) = lastIdAfter ms
  written : ∀ key ms, lastWritten key (m :: ms) = lastWritten key ms

/-- A quiet mark with a reason keeps the invariant. -/
theorem vaultInv_quiet (hi : VaultInv e s) {m : VaultMark} (hm : Quiet m)
    (hreason : Reason e m s.marks) {w : Settings.World Unit Unit}
    (hw : ∀ v, Shows e.hosts s.settings v → Shows e.hosts w v) :
    VaultInv e { s with settings := w, marks := m :: s.marks } where
  justified := ⟨hreason, hi.justified⟩
  operators := hi.operators.trans (hm.operators _).symm
  lastId := hi.lastId.trans (hm.lastId _).symm
  settings := by
    obtain ⟨v, hv, hwritten⟩ := hi.settings
    refine ⟨v, hw v hv, fun key r hr => hwritten key r ?_⟩
    rw [← hr]
    exact (hm.written key _).symm

/-- Only the settings of the process are touched, and read the same. -/
theorem vaultInv_unmarked (hi : VaultInv e s) {w : Settings.World Unit Unit}
    (hw : ∀ v, Shows e.hosts s.settings v → Shows e.hosts w v) :
    VaultInv e { s with settings := w } where
  justified := hi.justified
  operators := hi.operators
  lastId := hi.lastId
  settings := by
    obtain ⟨v, hv, hwritten⟩ := hi.settings
    exact ⟨v, hw v hv, hwritten⟩

/-- A quiet mark beside a read of the settings keeps the terms. -/
theorem guar_quiet (m : VaultMark) (hi : VaultInv e s) (hm : Quiet m)
    (hreason : Reason e m s.marks) {w : Settings.World Unit Unit}
    (hw : ∀ v, Shows e.hosts s.settings v → Shows e.hosts w v) :
    (vaultDiscipline e).guar n s { s with settings := w, marks := m :: s.marks } :=
  ⟨List.suffix_cons _ _, vaultInv_quiet hi hm hreason hw⟩

/-- A quiet mark with a reason keeps the terms. -/
theorem guar_marked (m : VaultMark) (hi : VaultInv e s) (hm : Quiet m)
    (hreason : Reason e m s.marks) :
    (vaultDiscipline e).guar n s { s with marks := m :: s.marks } :=
  guar_quiet m hi hm hreason fun _ hv => hv

/-- A read of the settings keeps the terms. -/
theorem guar_unmarked (hi : VaultInv e s) {w : Settings.World Unit Unit}
    (hw : ∀ v, Shows e.hosts s.settings v → Shows e.hosts w v) :
    (vaultDiscipline e).guar n s { s with settings := w } :=
  ⟨List.suffix_refl _, vaultInv_unmarked hi hw⟩

/-- Doing nothing keeps the terms. -/
theorem guar_same (hi : VaultInv e s) : (vaultDiscipline e).guar n s s :=
  ⟨List.suffix_refl _, hi⟩

/-! ## Settings -/

/-- A value that was written is the answer. -/
theorem answer_written {v : SettingsView Unit Unit} {key r : String} (default : Option String)
    (h : v.written key = some (r, ())) : v.answer e.hosts () key default = some r := by
  unfold SettingsView.answer
  split
  · rw [h]
    rfl
  · show (v.values key).or _ = some r
    unfold SettingsView.values
    rw [h]
    rfl

/-- The process reads what was last written, and forgets nothing by reading. -/
theorem get_reads (hi : VaultInv e s) (key : String) (default : Option String) :
    (∀ r, lastWritten key s.marks = some r →
      (Settings.get e.hosts () key default s.settings).1 = some r) ∧
    ∀ v, Shows e.hosts s.settings v →
      Shows e.hosts (Settings.get e.hosts () key default s.settings).2 v := by
  constructor
  · intro r hr
    obtain ⟨v, hv, hwritten⟩ := hi.settings
    rw [(shows_get () hv key default).1]
    exact answer_written default (hwritten key r hr)
  · intro v hv
    exact (shows_get () hv key default).2

/-- The text that is read is what was last written. -/
theorem get_reads_text (hi : VaultInv e s) (key : String) (default : Option String) :
    Reads key ((Settings.get e.hosts () key default s.settings).1.getD "") s.marks := by
  intro r hr
  rw [(get_reads hi key default).1 r hr, Option.getD_some]

/-- A write with its mark. -/
theorem guar_write (hi : VaultInv e s) {key value : String} {m : VaultMark}
    (hoperators : ∀ ms, operatorsAfter (m :: ms) = operatorsAfter ms)
    (hlast : ∀ ms, lastIdAfter (m :: ms) = lastIdAfter ms)
    (hwritten : ∀ k ms, lastWritten k (m :: ms) =
      if key = k then some value else lastWritten k ms)
    (hreason : Reason e m s.marks) :
    (vaultDiscipline e).guar n s
      { s with
        settings := Settings.set e.hosts () key value s.settings
        marks := m :: s.marks } := by
  refine ⟨List.suffix_cons _ _, ⟨hreason, hi.justified⟩, hi.operators.trans (hoperators _).symm,
    hi.lastId.trans (hlast _).symm, ?_⟩
  obtain ⟨v, hv, hold⟩ := hi.settings
  refine ⟨_, shows_set () hv key value, fun k r hr => ?_⟩
  change lastWritten k (m :: s.marks) = some r at hr
  rw [hwritten] at hr
  by_cases hk : key = k
  · subst hk
    rw [if_pos rfl] at hr
    obtain rfl := Option.some.inj hr
    exact Function.update_self ..
  · rw [if_neg hk] at hr
    rw [written_write_of_ne v () _ (Ne.symm hk)]
    exact hold k r hr

/-- Deleting a setting keeps the terms for whoever is admitted. -/
theorem guar_erase (hi : VaultInv e s) (key : String)
    (hadmitted : ∃ claims, Admitted e n claims s.marks) :
    (vaultDiscipline e).guar n s
      { s with
        settings := Settings.delete () key s.settings
        marks := .deleted n key :: s.marks } := by
  refine ⟨List.suffix_cons _ _, ⟨hadmitted, hi.justified⟩, hi.operators, hi.lastId, ?_⟩
  obtain ⟨v, hv, hold⟩ := hi.settings
  refine ⟨_, shows_delete () hv key, fun k r hr => ?_⟩
  change (if key = k then none else lastWritten k s.marks) = some r at hr
  by_cases hk : key = k
  · rw [if_pos hk] at hr
    cases hr
  · rw [if_neg hk] at hr
    rw [written_write_of_ne v () _ (Ne.symm hk)]
    exact hold k r hr

/-! ## Operators -/

/-- A row that is added under the next id. -/
theorem guar_insert (hi : VaultInv e s) {row : Operator} {m : VaultMark}
    (hoperators : operatorsAfter (m :: s.marks) = operatorsAfter s.marks ++ [row])
    (hlast : lastIdAfter (m :: s.marks) = row.id)
    (hwritten : ∀ key ms, lastWritten key (m :: ms) = lastWritten key ms)
    (hreason : Reason e m s.marks) :
    (vaultDiscipline e).guar n s
      { s with
        operators := s.operators ++ [row]
        lastOperatorId := row.id
        marks := m :: s.marks } := by
  refine ⟨List.suffix_cons _ _, ⟨hreason, hi.justified⟩, ?_, hlast.symm, ?_⟩
  · exact (congrArg (· ++ [row]) hi.operators).trans hoperators.symm
  · obtain ⟨v, hv, hold⟩ := hi.settings
    exact ⟨v, hv, fun key r hr => hold key r ((hwritten key _).symm.trans hr)⟩

/-- A row that is inserted under a free address is a new one. -/
theorem newRow_insert (hi : VaultInv e s) {email hash : String} {role : Role}
    (hfree : s.operator? (e.normal email) = none) :
    NewRow e (s.insert (e.normal email) hash role) s.marks where
  untaken r hr heq := by
    rw [← hi.operators] at hr
    have hne := List.find?_eq_none.mp hfree r hr
    exact hne (decide_eq_true heq)
  normal := ⟨email, rfl⟩
  id := congrArg (· + 1) hi.lastId
  active := rfl

/-- Switching an operator keeps the terms for an admin. -/
theorem guar_switch (hi : VaultInv e s) (id : ℕ) (active : Bool)
    (hadmin : AdmittedAdmin e n s.marks) :
    (vaultDiscipline e).guar n s
      { s with
        operators := s.operators.map (Operator.switch id active)
        marks := .switched n id active :: s.marks } := by
  refine ⟨List.suffix_cons _ _, ⟨hadmin, hi.justified⟩, ?_, hi.lastId, hi.settings⟩
  exact congrArg (List.map (Operator.switch id active)) hi.operators

/-- Removing an operator keeps the terms for an admin. -/
theorem guar_remove (hi : VaultInv e s) (id : ℕ) (hadmin : AdmittedAdmin e n s.marks) :
    (vaultDiscipline e).guar n s
      { s with
        operators := s.operators.filter fun row => row.id ≠ id
        marks := .removed n id :: s.marks } := by
  refine ⟨List.suffix_cons _ _, ⟨hadmin, hi.justified⟩, ?_, hi.lastId, hi.settings⟩
  exact congrArg (List.filter fun row => decide (row.id ≠ id)) hi.operators

/-! ## The session -/

/-- A check of the session admits whom it lets pass. -/
theorem safe_requireSession (cookie : Option String) :
    (vaultDiscipline e).Safe n (requireSession e n cookie)
      (fun r t => ∀ claims, r = .ok claims → Admitted e n claims t.marks) s := by
  unfold requireSession
  cases cookie with
  | none => exact fun _ h => nomatch h
  | some token =>
    dsimp only
    split
    · exact fun _ h => nomatch h
    · intro t ht hi i
      have hreads := get_reads hi "jwt_secret" (some "")
      refine ⟨guar_quiet (.checked n token _ i.now) hi ⟨fun _ => rfl, fun _ => rfl, fun _ _ => rfl⟩
        (get_reads_text hi _ _) hreads.2, fun claims hclaims => ?_⟩
      refine ⟨token, _, i.now, List.mem_cons_self .., ?_⟩
      dsimp only at hclaims
      split at hclaims
      · cases hclaims
      · cases hclaims
      · next heq =>
        cases hclaims
        exact heq

/-- A check for an admin admits as an admin whom it lets pass. -/
theorem safe_requireAdmin (cookie : Option String) :
    (vaultDiscipline e).Safe n (requireAdmin e n cookie)
      (fun r t => ∀ claims, r = .ok claims → AdmittedAdmin e n t.marks) s := by
  refine Discipline.Safe.bind ((safe_requireSession cookie).weaken fun r t hr => ?_)
  cases r with
  | error err => exact fun _ h => nomatch h
  | ok claims =>
    dsimp only
    split
    · next hadmin => exact fun _ _ => ⟨claims, hr claims rfl, hadmin⟩
    · exact fun _ h => nomatch h

/-- What runs behind a session may count on it. -/
theorem safe_withSession {α : Type} (cookie : Option String)
    {route : VaultProc (Except HttpError α)}
    (hroute : ∀ t, (∃ claims, Admitted e n claims t.marks) →
      (vaultDiscipline e).Safe n route (fun _ _ => True) t) :
    (vaultDiscipline e).Safe n (withSession e n cookie route) (fun _ _ => True) s := by
  refine Discipline.Safe.bind ((safe_requireSession cookie).weaken fun r t hr => ?_)
  cases r with
  | error err => trivial
  | ok claims => exact hroute t ⟨claims, hr claims rfl⟩

/-- What runs behind the session of an admin may count on that. -/
theorem safe_behindAdmin {α : Type} (cookie : Option String)
    {route : Except HttpError (List (Json.Text × Json.Value)) → VaultProc α}
    (herror : ∀ err t, (vaultDiscipline e).Safe n (route (.error err)) (fun _ _ => True) t)
    (hok : ∀ claims t, AdmittedAdmin e n t.marks →
      (vaultDiscipline e).Safe n (route (.ok claims)) (fun _ _ => True) t) :
    (vaultDiscipline e).Safe n ((requireAdmin e n cookie).bind route) (fun _ _ => True) s := by
  refine Discipline.Safe.bind ((safe_requireAdmin cookie).weaken fun r t hr => ?_)
  cases r with
  | error err => exact herror err t
  | ok claims => exact hok claims t (hr claims rfl)

/-! ## The login -/

/-- A login's read of a setting leaves its mark. -/
theorem safe_text (key : String) :
    (vaultDiscipline e).Safe n (Vault.text e n key)
      (fun value t => .read n key value ∈ t.marks ∧ s.marks <:+ t.marks) s := by
  intro t ht hi i
  refine ⟨guar_quiet (.read n key _) hi ⟨fun _ => rfl, fun _ => rfl, fun _ _ => rfl⟩
    (get_reads_text hi _ _) (get_reads hi _ _).2, List.mem_cons_self .., ?_⟩
  exact ht.trans (List.suffix_cons _ _)

/-- A read of a setting leaves the marks. -/
theorem safe_setting (key : String) (default : Option String) :
    (vaultDiscipline e).Safe n (Vault.setting e key default)
      (fun _ t => s.marks <:+ t.marks) s := by
  intro t ht hi i
  exact ⟨guar_unmarked hi (get_reads hi key default).2, ht⟩

/-- Signing in is safe for who has logged in. -/
theorem safe_signIn {sub : String} {role : Role} {ttl : ℤ}
    (hlogin : ∀ g : Grant, g.sub = sub → g.role = role → LoggedIn e n g s.marks) :
    (vaultDiscipline e).Safe n (signIn e n sub role ttl) (fun _ _ => True) s := by
  refine Discipline.Safe.act fun t ht hi i => ⟨guar_same hi, ?_⟩
  refine Discipline.Safe.act fun u hu hiu j => ⟨guar_same hiu, ?_⟩
  intro v hv hiv k
  have hreads := get_reads hiv "jwt_secret" (some "")
  dsimp only
  split
  · exact ⟨guar_unmarked hiv hreads.2, trivial⟩
  · next hsecret =>
    cases htoken : Grant.token e.rt _ _ with
    | none => exact ⟨guar_unmarked hiv hreads.2, trivial⟩
    | some token =>
      refine ⟨guar_quiet (.signed n _ _) hiv ⟨fun _ => rfl, fun _ => rfl, fun _ _ => rfl⟩
        ⟨get_reads_text hiv _ _, hsecret, ?_, ?_⟩ hreads.2, trivial⟩
      · obtain ⟨payloadB64, hpayload, -⟩ := Option.map_eq_some_iff.mp htoken
        rw [hpayload]
        rfl
      · exact loggedIn_mono (hlogin _ rfl rfl) ((ht.trans hu).trans hv)

/-- A matched operator was found, is active and has the password. -/
theorem safe_checkOperator (email password : String) :
    (vaultDiscipline e).Safe n (checkOperator e n email password)
      (fun r t => s.marks <:+ t.marks ∧ ∀ row, r = some row →
        .found n row ∈ t.marks ∧ row.email = e.normal email ∧ row.active = true ∧
          e.checkpw (Tokens.utf8 password) (Tokens.utf8 row.passwordHash) = some true) s := by
  intro t ht hi i
  dsimp only
  cases hrow : t.operator? (e.normal email) with
  | none => exact ⟨guar_same hi, ht, fun _ h => nomatch h⟩
  | some row =>
    have hmem : row ∈ operatorsAfter t.marks := by
      rw [← hi.operators]
      exact List.mem_of_find?_eq_some hrow
    have hemail : row.email = e.normal email := by simpa using List.find?_some hrow
    refine ⟨guar_marked (.found n row) hi ⟨fun _ => rfl, fun _ => rfl, fun _ _ => rfl⟩ hmem,
      ht.trans (List.suffix_cons _ _), fun r hr => ?_⟩
    dsimp only at hr
    split at hr
    · next hcheck =>
      obtain rfl := Option.some.inj hr
      rw [Bool.and_eq_true, decide_eq_true_eq] at hcheck
      exact ⟨List.mem_cons_self .., hemail, hcheck.1, hcheck.2⟩
    · cases hr

/-- A login keeps the terms. -/
theorem safe_login (email password : String) :
    (vaultDiscipline e).Safe n (login e n email password) (fun _ _ => True) s := by
  refine Discipline.Safe.act fun s hs hi i =>
    ⟨guar_marked (.attempt n email password) hi ⟨fun _ => rfl, fun _ => rfl, fun _ _ => rfl⟩
      trivial, ?_⟩
  refine Discipline.Safe.bind ((safe_text "jwt_secret").weaken fun jwtSecret t ht => ?_)
  have hattempt : .attempt n email password ∈ t.marks := ht.2.subset (List.mem_cons_self ..)
  refine Discipline.Safe.bind (Discipline.Safe.bind
    ((safe_setting "session_ttl_s" none).weaken fun value u hu => ?_))
  refine Discipline.Safe.pure ?_
  split
  · trivial
  refine Discipline.Safe.bind ((safe_checkOperator email password).weaken fun op v hv => ?_)
  cases op with
  | some row =>
    obtain ⟨hfound, hemail, hactive, hcheck⟩ := hv.2 row rfl
    refine safe_signIn fun g hsub hrole => Or.inl ⟨email, password, row, ?_, hfound, hemail,
      hactive, hcheck, hsub, hrole⟩
    exact (hu.trans hv.1).subset hattempt
  | none =>
    refine Discipline.Safe.bind ((safe_text "admin_email").weaken fun adminEmail w hw => ?_)
    refine Discipline.Safe.bind ((safe_text "admin_password_hash").weaken fun adminHash x hx => ?_)
    split
    · trivial
    · next hmatch =>
      simp only [Bool.or_eq_true, decide_eq_true_eq, not_or, ne_eq, not_not] at hmatch
      refine safe_signIn fun g hsub hrole => Or.inr ⟨email, password, adminEmail, adminHash, ?_,
        hx.2.subset hw.1, hx.1, hmatch.1.1.1, hmatch.1.1.2, hmatch.1.2, hmatch.2, hsub, hrole⟩
      exact ((hu.trans hv.1).trans (hw.2.trans hx.2)).subset hattempt

/-! ## The other routes -/

/-- Making an operator keeps the terms. -/
theorem safe_createOperator (cookie : Option String) (body : OperatorIn) :
    (vaultDiscipline e).Safe n (createOperator e n cookie body) (fun _ _ => True) s := by
  refine safe_behindAdmin cookie (fun _ _ => trivial) fun claims s hadmin => ?_
  dsimp only
  cases Role.ofText body.role with
  | none => trivial
  | some role =>
    refine Discipline.Safe.act fun t ht hi i => ⟨guar_same hi, ?_⟩
    cases e.hashpw (Tokens.utf8 body.password) i.random with
    | none => trivial
    | some hash =>
      intro u hu hiu j
      cases hrow : u.operator? (e.normal body.email) with
      | some row =>
        simp only [hrow]
        exact ⟨guar_same hiu, trivial⟩
      | none =>
        simp only [hrow]
        exact ⟨guar_insert hiu rfl rfl (fun _ _ => rfl)
          ⟨admittedAdmin_mono hadmin (ht.trans hu), newRow_insert hiu hrow⟩, trivial⟩

/-- Switching an operator on or off keeps the terms. -/
theorem safe_toggleOperatorActive (cookie : Option String) (id : ℕ) :
    (vaultDiscipline e).Safe n (toggleOperatorActive e n cookie id) (fun _ _ => True) s := by
  refine safe_behindAdmin cookie (fun _ _ => trivial) fun claims s hadmin => ?_
  refine Discipline.Safe.act fun t ht hi i => ⟨guar_same hi, ?_⟩
  dsimp only
  cases t.byId? id with
  | none => trivial
  | some row =>
    refine Discipline.Safe.act fun u hu hiu j => ⟨?_, trivial⟩
    exact guar_switch hiu id _ (admittedAdmin_mono hadmin (ht.trans hu))

/-- Deleting an operator keeps the terms. -/
theorem safe_deleteOperator (cookie : Option String) (id : ℕ) :
    (vaultDiscipline e).Safe n (deleteOperator e n cookie id) (fun _ _ => True) s := by
  refine safe_behindAdmin cookie (fun _ _ => trivial) fun claims s hadmin => ?_
  refine Discipline.Safe.act fun t ht hi i => ⟨guar_same hi, ?_⟩
  dsimp only
  cases t.byId? id with
  | none => trivial
  | some row =>
    refine Discipline.Safe.act fun u hu hiu j => ⟨?_, trivial⟩
    exact guar_remove hiu id (admittedAdmin_mono hadmin (ht.trans hu))

/-- A write of a setting is safe for whoever is admitted. -/
theorem safe_write {α : Type} (key value : String) {k : Unit → VaultProc α}
    (hs : ∃ claims, Admitted e n claims s.marks)
    (hk : ∀ t, (vaultDiscipline e).Safe n (k ()) (fun _ _ => True) t) :
    (vaultDiscipline e).Safe n ((Vault.write e n key value).bind k) (fun _ _ => True) s := by
  refine Discipline.Safe.act fun t ht hi i => ⟨?_, hk _⟩
  obtain ⟨claims, hclaims⟩ := hs
  exact guar_write hi (fun _ => rfl) (fun _ => rfl) (fun _ _ => rfl)
    ⟨claims, admitted_mono hclaims ht⟩

/-- A change of the password keeps the terms. -/
theorem safe_changePassword (cookie : Option String) (newPassword confirm : String) :
    (vaultDiscipline e).Safe n (changePassword e n cookie newPassword confirm)
      (fun _ _ => True) s := by
  refine safe_withSession cookie fun s ⟨claims, hs⟩ => ?_
  split
  · trivial
  · refine Discipline.Safe.act fun t ht hi i => ⟨guar_same hi, ?_⟩
    cases e.hashpw (Tokens.utf8 newPassword) i.random with
    | none => trivial
    | some hash => exact safe_write _ hash ⟨claims, admitted_mono hs ht⟩ fun _ => trivial

/-- A rotation of the secret keeps the terms. -/
theorem safe_rotateJwt (cookie : Option String) :
    (vaultDiscipline e).Safe n (rotateJwt e n cookie) (fun _ _ => True) s := by
  refine safe_withSession cookie fun s ⟨claims, hs⟩ => ?_
  refine Discipline.Safe.act fun t ht hi i => ⟨?_, trivial⟩
  exact guar_write hi (fun _ => rfl) (fun _ => rfl) (fun _ _ => rfl) ⟨claims, admitted_mono hs ht⟩

/-- Saving a setting keeps the terms. -/
theorem safe_saveSetting (cookie : Option String) (key value : String) :
    (vaultDiscipline e).Safe n (saveSetting e n cookie key value) (fun _ _ => True) s :=
  safe_withSession cookie fun _ hs => safe_write key value hs fun _ => trivial

/-- Deleting a setting keeps the terms. -/
theorem safe_deleteSetting (cookie : Option String) (key : String) :
    (vaultDiscipline e).Safe n (deleteSetting e n cookie key) (fun _ _ => True) s := by
  refine safe_withSession cookie fun s ⟨claims, hs⟩ => ?_
  exact Discipline.Safe.act fun t ht hi i =>
    ⟨guar_erase hi key ⟨claims, admitted_mono hs ht⟩, trivial⟩

/-- Showing a setting to somebody who has a session. -/
theorem guar_show (hi : VaultInv e s) (key : String)
    (hs : ∃ claims, Admitted e n claims s.marks) :
    (vaultDiscipline e).guar n s
      { s with
        settings := (Settings.get e.hosts () key none s.settings).2
        marks := .shown n key (Settings.get e.hosts () key none s.settings).1 :: s.marks } :=
  guar_quiet (.shown n key _) hi ⟨fun _ => rfl, fun _ => rfl, fun _ _ => rfl⟩
    ⟨hs, (get_reads hi key none).1⟩ (get_reads hi key none).2

/-- Showing a setting keeps the terms. -/
theorem safe_revealSetting (cookie : Option String) (key : String) :
    (vaultDiscipline e).Safe n (revealSetting e n cookie key) (fun _ _ => True) s := by
  refine safe_withSession cookie fun s ⟨claims, hs⟩ => ?_
  exact fun t ht hi i => ⟨guar_show hi key ⟨claims, admitted_mono hs ht⟩, trivial⟩

/-- Showing a secret keeps the terms. -/
theorem safe_revealSecret (cookie : Option String) (key : String) :
    (vaultDiscipline e).Safe n (revealSecret e n cookie key) (fun _ _ => True) s := by
  refine safe_withSession cookie fun s ⟨claims, hs⟩ => ?_
  split
  · exact fun t ht hi i => ⟨guar_show hi key ⟨claims, admitted_mono hs ht⟩, trivial⟩
  · trivial

/-! ## The start of the process -/

/-- A count of no operators leaves its mark where there were none. -/
theorem safe_countOperators :
    (vaultDiscipline e).Safe n (Vault.countOperators n)
      (fun empty t => empty = true → ∃ counted, (.noOperators n :: counted) <:+ t.marks ∧
        operatorsAfter counted = []) s := by
  intro t ht hi i
  dsimp only
  split
  · next hempty =>
    have hnone : operatorsAfter t.marks = [] := by
      rw [← hi.operators]
      simpa using hempty
    exact ⟨guar_marked (.noOperators n) hi ⟨fun _ => rfl, fun _ => rfl, fun _ _ => rfl⟩ hnone,
      fun _ => ⟨t.marks, List.suffix_refl _, hnone⟩⟩
  · exact ⟨guar_same hi, fun h => by cases h⟩

/-- A start's read of a setting leaves its mark with what was last written. -/
theorem safe_take (key : String) :
    (vaultDiscipline e).Safe n (Vault.take e n key)
      (fun value t => ∃ before, s.marks <:+ before ∧ (.took n key value :: before) <:+ t.marks ∧
        Reads key value before) s := by
  intro t ht hi i
  have hreads := get_reads_text hi key (some "")
  exact ⟨guar_quiet (.took n key _) hi ⟨fun _ => rfl, fun _ => rfl, fun _ _ => rfl⟩ hreads
    (get_reads hi _ _).2, t.marks, ht, List.suffix_refl _, hreads⟩

/-- The migration of the settings' admin keeps the terms. -/
theorem safe_migrateAdmin :
    (vaultDiscipline e).Safe n (migrateAdminToOperators e n) (fun _ _ => True) s := by
  refine Discipline.Safe.bind (safe_countOperators.weaken fun empty t ht => ?_)
  cases empty with
  | false => trivial
  | true =>
    obtain ⟨counted, hcounted, hnone⟩ := ht rfl
    refine Discipline.Safe.bind ((safe_take "admin_email").weaken fun adminEmail u hu => ?_)
    obtain ⟨atEmail, hatEmail, htookEmail, hreadsEmail⟩ := hu
    refine Discipline.Safe.bind ((safe_take "admin_password_hash").weaken fun adminHash v hv => ?_)
    obtain ⟨atHash, hatHash, htookHash, hreadsHash⟩ := hv
    dsimp only
    split
    · trivial
    · next hfilled =>
      rw [Bool.or_eq_true, decide_eq_true_eq, decide_eq_true_eq, not_or] at hfilled
      intro w hw hiw j
      refine ⟨?_, trivial⟩
      cases hrow : w.operator? (e.normal adminEmail) with
      | some row =>
        simp only [hrow]
        exact guar_same hiw
      | none =>
        simp only [hrow]
        refine guar_insert hiw rfl rfl (fun _ _ => rfl) ⟨?_, newRow_insert hiw hrow⟩
        exact ⟨adminEmail, adminHash, counted, atEmail, atHash, hcounted.trans hatEmail, hnone,
          htookEmail.trans hatHash, hreadsEmail, htookHash.trans hw, hreadsHash, hfilled.1,
          hfilled.2, rfl, rfl, rfl⟩

/-- A restart keeps the terms. -/
theorem guar_restart (hi : VaultInv e s) :
    (vaultDiscipline e).guar n s { s with settings := Settings.start () s.settings } := by
  refine ⟨List.suffix_refl _, hi.justified, hi.operators, hi.lastId, ?_⟩
  obtain ⟨v, hv, hold⟩ := hi.settings
  exact ⟨_, shows_start () hv, hold⟩

/-- Filling in the settings from the environment keeps the terms. -/
theorem guar_fill (hi : VaultInv e s) :
    (vaultDiscipline e).guar n s
      { s with
        settings := (Settings.migrateFromEnv e.hosts () s.settings).2
        marks := .filled :: s.marks } := by
  refine ⟨List.suffix_cons _ _, ⟨trivial, hi.justified⟩, hi.operators, hi.lastId, ?_⟩
  obtain ⟨v, hv, hold⟩ := hi.settings
  refine ⟨_, (shows_migrateFromEnv () hv).2, fun key r hr => ?_⟩
  exact (stays_migrate v () (hold key r hr)).1

/-- A start keeps the terms. -/
theorem safe_onStartup :
    (vaultDiscipline e).Safe n (onStartup e n) (fun _ _ => True) s := by
  refine Discipline.Safe.act fun t ht hi i => ⟨guar_restart hi, ?_⟩
  refine Discipline.Safe.bind (safe_migrateAdmin.weaken fun _ u _ => ?_)
  exact fun v hv hiv j => ⟨guar_fill hiv, trivial⟩

/-! ## Any run -/

/-- Every request keeps the terms. -/
theorem safe_vaultCode (n : ℕ) (op : VaultOp) (s : Vault) :
    (vaultDiscipline e).Safe n (vaultCode e n op) (fun _ _ => True) s := by
  have hends : ∀ {α : Type} {p : VaultProc α}, (vaultDiscipline e).Safe n p (fun _ _ => True) s →
      (vaultDiscipline e).Safe n (p.bind fun _ => .ret ()) (fun _ _ => True) s :=
    fun hp => Discipline.Safe.bind (hp.weaken fun _ _ _ => trivial)
  cases op with
  | startup => exact safe_onStartup
  | login email password => exact hends (safe_login email password)
  | logout => trivial
  | page cookie => exact hends ((safe_requireSession cookie).weaken fun _ _ _ => trivial)
  | adminPage cookie => exact hends ((safe_requireAdmin cookie).weaken fun _ _ _ => trivial)
  | createOperator cookie body => exact hends (safe_createOperator cookie body)
  | toggleOperatorActive cookie id => exact hends (safe_toggleOperatorActive cookie id)
  | deleteOperator cookie id => exact hends (safe_deleteOperator cookie id)
  | changePassword cookie newPassword confirm =>
    exact hends (safe_changePassword cookie newPassword confirm)
  | rotateJwt cookie => exact hends (safe_rotateJwt cookie)
  | saveSetting cookie key value => exact hends (safe_saveSetting cookie key value)
  | deleteSetting cookie key => exact hends (safe_deleteSetting cookie key)
  | revealSetting cookie key => exact hends (safe_revealSetting cookie key)
  | revealSecret cookie key => exact hends (safe_revealSecret cookie key)

/-- A fresh install keeps the invariant. -/
theorem vaultInv_fresh (e : SessionEnv) : VaultInv e {} where
  justified := trivial
  operators := rfl
  lastId := rfl
  settings := ⟨{}, shows_empty e.hosts, fun _ _ h => nomatch h⟩

/-- The marks account for the vault after every run. -/
theorem vaultRun_inv (e : SessionEnv) (es : List (Event VaultOp VaultInput)) :
    VaultInv e (vaultRun e es).state :=
  (Discipline.run_sound (fun n op s _ => safe_vaultCode n op s)
    (Discipline.sound_idle (vaultInv_fresh e)) es
    (Pool.steps_of_forall _ (fun _ _ => trivial) _ _)).1

end Mailman.Analysis
