import Mailman.Analysis.SessionOrigin

/-!
# Who makes an operator, and what ends a session

An account is made by the session of an admin, or of the settings when there is none; its address,
password and role stay as they were made, and only an admin's session switches it or removes it.
Sessions end all at once, when the secret is drawn anew.
-/

set_option autoImplicit false

namespace Mailman.Analysis

open Mailman.Interface Mailman.Library Mailman.Model Mailman.Model.Sessions

variable {e : SessionEnv} {known : List String} {n : ℕ} {token secret r : String} {now : ℤ}
  {later earlier ms : List VaultMark} {m : VaultMark} {g : Grant} {row row' : Operator}

/-! ## Accounts -/

/-- One account, whether or not it is active. -/
structure SameAccount (row row' : Operator) : Prop where
  id : row.id = row'.id
  email : row.email = row'.email
  passwordHash : row.passwordHash = row'.passwordHash
  role : row.role = row'.role

/-- A row is its own account. -/
theorem sameAccount_refl (row : Operator) : SameAccount row row := ⟨rfl, rfl, rfl, rfl⟩

/-- Being one account goes both ways. -/
theorem SameAccount.symm (h : SameAccount row row') : SameAccount row' row :=
  ⟨h.id.symm, h.email.symm, h.passwordHash.symm, h.role.symm⟩

/-- Being one account is transitive. -/
theorem SameAccount.trans {row'' : Operator} (h : SameAccount row row')
    (h' : SameAccount row' row'') : SameAccount row row'' :=
  ⟨h.id.trans h'.id, h.email.trans h'.email, h.passwordHash.trans h'.passwordHash,
    h.role.trans h'.role⟩

/-- A switched row is the same account. -/
theorem sameAccount_switch (id : ℕ) (active : Bool) (row : Operator) :
    SameAccount row (row.switch id active) := by
  unfold Operator.switch
  split
  · exact ⟨rfl, rfl, rfl, rfl⟩
  · exact sameAccount_refl row

/-- The row was put in the table. -/
def Born (row : Operator) (ms : List VaultMark) : Prop :=
  ∃ n, .added n row ∈ ms ∨ .migrated n row ∈ ms

/-- What was put in the table was put there. -/
theorem born_cons (h : Born row ms) : Born row (m :: ms) := by
  obtain ⟨n, h⟩ := h
  exact ⟨n, h.imp (List.mem_cons_of_mem _) (List.mem_cons_of_mem _)⟩

/-- What was put in the table before was put there. -/
theorem born_suffix (h : Born row earlier) (hms : earlier <:+ ms) : Born row ms := by
  obtain ⟨n, h⟩ := h
  exact ⟨n, h.imp (fun hn => hms.subset hn) fun hn => hms.subset hn⟩

/-- Each row of the table is an account that was put there. -/
theorem exists_born (h : row ∈ operatorsAfter ms) : ∃ first, Born first ms ∧
    SameAccount first row := by
  induction ms generalizing row with
  | nil => cases h
  | cons m ms ih =>
    have hold : ∀ old ∈ operatorsAfter ms, SameAccount old row →
        ∃ first, Born first (m :: ms) ∧ SameAccount first row := by
      intro old hmem hsame
      obtain ⟨first, hborn, hfirst⟩ := ih hmem
      exact ⟨first, born_cons hborn, hfirst.trans hsame⟩
    cases m with
    | added n new =>
      rcases List.mem_append.mp h with h | h
      · exact hold row h (sameAccount_refl row)
      · obtain rfl := List.mem_singleton.mp h
        exact ⟨row, ⟨n, Or.inl (List.mem_cons_self ..)⟩, sameAccount_refl row⟩
    | migrated n new =>
      rcases List.mem_append.mp h with h | h
      · exact hold row h (sameAccount_refl row)
      · obtain rfl := List.mem_singleton.mp h
        exact ⟨row, ⟨n, Or.inr (List.mem_cons_self ..)⟩, sameAccount_refl row⟩
    | switched n id active =>
      obtain ⟨old, hmem, rfl⟩ := List.mem_map.mp h
      exact hold old hmem (sameAccount_switch id active old)
    | removed n id => exact hold row (List.mem_filter.mp h).1 (sameAccount_refl row)
    | _ => exact hold row h (sameAccount_refl row)

/-- A row that is put in the table is a new one. -/
theorem newRow_born (hj : Justified e ms) (h : Born row ms) :
    ∃ before, before <:+ ms ∧ NewRow e row before := by
  obtain ⟨n, hn | hm⟩ := h
  · obtain ⟨later, earlier, rfl⟩ := List.append_of_mem hn
    exact ⟨earlier, suffix_after .., (justified_at hj).1.2⟩
  · obtain ⟨later, earlier, rfl⟩ := List.append_of_mem hm
    exact ⟨earlier, suffix_after .., (justified_at hj).1.2⟩

/-- The largest id does not shrink. -/
theorem lastId_le (hj : Justified e (m :: ms)) : lastIdAfter ms ≤ lastIdAfter (m :: ms) := by
  cases m with
  | added n row =>
    have hid := hj.1.2.id
    show _ ≤ row.id
    omega
  | migrated n row =>
    have hid := hj.1.2.id
    show _ ≤ row.id
    omega
  | _ => exact Nat.le_refl _

/-- No id is above the largest. -/
theorem born_id (hj : Justified e ms) (h : Born row ms) : row.id ≤ lastIdAfter ms := by
  induction ms with
  | nil =>
    obtain ⟨n, hn | hm⟩ := h
    · cases hn
    · cases hm
  | cons m ms ih =>
    have hmono := lastId_le hj
    obtain ⟨n, hn | hm⟩ := h
    · rcases List.mem_cons.mp hn with rfl | hn
      · exact Nat.le_refl _
      · exact (ih hj.2 ⟨n, Or.inl hn⟩).trans hmono
    · rcases List.mem_cons.mp hm with rfl | hm
      · exact Nat.le_refl _
      · exact (ih hj.2 ⟨n, Or.inr hm⟩).trans hmono

/-- A mark puts one row in the table, under an id that none before it has. -/
theorem born_cons_iff (hj : Justified e (m :: ms)) (h : Born row (m :: ms)) :
    Born row ms ∨ (row.id = lastIdAfter ms + 1 ∧
      ∀ row', Born row' (m :: ms) → ¬Born row' ms → row' = row) := by
  by_cases hold : Born row ms
  · exact Or.inl hold
  have hnew : ∀ x, Born x (m :: ms) → ¬Born x ms → ∃ n, .added n x = m ∨ .migrated n x = m := by
    intro x hx hnot
    obtain ⟨n, hn | hm⟩ := hx
    · exact ⟨n, Or.inl ((List.mem_cons.mp hn).resolve_right fun hmem => hnot ⟨n, Or.inl hmem⟩)⟩
    · exact ⟨n, Or.inr ((List.mem_cons.mp hm).resolve_right fun hmem => hnot ⟨n, Or.inr hmem⟩)⟩
  refine Or.inr ⟨?_, fun row' hrow' hnot => ?_⟩
  · obtain ⟨n, rfl | rfl⟩ := hnew row h hold
    · exact hj.1.2.id
    · exact hj.1.2.id
  · obtain ⟨n, rfl | rfl⟩ := hnew row h hold
    · obtain ⟨n', heq | heq⟩ := hnew row' hrow' hnot
      · exact (VaultMark.added.inj heq).2
      · cases heq
    · obtain ⟨n', heq | heq⟩ := hnew row' hrow' hnot
      · cases heq
      · exact (VaultMark.migrated.inj heq).2

/-- An id is given once. -/
theorem born_unique (hj : Justified e ms) (h : Born row ms) (h' : Born row' ms)
    (hid : row.id = row'.id) : row = row' := by
  induction ms with
  | nil =>
    obtain ⟨n, hn | hm⟩ := h
    · cases hn
    · cases hm
  | cons m ms ih =>
    obtain hold | ⟨hnext, honly⟩ := born_cons_iff hj h
    · obtain hold' | ⟨hnext', -⟩ := born_cons_iff hj h'
      · exact ih hj.2 hold hold'
      · have hle := born_id hj.2 hold
        omega
    · by_cases hold' : Born row' ms
      · have hle := born_id hj.2 hold'
        omega
      · exact (honly row' h' hold').symm

/-- Rows of one id at two moments are one account. -/
theorem sameAccount_of_id (hj : Justified e ms) (hms : earlier <:+ ms)
    (h : row ∈ operatorsAfter earlier) (h' : row' ∈ operatorsAfter ms) (hid : row.id = row'.id) :
    SameAccount row row' := by
  obtain ⟨first, hborn, hsame⟩ := exists_born h
  obtain ⟨first', hborn', hsame'⟩ := exists_born h'
  have hfirst : first = first' := born_unique hj (born_suffix hborn hms) hborn' (by
    rw [hsame.id, hid, hsame'.id])
  subst hfirst
  exact hsame.symm.trans hsame'

/-- No two rows have one id or one address. -/
theorem operators_nodup (hj : Justified e ms) :
    ((operatorsAfter ms).map (·.id)).Nodup ∧ ((operatorsAfter ms).map (·.email)).Nodup := by
  induction ms with
  | nil => exact ⟨List.nodup_nil, List.nodup_nil⟩
  | cons m ms ih =>
    obtain ⟨hids, hemails⟩ := ih hj.2
    have hinsert : ∀ new, NewRow e new ms → ((operatorsAfter ms ++ [new]).map (·.id)).Nodup ∧
        ((operatorsAfter ms ++ [new]).map (·.email)).Nodup := by
      intro new hnew
      rw [List.map_append, List.map_append, List.map_singleton, List.map_singleton]
      constructor
      · refine List.nodup_append.mpr ⟨hids, List.nodup_singleton _, fun id hid id' hid' heq => ?_⟩
        obtain ⟨old, hold, rfl⟩ := List.mem_map.mp hid
        obtain ⟨first, hborn, hsame⟩ := exists_born hold
        have hle := born_id hj.2 hborn
        have hnext := hnew.id
        rw [List.mem_singleton.mp hid'] at heq
        have hsameId := hsame.id
        omega
      · refine List.nodup_append.mpr ⟨hemails, List.nodup_singleton _,
          fun email hemail email' hemail' heq => ?_⟩
        obtain ⟨old, hold, rfl⟩ := List.mem_map.mp hemail
        rw [List.mem_singleton.mp hemail'] at heq
        exact hnew.untaken old hold heq
    cases m with
    | added n new => exact hinsert new hj.1.2
    | migrated n new => exact hinsert new hj.1.2
    | switched n id active =>
      have hsame := fun old (_ : old ∈ operatorsAfter ms) => sameAccount_switch id active old
      unfold operatorsAfter
      rw [List.map_map, List.map_map]
      exact ⟨(List.map_congr_left fun old hold => (hsame old hold).id) ▸ hids,
        (List.map_congr_left fun old hold => (hsame old hold).email) ▸ hemails⟩
    | removed n id =>
      exact ⟨hids.sublist (List.filter_sublist.map _), hemails.sublist (List.filter_sublist.map _)⟩
    | _ => exact ⟨hids, hemails⟩

/-- A row that is no longer there was switched or removed. -/
theorem changed_of_missing (h : row ∈ operatorsAfter earlier)
    (hnot : row ∉ operatorsAfter (later ++ earlier)) :
    ∃ n m front back, later = front ++ m :: back ∧
      (m = .removed n row.id ∨ ∃ active, m = .switched n row.id active) := by
  induction later with
  | nil => exact absurd h hnot
  | cons m later ih =>
    by_cases hthere : row ∈ operatorsAfter (later ++ earlier)
    · have hhere : ∀ n, (m = .removed n row.id ∨ ∃ active, m = .switched n row.id active) →
          ∃ n m' front back, m :: later = front ++ m' :: back ∧
            (m' = .removed n row.id ∨ ∃ active, m' = .switched n row.id active) :=
        fun n hm => ⟨n, m, [], later, rfl, hm⟩
      cases m with
      | switched n id active =>
        by_cases hid : row.id = id
        · exact hhere n (Or.inr ⟨active, by rw [hid]⟩)
        · refine absurd (List.mem_map.mpr ⟨row, hthere, ?_⟩) hnot
          unfold Operator.switch
          rw [if_neg hid]
      | removed n id =>
        by_cases hid : row.id = id
        · exact hhere n (Or.inl (by rw [hid]))
        · exact absurd (List.mem_filter.mpr ⟨hthere, decide_eq_true hid⟩) hnot
      | added n new => exact absurd (List.mem_append_left _ hthere) hnot
      | migrated n new => exact absurd (List.mem_append_left _ hthere) hnot
      | _ => exact absurd hthere hnot
    · obtain ⟨n, m', front, back, hlater, hm'⟩ := ih hthere
      exact ⟨n, m', m :: front, back, by rw [hlater, List.cons_append], hm'⟩

/-! ## Admins -/

/-- The cookie of call `n` was that of a login as an admin, or the secret was told. -/
def AdminCall (e : SessionEnv) (known : List String) (n : ℕ) (ms : List VaultMark) : Prop :=
  ∃ token secret now, .checked n token secret now ∈ ms ∧ (Told known secret ms ∨
    ∃ m g, .signed m secret g ∈ ms ∧ Carries e token secret g ∧ now ≤ g.exp ∧ g.role = .admin ∧
      LoggedIn e m g ms)

/-- The claims of a cookie are an admin's when its login was. -/
theorem isAdmin_claims (g : Grant) : isAdmin g.claims = true ↔ g.role = .admin := by
  have hcodes : Json.codes "role" = [114, 111, 108, 101] := by decide
  have hexp : Json.codes "exp" = [101, 120, 112] := by decide
  have hiat : Json.codes "iat" = [105, 97, 116] := by decide
  have hsub : Json.codes "sub" = [115, 117, 98] := by decide
  have hlookup : Json.lookup "role" g.claims = some (.str (Json.codes g.role.name)) := by
    simp [Json.lookup, Grant.claims, Grant.members, hcodes, hexp, hiat, hsub, List.lookup_cons,
      Json.Field.toValue]
  have hverdict : isAdmin g.claims = decide (Json.codes g.role.name = Json.codes "admin") := by
    unfold isAdmin
    rw [hlookup]
  rw [hverdict, decide_eq_true_iff]
  cases hrole : g.role with
  | admin => exact iff_of_true rfl rfl
  | operator =>
    have hname : Json.codes Role.operator.name ≠ Json.codes "admin" := by decide
    have hrole : Role.operator ≠ .admin := by decide
    exact iff_of_false hname hrole

/-- A secret that was told stays so. -/
theorem told_mono (h : Told known secret earlier) (hms : earlier <:+ ms) :
    Told known secret ms := by
  obtain hknown | ⟨m, hm, htells⟩ := h
  · exact Or.inl hknown
  · exact Or.inr ⟨m, hms.subset hm, htells⟩

/-- Who is admitted as an admin has an admin's cookie, or the secret was told. -/
theorem adminCall_of_admitted
    (htext : ∀ b : List UInt8, (∀ u ∈ b, 0 < u.toNat ∧ u.toNat < 128) →
      e.rt.text b = some (b.map UInt8.toNat))
    (hj : Justified e ms) (hu : Unforged e known ms) (h : AdmittedAdmin e n ms) :
    AdminCall e known n ms := by
  obtain ⟨claims, ⟨token, secret, now, hmem, hverdict⟩, hadmin⟩ := h
  obtain ⟨later, earlier, rfl⟩ := List.append_of_mem hmem
  have hsuffix := suffix_after later (.checked n token secret now) earlier
  refine ⟨token, secret, now, hmem, ?_⟩
  obtain htold | ⟨m, g, hsigned, hcarries, hexp, rfl, hlogin⟩ := origin_of_accepted htext
    (justified_at hj).2 (unforged_suffix hu (List.suffix_append later _)) hverdict
  · exact Or.inl (told_mono htold hsuffix)
  · exact Or.inr ⟨m, g, hsuffix.subset hsigned, hcarries, hexp, (isAdmin_claims g).mp hadmin,
      loggedIn_mono hlogin hsuffix⟩

/-- The marks of a run are kept by what follows. -/
theorem vaultRun_suffix (e : SessionEnv) (es es' : List (Event VaultOp VaultInput)) :
    (vaultRun e es).state.marks <:+ (vaultRun e (es ++ es')).state.marks := by
  unfold vaultRun
  rw [Pool.run_append]
  have hsound := Discipline.run_sound (fun n op s _ => safe_vaultCode n op s)
    (Discipline.sound_idle (vaultInv_fresh e)) es (Pool.steps_of_forall _ (fun _ _ => trivial) _ _)
  have hstable := Discipline.run_stable (T := fun s t : Vault => s.marks <:+ t.marks)
    (fun n op s _ => safe_vaultCode n op s) (fun s => List.suffix_refl _)
    (fun _ _ _ h h' => h.trans h') (fun _ _ _ _ h _ => h.1) hsound es'
    (Pool.steps_of_forall _ (fun _ _ => trivial) _ _)
  exact hstable

/-- Accounts over a run, at a moment and at a later one: ids and addresses are each had by one row;
an account was made by an admin's call, or by a start that found no operators and then took the
admin's address and password hash from the settings; its address, password and role stay; and a row
that changes or goes does so by an admin's call. -/
theorem accounts_origin (e : SessionEnv) (known : List String)
    (htext : ∀ b : List UInt8, (∀ u ∈ b, 0 < u.toNat ∧ u.toNat < 128) →
      e.rt.text b = some (b.map UInt8.toNat))
    (es es' : List (Event VaultOp VaultInput))
    (hforge : Unforged e known (vaultRun e (es ++ es')).state.marks) :
    (((vaultRun e (es ++ es')).state.operators.map (·.id)).Nodup ∧
      ((vaultRun e (es ++ es')).state.operators.map (·.email)).Nodup) ∧
    (∀ row ∈ (vaultRun e (es ++ es')).state.operators, (∃ email, row.email = e.normal email) ∧
      ∃ first, SameAccount first row ∧ ∃ m later earlier,
        (vaultRun e (es ++ es')).state.marks = later ++ m :: earlier ∧
          ((∃ n, m = .added n first ∧ AdminCall e known n earlier) ∨
            ∃ n, m = .migrated n first ∧ FromSettings e n first earlier)) ∧
    ∀ row ∈ (vaultRun e es).state.operators,
      (∀ row' ∈ (vaultRun e (es ++ es')).state.operators, row.id = row'.id →
        SameAccount row row') ∧
      (row ∉ (vaultRun e (es ++ es')).state.operators → ∃ n m later earlier,
        (vaultRun e (es ++ es')).state.marks = later ++ m :: earlier ∧
          (vaultRun e es).state.marks <:+ earlier ∧
          (m = .removed n row.id ∨ ∃ active, m = .switched n row.id active) ∧
            AdminCall e known n earlier) := by
  obtain ⟨hj, hoperators, -, -⟩ := vaultRun_inv e (es ++ es')
  have hsuffix := vaultRun_suffix e es es'
  have hadmin : ∀ {n later m earlier},
      (vaultRun e (es ++ es')).state.marks = later ++ m :: earlier →
        AdmittedAdmin e n earlier → AdminCall e known n earlier := by
    intro n later m earlier hmarks hadmitted
    rw [hmarks] at hj hforge
    exact adminCall_of_admitted htext (justified_at hj).2
      (unforged_suffix hforge (suffix_after ..)) hadmitted
  rw [hoperators, (vaultRun_inv e es).operators]
  refine ⟨operators_nodup hj, fun row hrow => ?_, fun row hrow => ⟨fun row' hrow' hid => ?_,
    fun hnot => ?_⟩⟩
  · obtain ⟨first, hborn, hsame⟩ := exists_born hrow
    obtain ⟨before, -, hnew⟩ := newRow_born hj hborn
    obtain ⟨email, hemail⟩ := hnew.normal
    refine ⟨⟨email, hsame.email.symm.trans hemail⟩, first, hsame, ?_⟩
    obtain ⟨n, hn | hm⟩ := hborn
    · obtain ⟨later, earlier, hmarks⟩ := List.append_of_mem hn
      refine ⟨_, later, earlier, hmarks, Or.inl ⟨n, rfl, hadmin hmarks ?_⟩⟩
      have hreason := (justified_at (hmarks ▸ hj)).1
      exact hreason.1
    · obtain ⟨later, earlier, hmarks⟩ := List.append_of_mem hm
      have hreason := (justified_at (hmarks ▸ hj)).1
      exact ⟨_, later, earlier, hmarks, Or.inr ⟨n, rfl, hreason.1⟩⟩
  · exact sameAccount_of_id hj hsuffix hrow hrow' hid
  · obtain ⟨later, hlater⟩ := hsuffix
    rw [← hlater] at hnot
    obtain ⟨n, m, front, back, rfl, hm⟩ := changed_of_missing hrow hnot
    have hmarks : (vaultRun e (es ++ es')).state.marks =
        front ++ m :: (back ++ (vaultRun e es).state.marks) := by
      rw [← hlater, List.append_assoc, List.cons_append]
    refine ⟨n, m, front, _, hmarks, List.suffix_append _ _, hm, hadmin hmarks ?_⟩
    have hreason := (justified_at (hmarks ▸ hj)).1
    obtain rfl | ⟨active, rfl⟩ := hm
    · exact hreason
    · exact hreason

/-- The row that a start makes of the settings' admin. -/
private def founder : Operator := { id := 1, email := "a", passwordHash := "p", role := .admin }

private def laterClerk : Operator := { id := 2, email := "b", passwordHash := "q", role := .operator }

/-- A start, a login of the admin, and a new operator. -/
private def foundedRun : List (Event VaultOp VaultInput) :=
  request 0 .startup 90 6 ++ request 1 (.login "a" "p") 100 7 ++
    request 2 (.createOperator (some chiefCookie) { email := "b", password := "q" }) 120 3

private def foundedMarks : List VaultMark :=
  [.signed 1 "s" chiefGrant, .found 1 founder, .read 1 "jwt_secret" "s", .attempt 1 "a" "p",
    .filled, .migrated 0 founder, .took 0 "admin_password_hash" "p", .took 0 "admin_email" "a",
    .noOperators 0]

/-- What the run leaves of marks. -/
private theorem foundedRun_marks : (vaultRun plainEnv foundedRun).state.marks =
    .added 2 laterClerk :: .checked 2 chiefCookie "s" 120 :: foundedMarks := by
  decide +kernel

/-- Nobody forges a cookie in it. -/
private theorem foundedRun_unforged :
    Unforged plainEnv [] (vaultRun plainEnv foundedRun).state.marks := by
  have hlogin : Unforged plainEnv [] foundedMarks := by
    unfold foundedMarks
    iterate 9 refine unforged_cons (fun _ _ _ _ => nofun) ?_
    exact unforged_nil plainEnv []
  have hsigned : SignedBefore chiefCookie "s" foundedMarks :=
    signedBefore_token chiefCookie_eq (List.mem_cons_self ..)
  rw [foundedRun_marks]
  exact unforged_cons (fun _ _ _ _ => nofun) (unforged_check (fun _ => Or.inr hsigned) hlogin)

/-- The admin of the settings has a row since the start, and the clerk by the admin's call. -/
theorem accounts_origin_clerk :
    (vaultRun plainEnv foundedRun).state.operators = [founder, laterClerk] ∧
    ∀ row ∈ [founder, laterClerk], ∃ first, SameAccount first row ∧ ∃ m later earlier,
      (vaultRun plainEnv foundedRun).state.marks = later ++ m :: earlier ∧
        ((∃ n, m = .added n first ∧ AdminCall plainEnv [] n earlier) ∨
          ∃ n, m = .migrated n first ∧ FromSettings plainEnv n first earlier) := by
  have hoperators : (vaultRun plainEnv foundedRun).state.operators = [founder, laterClerk] := by
    rw [(vaultRun_inv plainEnv foundedRun).operators, foundedRun_marks]
    rfl
  have horigin := accounts_origin plainEnv [] (fun _ _ => rfl) [] foundedRun
  rw [List.nil_append] at horigin
  refine ⟨hoperators, fun row hrow => ?_⟩
  rw [← hoperators] at hrow
  exact ((horigin foundedRun_unforged).2.1 row hrow).2

/-! ## Rotation -/

/-- The mark is of a request that sets, removes or draws the secret. -/
def touches : VaultMark → Bool
  | .wrote _ key _ => key = "jwt_secret"
  | .deleted _ key => key = "jwt_secret"
  | .drew _ _ => true
  | _ => false

/-- What touches the secret in no mark leaves it. -/
theorem lastWritten_kept (hkept : ∀ m ∈ later, touches m = false) :
    lastWritten "jwt_secret" (later ++ ms) = lastWritten "jwt_secret" ms := by
  induction later with
  | nil => rfl
  | cons m later ih =>
    have hrest := ih fun m' hm' => hkept m' (List.mem_cons_of_mem _ hm')
    have hm := hkept m (List.mem_cons_self ..)
    cases m with
    | wrote n key value =>
      have hne : key ≠ "jwt_secret" := of_decide_eq_false hm
      rw [← hrest]
      exact if_neg hne
    | deleted n key =>
      have hne : key ≠ "jwt_secret" := of_decide_eq_false hm
      rw [← hrest]
      exact if_neg hne
    | drew n value => cases hm
    | _ => exact hrest

/-- A secret that is drawn anew ends every session: as long as it stays and is told to nobody, only
what a login signs from then on is accepted. -/
theorem rotation_ends_sessions (e : SessionEnv) (known : List String)
    (htext : ∀ b : List UInt8, (∀ u ∈ b, 0 < u.toNat ∧ u.toNat < 128) →
      e.rt.text b = some (b.map UInt8.toNat))
    (es : List (Event VaultOp VaultInput)) (hforge : Unforged e known (vaultRun e es).state.marks)
    {later earlier : List VaultMark} {n : ℕ} {r : String}
    (h : (vaultRun e es).state.marks = later ++ .drew n r :: earlier)
    (hfresh : ¬Told known r earlier ∧ ∀ m g, .signed m r g ∉ earlier)
    (hkept : ∀ m ∈ later, touches m = false) (huntold : ∀ m ∈ later, tells r m = false)
    {front between : List VaultMark} {k : ℕ} {token secret : String} {now : ℤ}
    (hcheck : later = front ++ .checked k token secret now :: between) :
    secret = r ∧ ∀ claims, verdict e token secret now = .ok (some claims) →
      ∃ m g, .signed m r g ∈ between ∧ Carries e token r g ∧ now ≤ g.exp ∧ claims = g.claims ∧
        LoggedIn e m g (between ++ .drew n r :: earlier) := by
  subst hcheck
  have hj := (vaultRun_inv e es).justified
  have hmarks : (vaultRun e es).state.marks =
      front ++ .checked k token secret now :: (between ++ .drew n r :: earlier) := by
    rw [h, List.append_assoc, List.cons_append]
  rw [hmarks] at hj hforge
  obtain ⟨hreads, hjust⟩ := justified_at hj
  have hmem : ∀ m ∈ between, m ∈ front ++ .checked k token secret now :: between := fun m hm =>
    List.mem_append_right _ (List.mem_cons_of_mem _ hm)
  have hsecret : secret = r := by
    refine hreads r ?_
    rw [lastWritten_kept fun m hm => hkept m (hmem m hm)]
    exact if_pos rfl
  subst hsecret
  refine ⟨rfl, fun claims hverdict => ?_⟩
  obtain htold | ⟨m, g, hsigned, hrest⟩ := origin_of_accepted htext hjust
    (unforged_suffix hforge (List.suffix_append front _)) hverdict
  · refine absurd ?_ hfresh.1
    obtain hknown | ⟨m, hm, htells⟩ := htold
    · exact Or.inl hknown
    · rcases List.mem_append.mp hm with hm | hm
      · rw [huntold m (hmem m hm)] at htells
        cases htells
      · rcases List.mem_cons.mp hm with rfl | hm
        · cases htells
        · exact Or.inr ⟨m, hm, htells⟩
  · refine ⟨m, g, ?_, hrest⟩
    rcases List.mem_append.mp hsigned with hm | hm
    · exact hm
    · rcases List.mem_cons.mp hm with hm | hm
      · cases hm
      · exact absurd hm (hfresh.2 m g)

/-- The admin draws the secret anew, and comes back with the old cookie. -/
def rotateRun : List (Event VaultOp VaultInput) :=
  request 1 (.login "a" "p") 100 9 ++ request 2 (.rotateJwt (some chiefCookie)) 120 2 ++
    request 3 (.page (some chiefCookie)) 130 1

/-- What a run with a rotation leaves of marks. -/
theorem rotateRun_marks : (vaultRun plainEnv rotateRun).state.marks =
    .checked 3 chiefCookie "AQID" 130 :: .drew 2 "AQID" :: .checked 2 chiefCookie "s" 120 ::
      chiefSignedIn := by
  decide +kernel

/-- The admin's cookie ends with the rotation. -/
theorem rotation_ends_sessions_chief :
    (vaultRun plainEnv rotateRun).state.marks = .checked 3 chiefCookie "AQID" 130 ::
      .drew 2 "AQID" :: .checked 2 chiefCookie "s" 120 :: chiefSignedIn ∧
    ∀ claims, verdict plainEnv chiefCookie "AQID" 130 ≠ .ok (some claims) := by
  refine ⟨rotateRun_marks, fun claims hverdict => ?_⟩
  have hwrong : hasMac plainEnv chiefCookie "AQID" = false := by decide +kernel
  have hforge : Unforged plainEnv [] (vaultRun plainEnv rotateRun).state.marks := by
    rw [rotateRun_marks]
    exact unforged_check (fun h => absurd h (by rw [hwrong]; decide))
      (unforged_cons (fun _ _ _ _ => nofun) unforged_chief)
  have hfresh : ¬Told [] "AQID" (.checked 2 chiefCookie "s" 120 :: chiefSignedIn) ∧
      ∀ m g, .signed m "AQID" g ∉ .checked 2 chiefCookie "s" 120 :: chiefSignedIn := by
    simp [Told, tells, chiefSignedIn]
  have hended := @rotation_ends_sessions plainEnv [] (fun _ _ => rfl) rotateRun hforge
    [.checked 3 chiefCookie "AQID" 130] _ 2 "AQID" rotateRun_marks hfresh (by simp [touches])
    (by simp [tells]) [] [] 3 chiefCookie "AQID" 130 rfl
  obtain ⟨m, g, hsigned, -⟩ := hended.2 claims hverdict
  cases hsigned

end Mailman.Analysis
