import Mailman.Analysis.SettingsReads

/-!
# Settings over a run

Who reads a value that was written, from then on; that the migration of the environment at the
start of a process is seen by nobody and done once; and where a secret never is.
-/

set_option autoImplicit false

namespace Mailman.Analysis

open Mailman.Interface Mailman.Model Mailman.Model.Settings

variable {P D : Type} [DecidableEq P] [DecidableEq D] {h : Hosts P D} {p q : P} {key : String}
  {v : SettingsView P D} {r : String × D}

/-! ## A value that nobody writes again -/

/-- The operation sets or deletes the setting. -/
def Writes (key : String) (op : Op) : Prop := op = .delete key ∨ ∃ value, op = .set key value

omit [DecidableEq D] in
/-- A write leaves the other settings. -/
theorem written_write_of_ne (v : SettingsView P D) (p : P) {k : String} (value : Option String)
    (hne : key ≠ k) : (v.write h p k value).written key = v.written key :=
  Function.update_of_ne hne _ _

omit [DecidableEq D] in
/-- The writes of one process are no one else's. -/
theorem knownTo_write_of_ne (v : SettingsView P D) {k : String} (value : Option String)
    (hne : key ≠ k) : (v.write h q k value).knownTo p key = v.knownTo p key := by
  unfold SettingsView.knownTo SettingsView.values SettingsView.write
  dsimp only
  by_cases hpq : p = q
  · subst hpq
    rw [Function.update_self]
    cases v.known p with
    | none =>
      rw [Option.map_none, Option.getD_none, Option.getD_none, Function.update_of_ne hne]
    | some f =>
      rw [Option.map_some, Option.getD_some, Option.getD_some, Function.update_of_ne hne]
  · rw [Function.update_of_ne hpq]
    cases v.known p with
    | none => rw [Option.getD_none, Option.getD_none, Function.update_of_ne hne]
    | some f => rfl

omit [DecidableEq D] in
/-- A look changes nothing that is known to a process. -/
theorem knownTo_look (v : SettingsView P D) (q p : P) : (v.look q).knownTo p = v.knownTo p := by
  unfold SettingsView.look SettingsView.knownTo
  dsimp only
  by_cases hpq : p = q
  · subst hpq
    rw [Function.update_self]
    rfl
  · rw [Function.update_of_ne hpq]
    rfl

omit [DecidableEq D] in
/-- What stays of a written value through the migration. -/
theorem stays_migrate (v : SettingsView P D) (q : P) (hr : v.written key = some r) :
    (v.migrate h q).2.written key = some r ∧
      ∀ p, (v.migrate h q).2.knownTo p key = v.knownTo p key := by
  have hfold : ∀ (entries moved : List (String × String)) (u : SettingsView P D),
      u.written key = some r →
      (entries.foldl (SettingsView.migrateOne h q) (moved, u)).2.written key = some r ∧
        ∀ p, (entries.foldl (SettingsView.migrateOne h q) (moved, u)).2.knownTo p key =
          u.knownTo p key := by
    intro entries
    induction entries with
    | nil => exact fun moved u hu => ⟨hu, fun _ => rfl⟩
    | cons entry entries ih =>
      intro moved u hu
      rw [List.foldl_cons]
      have hone : (SettingsView.migrateOne h q (moved, u) entry).2.written key = some r ∧
          ∀ p, (SettingsView.migrateOne h q (moved, u) entry).2.knownTo p key =
            u.knownTo p key := by
        unfold SettingsView.migrateOne
        dsimp only
        split
        · next value hnone hvalue =>
          split
          · exact ⟨hu, fun _ => rfl⟩
          · have hne : key ≠ entry.1 := by
              rintro rfl
              rw [hu] at hnone
              cases hnone
            exact ⟨(written_write_of_ne u q _ hne).trans hu,
              fun p => knownTo_write_of_ne u _ hne⟩
        · exact ⟨hu, fun _ => rfl⟩
      obtain ⟨hwritten, hknown⟩ := ih (SettingsView.migrateOne h q (moved, u) entry).1 _ hone.1
      exact ⟨hwritten, fun p => (hknown p).trans (hone.2 p)⟩
  obtain ⟨hwritten, hknown⟩ := hfold h.side.envMigrate [] (v.look q) hr
  exact ⟨hwritten, fun p => (hknown p).trans (by rw [knownTo_look])⟩

/-- One step of somebody who does not write the setting: only a process that starts forgets what
it knew of it. -/
theorem stays_step (e : P × Op) (hr : v.written key = some r) (he : ¬Writes key e.2) :
    (v.step h e).2.written key = some r ∧
      ∀ p, (v.step h e).2.knownTo p key =
        if e.1 = p ∧ e.2 = .start then some r.1 else v.knownTo p key := by
  obtain ⟨q, op⟩ := e
  cases op with
  | start =>
    refine ⟨hr, fun p => ?_⟩
    unfold SettingsView.step SettingsView.knownTo SettingsView.values
    dsimp only
    by_cases hqp : q = p
    · subst hqp
      rw [if_pos ⟨rfl, rfl⟩, Function.update_self, Option.getD_none, hr]
      rfl
    · rw [if_neg fun hand => hqp hand.1, Function.update_of_ne (Ne.symm hqp)]
  | get k default =>
    unfold SettingsView.step
    dsimp only
    cases h.side.cached with
    | true => exact ⟨hr, fun p => by simp [knownTo_look]⟩
    | false => exact ⟨hr, fun p => by simp⟩
  | set k value =>
    have hne : key ≠ k := fun heq => he (heq ▸ Or.inr ⟨value, rfl⟩)
    refine ⟨(written_write_of_ne v q _ hne).trans hr, fun p => ?_⟩
    rw [if_neg (by simp)]
    exact knownTo_write_of_ne v _ hne
  | delete k =>
    have hne : key ≠ k := fun heq => he (heq ▸ Or.inl rfl)
    refine ⟨(written_write_of_ne v q _ hne).trans hr, fun p => ?_⟩
    rw [if_neg (by simp)]
    exact knownTo_write_of_ne v _ hne
  | getAll => exact ⟨hr, fun p => by simp [SettingsView.step, knownTo_look]⟩
  | migrateFromEnv =>
    obtain ⟨hwritten, hknown⟩ := stays_migrate v q hr
    refine ⟨hwritten, fun p => ?_⟩
    rw [if_neg (by simp)]
    exact hknown p

/-- A run of others. -/
theorem stays_written (es : List (P × Op)) (hr : v.written key = some r)
    (hes : ∀ e ∈ es, ¬Writes key e.2) (p : P) :
    (v.run h es).2.written key = some r ∧
      (v.knownTo p key = some r.1 ∨ (p, Op.start) ∈ es →
        (v.run h es).2.knownTo p key = some r.1) ∧
      ((p, Op.start) ∉ es → (v.run h es).2.knownTo p key = v.knownTo p key) := by
  induction es generalizing v with
  | nil => exact ⟨hr, fun h' => h'.resolve_right List.not_mem_nil, fun _ => rfl⟩
  | cons e es ih =>
    obtain ⟨hwritten, hknown⟩ := stays_step e hr (hes e (List.mem_cons_self ..))
    obtain ⟨hrest, hfresh, hsame⟩ := ih hwritten fun e' he' => hes e' (List.mem_cons_of_mem _ he')
    refine ⟨hrest, fun hor => hfresh ?_, fun hnot => ?_⟩
    · rw [hknown p]
      by_cases hstart : e.1 = p ∧ e.2 = .start
      · rw [if_pos hstart]
        exact Or.inl rfl
      · rw [if_neg hstart]
        refine hor.imp_right fun hin => (List.mem_cons.mp hin).resolve_left fun heq => hstart ?_
        rw [← heq]
        exact ⟨rfl, rfl⟩
    · have hne : ¬(e.1 = p ∧ e.2 = .start) := fun hand =>
        hnot (List.mem_cons.mpr (Or.inl (Prod.ext hand.1.symm hand.2.symm)))
      rw [show (SettingsView.run h v (e :: es)).2 = ((v.step h e).2.run h es).2 from rfl,
        hsame fun hin => hnot (List.mem_cons_of_mem _ hin), hknown p, if_neg hne]

/-- Two runs of the view one after the other. -/
theorem SettingsView.run_append (v : SettingsView P D) (es es' : List (P × Op)) :
    (v.run h (es ++ es')).2 = ((v.run h es).2.run h es').2 := by
  induction es generalizing v with
  | nil => rfl
  | cons e es ih => exact ih _

/-- The view of a run from the start. -/
def viewAfter (h : Hosts P D) (es : List (P × Op)) : SettingsView P D := (SettingsView.run h {} es).2

/-- The world of a run from the start. -/
def worldAfter (h : Hosts P D) (es : List (P × Op)) : World P D := (Settings.run h {} es).2

/-- A run shows the view's run. -/
theorem shows_worldAfter (h : Hosts P D) (es : List (P × Op)) :
    Shows h (worldAfter h es) (viewAfter h es) := (shows_run (shows_empty h) es).2

/-- A read after a run answers as the view does. -/
theorem get_worldAfter (h : Hosts P D) (es : List (P × Op)) (p : P) (key : String)
    (default : Option String) :
    (Settings.get h p key default (worldAfter h es)).1 =
      (viewAfter h es).answer h p key default :=
  (shows_get p (shows_worldAfter h es) key default).1

/-- **Who reads what was written.** After `q` writes a setting, and until anybody writes it again,
a secret is read by the processes with the writer's key file and by no other. A plain value is
read by everybody, except by a process with a cache that had looked before the write and has not
been started since: that one still reads what it read before. -/
theorem reads_last_write (h : Hosts P D) (es es' : List (P × Op)) (q : P) (key value : String)
    (hes : ∀ e ∈ es', ¬Writes key e.2) (p : P) (default : Option String) :
    (Settings.get h p key default (worldAfter h (es ++ (q, .set key value) :: es'))).1 =
      if h.side.isSecret key then if h.dir q = h.dir p then some value else default
      else if h.side.cached ∧ p ≠ q ∧ (worldAfter h es).loaded p ∧ (p, Op.start) ∉ es' then
        (Settings.get h p key default (worldAfter h es)).1
      else some value := by
  let v := viewAfter h es
  let u := v.write h q key (some value)
  have hview : viewAfter h (es ++ (q, .set key value) :: es') = (u.run h es').2 :=
    SettingsView.run_append _ es _
  have hwritten : u.written key = some (value, h.dir q) := Function.update_self ..
  obtain ⟨hr, hfresh, hsame⟩ := stays_written es' hwritten hes p
  rw [get_worldAfter, get_worldAfter, hview]
  unfold SettingsView.answer
  dsimp only
  rw [hr]
  cases hsecret : h.side.isSecret key with
  | true => simp only [if_true]
  | false =>
    simp only [Bool.false_eq_true, if_false]
    cases hcached : h.side.cached with
    | false =>
      simp only [Bool.false_eq_true, if_false, false_and]
      unfold SettingsView.values
      rw [hr]
      rfl
    | true =>
      simp only [if_true, true_and]
      by_cases hstale : p ≠ q ∧ (worldAfter h es).loaded p = true ∧ (p, Op.start) ∉ es'
      · obtain ⟨hpq, hloaded, hstart⟩ := hstale
        rw [if_pos ⟨hpq, hloaded, hstart⟩, hsame hstart]
        rw [(shows_worldAfter h es).loaded p] at hloaded
        obtain ⟨f, hf⟩ := Option.isSome_iff_exists.mp hloaded
        have hold : u.knownTo p = (viewAfter h es).knownTo p := by
          unfold SettingsView.knownTo
          show ((Function.update v.known q _) p).getD _ = _
          rw [Function.update_of_ne hpq, hf]
          rfl
        rw [hold]
      · rw [if_neg hstale]
        suffices hcurrent : u.knownTo p key = some value ∨ (p, Op.start) ∈ es' by
          rw [hfresh hcurrent]
          rfl
        by_cases hstart : (p, Op.start) ∈ es'
        · exact Or.inr hstart
        · left
          show ((Function.update v.known q ((v.known q).map _) p).getD u.values) key = _
          by_cases hpq : p = q
          · subst hpq
            rw [Function.update_self]
            cases v.known p with
            | none =>
              rw [Option.map_none, Option.getD_none]
              unfold SettingsView.values
              rw [hwritten]
              rfl
            | some f => exact Function.update_self ..
          · have hunloaded : v.known p = none := by
              have hnot : (worldAfter h es).loaded p ≠ true := fun hl => hstale ⟨hpq, hl, hstart⟩
              rw [(shows_worldAfter h es).loaded p] at hnot
              simpa using hnot
            rw [Function.update_of_ne hpq, hunloaded, Option.getD_none]
            unfold SettingsView.values
            rw [hwritten]
            rfl

/-- Cloud processes with one key file and an address in the environment. -/
private def cloudHosts : Hosts ℕ ℕ where
  side := Settings.cloud fun _ _ => ""
  dir _ := 0
  environ _ name := if name = "SUPPORT_EMAIL" then some "a@b.co" else none

/-- A process that had looked goes on with the environment's address. -/
theorem reads_last_write_stale :
    (Settings.get cloudHosts 0 "support_email" none (worldAfter cloudHosts
      ([(0, .getAll)] ++ (1, .set "support_email" "c@d.co") :: [(1, .getAll)]))).1 =
      some "a@b.co" := by
  rw [reads_last_write cloudHosts [(0, .getAll)] [(1, .getAll)] 1 "support_email" "c@d.co"
    (by simp [Writes]) 0 none]
  decide

/-! ## The migration of the environment -/

/-- What the environment of a process fills in. -/
def filled (environ : String → Option String) (entries : List (String × String)) (key : String) :
    Option String :=
  ((entries.lookup key).bind environ).filter (· ≠ "")

/-- The fallback is the environment's value, or the default. -/
theorem fallback_eq (side : Side) (environ : String → Option String) (key : String)
    (default : Option String) :
    side.fallback environ key default = ((side.envMigrate.lookup key).bind environ).or default := by
  unfold Side.fallback
  cases side.envMigrate.lookup key <;> rfl

/-- A value that is filled in is the one that was read for the lack of it. -/
theorem fallback_of_filled {side : Side} {environ : String → Option String} {key x : String}
    (hx : filled environ side.envMigrate key = some x) (default : Option String) :
    side.fallback environ key default = some x := by
  obtain ⟨hsome, -⟩ := Option.filter_eq_some_iff.mp hx
  rw [fallback_eq, hsome]
  rfl

omit [DecidableEq D] in
/-- One entry fills in its own setting alone. -/
theorem migrateOne_written (moved : List (String × String)) (u : SettingsView P D)
    (entry : String × String) (key : String) :
    (SettingsView.migrateOne h p (moved, u) entry).2.written key =
      if key = entry.1 then
        (u.written key).or (((h.environ p entry.2).filter (· ≠ "")).map fun x => (x, h.dir p))
      else u.written key := by
  unfold SettingsView.migrateOne
  dsimp only
  by_cases hkey : key = entry.1
  · subst hkey
    rw [if_pos rfl]
    cases hr : u.written entry.1 with
    | some r => exact hr
    | none =>
      cases h.environ p entry.2 with
      | none => exact hr
      | some value =>
        dsimp only
        by_cases hvalue : value = ""
        · rw [if_pos hvalue, Option.filter_some_neg (by simp [hvalue])]
          exact hr
        · rw [if_neg hvalue, Option.filter_some_pos (by simp [hvalue])]
          exact Function.update_self ..
  · rw [if_neg hkey]
    split
    · split
      · rfl
      · exact written_write_of_ne u p _ hkey
    · rfl

omit [DecidableEq D] in
/-- The migration fills in what nobody wrote, and nothing else. -/
theorem migrate_written (v : SettingsView P D) (p : P) (key : String) :
    (v.migrate h p).2.written key = (v.written key).or
      ((filled (h.environ p) h.side.envMigrate key).map fun x => (x, h.dir p)) := by
  have hfold : ∀ (entries moved : List (String × String)) (u : SettingsView P D),
      (entries.map (·.1)).Nodup →
      (entries.foldl (SettingsView.migrateOne h p) (moved, u)).2.written key =
        (u.written key).or ((filled (h.environ p) entries key).map fun x => (x, h.dir p)) := by
    intro entries
    induction entries with
    | nil =>
      intro moved u _
      exact (Option.or_none).symm
    | cons entry entries ih =>
      intro moved u hnodup
      rw [List.map_cons, List.nodup_cons] at hnodup
      have hrest := ih (SettingsView.migrateOne h p (moved, u) entry).1
        (SettingsView.migrateOne h p (moved, u) entry).2 hnodup.2
      rw [List.foldl_cons]
      refine hrest.trans ?_
      rw [migrateOne_written]
      unfold filled
      by_cases hkey : key = entry.1
      · subst hkey
        have hnone : entries.lookup entry.1 = none := by
          rw [List.lookup_eq_none_iff]
          intro e he
          rw [bne_iff_ne]
          intro heq
          exact hnodup.1 (List.mem_map.mpr ⟨e, he, heq.symm⟩)
        rw [if_pos rfl, hnone, List.lookup_cons_self]
        cases u.written entry.1 with
        | some r => rfl
        | none => exact Option.or_none
      · rw [if_neg hkey, List.lookup_cons, (beq_eq_false_iff_ne).mpr hkey]
  exact hfold h.side.envMigrate [] (v.look p) h.side.nodup

omit [DecidableEq D] in
/-- A process that had not looked before goes by the table after its migration; the others know
what they knew. -/
theorem migrate_known (v : SettingsView P D) (hp : v.known p = none) (q : P) :
    (q = p → (v.migrate h p).2.knownTo q = (v.migrate h p).2.values) ∧
      (q ≠ p → (v.migrate h p).2.known q = v.known q) := by
  have hfold : ∀ (entries moved : List (String × String)) (u : SettingsView P D),
      u.knownTo p = u.values →
      (entries.foldl (SettingsView.migrateOne h p) (moved, u)).2.knownTo p =
          (entries.foldl (SettingsView.migrateOne h p) (moved, u)).2.values ∧
        (q ≠ p → (entries.foldl (SettingsView.migrateOne h p) (moved, u)).2.known q = u.known q) := by
    intro entries
    induction entries with
    | nil => exact fun moved u hu => ⟨hu, fun _ => rfl⟩
    | cons entry entries ih =>
      intro moved u hu
      have hone : (SettingsView.migrateOne h p (moved, u) entry).2.knownTo p =
          (SettingsView.migrateOne h p (moved, u) entry).2.values ∧
          (q ≠ p → (SettingsView.migrateOne h p (moved, u) entry).2.known q = u.known q) := by
        unfold SettingsView.migrateOne
        dsimp only
        split
        · next value _ _ =>
          split
          · exact ⟨hu, fun _ => rfl⟩
          · refine ⟨?_, fun hqp => Function.update_of_ne hqp _ _⟩
            funext k
            by_cases hk : k = entry.1
            · subst hk
              show ((Function.update u.known p ((u.known p).map _) p).getD
                (u.write h p entry.1 (some value)).values) entry.1 = _
              rw [Function.update_self]
              cases u.known p with
              | none => rfl
              | some f =>
                rw [Option.map_some, Option.getD_some, Function.update_self]
                unfold SettingsView.values SettingsView.write
                dsimp only
                rw [Function.update_self]
                rfl
            · rw [knownTo_write_of_ne u _ hk, hu]
              unfold SettingsView.values
              rw [written_write_of_ne u p _ hk]
        · exact ⟨hu, fun _ => rfl⟩
      obtain ⟨hcurrent, hothers⟩ := ih (SettingsView.migrateOne h p (moved, u) entry).1 _ hone.1
      exact ⟨hcurrent, fun hqp => (hothers hqp).trans (hone.2 hqp)⟩
  have hlook : (v.look p).knownTo p = (v.look p).values := by
    rw [knownTo_look]
    unfold SettingsView.knownTo
    rw [hp]
    rfl
  obtain ⟨hcurrent, hothers⟩ := hfold h.side.envMigrate [] (v.look p) hlook
  refine ⟨fun hqp => hqp ▸ hcurrent, fun hqp => (hothers hqp).trans ?_⟩
  exact Function.update_of_ne hqp _ _

/-- No process with the same environment and key file reads anything else afterwards. -/
theorem answer_migrate (v : SettingsView P D) (hp : v.known p = none)
    (henv : h.environ q = h.environ p) (hdir : h.dir q = h.dir p) (key : String)
    (default : Option String) :
    (v.migrate h p).2.answer h q key default = v.answer h q key default := by
  have hwritten := @migrate_written _ _ _ h v p key
  have hvalues : ((v.migrate h p).2.values key).or (h.side.fallback (h.environ q) key default) =
      (v.values key).or (h.side.fallback (h.environ q) key default) := by
    unfold SettingsView.values
    rw [hwritten]
    cases v.written key with
    | some r => rfl
    | none =>
      cases hfilled : filled (h.environ p) h.side.envMigrate key with
      | none => rfl
      | some x =>
        rw [henv, fallback_of_filled hfilled]
        rfl
  unfold SettingsView.answer
  dsimp only
  cases h.side.isSecret key with
  | true =>
    simp only [if_true]
    rw [hwritten]
    cases v.written key with
    | some r => rfl
    | none =>
      cases hfilled : filled (h.environ p) h.side.envMigrate key with
      | none => rfl
      | some x =>
        rw [henv, fallback_of_filled hfilled, hdir]
        exact if_pos rfl
  | false =>
    simp only [Bool.false_eq_true, if_false]
    cases h.side.cached with
    | false => exact hvalues
    | true =>
      obtain ⟨hself, hother⟩ := migrate_known (h := h) v hp q
      by_cases hqp : q = p
      · have hnone : v.knownTo q = v.values := by
          unfold SettingsView.knownTo
          rw [hqp, hp]
          rfl
        simp only [if_true]
        rw [hself hqp, hnone]
        exact hvalues
      · simp only [if_true]
        unfold SettingsView.knownTo
        rw [hother hqp]
        cases v.known q with
        | some f => rfl
        | none => exact hvalues

/-- What is written stays so, as long as nobody deletes it. -/
theorem isSome_run (v : SettingsView P D) (es : List (P × Op)) (hes : ∀ e ∈ es, e.2 ≠ .delete key)
    (hv : (v.written key).isSome) : ((v.run h es).2.written key).isSome := by
  induction es generalizing v with
  | nil => exact hv
  | cons e es ih =>
    refine ih _ (fun e' he' => hes e' (List.mem_cons_of_mem _ he')) ?_
    obtain ⟨r, hr⟩ := Option.isSome_iff_exists.mp hv
    by_cases hset : ∃ value, e.2 = .set key value
    · obtain ⟨value, hvalue⟩ := hset
      unfold SettingsView.step
      rw [hvalue]
      dsimp only
      unfold SettingsView.write
      dsimp only
      rw [Function.update_self]
      rfl
    · have hno : ¬Writes key e.2 := fun hw => hw.elim (hes e (List.mem_cons_self ..)) hset
      rw [(stays_step e hr hno).1]
      rfl

omit [DecidableEq D] in
/-- Loading the cache leaves the table. -/
theorem table_ensureLoaded (w : World P D) (p : P) : (ensureLoaded p w).table = w.table := by
  unfold ensureLoaded
  split <;> rfl

/-- A migration with nothing to fill in leaves the table as it is. -/
theorem migrateFromEnv_settled {w : World P D} (hs : Shows h w v)
    (hsettled : ∀ entry ∈ h.side.envMigrate, (v.written entry.1).isSome ∨
      (h.environ q entry.2).filter (· ≠ "") = none) :
    (migrateFromEnv h q w).1 = [] ∧ (migrateFromEnv h q w).2.table = w.table := by
  let u := (loadKek h q (ensureLoaded q w)).2
  have hload := shows_loadKek q (shows_ensureLoaded q hs)
  have htable : u.table = w.table := hload.2.2.1.trans (table_ensureLoaded w q)
  have hfold : ∀ entries : List (String × String), (∀ entry ∈ entries, (v.written entry.1).isSome ∨
      (h.environ q entry.2).filter (· ≠ "") = none) →
      entries.foldl (Settings.migrateOne h q) ([], u) = ([], u) := by
    intro entries
    induction entries with
    | nil => exact fun _ => rfl
    | cons entry entries ih =>
      intro hall
      have hone : Settings.migrateOne h q ([], u) entry = ([], u) := by
        unfold Settings.migrateOne
        dsimp only
        rw [htable, hs.table]
        rcases hall entry (List.mem_cons_self ..) with hsome | hnone
        · obtain ⟨r, hr⟩ := Option.isSome_iff_exists.mp hsome
          rw [hr]
          rfl
        · cases v.written entry.1 with
          | some r => rfl
          | none =>
            cases henv : h.environ q entry.2 with
            | none => rfl
            | some value =>
              have hempty : value = "" := by
                rw [henv] at hnone
                simpa [Option.filter] using hnone
              dsimp only [Option.map_none]
              rw [if_pos hempty]
      rw [List.foldl_cons, hone]
      exact ih fun entry' h' => hall entry' (List.mem_cons_of_mem _ h')
  have hrun : migrateFromEnv h q w = ([], u) := hfold h.side.envMigrate hsettled
  rw [hrun]
  exact ⟨rfl, htable⟩

/-- **The migration of the environment is seen by nobody and done once.** A process that starts
and migrates changes no answer of any process with its environment and its key file, itself
included, and until a setting is deleted none of them has anything left to migrate. -/
theorem migration_unseen (h : Hosts P D) (es : List (P × Op)) (p q : P)
    (henv : h.environ q = h.environ p) (hdir : h.dir q = h.dir p) :
    (∀ key default,
      (Settings.get h q key default
        (worldAfter h (es ++ [(p, .start), (p, .migrateFromEnv)]))).1 =
      (Settings.get h q key default (worldAfter h (es ++ [(p, .start)]))).1) ∧
    ∀ es' : List (P × Op), (∀ e ∈ es', ∀ key, e.2 ≠ .delete key) →
      let w := worldAfter h (es ++ (p, .start) :: (p, .migrateFromEnv) :: es')
      (migrateFromEnv h q w).1 = [] ∧ (migrateFromEnv h q w).2.table = w.table := by
  let v : SettingsView P D := viewAfter h (es ++ [(p, .start)])
  have hstart : v = { viewAfter h es with known := Function.update (viewAfter h es).known p none } :=
    SettingsView.run_append _ es _
  have hp : v.known p = none := by
    rw [hstart]
    exact Function.update_self ..
  have hmigrated : viewAfter h (es ++ [(p, .start), (p, .migrateFromEnv)]) = (v.migrate h p).2 := by
    rw [hstart]
    exact SettingsView.run_append _ es _
  constructor
  · intro key default
    rw [get_worldAfter, get_worldAfter, hmigrated]
    exact answer_migrate v hp henv hdir key default
  · intro es' hes' w
    have hafter : viewAfter h (es ++ (p, .start) :: (p, .migrateFromEnv) :: es') =
        ((v.migrate h p).2.run h es').2 := by
      rw [← hmigrated]
      have happend := @SettingsView.run_append _ _ _ _ h {}
        (es ++ [(p, .start), (p, .migrateFromEnv)]) es'
      rw [List.append_assoc] at happend
      exact happend
    refine migrateFromEnv_settled (shows_worldAfter h _) fun entry hentry => ?_
    rw [hafter]
    by_cases hnone : (h.environ q entry.2).filter (· ≠ "") = none
    · exact Or.inr hnone
    · refine Or.inl (isSome_run _ es' (fun e he => hes' e he entry.1) ?_)
      rw [migrate_written]
      have hlookup : h.side.envMigrate.lookup entry.1 = some entry.2 := by
        obtain ⟨pre, post, hsplit⟩ := List.append_of_mem hentry
        have hnodup := h.side.nodup
        rw [hsplit, List.map_append, List.map_cons, List.nodup_append] at hnodup
        refine List.lookup_eq_some_iff.mpr ⟨pre, post, hsplit, fun e he => ?_⟩
        rw [bne_iff_ne]
        exact (hnodup.2.2 e.1 (List.mem_map_of_mem he) entry.1 (List.mem_cons_self ..)).symm
      have hfilled : filled (h.environ p) h.side.envMigrate entry.1 ≠ none := by
        unfold filled
        rw [hlookup, Option.bind_some, ← henv]
        exact hnone
      obtain ⟨x, hx⟩ := Option.ne_none_iff_exists'.mp hfilled
      rw [hx]
      cases (v.written entry.1) <;> rfl

/-- Another process of the cloud reads the same. -/
theorem migration_unseen_cloud :
    (∀ key default,
      (Settings.get cloudHosts 1 key default
        (worldAfter cloudHosts ([] ++ [(0, .start), (0, .migrateFromEnv)]))).1 =
      (Settings.get cloudHosts 1 key default (worldAfter cloudHosts ([] ++ [(0, .start)]))).1) ∧
    ∀ es' : List (ℕ × Op), (∀ e ∈ es', ∀ key, e.2 ≠ .delete key) →
      let w := worldAfter cloudHosts ([] ++ (0, .start) :: (0, .migrateFromEnv) :: es')
      (migrateFromEnv cloudHosts 1 w).1 = [] ∧ (migrateFromEnv cloudHosts 1 w).2.table = w.table :=
  migration_unseen cloudHosts [] 0 1 rfl rfl

/-! ## Where a secret is not -/

/-- **A secret is in the table under seal only, and in no cache**, whatever processes did: the key
that opens it is in one directory, and a listing shows that it is there and no more. -/
theorem secrets_sealed (h : Hosts P D) (es : List (P × Op)) (hsecret : h.side.isSecret key = true) :
    (∀ row, (worldAfter h es).table key = some row → ∃ k value d, row = .sealed k value ∧
      (worldAfter h es).file d = some k ∧ ∀ d', (worldAfter h es).file d' = some k → d' = d) ∧
    ∀ p, (worldAfter h es).plain p key = none ∧
      ((getAll p (worldAfter h es)).1 key = none ∨
        (getAll p (worldAfter h es)).1 key = some "<encrypted>") := by
  have hs := shows_worldAfter h es
  constructor
  · intro row hrow
    rw [hs.table key] at hrow
    obtain ⟨r, hr, rfl⟩ := Option.map_eq_some_iff.mp hrow
    obtain ⟨k, hk⟩ := Option.isSome_iff_exists.mp (hs.filed key r hr hsecret)
    refine ⟨k, r.1, r.2, ?_, hk, fun d' hd' => hs.apart d' r.2 k hd' hk⟩
    unfold rowOf
    rw [if_pos hsecret, hk]
    rfl
  · intro p
    refine ⟨hs.hidden p key hsecret, ?_⟩
    rw [(shows_getAll p hs).1]
    unfold SettingsView.listing
    rw [if_pos hsecret]
    cases (viewAfter h es).written key with
    | none => exact Or.inl rfl
    | some r => exact Or.inr rfl

/-- A secret that was set is sealed. -/
theorem secrets_sealed_set :
    let w := worldAfter cloudHosts [(0, .set "unsub_secret" "s")]
    (∀ row, w.table "unsub_secret" = some row → ∃ k value d, row = .sealed k value ∧
      w.file d = some k ∧ ∀ d', w.file d' = some k → d' = d) ∧
    ∀ p, w.plain p "unsub_secret" = none ∧
      ((getAll p w).1 "unsub_secret" = none ∨ (getAll p w).1 "unsub_secret" = some "<encrypted>") :=
  secrets_sealed cloudHosts [(0, .set "unsub_secret" "s")] (by decide)

end Mailman.Analysis
