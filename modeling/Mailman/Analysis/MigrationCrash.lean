import Mailman.Model.Migrations

/-!
# A stop in the middle of the migrations

A run of `init` that stops between two steps leaves the files before applied and one file part of
the way, without its marker, so that the next `init` repeats that file from its first statement.
Each such stop is replayed on the schema, which decides what the repeated statements do.
-/

set_option autoImplicit false

namespace Mailman.Analysis

open Mailman.Library.Sql Mailman.Model.Migrations

/-! ## Rows that are kept -/

/-- The name that a table or a column has after 0012. -/
def renamed (name : String) : String :=
  if name = "companies" then "entities" else if name = "company_id" then "entity_id" else name

/-- Every row of one database is in the other, column by column, up to the renames of 0012. -/
def Kept (a b : Database) : Prop :=
  ∀ name t, a.tables.find? name = some t →
    ∃ name' t', b.tables.find? name' = some t' ∧ renamed name' = renamed name ∧
      ∀ r ∈ a.rows name, ∃ r' ∈ b.rows name', ∀ c ∈ t.columns,
        ∃ c' ∈ t'.columns, renamed c'.name = renamed c.name ∧ r' c'.name = r c.name

/-! ## The file that a stop leaves open -/

/-- The statements since the last marker, one step later. -/
def Step.since (script : List Stmt) : Step → List Stmt
  | .sql s => script ++ [s]
  | .mark _ => []

/-- What a run has executed of the file whose marker it has not written. -/
def openScript (steps : List Step) : List Stmt := steps.foldl Step.since []

def addsOrRenamesColumn : Stmt → Bool
  | .addColumn .. => true
  | .renameColumn .. => true
  | _ => false

/-- `DROP TABLE` without `IF EXISTS`. -/
def dropsTable : Stmt → Bool
  | .dropTable ifExists _ => !ifExists
  | _ => false

def renamesTable : Stmt → Bool
  | .renameTable .. => true
  | _ => false

/-- No column was added or renamed, and as many tables were renamed as were dropped: a rebuilt
table has its name again. -/
def Repeatable (script : List Stmt) : Prop :=
  script.any addsOrRenamesColumn = false ∧ script.countP dropsTable = script.countP renamesTable

instance (script : List Stmt) : Decidable (Repeatable script) :=
  inferInstanceAs (Decidable (_ ∧ _))

/-! ## Replaying every stop on the schema -/

/-- Every row where it was. -/
def identity (s : Schema) : Sketch where
  tables := s
  foreignKeys := true
  empty := []
  places := s.map fun p => ⟨p.1, p.1, p.2.columns.map fun c => (c.name, c.name)⟩

/-- The sketch has the schema, and a place for every table of the first one. -/
def arrives (s s' : Schema) (k : Sketch) : Bool :=
  k.tables = s' && k.foreignKeys && s.all fun p => k.places.any fun q =>
    q.origin = p.1 && renamed q.table = renamed p.1 && (s'.find? q.table).any fun t =>
      p.2.columns.all fun c => q.columns.any fun d =>
        d.1 = c.name && renamed d.2 = renamed c.name && t.hasColumn d.2

/-- A stop after `n` statements of a script, and the script again on a new connection. -/
def checkStop (s s' : Schema) (script : List Stmt) (n : ℕ) : Bool :=
  match forecast (script.take n) (identity s) with
  | .ends k =>
    match forecast script { k with foreignKeys := true } with
    | .ends k' => decide (Repeatable (script.take n)) && arrives s s' k'
    | .fails => !decide (Repeatable (script.take n))
    | .depends => false
  | _ => false

/-- A script without a stop, and every stop in it; the schema it leads to. -/
def checkScript (s : Schema) (script : List Stmt) : Option Schema :=
  match forecast script (identity s) with
  | .ends k =>
    if arrives s k.tables k && (List.range (script.length + 1)).all (checkStop s k.tables script)
    then some k.tables else none
  | _ => none

def checkFiles : Schema → List Migration → Bool
  | _, [] => true
  | s, m :: files => (checkScript s m.script).any fun s' => checkFiles s' files

/-- Every stop in every file is as `Repeatable` says. -/
theorem checkFiles_migrations : checkFiles [] migrations = true := by decide +kernel

/-! ## What the check says of rows -/

/-- A table that is found is in the schema. -/
theorem find?_mem {s : Schema} {name : String} {t : Table} (h : s.find? name = some t) :
    (name, t) ∈ s := by
  induction s with
  | nil => cases h
  | cons p s ih =>
    rw [Schema.find?] at h
    split at h
    · next hname =>
      obtain rfl := Option.some.inj h
      rw [← hname]
      exact List.mem_cons_self
    · exact List.mem_cons_of_mem _ (ih h)

/-- A database keeps what it has. -/
theorem Kept.refl (db : Database) : Kept db db :=
  fun name t ht => ⟨name, t, ht, rfl, fun r hr => ⟨r, hr, fun c hc => ⟨c, hc, rfl, rfl⟩⟩⟩

/-- Keeping is transitive. -/
theorem Kept.trans {a b c : Database} (hab : Kept a b) (hbc : Kept b c) : Kept a c := by
  intro name t ht
  obtain ⟨name₁, t₁, ht₁, hname₁, hrows₁⟩ := hab name t ht
  obtain ⟨name₂, t₂, ht₂, hname₂, hrows₂⟩ := hbc name₁ t₁ ht₁
  refine ⟨name₂, t₂, ht₂, hname₂.trans hname₁, fun r hr => ?_⟩
  obtain ⟨r₁, hr₁, hcols₁⟩ := hrows₁ r hr
  obtain ⟨r₂, hr₂, hcols₂⟩ := hrows₂ r₁ hr₁
  refine ⟨r₂, hr₂, fun d hd => ?_⟩
  obtain ⟨d₁, hd₁, hren₁, hval₁⟩ := hcols₁ d hd
  obtain ⟨d₂, hd₂, hren₂, hval₂⟩ := hcols₂ d₁ hd₁
  exact ⟨d₂, hd₂, hren₂.trans hren₁, hval₂.trans hval₁⟩

/-- The database has a schema, and its rows meet the constraints; a connection is open. -/
structure AtSchema (s : Schema) (db : Database) : Prop where
  tables : db.tables = s
  foreignKeys : db.foreignKeys = true
  valid : db.Valid

section script

variable {s s' : Schema} {db : Database} {script : List Stmt}

/-- A database at a schema is described by it. -/
theorem AtSchema.describes (h : AtSchema s db) : (identity s).Describes db.rows db where
  tables := h.tables
  foreignKeys := h.foreignKeys
  valid := h.valid
  empty := fun _ hname => absurd hname List.not_mem_nil
  places := by
    intro p hp r hr
    obtain ⟨q, -, rfl⟩ := List.mem_map.mp hp
    refine ⟨r, hr, fun c hc => ?_⟩
    obtain ⟨d, -, rfl⟩ := List.mem_map.mp hc
    rfl

/-- A sketch that arrives has lost no row. -/
theorem arrives_kept {k : Sketch} {db' : Database} (h : AtSchema s db)
    (hdesc : k.Describes db.rows db') (harrives : arrives s s' k = true) :
    AtSchema s' db' ∧ Kept db db' := by
  unfold arrives at harrives
  simp only [Bool.and_eq_true, decide_eq_true_eq, List.all_eq_true, List.any_eq_true,
    Option.any_eq_true] at harrives
  obtain ⟨⟨htables, hkeys⟩, hplaces⟩ := harrives
  have hat : AtSchema s' db' :=
    ⟨hdesc.tables.trans htables, hdesc.foreignKeys.trans hkeys, hdesc.valid⟩
  refine ⟨hat, fun name t ht => ?_⟩
  have hmem : (name, t) ∈ s := find?_mem (h.tables ▸ ht)
  obtain ⟨q, hq, ⟨horigin, hrenamed⟩, t', ht', hcols⟩ := hplaces (name, t) hmem
  refine ⟨q.table, t', hat.tables ▸ ht', hrenamed, fun r hr => ?_⟩
  have hheld := hdesc.places q hq r (horigin ▸ hr)
  obtain ⟨r', hr', hvals⟩ := hheld
  refine ⟨r', hr', fun c hc => ?_⟩
  obtain ⟨d, hd, ⟨hold, hcol⟩, hhas⟩ := hcols c hc
  unfold Table.hasColumn at hhas
  rw [List.any_eq_true] at hhas
  obtain ⟨c', hc', hname⟩ := hhas
  rw [decide_eq_true_eq] at hname
  refine ⟨c', hc', ?_, ?_⟩
  · rw [hname]
    exact hcol
  · rw [hname, ← hold]
    exact hvals d hd

/-- A script without a stop. -/
theorem checkScript_run (h : AtSchema s db) (hcheck : checkScript s script = some s')
    (now : ℕ → String) :
    ∃ db', Library.Sql.run now script db = some db' ∧ AtSchema s' db' ∧ Kept db db' := by
  unfold checkScript at hcheck
  split at hcheck
  · next k hends =>
    split at hcheck
    · next hstops =>
      rw [Bool.and_eq_true] at hstops
      obtain rfl := Option.some.inj hcheck
      obtain ⟨db', hrun, hdesc⟩ : ∃ db', Library.Sql.run now script db = some db' ∧
          k.Describes db.rows db' := forecast_ends h.describes hends
      exact ⟨db', hrun, arrives_kept h hdesc hstops.1⟩
    · cases hcheck
  · cases hcheck

/-- The database after the process has ended and a new connection is open. -/
def reconnect (db : Database) : Database := { db with foreignKeys := true }

/-- A stop in a script: the script again ends with every row, or it raises. -/
theorem checkScript_stop (h : AtSchema s db) (hcheck : checkScript s script = some s') {n : ℕ}
    (hn : n ≤ script.length) (now now' : ℕ → String) :
    ∃ db₁, Library.Sql.run now (script.take n) db = some db₁ ∧
      (Repeatable (script.take n) → ∃ db₂,
        Library.Sql.run now' script (reconnect db₁) = some db₂ ∧ AtSchema s' db₂ ∧
          Kept db db₂) ∧
      (¬ Repeatable (script.take n) → Library.Sql.run now' script (reconnect db₁) = none) := by
  have hstop : checkStop s s' script n = true := by
    unfold checkScript at hcheck
    split at hcheck
    · split at hcheck
      · next hstops =>
        rw [Bool.and_eq_true, List.all_eq_true] at hstops
        obtain rfl := Option.some.inj hcheck
        exact hstops.2 n (List.mem_range.mpr (by omega))
      · cases hcheck
    · cases hcheck
  unfold checkStop at hstop
  split at hstop
  · next k hends =>
    obtain ⟨db₁, hrun, hdesc⟩ : ∃ db₁, Library.Sql.run now (script.take n) db = some db₁ ∧
        k.Describes db.rows db₁ := forecast_ends h.describes hends
    refine ⟨db₁, hrun, ?_⟩
    have hagain : Sketch.Describes { k with foreignKeys := true } db.rows (reconnect db₁) :=
      ⟨hdesc.tables, rfl, hdesc.valid, hdesc.empty, hdesc.places⟩
    split at hstop
    · next k' hends' =>
      rw [Bool.and_eq_true, decide_eq_true_eq] at hstop
      refine ⟨fun _ => ?_, fun hnot => absurd hstop.1 hnot⟩
      have hrun' : ∃ db₂, Library.Sql.run now' script (reconnect db₁) = some db₂ ∧
          k'.Describes db.rows db₂ := forecast_ends hagain hends'
      obtain ⟨db₂, hrun', hdesc'⟩ := hrun'
      exact ⟨db₂, hrun', arrives_kept h hdesc' hstop.2⟩
    · next hfails =>
      rw [Bool.not_eq_true', decide_eq_false_iff_not] at hstop
      exact ⟨fun hrep => absurd hrep hstop, fun _ => forecast_fails hagain hfails⟩
    · cases hstop
  · cases hstop

end script

/-! ## Files -/

/-- Two lists of steps are run one after the other. -/
theorem runSteps_append (now : ℕ → String) (a b : List Step) (v : Vault) :
    runSteps now (a ++ b) v =
      (runSteps now a v).bind (runSteps (fun n => now (n + a.length)) b) := by
  induction a generalizing now v with
  | nil => rfl
  | cons s a ih =>
    rw [List.cons_append, runSteps, runSteps, Option.bind_assoc]
    apply congrArg
    funext v'
    rw [ih]
    simp only [List.length_cons, Nat.add_assoc]

/-- Statements alone are run as a script. -/
theorem runSteps_sql (now : ℕ → String) (script : List Stmt) (v : Vault) :
    runSteps now (script.map .sql) v =
      (Library.Sql.run now script v.db).map fun db => { v with db } := by
  induction script generalizing now v with
  | nil => rfl
  | cons s script ih =>
    rw [List.map_cons, runSteps, Library.Sql.run, Step.exec]
    cases s.exec (now 0) v.db with
    | none => rfl
    | some db => exact ih _ _

/-- Statements are all since the last commit. -/
theorem foldl_since_sql (done script : List Stmt) :
    (script.map Step.sql).foldl Step.since done = done ++ script := by
  induction script generalizing done with
  | nil => simp
  | cons s script ih =>
    rw [List.map_cons, List.foldl_cons, ih]
    simp [Step.since]

/-- Of statements alone all are open. -/
theorem openScript_sql (script : List Stmt) : openScript (script.map .sql) = script :=
  foldl_since_sql [] script

/-- A whole file leaves nothing open. -/
theorem openScript_file (m : Migration) (steps : List Step) :
    openScript (m.steps ++ steps) = openScript steps := by
  unfold openScript Migration.steps
  rw [List.foldl_append, List.foldl_append]
  rfl

section files

variable {s s' : Schema} {v : Vault} {m : Migration} {files : List Migration}

/-- A checked file runs, is entered, and keeps what there is. -/
theorem file_run (h : AtSchema s v.db) (hcheck : checkScript s m.script = some s')
    (now : ℕ → String) :
    ∃ v', runSteps now m.steps v = some v' ∧ v'.applied = v.applied ++ [m.name] ∧
      AtSchema s' v'.db ∧ Kept v.db v'.db := by
  obtain ⟨db', hrun, hat, hkept⟩ := checkScript_run h hcheck now
  refine ⟨{ db := db', applied := v.applied ++ [m.name] }, ?_, rfl, hat, hkept⟩
  unfold Migration.steps
  rw [runSteps_append, runSteps_sql, hrun]
  rfl

/-- The first files, and the check of those that are left. -/
theorem files_run (h : AtSchema s v.db) (hcheck : checkFiles s files = true) (p : ℕ)
    (now : ℕ → String) :
    ∃ v' s', runSteps now ((files.take p).flatMap Migration.steps) v = some v' ∧
      v'.applied = v.applied ++ (files.take p).map (·.name) ∧ AtSchema s' v'.db ∧
      checkFiles s' (files.drop p) = true ∧ Kept v.db v'.db := by
  induction files generalizing s v p now with
  | nil =>
    rw [List.take_nil, List.drop_nil]
    exact ⟨v, s, rfl, (List.append_nil _).symm, h, rfl, .refl _⟩
  | cons m files ih =>
    cases p with
    | zero => exact ⟨v, s, rfl, (List.append_nil _).symm, h, hcheck, .refl _⟩
    | succ p =>
      rw [checkFiles, Option.any_eq_true] at hcheck
      obtain ⟨s₁, hs₁, hrest⟩ := hcheck
      obtain ⟨v₁, hrun₁, happlied₁, hat₁, hkept₁⟩ := file_run h hs₁ now
      obtain ⟨v', s', hrun, happlied, hat, hleft, hkept⟩ :=
        ih hat₁ hrest p (fun n => now (n + m.steps.length))
      refine ⟨v', s', ?_, ?_, hat, hleft, hkept₁.trans hkept⟩
      · rw [List.take_succ_cons, List.flatMap_cons, runSteps_append, hrun₁, Option.bind_some, hrun]
      · rw [happlied, happlied₁, List.append_assoc]
        rfl

/-- A stop in a file, before its marker, and the file again. -/
theorem file_stop (h : AtSchema s v.db) (hcheck : checkScript s m.script = some s') {n : ℕ}
    (hn : n ≤ m.script.length) (now now' : ℕ → String) :
    ∃ v₁, runSteps now (m.steps.take n) v = some v₁ ∧ v₁.applied = v.applied ∧
      (Repeatable (openScript (m.steps.take n)) → ∃ v₂,
        runSteps now' m.steps v₁.connect = some v₂ ∧ AtSchema s' v₂.db ∧ Kept v.db v₂.db) ∧
      (¬ Repeatable (openScript (m.steps.take n)) → runSteps now' m.steps v₁.connect = none) := by
  have htake : m.steps.take n = (m.script.take n).map .sql := by
    unfold Migration.steps
    rw [List.take_append_of_le_length (by rw [List.length_map]; exact hn), List.map_take]
  obtain ⟨db₁, hrun, hagain, hraises⟩ := checkScript_stop h hcheck hn now now'
  refine ⟨{ v with db := db₁ }, ?_, rfl, ?_, ?_⟩
  · rw [htake, runSteps_sql, hrun]
    rfl
  · rw [htake, openScript_sql]
    intro hrep
    obtain ⟨db₂, hrun₂, hat, hkept⟩ := hagain hrep
    refine ⟨{ db := db₂, applied := v.applied ++ [m.name] }, ?_, hat, hkept⟩
    unfold Migration.steps
    rw [runSteps_append, runSteps_sql]
    change ((Library.Sql.run now' m.script (reconnect db₁)).map _).bind _ = _
    rw [hrun₂]
    rfl
  · rw [htake, openScript_sql]
    intro hrep
    unfold Migration.steps
    rw [runSteps_append, runSteps_sql]
    change ((Library.Sql.run now' m.script (reconnect db₁)).map _).bind _ = _
    rw [hraises hrep]
    rfl

/-- A stop anywhere in the files, and those that have no marker, from the first on. -/
theorem files_stop (h : AtSchema s v.db) (hcheck : checkFiles s files = true) (n : ℕ)
    (now now' : ℕ → String) :
    ∃ v₁ q, runSteps now ((files.flatMap Migration.steps).take n) v = some v₁ ∧
      v₁.applied = v.applied ++ (files.take q).map (·.name) ∧
      (Repeatable (openScript ((files.flatMap Migration.steps).take n)) → ∃ v₂,
        runSteps now' ((files.drop q).flatMap Migration.steps) v₁.connect = some v₂ ∧
          Kept v.db v₂.db) ∧
      (¬ Repeatable (openScript ((files.flatMap Migration.steps).take n)) →
        runSteps now' ((files.drop q).flatMap Migration.steps) v₁.connect = none) := by
  induction files generalizing s v n now with
  | nil =>
    rw [List.flatMap_nil, List.take_nil]
    refine ⟨v, 0, rfl, (List.append_nil _).symm, fun _ => ?_, fun hnot => ?_⟩
    · exact ⟨v.connect, rfl, .refl _⟩
    · exact absurd ⟨rfl, rfl⟩ hnot
  | cons m files ih =>
    rw [checkFiles, Option.any_eq_true] at hcheck
    obtain ⟨s₁, hs₁, hrest⟩ := hcheck
    rw [List.flatMap_cons]
    by_cases hn : n ≤ m.script.length
    · have htake : (m.steps ++ files.flatMap Migration.steps).take n = m.steps.take n := by
        apply List.take_append_of_le_length
        simp only [Migration.steps, List.length_append, List.length_map]
        omega
      obtain ⟨v₁, hrun₁, happlied, hagain, hraises⟩ := file_stop h hs₁ hn now now'
      refine ⟨v₁, 0, by rw [htake, hrun₁], by simpa using happlied, ?_, ?_⟩
      · rw [htake, List.drop_zero, List.flatMap_cons, runSteps_append]
        intro hrep
        obtain ⟨v₂, hrun₂, hat₂, hkept₂⟩ := hagain hrep
        obtain ⟨v₃, s₃, hrun₃, -, -, -, hkept₃⟩ := files_run hat₂ hrest files.length
          fun k => now' (k + m.steps.length)
        rw [List.take_length] at hrun₃
        refine ⟨v₃, ?_, hkept₂.trans hkept₃⟩
        rw [hrun₂, Option.bind_some, hrun₃]
      · rw [htake, List.drop_zero, List.flatMap_cons, runSteps_append]
        intro hrep
        rw [hraises hrep, Option.bind_none]
    · -- the file has its marker, and the stop is in a later one
      obtain ⟨v₁, hrun₁, happlied₁, hat₁, hkept₁⟩ := file_run h hs₁ now
      obtain ⟨v₂, q, hrun₂, happlied₂, hagain, hraises⟩ :=
        ih hat₁ hrest (n - m.steps.length) fun k => now (k + m.steps.length)
      have htake : (m.steps ++ files.flatMap Migration.steps).take n =
          m.steps ++ (files.flatMap Migration.steps).take (n - m.steps.length) := by
        rw [List.take_append, List.take_of_length_le]
        simp only [Migration.steps, List.length_append, List.length_map, List.length_singleton]
        omega
      rw [htake, openScript_file]
      refine ⟨v₂, q + 1, ?_, ?_, fun hrep => ?_, hraises⟩
      · rw [runSteps_append, hrun₁, Option.bind_some, hrun₂]
      · rw [happlied₂, happlied₁, List.append_assoc]
        rfl
      · obtain ⟨v₃, hrun₃, hkept₃⟩ := hagain hrep
        exact ⟨v₃, hrun₃, hkept₁.trans hkept₃⟩

/-- The files that are not named among the first are those after them. -/
theorem filter_not_applied (hnodup : (files.map (·.name)).Nodup) (p : ℕ) :
    files.filter (fun m => !((files.take p).map (·.name)).contains m.name) = files.drop p := by
  have hnames : (files.take p).map (·.name) ++ (files.drop p).map (·.name) =
      files.map (·.name) := by rw [← List.map_append, List.take_append_drop]
  rw [← hnames] at hnodup
  obtain ⟨-, -, hapart⟩ := List.nodup_append.mp hnodup
  generalize hfirst : (files.take p).map (·.name) = first at hapart
  have htaken : (files.take p).filter (fun m => !first.contains m.name) = [] := by
    apply List.filter_eq_nil_iff.mpr
    intro m hm
    have hmem : m.name ∈ first := hfirst ▸ List.mem_map_of_mem hm
    simpa using hmem
  have hleft : (files.drop p).filter (fun m => !first.contains m.name) = files.drop p := by
    apply List.filter_eq_self.mpr
    intro m hm
    have hnot : m.name ∉ first := fun hmem => hapart _ hmem _ (List.mem_map_of_mem hm) rfl
    simpa using hnot
  calc files.filter (fun m => !first.contains m.name)
      = (files.take p ++ files.drop p).filter (fun m => !first.contains m.name) := by
        rw [List.take_append_drop]
    _ = files.drop p := by rw [List.filter_append, htaken, hleft, List.nil_append]

end files

/-! ## Every database the migrations produced -/

/-- No two migrations have one name. -/
theorem nodup_names : (migrations.map (·.name)).Nodup := by decide

/-- What is pending when the first files are applied. -/
theorem pendingSteps_take (p : ℕ) :
    pendingSteps ((migrations.take p).map (·.name)) =
      (migrations.drop p).flatMap Migration.steps := by
  unfold pendingSteps
  rw [filter_not_applied nodup_names]

/-- A database that the first `p` migrations produced, with any rows that it can hold. -/
def Produced (p : ℕ) (v : Vault) : Prop :=
  v.db.Valid ∧ ∃ now v₀,
    runSteps now ((migrations.take p).flatMap Migration.steps) Vault.empty = some v₀ ∧
      v.db.tables = v₀.db.tables ∧ v.applied = v₀.applied

/-- The empty database has the empty schema. -/
theorem atSchema_empty : AtSchema [] Vault.empty.db where
  tables := rfl
  foreignKeys := rfl
  valid := fun _ _ h => by cases h

/-- A produced database has the schema of its files. -/
theorem Produced.atSchema {p : ℕ} {v : Vault} (h : Produced p v) :
    v.applied = (migrations.take p).map (·.name) ∧
      ∃ s, AtSchema s v.connect.db ∧ checkFiles s (migrations.drop p) = true := by
  obtain ⟨hvalid, now, v₀, hrun, htables, happlied⟩ := h
  obtain ⟨v₁, s, hrun₁, happlied₁, hat, hcheck, -⟩ :=
    files_run atSchema_empty checkFiles_migrations p now
  obtain rfl : v₀ = v₁ := Option.some.inj (hrun.symm.trans hrun₁)
  refine ⟨happlied.trans happlied₁, s, ⟨htables.trans hat.tables, rfl, hvalid⟩, hcheck⟩

/-- After a stop at any point, `init` completes and has every row that there was before, exactly
when the file that was left open is `Repeatable` as far as it was executed. -/
theorem restart_keeps_iff {p : ℕ} {v : Vault} (h : Produced p v) (now now' : ℕ → String)
    (n : ℕ) :
    ∃ v₁, interruptedInit now n v = some v₁ ∧
      ((∃ v₂, init now' v₁ = some v₂ ∧ Kept v.db v₂.db) ↔
        Repeatable (openScript ((pendingSteps v.applied).take n))) := by
  obtain ⟨happlied, s, hat, hcheck⟩ := h.atSchema
  have hpending : pendingSteps v.applied = (migrations.drop p).flatMap Migration.steps := by
    rw [happlied, pendingSteps_take]
  obtain ⟨v₁, q, hrun, happlied₁, hagain, hraises⟩ := files_stop hat hcheck n now now'
  have hpending₁ : pendingSteps v₁.applied =
      ((migrations.drop p).drop q).flatMap Migration.steps := by
    have hnames : v₁.applied = (migrations.take (p + q)).map (·.name) := by
      rw [happlied₁, List.take_add, List.map_append, ← happlied]
      rfl
    rw [hnames, pendingSteps_take, List.drop_drop]
  unfold interruptedInit init
  rw [hpending]
  refine ⟨v₁, hrun, ?_⟩
  rw [hpending₁]
  constructor
  · rintro ⟨v₂, hrun₂, -⟩
    by_contra hrep
    rw [hraises hrep] at hrun₂
    cases hrun₂
  · exact hagain

/-! ## A campaign in the rebuild of 0014 -/

/-- A vault of the first thirteen files, with one campaign. -/
def campaignVault : Vault :=
  let v := (runSteps (fun _ => "") ((migrations.take 13).flatMap Migration.steps) .empty).getD
    .empty
  { v with db := { v.db with
      rows := Function.update v.db.rows "campaigns" [fun c =>
        ([("id", .int 1), ("name", .text "June"), ("template_id", .int 1),
          ("kind", .text "promotional"), ("status", .text "draft")].lookup c).getD (.int 0)] } }

/-- A database is valid when each table accepts its rows. -/
theorem valid_of_tables {db : Database}
    (h : ∀ q ∈ db.tables, q.2.Accepts (db.rows q.1)) : db.Valid :=
  fun name t ht => h (name, t) (find?_mem ht)

/-- The example is produced by the first thirteen files. -/
private theorem campaignVault_produced : Produced 13 campaignVault := by
  refine ⟨valid_of_tables (by decide +kernel), fun _ => "", ?_⟩
  have hrun : (runSteps (fun _ => "") ((migrations.take 13).flatMap Migration.steps)
      Vault.empty).isSome = true := by decide +kernel
  obtain ⟨v₀, hv₀⟩ := Option.isSome_iff_exists.mp hrun
  refine ⟨v₀, hv₀, ?_, ?_⟩ <;> unfold campaignVault <;> rw [hv₀] <;> rfl

/-- A stop after the rows were copied, and before the old table is dropped. -/
theorem restart_keeps_iff_copied : Produced 13 campaignVault ∧
    ∃ v₁, interruptedInit (fun _ => "") 4 campaignVault = some v₁ ∧
      ∃ v₂, init (fun _ => "") v₁ = some v₂ ∧ Kept campaignVault.db v₂.db := by
  obtain ⟨v₁, hrun, hiff⟩ :=
    restart_keeps_iff campaignVault_produced (fun _ => "") (fun _ => "") 4
  exact ⟨campaignVault_produced, v₁, hrun, hiff.mpr (by decide +kernel)⟩

/-- A stop after the old table is dropped: the next `init` drops the copy, which is all that is
left, and raises. -/
theorem rebuild_loses_campaign : Produced 13 campaignVault ∧
    ∃ v₁, interruptedInit (fun _ => "") 5 campaignVault = some v₁ ∧ init (fun _ => "") v₁ = none ∧
      ∃ v₂, interruptedInit (fun _ => "") 2 v₁ = some v₂ ∧
        ∀ q ∈ v₂.db.tables, v₂.db.rows q.1 = [] := by
  have hstop : (interruptedInit (fun _ => "") 5 campaignVault).any (fun v₁ =>
      (init (fun _ => "") v₁).isNone && (interruptedInit (fun _ => "") 2 v₁).any fun v₂ =>
        decide (∀ q ∈ v₂.db.tables, v₂.db.rows q.1 = [])) = true := by decide +kernel
  rw [Option.any_eq_true] at hstop
  obtain ⟨v₁, hrun₁, hafter⟩ := hstop
  rw [Bool.and_eq_true, Option.isNone_iff_eq_none, Option.any_eq_true] at hafter
  obtain ⟨hraises, v₂, hrun₂, hrows⟩ := hafter
  exact ⟨campaignVault_produced, v₁, hrun₁, hraises, v₂, hrun₂, of_decide_eq_true hrows⟩

end Mailman.Analysis
