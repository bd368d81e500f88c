import Mathlib.Data.Int.Notation
import Mathlib.Data.Nat.Notation
import Mathlib.Logic.Function.Basic

/-!
# Scripts of a relational database

The statements that a schema is migrated with, run one after the other, each on its own. A
statement fails on the schema (`reshape`) or, for a copy of rows, on a constraint. What a script
does to the schema, to which tables are empty, and to where the rows of a start are found, does
not depend on the rows: `forecast` works it out from the schema alone, and is right about every
database of that schema whose rows meet its constraints.

Foreign keys are not kept: a drop and a copy, which consult them, are refused while they are
enforced. An index is not kept either: none is unique here.
-/

set_option autoImplicit false

namespace Mailman.Library.Sql

/-! ## Tables -/

inductive Value where
  | null
  | int (n : ℤ)
  | real (text : String)
  | text (s : String)
  | blob (bytes : List UInt8)
  deriving DecidableEq, Repr

/-- The default of a column: a value, or the time of the insert. -/
inductive Default where
  | value (v : Value)
  | now
  deriving DecidableEq, Repr

def Default.eval (now : String) : Default → Value
  | .value v => v
  | .now => .text now

/-- A column, with `NOT NULL` and `CHECK (c IN (...))`. -/
structure Column where
  name : String
  notNull : Bool := false
  default : Default := .value .null
  oneOf : Option (List String) := none
  deriving DecidableEq, Repr

/-- A table; `PRIMARY KEY` and `UNIQUE` are keys. -/
structure Table where
  columns : List Column
  keys : List (List String) := []
  deriving DecidableEq, Repr

/-- A row gives a value to every name; those that are no column do not count. -/
abbrev Row := String → Value

def Table.hasColumn (t : Table) (c : String) : Bool := t.columns.any (·.name = c)

/-- A value passes the constraints of a column; a check lets NULL pass. -/
def Column.Accepts (c : Column) (v : Value) : Prop :=
  (c.notNull = true → v ≠ .null) ∧
    ∀ l ∈ c.oneOf, v = .null ∨ ∃ s ∈ l, v = .text s

instance (c : Column) (v : Value) : Decidable (c.Accepts v) :=
  inferInstanceAs (Decidable (_ ∧ _))

/-- Two rows have the same key, without a NULL in it. -/
def Clash (key : List String) (r r' : Row) : Prop := ∀ c ∈ key, r c ≠ .null ∧ r c = r' c

instance (key : List String) (r r' : Row) : Decidable (Clash key r r') :=
  inferInstanceAs (Decidable (∀ _ ∈ key, _))

/-- The rows of a table meet its constraints. -/
structure Table.Accepts (t : Table) (rows : List Row) : Prop where
  columns : ∀ r ∈ rows, ∀ c ∈ t.columns, c.Accepts (r c.name)
  keys : rows.Pairwise fun r r' => ∀ key ∈ t.keys, ¬ Clash key r r'

instance (t : Table) (rows : List Row) : Decidable (t.Accepts rows) :=
  decidable_of_iff ((∀ r ∈ rows, ∀ c ∈ t.columns, c.Accepts (r c.name)) ∧
    rows.Pairwise fun r r' => ∀ key ∈ t.keys, ¬ Clash key r r')
    ⟨fun h => ⟨h.1, h.2⟩, fun h => ⟨h.columns, h.keys⟩⟩

/-- The columns of a database, table by table. -/
abbrev Schema := List (String × Table)

def Schema.find? : Schema → String → Option Table
  | [], _ => none
  | (n, t) :: s, name => if n = name then some t else Schema.find? s name

/-- The table of a name replaced by another. -/
def Schema.set (s : Schema) (name : String) (t : Table) : Schema :=
  s.map fun p => if p.1 = name then (name, t) else p

/-- The table of one name under another. -/
def Schema.rename (s : Schema) (a b : String) : Schema :=
  s.map fun p => if p.1 = a then (b, p.2) else p

structure Database where
  tables : Schema
  rows : String → List Row
  foreignKeys : Bool

/-- Every table's rows meet its constraints. -/
def Database.Valid (db : Database) : Prop :=
  ∀ name t, db.tables.find? name = some t → t.Accepts (db.rows name)

/-! ## Statements -/

inductive Stmt where
  | createTable (ifNotExists : Bool) (name : String) (t : Table)
  | createIndex (table : String) (columns : List String)
  | addColumn (table : String) (c : Column)
  | renameTable (table name : String)
  | renameColumn (table column name : String)
  | dropTable (ifExists : Bool) (name : String)
  | copyRows (target : String) (columns : List String) (source : String)
  | insertOrIgnore (table : String) (values : List (String × Value))
  | foreignKeys (on : Bool)
  | journalMode
  deriving DecidableEq, Repr

/-- `RENAME COLUMN` of one name. -/
def renameTo (a b c : String) : String := if c = a then b else c

def Table.renameColumn (t : Table) (a b : String) : Table :=
  { columns := t.columns.map fun c => { c with name := renameTo a b c.name }
    keys := t.keys.map fun key => key.map (renameTo a b) }

/-- The value a column gets when none is given. -/
def Table.defaultOf (t : Table) (now c : String) : Value :=
  ((t.columns.find? (·.name = c)).map (·.default.eval now)).getD .null

namespace Stmt

/-- The schema after a statement, or a failure. -/
def reshape (enforced : Bool) (s : Schema) : Stmt → Option Schema
  | createTable ifNotExists name t =>
    if (s.find? name).isSome then (if ifNotExists then some s else none) else some (s ++ [(name, t)])
  | createIndex table columns =>
    (s.find? table).bind fun t => if columns.all t.hasColumn then some s else none
  | addColumn table c => (s.find? table).bind fun t =>
    if t.hasColumn c.name || (c.notNull && c.default = .value .null) || c.default = .now then none
    else some (s.set table { t with columns := t.columns ++ [c] })
  | renameTable table name =>
    if (s.find? table).isSome && (s.find? name).isNone then
      some (s.rename table name)
    else none
  | renameColumn table column name => (s.find? table).bind fun t =>
    if t.hasColumn column && !t.hasColumn name then some (s.set table (t.renameColumn column name))
    else none
  | dropTable ifExists name =>
    if (s.find? name).isNone then (if ifExists then some s else none)
    else if enforced then none else some (s.filter (·.1 ≠ name))
  | copyRows target columns source => (s.find? target).bind fun t => (s.find? source).bind fun u =>
    if enforced || !(columns.all t.hasColumn && columns.all u.hasColumn) then none else some s
  | insertOrIgnore table values => (s.find? table).bind fun t =>
    if values.all (t.hasColumn ·.1) then some s else none
  | foreignKeys _ => some s
  | journalMode => some s

/-- The rows after a statement that fits the schema; a copy may fail on a constraint. -/
def refill (now : String) (s : Schema) (rows : String → List Row) :
    Stmt → Option (String → List Row)
  | createTable _ name _ =>
    if (s.find? name).isSome then some rows else some (Function.update rows name [])
  | addColumn table c =>
    some (Function.update rows table
      ((rows table).map fun r => Function.update r c.name (c.default.eval now)))
  | renameTable table name =>
    some (Function.update (Function.update rows name (rows table)) table [])
  | renameColumn table column name =>
    some (Function.update rows table
      ((rows table).map fun r => Function.update (Function.update r name (r column)) column .null))
  | dropTable _ name => some (Function.update rows name [])
  | copyRows target columns source => (s.find? target).bind fun t =>
    let copied : List Row := (rows source).map fun r c =>
      if columns.contains c then r c else t.defaultOf now c
    if t.Accepts (rows target ++ copied) then
      some (Function.update rows target (rows target ++ copied))
    else none
  | insertOrIgnore table values => (s.find? table).bind fun t =>
    let row : Row := fun c => (values.lookup c).getD (t.defaultOf now c)
    if t.Accepts (rows table ++ [row]) then
      some (Function.update rows table (rows table ++ [row]))
    else some rows
  | createIndex .. => some rows
  | foreignKeys _ => some rows
  | journalMode => some rows

/-- Whether foreign keys are enforced after a statement. -/
def enforces (enforced : Bool) : Stmt → Bool
  | foreignKeys on => on
  | _ => enforced

/-- One statement, at the given time. -/
def exec (now : String) (s : Stmt) (db : Database) : Option Database :=
  (s.reshape db.foreignKeys db.tables).bind fun tables =>
    (s.refill now db.tables db.rows).map fun rows =>
      { tables, rows, foreignKeys := s.enforces db.foreignKeys }

end Stmt

/-- A script: statement after statement, each at its own time, up to the first that fails. -/
def run (now : ℕ → String) : List Stmt → Database → Option Database
  | [], db => some db
  | s :: script, db => (s.exec (now 0) db).bind (run (fun n => now (n + 1)) script)

/-! ## What is known without the rows -/

/-- The rows that a table had at the start are found in a table, with a name for each column
there was and one it has now. -/
structure Place where
  origin : String
  table : String
  columns : List (String × String)
  deriving DecidableEq, Repr

def Place.Holds (p : Place) (start rows : String → List Row) : Prop :=
  ∀ r ∈ start p.origin, ∃ r' ∈ rows p.table, ∀ c ∈ p.columns, r' c.2 = r c.1

/-- A schema, the tables known to be empty, and where the rows of the start are. -/
structure Sketch where
  tables : Schema
  foreignKeys : Bool
  empty : List String
  places : List Place
  deriving DecidableEq, Repr

structure Sketch.Describes (k : Sketch) (start : String → List Row) (db : Database) : Prop where
  tables : db.tables = k.tables
  foreignKeys : db.foreignKeys = k.foreignKeys
  valid : db.Valid
  empty : ∀ name ∈ k.empty, db.rows name = []
  places : ∀ p ∈ k.places, p.Holds start db.rows

/-- Every row of `u` meets the constraints of `t` when only the columns are copied. -/
def feeds (t u : Table) (columns : List String) : Bool :=
  t.columns.all (fun c => columns.contains c.name && u.columns.any fun d =>
    d.name = c.name && (!c.notNull || d.notNull) &&
      c.oneOf.all fun l => d.oneOf.any fun l' => l'.all l.contains) &&
  t.keys.all fun key => u.keys.contains key && key.all columns.contains

namespace Stmt

/-- The statement keeps the rows within the constraints, whatever they are. -/
def safe (k : Sketch) : Stmt → Bool
  | addColumn table c => (k.tables.find? table).all fun t =>
    decide (c.Accepts (c.default.eval "")) && t.keys.all fun key => !key.contains c.name
  | renameColumn table _ name => (k.tables.find? table).all fun t =>
    t.keys.all fun key => !key.contains name
  | copyRows target columns source => k.empty.contains target &&
    (k.tables.find? target).any fun t => (k.tables.find? source).any fun u => feeds t u columns
  | _ => true

/-- The tables that are known to be empty after a statement. -/
def empties (k : Sketch) : Stmt → List String
  | createTable _ name _ => if (k.tables.find? name).isSome then k.empty else name :: k.empty
  | renameTable table name =>
    (k.empty.filter (· ≠ name)).map fun n => if n = table then name else n
  | copyRows target _ _ => k.empty.filter (· ≠ target)
  | insertOrIgnore table _ => k.empty.filter (· ≠ table)
  | _ => k.empty

/-- Where the rows of the start are after a statement. -/
def moves (k : Sketch) : Stmt → List Place
  | createTable _ name _ =>
    if (k.tables.find? name).isSome then k.places else k.places.filter (·.table ≠ name)
  | addColumn table c => k.places.map fun p =>
    if p.table = table then { p with columns := p.columns.filter (·.2 ≠ c.name) } else p
  | renameTable table name => (k.places.filter (·.table ≠ name)).map fun p =>
    if p.table = table then { p with table := name } else p
  | renameColumn table a b => k.places.map fun p =>
    if p.table = table then
      { p with columns := (p.columns.filter (·.2 ≠ b)).map fun c => (c.1, renameTo a b c.2) }
    else p
  | dropTable _ name => k.places.filter (·.table ≠ name)
  | copyRows target columns source => k.places ++ (k.places.filter (·.table = source)).map fun p =>
    { p with table := target, columns := p.columns.filter (columns.contains ·.2) }
  | _ => k.places

end Stmt

/-- The sketch after a statement that gives the schema. -/
def Sketch.after (k : Sketch) (s : Stmt) (tables : Schema) : Sketch where
  tables := tables
  foreignKeys := s.enforces k.foreignKeys
  empty := s.empties k
  places := s.moves k

/-- What becomes of a script: it ends, it fails at some statement, or that depends on rows. -/
inductive Forecast where
  | ends (k : Sketch)
  | fails
  | depends
  deriving DecidableEq, Repr

def forecast : List Stmt → Sketch → Forecast
  | [], k => .ends k
  | s :: script, k =>
    match s.reshape k.foreignKeys k.tables with
    | none => .fails
    | some tables => if s.safe k then forecast script (k.after s tables) else .depends

/-! ## Schemas -/

section schema

variable {s : Schema} {a b name : String} {t : Table}

/-- A table that is put last is found where no other of its name is. -/
theorem find?_append_singleton : Schema.find? (s ++ [(a, t)]) name =
    (s.find? name).or (if a = name then some t else none) := by
  induction s with
  | nil => rfl
  | cons p s ih =>
    rw [List.cons_append, Schema.find?, Schema.find?]
    split
    · rfl
    · exact ih

/-- A table that is set is found if one of its name was there. -/
theorem find?_set : (s.set a t).find? name =
    if a = name then (s.find? name).map fun _ => t else s.find? name := by
  induction s with
  | nil => simp [Schema.set, Schema.find?]
  | cons p s ih =>
    unfold Schema.set at ih ⊢
    rw [List.map_cons]
    by_cases hp : p.1 = a <;> grind [Schema.find?]

/-- A table that is taken out is not found. -/
theorem find?_filter_ne : Schema.find? (s.filter (·.1 ≠ a)) name =
    if name = a then none else s.find? name := by
  induction s with
  | nil => simp [Schema.find?]
  | cons p s ih =>
    rw [List.filter_cons]
    by_cases hp : p.1 = a <;> grind [Schema.find?]

/-- A renamed table is found under its new name only. -/
theorem find?_rename (hb : s.find? b = none) : (s.rename a b).find? name =
    if name = b then s.find? a else if name = a then none else s.find? name := by
  induction s with
  | nil => simp [Schema.rename, Schema.find?]
  | cons p s ih =>
    unfold Schema.rename at ih ⊢
    rw [List.map_cons]
    by_cases hp : p.1 = a <;> grind [Schema.find?]

end schema

/-! ## Rows -/

section rows

variable {t u : Table} {rows : List Row} {f : Row → Row}

/-- A table accepts no rows. -/
theorem Table.accepts_nil (t : Table) : t.Accepts [] := ⟨by simp, .nil⟩

/-- Rows that are changed one by one. -/
theorem Table.Accepts.map (h : t.Accepts rows)
    (hcolumns : ∀ r ∈ rows, ∀ c ∈ u.columns, c.Accepts (f r c.name))
    (hkeys : ∀ key ∈ u.keys, ∀ r r', Clash key (f r) (f r') → ∃ key' ∈ t.keys, Clash key' r r') :
    u.Accepts (rows.map f) := by
  constructor
  · intro r hr c hc
    obtain ⟨r₀, hr₀, rfl⟩ := List.mem_map.mp hr
    exact hcolumns r₀ hr₀ c hc
  · rw [List.pairwise_map]
    apply h.keys.imp
    intro r r' hkey key hmem hclash
    obtain ⟨key', hmem', hclash'⟩ := hkeys key hmem r r' hclash
    exact hkey key' hmem' hclash'

/-- A key that does not hold a column does not see it. -/
theorem Clash.of_eqOn {key : List String} {q q' r r' : Row} (h : Clash key q q')
    (hq : ∀ c ∈ key, q c = r c) (hq' : ∀ c ∈ key, q' c = r' c) : Clash key r r' := by
  intro c hc
  rw [← hq c hc, ← hq' c hc]
  exact h c hc

/-- Rows with an accepted value in a new column are accepted. -/
theorem Table.Accepts.addColumn {c : Column} {v : Value} (h : t.Accepts rows)
    (hnew : t.hasColumn c.name = false) (hv : c.Accepts v)
    (hkeys : ∀ key ∈ t.keys, c.name ∉ key) :
    Table.Accepts { t with columns := t.columns ++ [c] }
      (rows.map fun r => Function.update r c.name v) := by
  apply h.map
  · intro r hr d hd
    cases List.mem_append.mp hd with
    | inl hold =>
      have hne : d.name ≠ c.name := by
        intro heq
        have hhas : t.hasColumn c.name = true := List.any_eq_true.mpr ⟨d, hold, by simp [heq]⟩
        simp [hnew] at hhas
      rw [Function.update_of_ne hne]
      exact h.columns r hr d hold
    | inr hlast =>
      rw [List.mem_singleton.mp hlast, Function.update_self]
      exact hv
  · intro key hkey r r' hclash
    have hne : ∀ d ∈ key, d ≠ c.name := fun d hd heq => hkeys key hkey (heq ▸ hd)
    exact ⟨key, hkey, hclash.of_eqOn (fun d hd => Function.update_of_ne (hne d hd) ..)
      fun d hd => Function.update_of_ne (hne d hd) ..⟩

/-- What a renamed column holds is what it held. -/
theorem update_renameTo {r : Row} {a b c : String} (hab : a ≠ b) (hc : c ≠ b) :
    Function.update (Function.update r b (r a)) a .null (renameTo a b c) = r c := by
  unfold renameTo
  by_cases h : c = a
  · rw [if_pos h, Function.update_of_ne hab.symm, Function.update_self, h]
  · rw [if_neg h, Function.update_of_ne h, Function.update_of_ne hc]

/-- Rows are accepted under the new name of a column. -/
theorem Table.Accepts.renameColumn {a b : String} (h : t.Accepts rows)
    (ha : t.hasColumn a = true) (hb : t.hasColumn b = false) (hkeys : ∀ key ∈ t.keys, b ∉ key) :
    (t.renameColumn a b).Accepts
      (rows.map fun r => Function.update (Function.update r b (r a)) a .null) := by
  have hab : a ≠ b := by
    rintro rfl
    simp [ha] at hb
  apply h.map
  · intro r hr c hc
    obtain ⟨d, hd, rfl⟩ := List.mem_map.mp hc
    have hdb : d.name ≠ b := by
      intro heq
      have hhas : t.hasColumn b = true := List.any_eq_true.mpr ⟨d, hd, by simp [heq]⟩
      simp [hb] at hhas
    dsimp only
    rw [update_renameTo hab hdb]
    exact h.columns r hr d hd
  · intro key hkey r r' hclash
    obtain ⟨key₀, hkey₀, rfl⟩ := List.mem_map.mp hkey
    refine ⟨key₀, hkey₀, fun c hc => ?_⟩
    have hcb : c ≠ b := fun heq => hkeys key₀ hkey₀ (heq ▸ hc)
    have hcol := hclash (renameTo a b c) (List.mem_map_of_mem hc)
    rw [update_renameTo hab hcb, update_renameTo hab hcb] at hcol
    exact hcol

/-- What `feeds` promises of a copy. -/
theorem Table.Accepts.copy {columns : List String} {g : String → Value}
    (h : u.Accepts rows) (hfeeds : feeds t u columns = true) :
    t.Accepts (rows.map fun r c => if columns.contains c then r c else g c) := by
  unfold feeds at hfeeds
  rw [Bool.and_eq_true, List.all_eq_true, List.all_eq_true] at hfeeds
  apply h.map
  · intro r hr c hc
    have hcolumn := hfeeds.1 c hc
    rw [Bool.and_eq_true, List.any_eq_true] at hcolumn
    obtain ⟨hcopied, d, hd, hd'⟩ := hcolumn
    simp only [Bool.and_eq_true, decide_eq_true_eq, Bool.or_eq_true, Bool.not_eq_true'] at hd'
    obtain ⟨⟨hname, hnull⟩, hcheck⟩ := hd'
    have hold := h.columns r hr d hd
    rw [if_pos hcopied, ← hname]
    constructor
    · intro hc'
      apply hold.1
      cases hnull with
      | inl hfalse => rw [hc'] at hfalse; cases hfalse
      | inr htrue => exact htrue
    · intro l hl
      rw [Option.mem_def] at hl
      rw [hl, Option.all_some, Option.any_eq_true] at hcheck
      obtain ⟨l', hl', hsub⟩ := hcheck
      cases hold.2 l' hl' with
      | inl hn => exact .inl hn
      | inr htext =>
        obtain ⟨s, hs, hv⟩ := htext
        have hmem := List.all_eq_true.mp hsub s hs
        exact .inr ⟨s, by simpa using hmem, hv⟩
  · intro key hkey r r' hclash
    have hkey' := hfeeds.2 key hkey
    rw [Bool.and_eq_true, List.all_eq_true] at hkey'
    exact ⟨key, by simpa using hkey'.1, hclash.of_eqOn (fun c hc => if_pos (hkey'.2 c hc))
      fun c hc => if_pos (hkey'.2 c hc)⟩

end rows

/-! ## A sketch stays right -/

section describes

variable {k : Sketch} {start : String → List Row} {db : Database} {now : String}
  {tables : Schema} {s : Stmt}

/-- What a place holds depends on its table alone. -/
theorem Place.Holds.congr {p : Place} {rows rows' : String → List Row} (h : p.Holds start rows)
    (heq : rows' p.table = rows p.table) : p.Holds start rows' := by
  unfold Place.Holds
  rw [heq]
  exact h

/-- A statement with these rows after it. -/
theorem Sketch.Describes.of_rows (h : k.Describes start db)
    (hshape : s.reshape k.foreignKeys k.tables = some tables) {rows : String → List Row}
    (hrows : s.refill now k.tables db.rows = some rows)
    (hvalid : ∀ name t, tables.find? name = some t → t.Accepts (rows name))
    (hempty : ∀ name ∈ s.empties k, rows name = [])
    (hplaces : ∀ p ∈ s.moves k, p.Holds start rows) :
    ∃ db', s.exec now db = some db' ∧ (k.after s tables).Describes start db' := by
  refine ⟨⟨tables, rows, s.enforces db.foreignKeys⟩, ?_, rfl, ?_, hvalid, hempty, hplaces⟩
  · unfold Stmt.exec
    rw [h.foreignKeys, h.tables, hshape, Option.bind_some, hrows, Option.map_some]
  · exact congrArg s.enforces h.foreignKeys

/-- A statement that changes nothing. -/
theorem Sketch.Describes.same (h : k.Describes start db)
    (hshape : s.reshape k.foreignKeys k.tables = some k.tables)
    (hrows : s.refill now k.tables db.rows = some db.rows) (hempty : s.empties k = k.empty)
    (hplaces : s.moves k = k.places) :
    ∃ db', s.exec now db = some db' ∧ (k.after s k.tables).Describes start db' := by
  apply h.of_rows hshape hrows
  · intro name t ht
    exact h.valid name t (h.tables ▸ ht)
  · rw [hempty]
    exact h.empty
  · rw [hplaces]
    exact h.places

/-- The rows of a described table are accepted. -/
theorem Sketch.Describes.valid_at (h : k.Describes start db) {name : String} {t : Table}
    (ht : k.tables.find? name = some t) : t.Accepts (db.rows name) :=
  h.valid name t (h.tables ▸ ht)

/-- A created table is described. -/
theorem describes_createTable (h : k.Describes start db) {ifNotExists : Bool} {name : String}
    {t : Table}
    (hshape : (Stmt.createTable ifNotExists name t).reshape k.foreignKeys k.tables = some tables) :
    ∃ db', (Stmt.createTable ifNotExists name t).exec now db = some db' ∧
      (k.after (.createTable ifNotExists name t) tables).Describes start db' := by
  cases hfind : k.tables.find? name with
  | some u =>
    have htables : tables = k.tables := by
      cases ifNotExists <;> simp [Stmt.reshape, hfind] at hshape
      exact hshape.symm
    rw [htables] at hshape ⊢
    apply h.same hshape <;> simp [Stmt.refill, Stmt.empties, Stmt.moves, hfind]
  | none =>
    have htables : tables = k.tables ++ [(name, t)] := by
      simpa [Stmt.reshape, hfind] using hshape.symm
    have hrows : (Stmt.createTable ifNotExists name t).refill now k.tables db.rows =
        some (Function.update db.rows name []) := by simp [Stmt.refill, hfind]
    apply h.of_rows hshape hrows
    · intro n u hu
      rw [htables, find?_append_singleton] at hu
      by_cases hn : n = name
      · subst hn
        rw [hfind, Option.none_or, if_pos rfl] at hu
        cases hu
        rw [Function.update_self]
        exact t.accepts_nil
      · rw [if_neg fun heq => hn heq.symm, Option.or_none] at hu
        rw [Function.update_of_ne hn]
        exact h.valid_at hu
    · intro n hn
      by_cases heq : n = name
      · rw [heq, Function.update_self]
      · rw [Function.update_of_ne heq]
        have hmem : n ∈ k.empty := by simpa [Stmt.empties, hfind, heq] using hn
        exact h.empty n hmem
    · intro p hp
      have hmem : p ∈ k.places ∧ p.table ≠ name := by simpa [Stmt.moves, hfind] using hp
      exact (h.places p hmem.1).congr (Function.update_of_ne hmem.2 ..)

/-- Places in a table whose rows are changed one by one. -/
theorem Place.Holds.map {p : Place} {rows : String → List Row} {f : Row → Row}
    {columns : List (String × String)} (h : p.Holds start rows)
    (hf : ∀ r : Row, ∀ c ∈ columns, ∃ d ∈ p.columns, d.1 = c.1 ∧ f r c.2 = r d.2) :
    Place.Holds { p with columns := columns } start
      (Function.update rows p.table ((rows p.table).map f)) := by
  intro r hr
  obtain ⟨r', hr', hcols⟩ := h r hr
  refine ⟨f r', ?_, fun c hc => ?_⟩
  · rw [Function.update_self]
    exact List.mem_map_of_mem hr'
  · obtain ⟨d, hd, hname, hval⟩ := hf r' c hc
    rw [hval, hcols d hd, hname]

/-- An added column is described. -/
theorem describes_addColumn (h : k.Describes start db) {table : String} {c : Column}
    (hshape : (Stmt.addColumn table c).reshape k.foreignKeys k.tables = some tables)
    (hsafe : (Stmt.addColumn table c).safe k = true) :
    ∃ db', (Stmt.addColumn table c).exec now db = some db' ∧
      (k.after (.addColumn table c) tables).Describes start db' := by
  obtain ⟨t, hfind, hshape'⟩ := Option.bind_eq_some_iff.mp hshape
  split at hshape'
  · cases hshape'
  · next hnew =>
    obtain rfl := Option.some.inj hshape'
    simp only [Bool.or_eq_true, decide_eq_true_eq, not_or] at hnew
    obtain ⟨⟨hcol, -⟩, hnow⟩ := hnew
    have hdefault : c.default.eval now = c.default.eval "" := by
      cases hc : c.default with
      | value v => rfl
      | now => exact absurd hc hnow
    simp only [Stmt.safe, hfind, Option.all_some, Bool.and_eq_true, decide_eq_true_eq,
      List.all_eq_true] at hsafe
    obtain ⟨hv, hkeys⟩ := hsafe
    apply h.of_rows hshape rfl
    · intro n u hu
      rw [find?_set] at hu
      by_cases hn : table = n
      · subst hn
        rw [if_pos rfl, hfind, Option.map_some, Option.some.injEq] at hu
        rw [Function.update_self, ← hu, hdefault]
        exact (h.valid_at hfind).addColumn (by simpa using hcol) hv fun key hkey =>
          by simpa using hkeys key hkey
      · rw [if_neg hn] at hu
        rw [Function.update_of_ne fun heq => hn heq.symm]
        exact h.valid_at hu
    · intro n hn
      by_cases heq : n = table
      · subst heq
        rw [Function.update_self, h.empty n hn, List.map_nil]
      · rw [Function.update_of_ne heq]
        exact h.empty n hn
    · intro p hp
      obtain ⟨q, hq, rfl⟩ := List.mem_map.mp hp
      by_cases heq : q.table = table
      · subst heq
        rw [if_pos rfl]
        apply (h.places q hq).map
        intro r d hd
        rw [List.mem_filter] at hd
        have hne : d.2 ≠ c.name := by simpa using hd.2
        exact ⟨d, hd.1, rfl, Function.update_of_ne hne ..⟩
      · rw [if_neg heq]
        exact (h.places q hq).congr (Function.update_of_ne heq ..)

/-- A renamed column is described. -/
theorem describes_renameColumn (h : k.Describes start db) {table a b : String}
    (hshape : (Stmt.renameColumn table a b).reshape k.foreignKeys k.tables = some tables)
    (hsafe : (Stmt.renameColumn table a b).safe k = true) :
    ∃ db', (Stmt.renameColumn table a b).exec now db = some db' ∧
      (k.after (.renameColumn table a b) tables).Describes start db' := by
  obtain ⟨t, hfind, hshape'⟩ := Option.bind_eq_some_iff.mp hshape
  split at hshape'
  · next hcols =>
    obtain rfl := Option.some.inj hshape'
    rw [Bool.and_eq_true, Bool.not_eq_true'] at hcols
    have hab : a ≠ b := by
      rintro rfl
      simp [hcols.1] at hcols
    simp only [Stmt.safe, hfind, Option.all_some, List.all_eq_true] at hsafe
    apply h.of_rows hshape rfl
    · intro n u hu
      rw [find?_set] at hu
      by_cases hn : table = n
      · subst hn
        rw [if_pos rfl, hfind, Option.map_some, Option.some.injEq] at hu
        rw [Function.update_self, ← hu]
        exact (h.valid_at hfind).renameColumn hcols.1 hcols.2 fun key hkey =>
          by simpa using hsafe key hkey
      · rw [if_neg hn] at hu
        rw [Function.update_of_ne fun heq => hn heq.symm]
        exact h.valid_at hu
    · intro n hn
      by_cases heq : n = table
      · subst heq
        rw [Function.update_self, h.empty n hn, List.map_nil]
      · rw [Function.update_of_ne heq]
        exact h.empty n hn
    · intro p hp
      obtain ⟨q, hq, rfl⟩ := List.mem_map.mp hp
      by_cases heq : q.table = table
      · subst heq
        rw [if_pos rfl]
        apply (h.places q hq).map
        intro r c hc
        obtain ⟨d, hd, rfl⟩ := List.mem_map.mp hc
        rw [List.mem_filter] at hd
        have hdb : d.2 ≠ b := by simpa using hd.2
        exact ⟨d, hd.1, rfl, update_renameTo hab hdb⟩
      · rw [if_neg heq]
        exact (h.places q hq).congr (Function.update_of_ne heq ..)
  · cases hshape'

/-- A renamed table is described. -/
theorem describes_renameTable (h : k.Describes start db) {a b : String}
    (hshape : (Stmt.renameTable a b).reshape k.foreignKeys k.tables = some tables) :
    ∃ db', (Stmt.renameTable a b).exec now db = some db' ∧
      (k.after (.renameTable a b) tables).Describes start db' := by
  have hshape' := hshape
  rw [Stmt.reshape] at hshape'
  split at hshape'
  · next hnames =>
    obtain rfl := Option.some.inj hshape'
    simp only [Bool.and_eq_true, Option.isNone_iff_eq_none] at hnames
    obtain ⟨ha, hb⟩ := hnames
    have hab : a ≠ b := by
      rintro rfl
      simp [hb] at ha
    have hat : Function.update (Function.update db.rows b (db.rows a)) a [] b = db.rows a := by
      rw [Function.update_of_ne hab.symm, Function.update_self]
    have hof : ∀ n, n ≠ a → n ≠ b →
        Function.update (Function.update db.rows b (db.rows a)) a [] n = db.rows n := by
      intro n hna hnb
      rw [Function.update_of_ne hna, Function.update_of_ne hnb]
    apply h.of_rows hshape rfl
    · intro n u hu
      rw [find?_rename hb] at hu
      by_cases hnb : n = b
      · subst hnb
        rw [if_pos rfl] at hu
        rw [hat]
        exact h.valid_at hu
      · rw [if_neg hnb] at hu
        by_cases hna : n = a
        · rw [if_pos hna] at hu
          cases hu
        · rw [if_neg hna] at hu
          rw [hof n hna hnb]
          exact h.valid_at hu
    · intro n hn
      obtain ⟨m, hm, rfl⟩ := List.mem_map.mp hn
      rw [List.mem_filter] at hm
      have hmb : m ≠ b := by simpa using hm.2
      by_cases hma : m = a
      · rw [if_pos hma, hat, ← hma]
        exact h.empty m hm.1
      · rw [if_neg hma, hof m hma hmb]
        exact h.empty m hm.1
    · intro p hp
      obtain ⟨q, hq, rfl⟩ := List.mem_map.mp hp
      rw [List.mem_filter] at hq
      have hqb : q.table ≠ b := by simpa using hq.2
      have hold := h.places q hq.1
      by_cases hqa : q.table = a
      · rw [if_pos hqa]
        unfold Place.Holds at hold ⊢
        dsimp only
        rw [hat, ← hqa]
        exact hold
      · rw [if_neg hqa]
        exact hold.congr (hof _ hqa hqb)
  · cases hshape'

/-- A dropped table is described. -/
theorem describes_dropTable (h : k.Describes start db) {ifExists : Bool} {name : String}
    (hshape : (Stmt.dropTable ifExists name).reshape k.foreignKeys k.tables = some tables) :
    ∃ db', (Stmt.dropTable ifExists name).exec now db = some db' ∧
      (k.after (.dropTable ifExists name) tables).Describes start db' := by
  have hfound : ∀ n u, tables.find? n = some u → n ≠ name ∧ k.tables.find? n = some u := by
    intro n u hu
    rw [Stmt.reshape] at hshape
    split at hshape
    · next hnone =>
      split at hshape
      · obtain rfl := Option.some.inj hshape
        refine ⟨?_, hu⟩
        rintro rfl
        simp [hu] at hnone
      · cases hshape
    · split at hshape
      · cases hshape
      · obtain rfl := Option.some.inj hshape
        rw [find?_filter_ne] at hu
        split at hu
        · cases hu
        · next hne => exact ⟨hne, hu⟩
  apply h.of_rows hshape rfl
  · intro n u hu
    obtain ⟨hne, hu'⟩ := hfound n u hu
    rw [Function.update_of_ne hne]
    exact h.valid_at hu'
  · intro n hn
    by_cases heq : n = name
    · rw [heq, Function.update_self]
    · rw [Function.update_of_ne heq]
      exact h.empty n hn
  · intro p hp
    have hmem : p ∈ k.places ∧ p.table ≠ name := by simpa [Stmt.moves] using hp
    exact (h.places p hmem.1).congr (Function.update_of_ne hmem.2 ..)

/-- An insert that may be ignored is described. -/
theorem describes_insertOrIgnore (h : k.Describes start db) {table : String}
    {values : List (String × Value)}
    (hshape : (Stmt.insertOrIgnore table values).reshape k.foreignKeys k.tables = some tables) :
    ∃ db', (Stmt.insertOrIgnore table values).exec now db = some db' ∧
      (k.after (.insertOrIgnore table values) tables).Describes start db' := by
  obtain ⟨t, hfind, hshape'⟩ := Option.bind_eq_some_iff.mp hshape
  have htables : tables = k.tables := by
    split at hshape'
    · exact (Option.some.inj hshape').symm
    · cases hshape'
  have hempty : ∀ n, n ∈ (Stmt.insertOrIgnore table values).empties k → n ≠ table ∧ n ∈ k.empty := by
    intro n hn
    have hmem : n ∈ k.empty ∧ n ≠ table := by simpa [Stmt.empties] using hn
    exact hmem.symm
  by_cases haccepts : t.Accepts (db.rows table ++
      [fun c => (values.lookup c).getD (t.defaultOf now c)])
  · have hrows : (Stmt.insertOrIgnore table values).refill now k.tables db.rows =
        some (Function.update db.rows table (db.rows table ++
          [fun c => (values.lookup c).getD (t.defaultOf now c)])) := by
      rw [Stmt.refill, hfind, Option.bind_some]
      exact if_pos haccepts
    apply h.of_rows hshape hrows
    · intro n u hu
      rw [htables] at hu
      by_cases hn : n = table
      · subst hn
        obtain rfl := Option.some.inj (hfind.symm.trans hu)
        rw [Function.update_self]
        exact haccepts
      · rw [Function.update_of_ne hn]
        exact h.valid_at hu
    · intro n hn
      rw [Function.update_of_ne (hempty n hn).1]
      exact h.empty n (hempty n hn).2
    · intro p hp r hr
      obtain ⟨r', hr', hcols⟩ := h.places p hp r hr
      refine ⟨r', ?_, hcols⟩
      by_cases heq : p.table = table
      · rw [heq, Function.update_self, List.mem_append, ← heq]
        exact .inl hr'
      · rw [Function.update_of_ne heq]
        exact hr'
  · have hrows : (Stmt.insertOrIgnore table values).refill now k.tables db.rows = some db.rows := by
      rw [Stmt.refill, hfind, Option.bind_some]
      exact if_neg haccepts
    apply h.of_rows hshape hrows
    · intro n u hu
      exact h.valid_at (htables ▸ hu)
    · exact fun n hn => h.empty n (hempty n hn).2
    · exact h.places

/-- Copied rows are described. -/
theorem describes_copyRows (h : k.Describes start db) {target source : String}
    {columns : List String}
    (hshape : (Stmt.copyRows target columns source).reshape k.foreignKeys k.tables = some tables)
    (hsafe : (Stmt.copyRows target columns source).safe k = true) :
    ∃ db', (Stmt.copyRows target columns source).exec now db = some db' ∧
      (k.after (.copyRows target columns source) tables).Describes start db' := by
  obtain ⟨t, ht, hshape'⟩ := Option.bind_eq_some_iff.mp hshape
  obtain ⟨u, hu, hshape'⟩ := Option.bind_eq_some_iff.mp hshape'
  have htables : tables = k.tables := by
    split at hshape'
    · cases hshape'
    · exact (Option.some.inj hshape').symm
  simp only [Stmt.safe, ht, hu, Option.any_some, Bool.and_eq_true] at hsafe
  obtain ⟨hmem, hfeeds⟩ := hsafe
  have hnone : db.rows target = [] := h.empty target (by simpa using hmem)
  have haccepts := (h.valid_at hu).copy (g := t.defaultOf now) hfeeds
  generalize hcopied : ((db.rows source).map fun (r : Row) c =>
    if columns.contains c then r c else t.defaultOf now c) = copied at haccepts
  have hrows : (Stmt.copyRows target columns source).refill now k.tables db.rows =
      some (Function.update db.rows target copied) := by
    rw [Stmt.refill, ht, Option.bind_some]
    dsimp only
    rw [hnone, List.nil_append, hcopied]
    exact if_pos haccepts
  apply h.of_rows hshape hrows
  · intro n v hv
    rw [htables] at hv
    by_cases hn : n = target
    · subst hn
      obtain rfl := Option.some.inj (ht.symm.trans hv)
      rw [Function.update_self]
      exact haccepts
    · rw [Function.update_of_ne hn]
      exact h.valid_at hv
  · intro n hn
    have hmem' : n ∈ k.empty ∧ n ≠ target := by simpa [Stmt.empties] using hn
    rw [Function.update_of_ne hmem'.2]
    exact h.empty n hmem'.1
  · intro p hp
    cases List.mem_append.mp hp with
    | inl hold =>
      -- a place in the target has no row to show, since the target was empty
      intro r hr
      obtain ⟨r', hr', hcols⟩ := h.places p hold r hr
      have hne : p.table ≠ target := by
        intro heq
        rw [heq, hnone] at hr'
        cases hr'
      rw [Function.update_of_ne hne]
      exact ⟨r', hr', hcols⟩
    | inr hnew =>
      obtain ⟨q, hq, rfl⟩ := List.mem_map.mp hnew
      rw [List.mem_filter, decide_eq_true_eq] at hq
      intro r hr
      obtain ⟨r', hr', hcols⟩ := h.places q hq.1 r hr
      rw [hq.2] at hr'
      refine ⟨fun c => if columns.contains c then r' c else t.defaultOf now c, ?_, fun c hc => ?_⟩
      · dsimp only
        rw [Function.update_self, ← hcopied]
        exact List.mem_map.mpr ⟨r', hr', rfl⟩
      · rw [List.mem_filter] at hc
        exact (if_pos hc.2).trans (hcols c hc.1)

/-- One statement keeps a sketch right. -/
theorem Sketch.Describes.exec (h : k.Describes start db)
    (hshape : s.reshape k.foreignKeys k.tables = some tables) (hsafe : s.safe k = true) :
    ∃ db', s.exec now db = some db' ∧ (k.after s tables).Describes start db' := by
  cases s with
  | createTable ifNotExists name t => exact describes_createTable h hshape
  | addColumn table c => exact describes_addColumn h hshape hsafe
  | renameTable a b => exact describes_renameTable h hshape
  | renameColumn table a b => exact describes_renameColumn h hshape hsafe
  | dropTable ifExists name => exact describes_dropTable h hshape
  | copyRows target columns source => exact describes_copyRows h hshape hsafe
  | insertOrIgnore table values => exact describes_insertOrIgnore h hshape
  | createIndex table columns =>
    obtain ⟨t, -, hshape'⟩ := Option.bind_eq_some_iff.mp hshape
    split at hshape'
    · obtain rfl := Option.some.inj hshape'
      exact h.same hshape rfl rfl rfl
    · cases hshape'
  | foreignKeys on =>
    obtain rfl := Option.some.inj hshape
    exact h.same hshape rfl rfl rfl
  | journalMode =>
    obtain rfl := Option.some.inj hshape
    exact h.same hshape rfl rfl rfl

end describes

/-! ## Forecasts -/

/-- What a forecast says of a script is so, whatever the rows of the database are. -/
theorem forecast_ends {script : List Stmt} {k k' : Sketch} {start : String → List Row}
    {db : Database} {now : ℕ → String} (h : k.Describes start db)
    (hends : forecast script k = .ends k') :
    ∃ db', run now script db = some db' ∧ k'.Describes start db' := by
  induction script generalizing k db now with
  | nil =>
    cases hends
    exact ⟨db, rfl, h⟩
  | cons s script ih =>
    unfold forecast at hends
    split at hends
    · cases hends
    · next tables hshape =>
      split at hends
      · next hsafe =>
        obtain ⟨db₁, hexec, hdesc⟩ : ∃ db₁, s.exec (now 0) db = some db₁ ∧
            (k.after s tables).Describes start db₁ := h.exec hshape hsafe
        obtain ⟨db', hrun, hdesc'⟩ : ∃ db', run (fun n => now (n + 1)) script db₁ = some db' ∧
            k'.Describes start db' := ih hdesc hends
        refine ⟨db', ?_, hdesc'⟩
        rw [run, hexec, Option.bind_some, hrun]
      · cases hends

/-- A script that is forecast to fail fails. -/
theorem forecast_fails {script : List Stmt} {k : Sketch} {start : String → List Row}
    {db : Database} {now : ℕ → String} (h : k.Describes start db)
    (hfails : forecast script k = .fails) : run now script db = none := by
  induction script generalizing k db now with
  | nil => cases hfails
  | cons s script ih =>
    unfold forecast at hfails
    split at hfails
    · next hshape =>
      rw [run, Stmt.exec, h.foreignKeys, h.tables, hshape]
      rfl
    · next tables hshape =>
      split at hfails
      · next hsafe =>
        obtain ⟨db₁, hexec, hdesc⟩ : ∃ db₁, s.exec (now 0) db = some db₁ ∧
            (k.after s tables).Describes start db₁ := h.exec hshape hsafe
        rw [run, hexec, Option.bind_some]
        exact ih hdesc hfails
      · cases hfails

end Mailman.Library.Sql
