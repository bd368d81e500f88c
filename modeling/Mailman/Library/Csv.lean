import Mathlib.Data.List.Basic

/-!
# Comma-separated values

The reader is the state machine of the usual dialect: commas separate, double quotes enclose, a
doubled quote inside is one, and a line break inside quotes is part of the field. It works line by
line; what ends a line ends a record unless quotes are open. Fields are bounded. What is written
with plain cells and quoted ones is read back (`read_text`), whatever the quoted ones hold.
-/

set_option autoImplicit false

namespace Mailman.Library.Csv

/-! ## The reader -/

/-- Where the reader is in a record. -/
inductive State where
  | startRecord
  | startField
  | inField
  | inQuoted
  | quoteInQuoted
  /-- after the line break of a record -/
  | eatCrnl
  deriving DecidableEq, Repr

/-- The reader: the field it is in, the fields of the record so far, and the records before. -/
structure Reader where
  state : State := .startRecord
  field : List Char := []
  fields : List String := []
  rows : List (List String) := []
  deriving DecidableEq, Repr

/-- The field is complete. -/
def Reader.save (r : Reader) : Reader :=
  { r with field := [], fields := r.fields ++ [.ofList r.field] }

/-- The record is complete. -/
def Reader.emit (r : Reader) : Reader :=
  { r with state := .startRecord, fields := [], rows := r.rows ++ [r.fields] }

/-- One more character of the field, or the error of a field that is too long. -/
def Reader.add (limit : ℕ) (st : State) (c : Char) (r : Reader) : Except String Reader :=
  if limit ≤ r.field.length then .error "field larger than field limit"
  else .ok { r with state := st, field := r.field ++ [c] }

/-- The first character of a field. -/
def Reader.startField (limit : ℕ) (c : Char) (r : Reader) : Except String Reader :=
  if c = '\n' ∨ c = '\r' then .ok { r.save with state := .eatCrnl }
  else if c = '"' then .ok { r with state := .inQuoted }
  else if c = ',' then .ok { r.save with state := .startField }
  else r.add limit .inField c

/-- One character. -/
def Reader.step (limit : ℕ) (c : Char) (r : Reader) : Except String Reader :=
  match r.state with
  | .startRecord =>
    if c = '\n' ∨ c = '\r' then .ok { r with state := .eatCrnl } else r.startField limit c
  | .startField => r.startField limit c
  | .inField =>
    if c = '\n' ∨ c = '\r' then .ok { r.save with state := .eatCrnl }
    else if c = ',' then .ok { r.save with state := .startField }
    else r.add limit .inField c
  | .inQuoted =>
    if c = '"' then .ok { r with state := .quoteInQuoted } else r.add limit .inQuoted c
  | .quoteInQuoted =>
    if c = '"' then r.add limit .inQuoted c
    else if c = ',' then .ok { r.save with state := .startField }
    else if c = '\n' ∨ c = '\r' then .ok { r.save with state := .eatCrnl }
    else r.add limit .inField c
  | .eatCrnl =>
    if c = '\n' ∨ c = '\r' then .ok r else .error "new-line character seen in unquoted field"

/-- The end of a line. -/
def Reader.endLine (r : Reader) : Reader :=
  match r.state with
  | .startRecord | .eatCrnl => r.emit
  | .startField | .inField | .quoteInQuoted => r.save.emit
  | .inQuoted => r

/-- The characters of a text; each line break also ends a line. -/
def feed (limit : ℕ) : List Char → Reader → Except String Reader
  | [], r => .ok r
  | c :: cs, r => do
    let r ← r.step limit c
    feed limit cs (if c = '\n' then r.endLine else r)

/-- The records at the end of the text: quotes that are still open are closed. -/
def Reader.finish (r : Reader) : List (List String) :=
  if r.field ≠ [] ∨ r.state = .inQuoted then r.save.emit.rows else r.rows

/-- The records of a text. -/
def read (limit : ℕ) (text : List Char) : Except String (List (List String)) := do
  let r ← feed limit text {}
  .ok (if text.getLast?.all (· = '\n') then r else r.endLine).finish

/-! ## The writer -/

/-- The inside of a quoted cell. -/
def escape (cs : List Char) : List Char := cs.flatMap fun c => if c = '"' then ['"', '"'] else [c]

def quoted (cs : List Char) : List Char := '"' :: escape cs ++ ['"']

/-- A cell as it may be written: plain where nothing in it is special. -/
inductive Cell : List Char → List Char → Prop where
  | plain (cs : List Char) (hne : cs ≠ []) (h : ∀ c ∈ cs, c ∉ ['\n', '\r', '"', ',']) : Cell cs cs
  | quoted (cs : List Char) : Cell (quoted cs) cs

/-- A line of cells, and a text of lines. -/
def line (cells : List (List Char)) : List Char := [','].intercalate cells

def text (lines : List (List Char)) : List Char := ['\n'].intercalate lines

/-! ## What is written is read -/

variable {limit : ℕ} {r : Reader}

/-- Feeding two texts is feeding one after the other. -/
theorem feed_append (as bs : List Char) (r : Reader) :
    feed limit (as ++ bs) r = (feed limit as r).bind (feed limit bs) := by
  induction as generalizing r with
  | nil => rfl
  | cons c as ih =>
    show (r.step limit c).bind _ = Except.bind ((r.step limit c).bind _) _
    cases r.step limit c with
    | error e => rfl
    | ok r => exact ih _

/-- A character is one step, and a line feed also ends the line. -/
theorem feed_cons {c : Char} {cs : List Char} {u : Reader} (h : r.step limit c = .ok u) :
    feed limit (c :: cs) r = feed limit cs (if c = '\n' then u.endLine else u) := by
  show (r.step limit c).bind _ = _
  rw [h]
  rfl

/-- A character within a line is one step. -/
theorem feed_cons_of_ne {c : Char} {cs : List Char} {u : Reader} (hc : c ≠ '\n')
    (h : r.step limit c = .ok u) : feed limit (c :: cs) r = feed limit cs u := by
  rw [feed_cons h, if_neg hc]

/-- Below the limit a character is added. -/
theorem add_ok {st : State} {c : Char} (h : r.field.length < limit) :
    r.add limit st c = .ok { r with state := st, field := r.field ++ [c] } := by
  unfold Reader.add
  rw [if_neg (by omega)]

/-- A quote is doubled, and any other character stays. -/
theorem escape_cons (c : Char) (cs : List Char) :
    escape (c :: cs) = (if c = '"' then ['"', '"'] else [c]) ++ escape cs := List.flatMap_cons ..

/-- Inside quotes the reader takes everything, a doubled quote as one. -/
theorem feed_escape (cs : List Char) (hstate : r.state = .inQuoted)
    (hlength : r.field.length + cs.length ≤ limit) :
    feed limit (escape cs) r = .ok { r with field := r.field ++ cs } := by
  induction cs generalizing r with
  | nil =>
    rw [List.append_nil]
    rfl
  | cons c cs ih =>
    rw [List.length_cons] at hlength
    have hrest := @ih { r with state := .inQuoted, field := r.field ++ [c] } rfl
      (by simp only [List.length_append, List.length_singleton]; omega)
    dsimp only at hrest
    rw [List.append_assoc, List.singleton_append] at hrest
    rw [escape_cons, hstate]
    by_cases hquote : c = '"'
    · -- the first quote might close the field, and the second says that it does not
      subst hquote
      have hfirst : r.step limit '"' = .ok { r with state := .quoteInQuoted } := by
        unfold Reader.step
        rw [hstate]
        rfl
      have hsecond : ({ r with state := .quoteInQuoted } : Reader).step limit '"' =
          .ok { r with state := .inQuoted, field := r.field ++ ['"'] } := by
        unfold Reader.step
        exact add_ok (by show r.field.length < limit; omega)
      rw [if_pos rfl, List.cons_append, feed_cons_of_ne (by decide) hfirst, List.cons_append,
        feed_cons_of_ne (by decide) hsecond]
      exact hrest
    · have hstep : r.step limit c = .ok { r with state := .inQuoted, field := r.field ++ [c] } := by
        unfold Reader.step
        rw [hstate]
        show (if c = '"' then _ else r.add limit .inQuoted c) = _
        rw [if_neg hquote]
        exact add_ok (by omega)
      -- a line break inside the quotes does not end the record
      have hline : (if c = '\n' then
          ({ r with state := .inQuoted, field := r.field ++ [c] } : Reader).endLine
          else { r with state := .inQuoted, field := r.field ++ [c] }) =
          { r with state := .inQuoted, field := r.field ++ [c] } := by
        split
        · rfl
        · rfl
      rw [if_neg hquote, List.singleton_append, feed_cons hstep, hline]
      exact hrest

/-- The reader is at the start of a field. -/
def Reader.Fresh (r : Reader) : Prop :=
  (r.state = .startRecord ∨ r.state = .startField) ∧ r.field = []

/-- The reader has seen all of a field. -/
def Reader.Full (r : Reader) : Prop := r.state = .inField ∨ r.state = .quoteInQuoted

/-- A fresh reader starts a field. -/
theorem step_fresh {c : Char} (h : r.Fresh) (hc : c ≠ '\n' ∧ c ≠ '\r') :
    r.step limit c = r.startField limit c := by
  unfold Reader.step
  rcases h.1 with hstate | hstate
  · rw [hstate]
    show (if c = '\n' ∨ c = '\r' then _ else r.startField limit c) = _
    rw [if_neg (by tauto)]
  · rw [hstate]

/-- Plain characters go into the field as they are. -/
theorem feed_plain (cs : List Char) (h : ∀ c ∈ cs, c ∉ ['\n', '\r', '"', ','])
    (hstate : r.state = .inField) (hlength : r.field.length + cs.length ≤ limit) :
    feed limit cs r = .ok { r with field := r.field ++ cs } := by
  induction cs generalizing r with
  | nil =>
    rw [List.append_nil]
    rfl
  | cons c cs ih =>
    rw [List.length_cons] at hlength
    have hc := h c (List.mem_cons_self ..)
    simp only [List.mem_cons, List.not_mem_nil, or_false, not_or] at hc
    have hstep : r.step limit c = .ok { r with state := .inField, field := r.field ++ [c] } := by
      unfold Reader.step
      rw [hstate]
      show (if c = '\n' ∨ c = '\r' then _ else if c = ',' then _ else r.add limit .inField c) = _
      rw [if_neg (by tauto), if_neg hc.2.2.2]
      exact add_ok (by omega)
    rw [feed_cons_of_ne hc.1 hstep, ih (fun x hx => h x (List.mem_cons_of_mem _ hx)) rfl
      (by simp only [List.length_append, List.length_singleton]; omega)]
    simp [← hstate]

/-- A cell, up to what ends it. -/
theorem feed_cell {w cs : List Char} (hcell : Cell w cs) (hlength : cs.length ≤ limit)
    (hfresh : r.Fresh) : ∃ st, (st = .inField ∨ st = .quoteInQuoted) ∧
      feed limit w r = .ok { r with state := st, field := cs } := by
  cases hcell with
  | plain _ hne hplain =>
    refine ⟨.inField, Or.inl rfl, ?_⟩
    cases w with
    | nil => exact absurd rfl hne
    | cons c cs =>
      rw [List.length_cons] at hlength
      have hc := hplain c (List.mem_cons_self ..)
      simp only [List.mem_cons, List.not_mem_nil, or_false, not_or] at hc
      have hstep : r.step limit c = .ok { r with state := .inField, field := [c] } := by
        rw [step_fresh hfresh ⟨hc.1, hc.2.1⟩]
        unfold Reader.startField
        rw [if_neg (by tauto), if_neg hc.2.2.1, if_neg hc.2.2.2,
          add_ok (by rw [hfresh.2]; exact Nat.lt_of_lt_of_le (Nat.succ_pos _) hlength), hfresh.2]
        rfl
      rw [feed_cons_of_ne hc.1 hstep, feed_plain cs (fun x hx => hplain x (List.mem_cons_of_mem _ hx))
        rfl (by simp only [List.length_singleton]; omega)]
      rfl
  | quoted _ =>
    refine ⟨.quoteInQuoted, Or.inr rfl, ?_⟩
    have hopen : r.step limit '"' = .ok { r with state := .inQuoted } := by
      rw [step_fresh hfresh ⟨by decide, by decide⟩]
      rfl
    have hclose : ({ r with state := .inQuoted, field := r.field ++ cs } : Reader).step limit '"' =
        .ok { r with state := .quoteInQuoted, field := r.field ++ cs } := rfl
    unfold quoted
    rw [List.cons_append, feed_cons_of_ne (by decide) hopen, feed_append,
      feed_escape cs rfl (by rw [hfresh.2]; simpa using hlength)]
    show feed limit ['"'] _ = _
    rw [feed_cons_of_ne (by decide) hclose, hfresh.2]
    rfl

/-- A comma ends a full field. -/
theorem feed_comma (h : r.Full) (cs : List Char) :
    feed limit (',' :: cs) r = feed limit cs { r.save with state := .startField } := by
  apply feed_cons_of_ne (by decide)
  unfold Reader.step
  rcases h with h | h
  · rw [h]
    rfl
  · rw [h]
    rfl

/-- The end of a line ends a full field and its row. -/
theorem endLine_full (h : r.Full) : r.endLine = r.save.emit := by
  unfold Reader.endLine
  rcases h with h | h
  · rw [h]
  · rw [h]

/-- A line feed ends a full field and its row. -/
theorem feed_break (h : r.Full) (cs : List Char) :
    feed limit ('\n' :: cs) r = feed limit cs r.save.emit := by
  have hstep : r.step limit '\n' = .ok { r.save with state := .eatCrnl } := by
    unfold Reader.step
    rcases h with h | h
    · rw [h]
      rfl
    · rw [h]
      rfl
  rw [feed_cons hstep]
  rfl

/-- A row as it is written, with what it holds. -/
abbrev Row := List (List Char × List Char)

/-- Its cells are well written, and none is longer than the limit. -/
def Row.Written (limit : ℕ) (row : Row) : Prop :=
  row ≠ [] ∧ ∀ cell ∈ row, Cell cell.1 cell.2 ∧ cell.2.length ≤ limit

def Row.line (row : Row) : List Char := Csv.line (row.map (·.1))

def Row.values (row : Row) : List String := row.map fun cell => .ofList cell.2

/-- A row, up to what ends it. -/
theorem feed_row (row : Row) (h : row.Written limit) (hfresh : r.Fresh) :
    ∃ u : Reader, u.Full ∧ feed limit row.line r = .ok u ∧
      u.save.emit = { rows := r.rows ++ [r.fields ++ row.values] } := by
  obtain ⟨hne, hcells⟩ := h
  induction row generalizing r with
  | nil => exact absurd rfl hne
  | cons cell row ih =>
    obtain ⟨hcell, hlength⟩ := hcells cell (List.mem_cons_self ..)
    obtain ⟨st, hst, hfeed⟩ := feed_cell hcell hlength hfresh
    have hfull : Reader.Full { r with state := st, field := cell.2 } := hst
    cases row with
    | nil =>
      have hline : Row.line [cell] = cell.1 := by simp [Row.line, Csv.line, List.intercalate]
      exact ⟨_, hfull, hline ▸ hfeed, rfl⟩
    | cons cell' row =>
      have hline : Row.line (cell :: cell' :: row) = cell.1 ++ ',' :: Row.line (cell' :: row) := by
        unfold Row.line Csv.line
        rw [List.map_cons, List.map_cons, List.intercalate_cons_cons]
        simp
      obtain ⟨u, hfull', hrest, hrows⟩ := @ih
        { r with state := .startField, field := [], fields := r.fields ++ [.ofList cell.2] }
        ⟨Or.inr rfl, rfl⟩ (List.cons_ne_nil _ _) fun x hx => hcells x (List.mem_cons_of_mem _ hx)
      refine ⟨u, hfull', ?_, ?_⟩
      · rw [hline, feed_append, hfeed]
        exact (feed_comma hfull _).trans hrest
      · rw [hrows]
        simp [Row.values]

/-- Written rows are read one by one. -/
theorem feed_rows (rows : List Row) (row : Row)
    (h : ∀ x ∈ row :: rows, Row.Written limit x) (hfresh : r.Fresh) (hfields : r.fields = []) :
    ∃ u : Reader, u.Full ∧ feed limit (text ((row :: rows).map Row.line)) r = .ok u ∧
      u.save.emit = { rows := r.rows ++ (row :: rows).map Row.values } := by
  induction rows generalizing r row with
  | nil =>
    obtain ⟨u, hfull, hfeed, hrows⟩ := feed_row row (h row (List.mem_cons_self ..)) hfresh
    refine ⟨u, hfull, ?_, ?_⟩
    · simpa [text, List.intercalate] using hfeed
    · rw [hrows, hfields]
      rfl
  | cons row' rows ih =>
    obtain ⟨u, hfull, hfeed, hrows⟩ := feed_row row (h row (List.mem_cons_self ..)) hfresh
    obtain ⟨v, hvfull, hvfeed, hvrows⟩ := @ih u.save.emit row'
      (fun x hx => h x (List.mem_cons_of_mem _ hx)) (by rw [hrows]; exact ⟨Or.inl rfl, rfl⟩)
      (by rw [hrows])
    refine ⟨v, hvfull, ?_, ?_⟩
    · have htext : text ((row :: row' :: rows).map Row.line) =
          row.line ++ '\n' :: text ((row' :: rows).map Row.line) := by
        unfold text
        rw [List.map_cons, List.map_cons, List.intercalate_cons_cons]
        simp
      rw [htext, feed_append, hfeed]
      exact (feed_break hfull _).trans hvfeed
    · rw [hvrows, hrows, hfields]
      simp

/-- The last character is one of these. -/
def EndsIn (p : Char → Prop) (w : List Char) : Prop := ∃ c, w.getLast? = some c ∧ p c

/-- What a word ends in, a text that ends with the word ends in. -/
theorem EndsIn.append {p : Char → Prop} {w : List Char} (h : EndsIn p w) (pre : List Char) :
    EndsIn p (pre ++ w) := by
  obtain ⟨c, hlast, hc⟩ := h
  exact ⟨c, by rw [List.getLast?_append, hlast]; rfl, hc⟩

/-- Joined parts end as the last one does. -/
theorem endsIn_intercalate {p : Char → Prop} (sep : List Char) {parts : List (List Char)}
    (hne : parts ≠ []) (h : ∀ w ∈ parts, EndsIn p w) : EndsIn p (sep.intercalate parts) := by
  induction parts with
  | nil => exact absurd rfl hne
  | cons a parts ih =>
    cases parts with
    | nil => simpa [List.intercalate] using h a (List.mem_cons_self ..)
    | cons b parts =>
      rw [List.intercalate_cons_cons]
      exact (ih (List.cons_ne_nil _ _) fun w hw => h w (List.mem_cons_of_mem _ hw)).append _

/-- A quoted cell ends in a quote. -/
theorem endsIn_quoted (cs : List Char) : EndsIn (· = '"') (quoted cs) := by
  refine ⟨'"', ?_, rfl⟩
  unfold quoted
  rw [List.getLast?_append]
  rfl

/-- A cell does not end in a line feed. -/
theorem Cell.endsIn {w cs : List Char} (h : Cell w cs) : EndsIn (· ≠ '\n') w := by
  cases h with
  | plain _ hne hplain =>
    refine ⟨w.getLast hne, List.getLast?_eq_some_getLast hne, ?_⟩
    intro heq
    exact hplain _ (List.getLast_mem hne) (by simp [heq])
  | quoted _ =>
    obtain ⟨c, hlast, rfl⟩ := endsIn_quoted cs
    exact ⟨'"', hlast, by decide⟩

/-- A written row does not end in a line feed. -/
theorem Row.Written.endsIn {row : Row} (h : row.Written limit) : EndsIn (· ≠ '\n') row.line := by
  apply endsIn_intercalate
  · simpa using h.1
  · intro w hw
    obtain ⟨cell, hcell, rfl⟩ := List.mem_map.mp hw
    exact (h.2 cell hcell).1.endsIn

/-- A quoted cell holds quotes and its own characters. -/
theorem mem_quoted {c : Char} {cs : List Char} (h : c ∈ quoted cs) : c = '"' ∨ c ∈ cs := by
  unfold quoted at h
  rw [List.mem_append, List.mem_cons, List.mem_singleton] at h
  rcases h with (h | h) | h
  · exact Or.inl h
  · obtain ⟨d, hd, hc⟩ := List.mem_flatMap.mp h
    split at hc
    · exact Or.inl (by simpa using hc)
    · rw [List.mem_singleton.mp hc]
      exact Or.inr hd
  · exact Or.inl h

/-- **What is written is read back.** -/
theorem read_text (rows : List Row) (hne : rows ≠ []) (h : ∀ row ∈ rows, Row.Written limit row) :
    read limit (text (rows.map Row.line)) = .ok (rows.map Row.values) := by
  cases rows with
  | nil => exact absurd rfl hne
  | cons row rows =>
    obtain ⟨u, hfull, hfeed, hrows⟩ := @feed_rows limit {} rows row h ⟨Or.inl rfl, rfl⟩ rfl
    have hend : EndsIn (· ≠ '\n') (text ((row :: rows).map Row.line)) := by
      apply endsIn_intercalate
      · exact List.cons_ne_nil _ _
      · intro w hw
        obtain ⟨x, hx, rfl⟩ := List.mem_map.mp hw
        exact (h x hx).endsIn
    obtain ⟨c, hlast, hc⟩ := hend
    unfold read
    rw [hfeed, hlast]
    show Except.ok (if decide (c = '\n') = true then u else u.endLine).finish = _
    rw [if_neg (by simpa using hc), endLine_full hfull, hrows]
    rfl

end Mailman.Library.Csv
