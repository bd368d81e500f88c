import Mailman.Library.Json

/-!
# The JSON writer in full

`json.dumps` of any value, with or without `ensure_ascii`, with any white space behind an opening
bracket, a comma and a colon and before a closing bracket. Whatever the layout, the reader gives
the value back.
-/

set_option autoImplicit false

namespace Mailman.Library.Json

variable {t : Text} {c : ℕ}

/-! ## Texts -/

/-- One code point of a string, with `ensure_ascii` or without. -/
def escapeWith (ascii : Bool) (c : ℕ) : Text :=
  if ascii then escape c
  else
    match shortEscapes.lookup c with
    | some e => [backslash, e]
    | none => if c < 32 then unicodeEscape c else [c]

def writeString (ascii : Bool) (s : String) : Text :=
  quote :: (codes s).flatMap (escapeWith ascii) ++ [quote]

/-- What the reader sees of one code point. -/
def unitsWith (ascii : Bool) (c : ℕ) : List (ℕ × Bool) :=
  if ascii then units c
  else if (shortEscapes.lookup c).isNone && c < 32 then [(c, true)] else [(c, false)]

/-- An escaped character is read back, whichever way it was escaped. -/
theorem scanString_escapeWith (ascii : Bool) (hc : Scalar c) (t : Text) :
    scanString (escapeWith ascii c ++ t) =
      (scanString t).map fun z => (unitsWith ascii c ++ z.1, z.2) := by
  cases ascii with
  | true => exact scanString_escape hc t
  | false =>
    unfold escapeWith unitsWith
    rw [if_neg Bool.false_ne_true, if_neg Bool.false_ne_true]
    cases hshort : shortEscapes.lookup c with
    | some e =>
      obtain ⟨hread, hu⟩ := unescape_short hshort
      dsimp only
      rw [List.cons_append, List.cons_append, List.nil_append, scanString_short t hu, hread]
      rfl
    | none =>
      dsimp only
      by_cases hlow : c < 32
      · rw [if_pos hlow, scanString_unicodeEscape (by omega)]
        simp [hlow]
      · have hquote : c ≠ quote := by
          rintro rfl
          cases hshort
        have hbackslash : c ≠ backslash := by
          rintro rfl
          cases hshort
        rw [if_neg hlow, List.cons_append, List.nil_append,
          scanString_plain t hquote hbackslash (by omega)]
        simp [hlow]

/-- The units of a character pair up to it, whichever way it was escaped. -/
theorem pairUp_unitsWith (ascii : Bool) (hc : Scalar c) (l : List (ℕ × Bool)) :
    pairUp (unitsWith ascii c ++ l) = c :: pairUp l := by
  cases ascii with
  | true => exact pairUp_units hc l
  | false =>
    unfold unitsWith
    rw [if_neg Bool.false_ne_true]
    by_cases hlow : ((shortEscapes.lookup c).isNone && decide (c < 32)) = true
    · rw [if_pos hlow]
      refine pairUp_cons (fun _ => ?_) l
      simp only [Bool.and_eq_true, decide_eq_true_eq] at hlow
      simp [isHigh]
      omega
    · rw [if_neg hlow]
      exact pairUp_cons (fun h => absurd h Bool.false_ne_true) l

/-- A written string, after its first quote. -/
theorem readString_write (ascii : Bool) (s : String) (t : Text) :
    readString ((codes s).flatMap (escapeWith ascii) ++ quote :: t) = some (codes s, t) := by
  have hscan : ∀ l : Text, (∀ c ∈ l, Scalar c) →
      scanString (l.flatMap (escapeWith ascii) ++ quote :: t) =
          some (l.flatMap (unitsWith ascii), t) ∧
        pairUp (l.flatMap (unitsWith ascii)) = l := by
    intro l hl
    induction l with
    | nil => exact ⟨scanString_quote t, rfl⟩
    | cons c l ih =>
      obtain ⟨hscan, hpair⟩ := ih fun d hd => hl d (List.mem_cons_of_mem c hd)
      have hc := hl c List.mem_cons_self
      rw [List.flatMap_cons, List.flatMap_cons, List.append_assoc, scanString_escapeWith _ hc,
        hscan, pairUp_unitsWith _ hc, hpair]
      exact ⟨rfl, rfl⟩
  obtain ⟨hscan, hpair⟩ := hscan (codes s) fun c hc => scalar_codes hc
  rw [readString, hscan, Option.map_some, hpair]

/-! ## Floats -/

/-- A finite float as `repr` writes it: with a fraction, an exponent or both. -/
structure Decimal where
  minus : Bool := false
  whole : ℕ
  fraction : Text := []
  exponent : Option (Bool × Text) := none
  fraction_digits : ∀ c ∈ fraction, isDigit c = true := by decide
  exponent_digits : ∀ e ∈ exponent, e.2 ≠ [] ∧ ∀ c ∈ e.2, isDigit c = true := by decide
  point : fraction ≠ [] ∨ exponent ≠ none := by decide

namespace Decimal

def fractionText (x : Decimal) : Text := if x.fraction = [] then [] else ord '.' :: x.fraction

def exponentText (x : Decimal) : Text :=
  match x.exponent with
  | none => []
  | some (minus, digits) => ord 'e' :: (if minus then ord '-' else ord '+') :: digits

/-- The text without its sign. -/
def unsigned (x : Decimal) : Text := dumpNat x.whole ++ x.fractionText ++ x.exponentText

/-- `float.__repr__` -/
def text (x : Decimal) : Text := if x.minus then ord '-' :: x.unsigned else x.unsigned

end Decimal

/-- The digits of a number, up to something that is no digit. -/
theorem readDigits_before (n : ℕ) (ht : ∀ c ∈ t.head?, isDigit c = false) :
    readDigits (dumpNat n ++ t) = some (dumpNat n, t) := by
  have hends : t.takeWhile isDigit = [] ∧ t.dropWhile isDigit = t := by
    cases t with
    | nil => exact ⟨rfl, rfl⟩
    | cons c t => simp [ht c rfl]
  by_cases hn : n = 0
  · rw [hn]
    rfl
  · obtain ⟨c, l, hcons, hc⟩ := dumpNat_cons hn
    have hall : ∀ d ∈ c :: l, isDigit d = true := fun d hd => isDigit_dumpNat (hcons ▸ hd)
    have hl : ∀ d ∈ l, isDigit d = true := fun d hd => hall d (List.mem_cons_of_mem c hd)
    rw [hcons, List.cons_append, readDigits, if_neg hc, if_pos (hall c List.mem_cons_self),
      List.takeWhile_append_of_pos hl, List.dropWhile_append_of_pos hl, hends.1, hends.2,
      List.append_nil]

/-- Digits up to something that is no digit. -/
theorem takeWhile_digits {ds : Text} (hds : ∀ c ∈ ds, isDigit c = true)
    (ht : ∀ c ∈ t.head?, isDigit c = false) :
    (ds ++ t).takeWhile isDigit = ds ∧ (ds ++ t).dropWhile isDigit = t := by
  rw [List.takeWhile_append_of_pos hds, List.dropWhile_append_of_pos hds]
  cases t with
  | nil => exact ⟨List.append_nil ds, rfl⟩
  | cons c t => simp [ht c rfl]

namespace Decimal

/-- What follows a fraction is no digit and no point. -/
theorem head_exponentText (x : Decimal) (ht : Ends t) :
    ∀ c ∈ (x.exponentText ++ t).head?, isDigit c = false ∧ c ≠ ord '.' := by
  intro c hc
  unfold exponentText at hc
  split at hc
  · exact ⟨(ht c hc).1, (ht c hc).2.1⟩
  · obtain rfl := Option.some.inj hc
    exact ⟨rfl, by decide⟩

/-- A written fraction is read back. -/
theorem readFraction_text (x : Decimal) (ht : Ends t) :
    readFraction (x.fractionText ++ (x.exponentText ++ t)) =
      (x.fractionText, x.exponentText ++ t) := by
  have hhead := x.head_exponentText ht
  unfold fractionText
  split
  · rw [List.nil_append]
    cases hrest : x.exponentText ++ t with
    | nil => rfl
    | cons c l => exact if_neg fun h => (hhead c (by rw [hrest]; rfl)).2 h.1
  · next hne =>
    obtain ⟨htake, hdrop⟩ := takeWhile_digits x.fraction_digits fun c hc => (hhead c hc).1
    rw [List.cons_append, readFraction, htake, hdrop, if_pos ⟨rfl, hne⟩]

/-- A written exponent is read back. -/
theorem readExponent_text (x : Decimal) (ht : Ends t) :
    readExponent (x.exponentText ++ t) = (x.exponentText, t) := by
  unfold exponentText
  cases hx : x.exponent with
  | none => exact ht.readExponent
  | some e =>
    obtain ⟨minus, digits⟩ := e
    obtain ⟨hne, hdigits⟩ := x.exponent_digits _ hx
    obtain ⟨htake, hdrop⟩ := takeWhile_digits hdigits fun c hc => (ht c hc).1
    have hsign : readSign ((if minus then ord '-' else ord '+') :: (digits ++ t)) =
        ([if minus then ord '-' else ord '+'], digits ++ t) := by
      cases minus <;> rfl
    dsimp only
    rw [List.cons_append, List.cons_append, readExponent, hsign]
    dsimp only
    rw [htake, hdrop, if_pos ⟨.inl rfl, hne⟩]
    rfl

/-- A written decimal is read back with its sign. -/
theorem readUnsigned_text (x : Decimal) (minus : Bool) (ht : Ends t) :
    readUnsigned minus (x.unsigned ++ t) =
      some (.float ((if minus then [ord '-'] else []) ++ x.unsigned), t) := by
  have hfirst : ∀ c ∈ (x.fractionText ++ (x.exponentText ++ t)).head?, isDigit c = false := by
    intro c hc
    unfold fractionText at hc
    split at hc
    · exact (x.head_exponentText ht c hc).1
    · obtain rfl := Option.some.inj hc
      rfl
  have hpoint : ¬(x.fractionText = [] ∧ x.exponentText = []) := by
    rintro ⟨hfraction, hexponent⟩
    unfold fractionText at hfraction
    unfold exponentText at hexponent
    cases x.point with
    | inl h =>
      rw [if_neg h] at hfraction
      cases hfraction
    | inr h =>
      cases hx : x.exponent with
      | none => exact h hx
      | some e =>
        rw [hx] at hexponent
        cases hexponent
  unfold readUnsigned unsigned
  rw [List.append_assoc, List.append_assoc, readDigits_before _ hfirst, Option.bind_some]
  dsimp only
  rw [x.readFraction_text ht]
  dsimp only
  rw [x.readExponent_text ht]
  dsimp only
  rw [if_neg hpoint]
  simp only [List.append_assoc]

/-- A written decimal starts with a digit. -/
theorem unsigned_digit (x : Decimal) : ∃ c l, x.unsigned = c :: l ∧ isDigit c = true := by
  obtain ⟨c, l, hcons, hc⟩ := dumpNat_digit x.whole
  exact ⟨c, _, by rw [unsigned, hcons]; rfl, hc⟩

end Decimal

/-! ## Values -/

/-- What `json.dumps` takes. -/
inductive Data where
  | null
  | bool (b : Bool)
  | int (n : ℤ)
  | float (x : Decimal)
  | str (s : String)
  | arr (items : List Data)
  | obj (members : List (String × Data))

mutual

/-- What the reader makes of it. -/
def Data.toValue : Data → Value
  | .null => .null
  | .bool b => .bool b
  | .int n => .int n
  | .float x => .float x.text
  | .str s => .str (codes s)
  | .arr items => .arr (toValues items)
  | .obj members => .obj (toMembers members)

def toValues : List Data → List Value
  | [] => []
  | v :: items => v.toValue :: toValues items

def toMembers : List (String × Data) → List (Text × Value)
  | [] => []
  | (name, v) :: members => (codes name, v.toValue) :: toMembers members

end

/-- Where white space stands; the number is the depth of the list or the object. -/
structure Layout where
  ascii : Bool := true
  opening : ℕ → Text := fun _ => []
  comma : ℕ → Text := fun _ => []
  closing : ℕ → Text := fun _ => []
  colon : Text := []
  blank : ∀ depth, ∀ c ∈ opening depth ++ comma depth ++ closing depth ++ colon, isSpace c = true

namespace Layout

/-- `separators=(",", ":")` -/
def compact : Layout where
  blank := by simp

/-- The separators `", "` and `": "`, when none are given. -/
def spaced : Layout where
  comma _ := [32]
  colon := [32]
  blank := by simp [isSpace]

end Layout

def boolText (b : Bool) : Text := codes (if b then "true" else "false")

mutual

/-- `json.dumps` of a value at a depth, or the `ValueError` of an integer that is too long. -/
def dumpData (L : Layout) (depth : ℕ) : Data → Option Text
  | .null => some (codes "null")
  | .bool b => some (boolText b)
  | .int n => dumpInt n
  | .float x => some x.text
  | .str s => some (writeString L.ascii s)
  | .arr [] => some [ord '[', ord ']']
  | .arr (v :: items) =>
    (dumpItems L depth (v :: items)).map fun t => ord '[' :: L.opening depth ++ t
  | .obj [] => some [ord '{', ord '}']
  | .obj (m :: members) =>
    (dumpEntries L depth (m :: members)).map fun t => ord '{' :: L.opening depth ++ t

/-- The items of a list up to its closing bracket. -/
def dumpItems (L : Layout) (depth : ℕ) : List Data → Option Text
  | [] => some (L.closing depth ++ [ord ']'])
  | [v] => (dumpData L (depth + 1) v).map fun t => t ++ L.closing depth ++ [ord ']']
  | v :: w :: items => (dumpData L (depth + 1) v).bind fun t =>
      (dumpItems L depth (w :: items)).map fun rest => t ++ ord ',' :: L.comma depth ++ rest

/-- The members of an object up to its closing bracket. -/
def dumpEntries (L : Layout) (depth : ℕ) : List (String × Data) → Option Text
  | [] => some (L.closing depth ++ [ord '}'])
  | [(name, v)] => (dumpData L (depth + 1) v).map fun t =>
      writeString L.ascii name ++ ord ':' :: L.colon ++ t ++ L.closing depth ++ [ord '}']
  | (name, v) :: m :: members => (dumpData L (depth + 1) v).bind fun t =>
      (dumpEntries L depth (m :: members)).map fun rest =>
        writeString L.ascii name ++ ord ':' :: L.colon ++ t ++ ord ',' :: L.comma depth ++ rest

end

/-- `json.dumps` -/
def dumpsWith (L : Layout) (v : Data) : Option Text := dumpData L 0 v

/-! ## What is written is read back -/

section blanks

variable {b : Text} (hb : ∀ c ∈ b, isSpace c = true)

include hb

/-- Blanks are skipped up to the first character that is none. -/
theorem skipSpace_blank (hc : isSpace c = false) : skipSpace (b ++ c :: t) = c :: t := by
  unfold skipSpace
  rw [List.dropWhile_append_of_pos hb, List.dropWhile_cons_of_neg (by simp [hc])]

/-- A character is found past blanks. -/
theorem after_blank_self (hc : isSpace c = false) : after c (b ++ c :: t) = some t := by
  unfold after
  rw [skipSpace_blank hb hc]
  exact if_pos rfl

/-- Another character is not found past blanks. -/
theorem after_blank_ne {d : ℕ} (hd : isSpace d = false) (hne : d ≠ c) :
    after c (b ++ d :: t) = none := by
  unfold after
  rw [skipSpace_blank hb hd]
  exact if_neg hne

/-- A number ends at blanks as at what follows them. -/
theorem ends_blank (hc : isDigit c = false ∧ c ≠ ord '.' ∧ c ≠ ord 'e' ∧ c ≠ ord 'E') :
    Ends (b ++ c :: t) := by
  cases b with
  | nil => exact ends_cons hc t
  | cons d b =>
    apply ends_cons
    have hd := hb d List.mem_cons_self
    simp only [isSpace, Bool.or_eq_true, decide_eq_true_eq] at hd
    rcases hd with ((rfl | rfl) | rfl) | rfl <;> decide

end blanks

namespace Layout

variable (L : Layout) (depth : ℕ)

/-- What is written after an opening bracket is blank. -/
theorem blank_opening : ∀ c ∈ L.opening depth, isSpace c = true :=
  fun c hc => L.blank depth c (by simp [hc])

/-- What is written after a comma is blank. -/
theorem blank_comma : ∀ c ∈ L.comma depth, isSpace c = true :=
  fun c hc => L.blank depth c (by simp [hc])

/-- What is written before a closing bracket is blank. -/
theorem blank_closing : ∀ c ∈ L.closing depth, isSpace c = true :=
  fun c hc => L.blank depth c (by simp [hc])

/-- What is written after a colon is blank. -/
theorem blank_colon : ∀ c ∈ L.colon, isSpace c = true :=
  fun c hc => L.blank 0 c (by simp [hc])

end Layout

variable {L : Layout} {depth fuel : ℕ} {v : Data} {d : Text}

/-- What a number starts with: no bracket, no quote, no white space and no word. -/
theorem Decimal.text_cons (x : Decimal) :
    ∃ c l, x.text = c :: l ∧ c ≠ quote ∧ c ≠ ord '{' ∧ c ≠ ord '[' ∧ isSpace c = false ∧
      c ≠ ord ']' ∧ ∀ t, readWord (c :: l ++ t) = none := by
  obtain ⟨c, l, hcons, hc⟩ := x.unsigned_digit
  unfold Decimal.text
  split
  · refine ⟨ord '-', x.unsigned, rfl, by decide, by decide, by decide, rfl, by decide,
      fun t => ?_⟩
    rw [hcons]
    exact (readWord_digit hc (l ++ t)).2
  · refine ⟨c, l, hcons, ne_of_isDigit hc rfl, ne_of_isDigit hc rfl, ne_of_isDigit hc rfl, ?_,
      ne_of_isDigit hc rfl, fun t => (readWord_digit hc (l ++ t)).1⟩
    simp [isDigit] at hc
    simp [isSpace]
    omega

/-- A written decimal is read back as a number. -/
theorem Decimal.readNumber_text (x : Decimal) (ht : Ends t) :
    readNumber (x.text ++ t) = some (.float x.text, t) := by
  unfold Decimal.text
  split
  · rw [List.cons_append, readNumber, if_pos rfl, x.readUnsigned_text true ht]
    rfl
  · obtain ⟨c, l, hcons, hc⟩ := x.unsigned_digit
    have hread := x.readUnsigned_text false ht
    rw [hcons, List.cons_append] at hread ⊢
    rw [readNumber, if_neg (ne_of_isDigit hc rfl), hread]
    rfl

/-- A written decimal is read back as a value. -/
theorem Decimal.readValue_text (x : Decimal) (ht : Ends t) (fuel : ℕ) :
    readValue (fuel + 1) (x.text ++ t) = some (.float x.text, t) := by
  have hnumber := x.readNumber_text ht
  obtain ⟨c, l, hcons, hquote, hbrace, hbracket, -, -, hword⟩ := x.text_cons
  rw [hcons, List.cons_append] at hnumber ⊢
  have hno := hword t
  rw [List.cons_append] at hno
  rw [readValue.eq_def]
  dsimp only
  rw [if_neg hquote, if_neg hbrace, if_neg hbracket, hno, hnumber, Option.none_or]

/-- What a value starts with: no white space, and no bracket that closes. -/
theorem dumpData_cons (hd : dumpData L depth v = some d) :
    ∃ c l, d = c :: l ∧ isSpace c = false ∧ c ≠ ord ']' := by
  cases v with
  | null => exact ⟨_, _, (Option.some.inj hd).symm, rfl, by decide⟩
  | bool b => cases b <;> exact ⟨_, _, (Option.some.inj hd).symm, rfl, by decide⟩
  | int n =>
    obtain ⟨c, l, hcons, hc⟩ := dumpNat_digit n.natAbs
    cases (dumpInt_eq hd).2 with
    | inl hneg => exact ⟨_, _, hneg.2, rfl, by decide⟩
    | inr hpos =>
      refine ⟨c, l, hpos.2.trans hcons, ?_, ne_of_isDigit hc rfl⟩
      simp [isDigit] at hc
      simp [isSpace]
      omega
  | float x =>
    obtain ⟨c, l, hcons, -, -, -, hspace, hend, -⟩ := x.text_cons
    exact ⟨c, l, (Option.some.inj hd).symm.trans hcons, hspace, hend⟩
  | str s => exact ⟨_, _, (Option.some.inj hd).symm, rfl, (by decide : quote ≠ ord ']')⟩
  | arr items =>
    cases items with
    | nil => exact ⟨_, _, (Option.some.inj hd).symm, rfl, by decide⟩
    | cons v items =>
      obtain ⟨body, -, rfl⟩ := Option.map_eq_some_iff.mp hd
      exact ⟨_, _, rfl, rfl, by decide⟩
  | obj members =>
    cases members with
    | nil => exact ⟨_, _, (Option.some.inj hd).symm, rfl, by decide⟩
    | cons m members =>
      obtain ⟨body, -, rfl⟩ := Option.map_eq_some_iff.mp hd
      exact ⟨_, _, rfl, rfl, by decide⟩

/-- The text of the items starts with the first value. -/
theorem dumpItems_cons {items : List Data} (hd : dumpItems L depth (v :: items) = some d) :
    ∃ c l, d = c :: l ∧ isSpace c = false ∧ c ≠ ord ']' := by
  have hfirst : ∃ dv rest, dumpData L (depth + 1) v = some dv ∧ d = dv ++ rest := by
    cases items with
    | nil =>
      obtain ⟨dv, hdv, rfl⟩ := Option.map_eq_some_iff.mp hd
      exact ⟨dv, _, hdv, List.append_assoc ..⟩
    | cons w items =>
      obtain ⟨dv, hdv, hrest⟩ := Option.bind_eq_some_iff.mp hd
      obtain ⟨rest, -, rfl⟩ := Option.map_eq_some_iff.mp hrest
      exact ⟨dv, _, hdv, List.append_assoc ..⟩
  obtain ⟨dv, rest, hdv, rfl⟩ := hfirst
  obtain ⟨c, l, rfl, hc⟩ := dumpData_cons hdv
  exact ⟨c, l ++ rest, rfl, hc⟩

/-- Values whose text is shorter than the fuel are read back, and so are the items of a list and,
after the quote of the first name, the members of an object. -/
structure ReadsBack (L : Layout) (fuel : ℕ) : Prop where
  value : ∀ {depth v d t}, dumpData L depth v = some d → Ends t → d.length < fuel →
    readValue fuel (d ++ t) = some (v.toValue, t)
  items : ∀ {depth items d} (t : Text), dumpItems L depth items = some d → items ≠ [] →
    d.length < fuel → readItems fuel (d ++ t) = some (toValues items, t)
  entries : ∀ {depth members d} (t : Text), dumpEntries L depth members = some d → members ≠ [] →
    d.length < fuel →
      ∃ d', d = quote :: d' ∧ readMembers fuel (d' ++ t) = some (toMembers members, t)

section steps

variable (ih : ReadsBack L fuel)

include ih

/-- A value is read back where its parts are. -/
theorem ReadsBack.value_step {t : Text} (hd : dumpData L depth v = some d) (ht : Ends t)
    (hlen : d.length < fuel + 1) : readValue (fuel + 1) (d ++ t) = some (v.toValue, t) := by
  cases v with
  | null =>
    obtain rfl := Option.some.inj hd
    rfl
  | bool b =>
    obtain rfl := Option.some.inj hd
    cases b <;> rfl
  | int n => exact readValue_dumpInt hd ht fuel
  | float x =>
    obtain rfl := Option.some.inj hd
    exact x.readValue_text ht fuel
  | str s =>
    obtain rfl := Option.some.inj hd
    have hdump : writeString L.ascii s ++ t =
        quote :: ((codes s).flatMap (escapeWith L.ascii) ++ quote :: t) := by
      simp [writeString]
    rw [hdump, readValue.eq_def]
    dsimp only
    rw [if_pos rfl, readString_write]
    rfl
  | arr items =>
    cases items with
    | nil =>
      obtain rfl := Option.some.inj hd
      rfl
    | cons v items =>
      obtain ⟨body, hbody, rfl⟩ := Option.map_eq_some_iff.mp hd
      have hread := ih.items t hbody (List.cons_ne_nil _ _) (by simp at hlen; omega)
      obtain ⟨c, l, rfl, hc, hend⟩ := dumpItems_cons hbody
      rw [List.cons_append] at hread
      rw [List.append_assoc, List.cons_append, List.cons_append, readValue.eq_def]
      dsimp only
      rw [if_neg (by decide), if_neg (by decide), if_pos rfl,
        after_blank_ne (L.blank_opening depth) hc hend]
      dsimp only
      rw [skipSpace_blank (L.blank_opening depth) hc, hread]
      rfl
  | obj members =>
    cases members with
    | nil =>
      obtain rfl := Option.some.inj hd
      rfl
    | cons m members =>
      obtain ⟨body, hbody, rfl⟩ := Option.map_eq_some_iff.mp hd
      obtain ⟨body, rfl, hread⟩ :=
        ih.entries t hbody (List.cons_ne_nil _ _) (by simp at hlen; omega)
      rw [List.append_assoc, List.cons_append, List.cons_append, readValue.eq_def]
      dsimp only
      rw [if_neg (by decide), if_pos rfl, after_blank_ne (L.blank_opening depth) rfl (by decide)]
      dsimp only
      rw [after_blank_self (L.blank_opening depth) rfl, Option.bind_some, hread]
      rfl

/-- Items are read back where each is. -/
theorem ReadsBack.items_step {items : List Data} (t : Text) (hd : dumpItems L depth items = some d)
    (hne : items ≠ []) (hlen : d.length < fuel + 1) :
    readItems (fuel + 1) (d ++ t) = some (toValues items, t) := by
  cases items with
  | nil => exact absurd rfl hne
  | cons v items =>
    cases items with
    | nil =>
      obtain ⟨dv, hdv, rfl⟩ := Option.map_eq_some_iff.mp hd
      have hread := ih.value (t := L.closing depth ++ ord ']' :: t) hdv
        (ends_blank (L.blank_closing depth) (by decide)) (by simp at hlen; omega)
      rw [List.append_assoc, List.append_assoc, List.cons_append, List.nil_append,
        readItems.eq_def]
      dsimp only
      rw [hread, Option.bind_some]
      dsimp only
      rw [after_blank_self (L.blank_closing depth) rfl]
      rfl
    | cons w items =>
      obtain ⟨dv, hdv, hrest⟩ := Option.bind_eq_some_iff.mp hd
      obtain ⟨rest, htail, rfl⟩ := Option.map_eq_some_iff.mp hrest
      have hread := ih.value (t := ord ',' :: (L.comma depth ++ (rest ++ t))) hdv
        (ends_cons (by decide) _) (by simp at hlen; omega)
      have hrec := ih.items t htail (List.cons_ne_nil _ _) (by simp at hlen; omega)
      obtain ⟨c, l, rfl, hc, -⟩ := dumpItems_cons htail
      rw [List.cons_append] at hread hrec
      simp only [List.append_assoc, List.cons_append]
      rw [readItems.eq_def]
      dsimp only
      rw [hread, Option.bind_some]
      dsimp only
      rw [after_ne rfl (by decide)]
      dsimp only
      rw [after_self rfl, Option.bind_some, skipSpace_blank (L.blank_comma depth) hc, hrec]
      rfl

/-- Members are read back where each is. -/
theorem ReadsBack.entries_step {members : List (String × Data)} (t : Text)
    (hd : dumpEntries L depth members = some d) (hne : members ≠ []) (hlen : d.length < fuel + 1) :
    ∃ d', d = quote :: d' ∧ readMembers (fuel + 1) (d' ++ t) = some (toMembers members, t) := by
  cases members with
  | nil => exact absurd rfl hne
  | cons m members =>
    obtain ⟨name, v⟩ := m
    cases members with
    | nil =>
      obtain ⟨dv, hdv, rfl⟩ := Option.map_eq_some_iff.mp hd
      have hread := ih.value (t := L.closing depth ++ ord '}' :: t) hdv
        (ends_blank (L.blank_closing depth) (by decide)) (by simp at hlen; omega)
      obtain ⟨c, l, rfl, hc, -⟩ := dumpData_cons hdv
      refine ⟨(codes name).flatMap (escapeWith L.ascii) ++ quote :: ord ':' ::
        (L.colon ++ (c :: l ++ (L.closing depth ++ [ord '}']))), by simp [writeString], ?_⟩
      rw [List.cons_append] at hread
      rw [readMembers.eq_def]
      dsimp only
      simp only [List.append_assoc, List.cons_append, List.nil_append]
      rw [readString_write, Option.bind_some]
      dsimp only
      rw [after_self rfl, Option.bind_some, skipSpace_blank L.blank_colon hc, hread,
        Option.bind_some]
      dsimp only
      rw [after_blank_self (L.blank_closing depth) rfl]
      rfl
    | cons m members =>
      obtain ⟨dv, hdv, hrest⟩ := Option.bind_eq_some_iff.mp hd
      obtain ⟨rest, htail, rfl⟩ := Option.map_eq_some_iff.mp hrest
      obtain ⟨d', rfl, hrec⟩ := ih.entries t htail (List.cons_ne_nil _ _) (by simp at hlen; omega)
      have hread := ih.value (t := ord ',' :: (L.comma depth ++ quote :: (d' ++ t))) hdv
        (ends_cons (by decide) _) (by simp at hlen; omega)
      obtain ⟨c, l, rfl, hc, -⟩ := dumpData_cons hdv
      refine ⟨(codes name).flatMap (escapeWith L.ascii) ++ quote :: ord ':' ::
        (L.colon ++ (c :: l ++ ord ',' :: (L.comma depth ++ quote :: d'))),
          by simp [writeString], ?_⟩
      rw [List.cons_append] at hread
      rw [readMembers.eq_def]
      dsimp only
      simp only [List.append_assoc, List.cons_append]
      rw [readString_write, Option.bind_some]
      dsimp only
      rw [after_self rfl, Option.bind_some, skipSpace_blank L.blank_colon hc, hread,
        Option.bind_some]
      dsimp only
      rw [after_ne rfl (by decide)]
      dsimp only
      rw [after_self rfl, Option.bind_some, after_blank_self (L.blank_comma depth) rfl,
        Option.bind_some, hrec]
      rfl

end steps

/-- What is written is read back, with fuel for its length. -/
theorem readsBack (L : Layout) (fuel : ℕ) : ReadsBack L fuel := by
  induction fuel with
  | zero =>
    exact ⟨fun _ _ h => absurd h (Nat.not_lt_zero _), fun _ _ _ h => absurd h (Nat.not_lt_zero _),
      fun _ _ _ h => absurd h (Nat.not_lt_zero _)⟩
  | succ fuel ih => exact ⟨ih.value_step, ih.items_step, ih.entries_step⟩

/-- What `json.dumps` writes, `json.loads` reads, in any layout. -/
theorem loads_dumpsWith (hd : dumpsWith L v = some d) : loads d = some v.toValue := by
  have hread := (readsBack L (d.length + 1)).value (t := []) hd nofun (by omega)
  obtain ⟨c, l, rfl, hc, -⟩ := dumpData_cons hd
  have hskip : skipSpace (c :: l) = c :: l := List.dropWhile_cons_of_neg (by simp [hc])
  rw [List.append_nil] at hread
  unfold loads
  rw [hskip, hread]
  rfl

/-- The characters determine the text. -/
theorem codes_injective : Function.Injective codes := by
  intro s s' h
  have hord : Function.Injective ord := by
    intro c c' h
    rw [← Char.ofNat_toNat c, ← Char.ofNat_toNat c']
    exact congrArg Char.ofNat h
  exact String.toList_inj.mp (List.map_injective_iff.mpr hord h)

/-- A name of a written object. -/
theorem lookup_toMembers (name : String) (members : List (String × Data)) :
    lookup name (toMembers members) = (members.reverse.lookup name).map Data.toValue := by
  have hmap : ∀ l : List (String × Data),
      toMembers l = l.map fun m => (codes m.1, m.2.toValue) := by
    intro l
    induction l with
    | nil => rfl
    | cons m l ih => rw [toMembers, ih, List.map_cons]
  unfold lookup
  rw [hmap, ← List.map_reverse]
  generalize members.reverse = l
  induction l with
  | nil => rfl
  | cons m l ih =>
    rw [List.map_cons, List.lookup_cons, List.lookup_cons, ih]
    by_cases hname : name = m.1
    · simp [hname]
    · have hcodes : codes name ≠ codes m.1 := fun h => hname (codes_injective h)
      simp [beq_eq_false_iff_ne.mpr hname, beq_eq_false_iff_ne.mpr hcodes]

/-! ## What is written with `ensure_ascii` is ASCII -/

def Ascii (t : Text) : Prop := ∀ c ∈ t, 0 < c ∧ c < 128

/-- ASCII texts make an ASCII text. -/
theorem Ascii.append {t u : Text} (ht : Ascii t) (hu : Ascii u) : Ascii (t ++ u) := by
  intro c hc
  cases List.mem_append.mp hc with
  | inl hleft => exact ht c hleft
  | inr hright => exact hu c hright

/-- An ASCII character before an ASCII text. -/
theorem Ascii.cons (hc : 0 < c ∧ c < 128) (ht : Ascii t) : Ascii (c :: t) := by
  intro d hd
  cases List.mem_cons.mp hd with
  | inl hfirst => rwa [hfirst]
  | inr hrest => exact ht d hrest

/-- The empty text is ASCII. -/
theorem ascii_nil : Ascii [] := fun _ hc => absurd hc List.not_mem_nil

/-- An ASCII character alone. -/
theorem ascii_one (hc : 0 < c ∧ c < 128) : Ascii [c] := ascii_nil.cons hc

/-- A printable text is ASCII. -/
theorem Printable.ascii (h : Printable t) : Ascii t := by
  intro c hc
  have hrange := h c hc
  omega

/-- Blanks are ASCII. -/
theorem ascii_blank (h : ∀ c ∈ t, isSpace c = true) : Ascii t := by
  intro c hc
  have hspace := h c hc
  simp [isSpace] at hspace
  omega

/-- Digits are ASCII. -/
theorem ascii_digits (h : ∀ c ∈ t, isDigit c = true) : Ascii t := by
  intro c hc
  have hdigit := h c hc
  simp [isDigit] at hdigit
  omega

/-- A written integer is ASCII. -/
theorem ascii_dumpInt {n : ℤ} (hd : dumpInt n = some d) : Ascii d := by
  have hdigits : Ascii (dumpNat n.natAbs) := ascii_digits fun c hc => isDigit_dumpNat hc
  cases (dumpInt_eq hd).2 with
  | inl hneg => exact hneg.2 ▸ hdigits.cons (by decide)
  | inr hpos => exact hpos.2 ▸ hdigits

/-- A written decimal is ASCII. -/
theorem Decimal.ascii_text (x : Decimal) : Ascii x.text := by
  have hwhole : Ascii (dumpNat x.whole) := ascii_digits fun c hc => isDigit_dumpNat hc
  have hfraction : Ascii x.fractionText := by
    unfold fractionText
    split
    · exact ascii_nil
    · exact (ascii_digits x.fraction_digits).cons (by decide)
  have hexponent : Ascii x.exponentText := by
    unfold exponentText
    split
    · exact ascii_nil
    · next minus digits hx =>
      have hdigits := ascii_digits (x.exponent_digits _ hx).2
      refine (hdigits.cons ?_).cons (by decide)
      cases minus <;> decide
  have hunsigned : Ascii x.unsigned := (hwhole.append hfraction).append hexponent
  unfold text
  split
  · exact hunsigned.cons (by decide)
  · exact hunsigned

/-- A text that is written with escapes is ASCII. -/
theorem ascii_writeString (hL : L.ascii = true) (s : String) : Ascii (writeString L.ascii s) := by
  rw [hL]
  exact (printable_dumpString s).ascii

mutual

/-- A value that is written with escapes is ASCII. -/
theorem ascii_dumpData (hL : L.ascii = true) {depth : ℕ} {d : Text} : (v : Data) →
    dumpData L depth v = some d → Ascii d
  | .null, hd => by
    obtain rfl := Option.some.inj hd
    unfold Ascii
    decide
  | .bool b, hd => by
    obtain rfl := Option.some.inj hd
    unfold Ascii
    cases b <;> decide
  | .int n, hd => ascii_dumpInt hd
  | .float x, hd => by
    obtain rfl := Option.some.inj hd
    exact x.ascii_text
  | .str s, hd => by
    obtain rfl := Option.some.inj hd
    exact ascii_writeString hL s
  | .arr [], hd => by
    obtain rfl := Option.some.inj hd
    unfold Ascii
    decide
  | .arr (v :: items), hd => by
    obtain ⟨body, hbody, rfl⟩ := Option.map_eq_some_iff.mp hd
    exact ((ascii_blank (L.blank_opening depth)).append
      (ascii_dumpItems hL (v :: items) hbody)).cons (by decide)
  | .obj [], hd => by
    obtain rfl := Option.some.inj hd
    unfold Ascii
    decide
  | .obj (m :: members), hd => by
    obtain ⟨body, hbody, rfl⟩ := Option.map_eq_some_iff.mp hd
    exact ((ascii_blank (L.blank_opening depth)).append
      (ascii_dumpEntries hL (m :: members) hbody)).cons (by decide)

/-- Items that are written with escapes are ASCII. -/
theorem ascii_dumpItems (hL : L.ascii = true) {depth : ℕ} {d : Text} : (items : List Data) →
    dumpItems L depth items = some d → Ascii d
  | [], hd => by
    obtain rfl := Option.some.inj hd
    exact (ascii_blank (L.blank_closing depth)).append (ascii_one (by decide))
  | [v], hd => by
    obtain ⟨dv, hdv, rfl⟩ := Option.map_eq_some_iff.mp hd
    exact ((ascii_dumpData hL v hdv).append (ascii_blank (L.blank_closing depth))).append
      (ascii_one (by decide))
  | v :: w :: items, hd => by
    obtain ⟨dv, hdv, hrest⟩ := Option.bind_eq_some_iff.mp hd
    obtain ⟨rest, htail, rfl⟩ := Option.map_eq_some_iff.mp hrest
    exact ((ascii_dumpData hL v hdv).append
      ((ascii_blank (L.blank_comma depth)).cons (by decide))).append
        (ascii_dumpItems hL (w :: items) htail)

/-- Members that are written with escapes are ASCII. -/
theorem ascii_dumpEntries (hL : L.ascii = true) {depth : ℕ} {d : Text} :
    (members : List (String × Data)) → dumpEntries L depth members = some d → Ascii d
  | [], hd => by
    obtain rfl := Option.some.inj hd
    exact (ascii_blank (L.blank_closing depth)).append (ascii_one (by decide))
  | [(name, v)], hd => by
    obtain ⟨dv, hdv, rfl⟩ := Option.map_eq_some_iff.mp hd
    exact ((((ascii_writeString hL name).append
      ((ascii_blank L.blank_colon).cons (by decide))).append (ascii_dumpData hL v hdv)).append
        (ascii_blank (L.blank_closing depth))).append (ascii_one (by decide))
  | (name, v) :: m :: members, hd => by
    obtain ⟨dv, hdv, hrest⟩ := Option.bind_eq_some_iff.mp hd
    obtain ⟨rest, htail, rfl⟩ := Option.map_eq_some_iff.mp hrest
    exact ((((ascii_writeString hL name).append
      ((ascii_blank L.blank_colon).cons (by decide))).append (ascii_dumpData hL v hdv)).append
        ((ascii_blank (L.blank_comma depth)).cons (by decide))).append
          (ascii_dumpEntries hL (m :: members) htail)

end

end Mailman.Library.Json
