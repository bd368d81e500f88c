import Mathlib.Data.Nat.Digits.Defs
import Mathlib.Data.Nat.Digits.Lemmas

/-!
# JSON

`json.dumps` of a flat object and `json.loads` of any text, as Python has them: the writer escapes
what is not ASCII, the reader takes surrogate pairs together, lets the last of two equal names
count, and knows `NaN` and `Infinity`. A text is the list of its code points, since a string that
was read may hold a surrogate on its own. A float stays the text it was written as.
-/

set_option autoImplicit false

namespace Mailman.Library.Json

abbrev Text := List ℕ

def ord (c : Char) : ℕ := c.toNat

/-- The code points of a string. -/
def codes (s : String) : Text := s.toList.map ord

def quote : ℕ := 34

def backslash : ℕ := 92

inductive Value where
  | null
  | bool (b : Bool)
  | int (n : ℤ)
  | float (lexeme : Text)
  | str (s : Text)
  | arr (items : List Value)
  | obj (members : List (Text × Value))

/-- The most digits of an integer that Python prints or reads. -/
def maxDigits : ℕ := 4300

/-! ## The writer -/

/-- A code point and what follows the backslash of its short escape. -/
def shortEscapes : List (ℕ × ℕ) :=
  [(quote, quote), (backslash, backslash), (8, ord 'b'), (12, ord 'f'), (10, ord 'n'),
    (13, ord 'r'), (9, ord 't')]

def hexDigit (v : ℕ) : ℕ := if v < 10 then 48 + v else 87 + v

/-- `\uXXXX`. -/
def unicodeEscape (v : ℕ) : Text :=
  [backslash, ord 'u', hexDigit (v / 4096 % 16), hexDigit (v / 256 % 16), hexDigit (v / 16 % 16),
    hexDigit (v % 16)]

/-- The surrogates of a code point above 65535. -/
def high (c : ℕ) : ℕ := 0xd800 + (c - 0x10000) / 0x400

def low (c : ℕ) : ℕ := 0xdc00 + (c - 0x10000) % 0x400

def escape (c : ℕ) : Text :=
  match shortEscapes.lookup c with
  | some e => [backslash, e]
  | none =>
    if 32 ≤ c ∧ c ≤ 126 then [c]
    else if c < 0x10000 then unicodeEscape c
    else unicodeEscape (high c) ++ unicodeEscape (low c)

def dumpString (s : String) : Text := quote :: (codes s).flatMap escape ++ [quote]

def dumpNat (n : ℕ) : Text :=
  if n = 0 then [ord '0'] else (Nat.digits 10 n).reverse.map (· + 48)

def dumpInt (n : ℤ) : Option Text :=
  if (dumpNat n.natAbs).length ≤ maxDigits then
    some (if n < 0 then ord '-' :: dumpNat n.natAbs else dumpNat n.natAbs)
  else none

/-- A value of a flat object. -/
inductive Field where
  | str (s : String)
  | int (n : ℤ)

def Field.dump : Field → Option Text
  | .str s => some (dumpString s)
  | .int n => dumpInt n

def Field.toValue : Field → Value
  | .str s => .str (codes s)
  | .int n => .int n

/-- The members of an object up to its closing brace. -/
def dumpMembers : List (String × Field) → Option Text
  | [] => some [ord '}']
  | [(name, v)] => v.dump.map fun t => dumpString name ++ ord ':' :: t ++ [ord '}']
  | (name, v) :: members => v.dump.bind fun t => (dumpMembers members).map fun rest =>
      dumpString name ++ ord ':' :: t ++ ord ',' :: rest

/-- `json.dumps` with the separators `,` and `:`. -/
def dumps (members : List (String × Field)) : Option Text :=
  (dumpMembers members).map (ord '{' :: ·)

/-! ## The reader -/

def isSpace (c : ℕ) : Bool := c = 32 || c = 9 || c = 10 || c = 13

def skipSpace (t : Text) : Text := t.dropWhile isSpace

def isDigit (c : ℕ) : Bool := 48 ≤ c && c ≤ 57

def hexValue (c : ℕ) : Option ℕ :=
  if 48 ≤ c ∧ c ≤ 57 then some (c - 48)
  else if 97 ≤ c ∧ c ≤ 102 then some (c - 87)
  else if 65 ≤ c ∧ c ≤ 70 then some (c - 55)
  else none

def hexValue4 (a b c d : ℕ) : Option ℕ :=
  (hexValue a).bind fun a => (hexValue b).bind fun b => (hexValue c).bind fun c =>
    (hexValue d).map fun d => a * 4096 + b * 256 + c * 16 + d

/-- The code point of a short escape. -/
def unescape (e : ℕ) : Option ℕ :=
  (((ord '/', ord '/') :: shortEscapes).find? (·.2 = e)).map (·.1)

/-- What is between the quotes, after the first of them: every code point, and whether it was
written as `\uXXXX`. -/
def scanString : Text → Option (List (ℕ × Bool) × Text)
  | [] => none
  | c :: t =>
    if c = quote then some ([], t)
    else if c = backslash then
      match t with
      | [] => none
      | e :: t =>
        if e = ord 'u' then
          match t with
          | p :: q :: r :: s :: t => (hexValue4 p q r s).bind fun v =>
              (scanString t).map fun z => ((v, true) :: z.1, z.2)
          | _ => none
        else (unescape e).bind fun v => (scanString t).map fun z => ((v, false) :: z.1, z.2)
    else if c < 32 then none
    else (scanString t).map fun z => ((c, false) :: z.1, z.2)

def isHigh (c : ℕ) : Bool := 0xd800 ≤ c && c ≤ 0xdbff

def isLow (c : ℕ) : Bool := 0xdc00 ≤ c && c ≤ 0xdfff

/-- Two escaped surrogates that belong together are one code point. -/
def pairUp : List (ℕ × Bool) → Text
  | [] => []
  | [(c, _)] => [c]
  | (c, b) :: (d, b') :: l =>
    if b && b' && isHigh c && isLow d then
      (0x10000 + (c - 0xd800) * 0x400 + (d - 0xdc00)) :: pairUp l
    else c :: pairUp ((d, b') :: l)

def readString (t : Text) : Option (Text × Text) :=
  (scanString t).map fun z => (pairUp z.1, z.2)

/-- The digits of an integer without its sign: a zero, or digits that do not start with one. -/
def readDigits : Text → Option (Text × Text)
  | [] => none
  | c :: t =>
    if c = ord '0' then some ([c], t)
    else if isDigit c then some (c :: t.takeWhile isDigit, t.dropWhile isDigit)
    else none

/-- A dot and the digits after it, if there are any. -/
def readFraction : Text → Text × Text
  | [] => ([], [])
  | c :: t =>
    if c = ord '.' ∧ t.takeWhile isDigit ≠ [] then
      (c :: t.takeWhile isDigit, t.dropWhile isDigit)
    else ([], c :: t)

def readSign : Text → Text × Text
  | [] => ([], [])
  | c :: t => if c = ord '+' ∨ c = ord '-' then ([c], t) else ([], c :: t)

def readExponent : Text → Text × Text
  | [] => ([], [])
  | c :: t =>
    if (c = ord 'e' ∨ c = ord 'E') ∧ (readSign t).2.takeWhile isDigit ≠ [] then
      (c :: (readSign t).1 ++ (readSign t).2.takeWhile isDigit, (readSign t).2.dropWhile isDigit)
    else ([], c :: t)

def natOf (ds : Text) : ℕ := Nat.ofDigits 10 (ds.map (· - 48)).reverse

/-- A number whose minus, if it has one, was read. -/
def readUnsigned (minus : Bool) (t : Text) : Option (Value × Text) :=
  (readDigits t).bind fun (ds, t) =>
    let fraction := readFraction t
    let exponent := readExponent fraction.2
    if fraction.1 = [] ∧ exponent.1 = [] then
      if ds.length ≤ maxDigits then
        some (.int (if minus then -(natOf ds : ℤ) else natOf ds), exponent.2)
      else none
    else
      some (.float ((if minus then [ord '-'] else []) ++ ds ++ fraction.1 ++ exponent.1),
        exponent.2)

def readNumber : Text → Option (Value × Text)
  | [] => none
  | c :: t => if c = ord '-' then readUnsigned true t else readUnsigned false (c :: t)

/-- The words that are values. -/
def words : List (String × Value) :=
  [("null", .null), ("true", .bool true), ("false", .bool false), ("NaN", .float (codes "NaN")),
    ("Infinity", .float (codes "Infinity")), ("-Infinity", .float (codes "-Infinity"))]

def readWord (t : Text) : Option (Value × Text) :=
  words.findSome? fun w => ((codes w.1).isPrefixOf? t).map fun rest => (w.2, rest)

/-- What follows a code point, after white space. -/
def after (c : ℕ) (t : Text) : Option Text :=
  match skipSpace t with
  | [] => none
  | d :: t => if d = c then some t else none

mutual

/-- A value; the fuel is more than the text is long. -/
def readValue : ℕ → Text → Option (Value × Text)
  | 0, _ => none
  | _ + 1, [] => none
  | fuel + 1, c :: t =>
    if c = quote then (readString t).map fun z => (.str z.1, z.2)
    else if c = ord '{' then
      match after (ord '}') t with
      | some t => some (.obj [], t)
      | none => ((after quote t).bind (readMembers fuel)).map fun z => (.obj z.1, z.2)
    else if c = ord '[' then
      match after (ord ']') t with
      | some t => some (.arr [], t)
      | none => (readItems fuel (skipSpace t)).map fun z => (.arr z.1, z.2)
    else (readWord (c :: t)).or (readNumber (c :: t))

/-- The members of an object, after the quote of the first name. -/
def readMembers : ℕ → Text → Option (List (Text × Value) × Text)
  | 0, _ => none
  | fuel + 1, t =>
    (readString t).bind fun (name, t) => (after (ord ':') t).bind fun t =>
      (readValue fuel (skipSpace t)).bind fun (v, t) =>
        match after (ord '}') t with
        | some t => some ([(name, v)], t)
        | none => (after (ord ',') t).bind fun t => (after quote t).bind fun t =>
            (readMembers fuel t).map fun z => ((name, v) :: z.1, z.2)

def readItems : ℕ → Text → Option (List Value × Text)
  | 0, _ => none
  | fuel + 1, t =>
    (readValue fuel t).bind fun (v, t) =>
      match after (ord ']') t with
      | some t => some ([v], t)
      | none => (after (ord ',') t).bind fun t =>
          (readItems fuel (skipSpace t)).map fun z => (v :: z.1, z.2)

end

/-- `json.loads` of a text. -/
def loads (t : Text) : Option Value :=
  (readValue (t.length + 1) (skipSpace t)).bind fun (v, t) =>
    if skipSpace t = [] then some v else none

/-- The value of a name: the last that was given. -/
def lookup (name : String) (members : List (Text × Value)) : Option Value :=
  members.reverse.lookup (codes name)

/-! ## What is written is read back -/

/-- The code points that are no surrogates. -/
def Scalar (c : ℕ) : Prop := c < 0xd800 ∨ (0xdfff < c ∧ c < 0x110000)

/-- The characters of a text are scalar values. -/
theorem scalar_codes {s : String} {c : ℕ} (h : c ∈ codes s) : Scalar c := by
  obtain ⟨d, -, rfl⟩ := List.mem_map.mp h
  exact d.valid

/-- What `scanString` makes of an escaped code point. -/
def units (c : ℕ) : List (ℕ × Bool) :=
  match shortEscapes.lookup c with
  | some _ => [(c, false)]
  | none =>
    if 32 ≤ c ∧ c ≤ 126 then [(c, false)]
    else if c < 0x10000 then [(c, true)]
    else [(high c, true), (low c, true)]

/-- A hexadecimal digit is read back. -/
theorem hexValue_hexDigit {v : ℕ} (hv : v < 16) : hexValue (hexDigit v) = some v := by
  unfold hexValue hexDigit
  split <;> grind

section scan

variable {c e : ℕ} (t : Text)

/-- A quote ends the text. -/
theorem scanString_quote : scanString (quote :: t) = some ([], t) := by
  rw [scanString.eq_def]
  exact if_pos rfl

/-- A plain character stands for itself. -/
theorem scanString_plain (hquote : c ≠ quote) (hbackslash : c ≠ backslash) (hc : 32 ≤ c) :
    scanString (c :: t) = (scanString t).map fun z => ((c, false) :: z.1, z.2) := by
  rw [scanString.eq_def]
  dsimp only
  rw [if_neg hquote, if_neg hbackslash, if_neg (by omega)]

/-- A short escape stands for its character. -/
theorem scanString_short (hu : e ≠ ord 'u') :
    scanString (backslash :: e :: t) =
      (unescape e).bind fun v => (scanString t).map fun z => ((v, false) :: z.1, z.2) := by
  rw [scanString.eq_def]
  dsimp only
  rw [if_neg (show backslash ≠ quote by decide), if_pos rfl, if_neg hu]

/-- An escape of four digits stands for its unit. -/
theorem scanString_hex (p q r s : ℕ) :
    scanString (backslash :: ord 'u' :: p :: q :: r :: s :: t) =
      (hexValue4 p q r s).bind fun v =>
        (scanString t).map fun z => ((v, true) :: z.1, z.2) := by
  rw [scanString.eq_def]
  rfl

end scan

/-- A written unit is read back. -/
theorem scanString_unicodeEscape {v : ℕ} (hv : v < 0x10000) (t : Text) :
    scanString (unicodeEscape v ++ t) = (scanString t).map fun z => ((v, true) :: z.1, z.2) := by
  have hsum : v / 4096 % 16 * 4096 + v / 256 % 16 * 256 + v / 16 % 16 * 16 + v % 16 = v := by omega
  have hvalue : hexValue4 (hexDigit (v / 4096 % 16)) (hexDigit (v / 256 % 16))
      (hexDigit (v / 16 % 16)) (hexDigit (v % 16)) = some v := by
    unfold hexValue4
    rw [hexValue_hexDigit (by omega), hexValue_hexDigit (by omega), hexValue_hexDigit (by omega),
      hexValue_hexDigit (by omega)]
    simp only [Option.bind_some, Option.map_some, hsum]
  simp only [unicodeEscape, List.cons_append, List.nil_append]
  rw [scanString_hex, hvalue, Option.bind_some]

/-- The short escapes are read back. -/
theorem unescape_short {c e : ℕ} (h : shortEscapes.lookup c = some e) :
    unescape e = some c ∧ e ≠ ord 'u' := by
  have hall : ∀ p ∈ shortEscapes, unescape p.2 = some p.1 ∧ p.2 ≠ ord 'u' := by decide
  have hmem : (c, e) ∈ shortEscapes := by
    obtain ⟨l, l', hl, -⟩ := List.lookup_eq_some_iff.mp h
    rw [hl]
    exact List.mem_append_right l List.mem_cons_self
  exact hall (c, e) hmem

/-- An escaped character is read back as its units. -/
theorem scanString_escape {c : ℕ} (hc : Scalar c) (t : Text) :
    scanString (escape c ++ t) = (scanString t).map fun z => (units c ++ z.1, z.2) := by
  unfold escape units
  cases hshort : shortEscapes.lookup c with
  | some e =>
    obtain ⟨hread, hu⟩ := unescape_short hshort
    simp only [List.cons_append, List.nil_append]
    rw [scanString_short t hu, hread, Option.bind_some]
  | none =>
    dsimp only
    have hquote : c ≠ quote := by
      rintro rfl
      cases hshort
    have hbackslash : c ≠ backslash := by
      rintro rfl
      cases hshort
    split
    · next hprint =>
      exact scanString_plain t hquote hbackslash hprint.1
    · split
      · next hsmall => exact scanString_unicodeEscape hsmall t
      · next hlarge =>
        have hhigh : high c < 0x10000 := by
          unfold high
          rcases hc with hc | hc <;> omega
        have hlow : low c < 0x10000 := by
          unfold low
          omega
        rw [List.append_assoc, scanString_unicodeEscape hhigh, scanString_unicodeEscape hlow,
          Option.map_map]
        rfl

/-- A unit that no low surrogate can join. -/
theorem pairUp_cons {c : ℕ} {b : Bool} (h : b = true → isHigh c = false) (l : List (ℕ × Bool)) :
    pairUp ((c, b) :: l) = c :: pairUp l := by
  cases l with
  | nil => rfl
  | cons d l =>
    rw [pairUp, if_neg]
    cases b with
    | false => simp
    | true => simp [h rfl]

/-- The units of a character pair up to it. -/
theorem pairUp_units {c : ℕ} (hc : Scalar c) (l : List (ℕ × Bool)) :
    pairUp (units c ++ l) = c :: pairUp l := by
  unfold units
  split
  · exact pairUp_cons (by simp) l
  · split
    · exact pairUp_cons (by simp) l
    · split
      · next hsmall =>
        apply pairUp_cons
        intro
        unfold Scalar at hc
        simp [isHigh]
        omega
      · next hlarge =>
        have hpair : (isHigh (high c) && isLow (low c)) = true := by
          unfold Scalar at hc
          have hrange : (0xd800 ≤ high c ∧ high c ≤ 0xdbff) ∧ 0xdc00 ≤ low c ∧ low c ≤ 0xdfff := by
            unfold high low
            omega
          simpa [isHigh, isLow] using hrange
        have hvalue : 0x10000 + (high c - 0xd800) * 0x400 + (low c - 0xdc00) = c := by
          unfold high low
          omega
        rw [List.cons_append, List.cons_append, List.nil_append, pairUp, if_pos (by simpa using hpair),
          hvalue]

/-- A dumped string, after its first quote. -/
theorem readString_dump (s : String) (t : Text) :
    readString ((codes s).flatMap escape ++ quote :: t) = some (codes s, t) := by
  have hscan : ∀ l : Text, (∀ c ∈ l, Scalar c) →
      scanString (l.flatMap escape ++ quote :: t) = some (l.flatMap units, t) ∧
        pairUp (l.flatMap units) = l := by
    intro l hl
    induction l with
    | nil => exact ⟨scanString_quote t, rfl⟩
    | cons c l ih =>
      obtain ⟨hscan, hpair⟩ := ih fun d hd => hl d (List.mem_cons_of_mem c hd)
      have hc := hl c List.mem_cons_self
      rw [List.flatMap_cons, List.flatMap_cons, List.append_assoc, scanString_escape hc, hscan,
        pairUp_units hc, hpair]
      exact ⟨rfl, rfl⟩
  obtain ⟨hscan, hpair⟩ := hscan (codes s) fun c hc => scalar_codes hc
  rw [readString, hscan, Option.map_some, hpair]

/-- The next code point cannot belong to a number. -/
def Ends (t : Text) : Prop :=
  ∀ c ∈ t.head?, isDigit c = false ∧ c ≠ ord '.' ∧ c ≠ ord 'e' ∧ c ≠ ord 'E'

/-- Where a number ends there is no digit. -/
theorem Ends.takeWhile {t : Text} (h : Ends t) :
    t.takeWhile isDigit = [] ∧ t.dropWhile isDigit = t := by
  cases t with
  | nil => exact ⟨rfl, rfl⟩
  | cons c t => simp [(h c rfl).1]

/-- Where a number ends there is no fraction. -/
theorem Ends.readFraction {t : Text} (h : Ends t) : readFraction t = ([], t) := by
  cases t with
  | nil => rfl
  | cons c t => exact if_neg fun hc => (h c rfl).2.1 hc.1

/-- Where a number ends there is no exponent. -/
theorem Ends.readExponent {t : Text} (h : Ends t) : readExponent t = ([], t) := by
  cases t with
  | nil => rfl
  | cons c t =>
    obtain ⟨-, -, he, hE⟩ := h c rfl
    exact if_neg fun hc => hc.1.elim he hE

/-- The digits of a number give it back. -/
theorem natOf_dumpNat (n : ℕ) : natOf (dumpNat n) = n := by
  unfold natOf dumpNat
  by_cases hn : n = 0
  · rw [if_pos hn, hn]
    rfl
  · rw [if_neg hn, List.map_map, List.map_reverse, List.reverse_reverse]
    have hid : ((· - 48) ∘ (· + 48) : ℕ → ℕ) = id := by
      funext d
      exact Nat.add_sub_cancel d 48
    rw [hid, List.map_id, Nat.ofDigits_digits]

/-- A written number is of digits. -/
theorem isDigit_dumpNat {n c : ℕ} (h : c ∈ dumpNat n) : isDigit c = true := by
  unfold dumpNat at h
  split at h
  · rw [List.mem_singleton.mp h]
    rfl
  · obtain ⟨d, hd, rfl⟩ := List.mem_map.mp h
    have hlt : d < 10 := Nat.digits_lt_base (by omega) (List.mem_reverse.mp hd)
    simp [isDigit]
    omega

/-- A number other than zero does not start with a zero. -/
theorem dumpNat_cons {n : ℕ} (hn : n ≠ 0) : ∃ c l, dumpNat n = c :: l ∧ c ≠ ord '0' := by
  have hlast := Nat.getLast_digit_ne_zero 10 hn
  cases hrev : (Nat.digits 10 n).reverse with
  | nil => exact absurd (List.reverse_eq_nil_iff.mp hrev) (Nat.digits_ne_nil_iff_ne_zero.mpr hn)
  | cons d ds =>
    have hdigits : Nat.digits 10 n = ds.reverse ++ [d] := by
      rw [← List.reverse_reverse (Nat.digits 10 n), hrev, List.reverse_cons]
    have hd : d ≠ 0 := by
      rwa [List.getLast_congr _ (by simp) hdigits, List.getLast_append_singleton] at hlast
    refine ⟨d + 48, ds.map (· + 48), ?_, ?_⟩
    · rw [dumpNat, if_neg hn, hrev, List.map_cons]
    · show d + 48 ≠ 48
      omega

/-- The digits of a number, up to what ends it. -/
theorem readDigits_dumpNat (n : ℕ) {t : Text} (ht : Ends t) :
    readDigits (dumpNat n ++ t) = some (dumpNat n, t) := by
  by_cases hn : n = 0
  · rw [hn]
    rfl
  · obtain ⟨c, l, hcons, hc⟩ := dumpNat_cons hn
    have hall : ∀ d ∈ c :: l, isDigit d = true := fun d hd => isDigit_dumpNat (hcons ▸ hd)
    have hl : ∀ d ∈ l, isDigit d = true := fun d hd => hall d (List.mem_cons_of_mem c hd)
    rw [hcons, List.cons_append, readDigits, if_neg hc, if_pos (hall c List.mem_cons_self),
      List.takeWhile_append_of_pos hl, List.dropWhile_append_of_pos hl, ht.takeWhile.1,
      ht.takeWhile.2, List.append_nil]

/-- A written number is read back with its sign. -/
theorem readUnsigned_dumpNat (minus : Bool) {n : ℕ} (hn : (dumpNat n).length ≤ maxDigits)
    {t : Text} (ht : Ends t) :
    readUnsigned minus (dumpNat n ++ t) =
      some (.int (if minus then -(n : ℤ) else n), t) := by
  unfold readUnsigned
  rw [readDigits_dumpNat n ht, Option.bind_some]
  dsimp only
  rw [ht.readFraction]
  dsimp only
  rw [ht.readExponent]
  dsimp only
  rw [if_pos ⟨rfl, rfl⟩, if_pos hn, natOf_dumpNat]

/-- A written number starts with a digit. -/
theorem dumpNat_digit (n : ℕ) : ∃ c l, dumpNat n = c :: l ∧ isDigit c = true := by
  have hne : dumpNat n ≠ [] := by
    by_cases hn : n = 0
    · simp [dumpNat, hn]
    · obtain ⟨c, l, hcons, -⟩ := dumpNat_cons hn
      simp [hcons]
  obtain ⟨c, l, hcons⟩ := List.exists_cons_of_ne_nil hne
  exact ⟨c, l, hcons, isDigit_dumpNat (hcons ▸ List.mem_cons_self)⟩

/-- A digit is no other character. -/
theorem ne_of_isDigit {c d : ℕ} (hc : isDigit c = true) (hd : isDigit d = false) : c ≠ d := by
  rintro rfl
  rw [hc] at hd
  cases hd

/-- Digits with a minus or without. -/
theorem dumpInt_eq {n : ℤ} {d : Text} (hd : dumpInt n = some d) :
    (dumpNat n.natAbs).length ≤ maxDigits ∧
      (n < 0 ∧ d = ord '-' :: dumpNat n.natAbs ∨ 0 ≤ n ∧ d = dumpNat n.natAbs) := by
  unfold dumpInt at hd
  split at hd
  · next hlen =>
    obtain rfl := Option.some.inj hd
    refine ⟨hlen, ?_⟩
    by_cases hneg : n < 0
    · exact .inl ⟨hneg, if_pos hneg⟩
    · exact .inr ⟨by omega, if_neg hneg⟩
  · cases hd

/-- A written integer is read back as a number. -/
theorem readNumber_dumpInt {n : ℤ} {d t : Text} (hd : dumpInt n = some d) (ht : Ends t) :
    readNumber (d ++ t) = some (.int n, t) := by
  obtain ⟨hlen, hcases⟩ := dumpInt_eq hd
  cases hcases with
  | inl hneg =>
    rw [hneg.2, List.cons_append, readNumber, if_pos rfl, readUnsigned_dumpNat true hlen ht,
      if_pos rfl, Int.ofNat_natAbs_of_nonpos (by omega), neg_neg]
  | inr hpos =>
    have hread := readUnsigned_dumpNat false hlen ht
    rw [if_neg (by decide), Int.natAbs_of_nonneg hpos.1] at hread
    obtain ⟨c, l, hcons, hc⟩ := dumpNat_digit n.natAbs
    rw [hcons, List.cons_append] at hread
    rw [hpos.2, hcons, List.cons_append, readNumber, if_neg (ne_of_isDigit hc rfl), hread]

/-- A digit starts no word, and neither does a digit behind a minus. -/
theorem readWord_digit {c : ℕ} (hc : isDigit c = true) (t : Text) :
    readWord (c :: t) = none ∧ readWord (ord '-' :: c :: t) = none := by
  have hall : ∀ w ∈ words, ∃ a b l, codes w.1 = a :: b :: l ∧ isDigit a = false ∧
      isDigit b = false := by
    have hword (s : String) (v : Value) (h : ∃ a b l, codes s = a :: b :: l ∧
        isDigit a = false ∧ isDigit b = false) : ∃ a b l, codes (s, v).1 = a :: b :: l ∧
          isDigit a = false ∧ isDigit b = false := h
    intro w hw
    simp only [words, List.mem_cons, List.not_mem_nil, or_false] at hw
    rcases hw with rfl | rfl | rfl | rfl | rfl | rfl <;> exact ⟨_, _, _, rfl, rfl, rfl⟩
  unfold readWord
  rw [List.findSome?_eq_none_iff, List.findSome?_eq_none_iff]
  constructor
  · intro w hw
    obtain ⟨a, b, l, hcodes, ha, -⟩ := hall w hw
    have hne : a ≠ c := (ne_of_isDigit hc ha).symm
    simp [hcodes, List.isPrefixOf?, hne]
  · intro w hw
    obtain ⟨a, b, l, hcodes, -, hb⟩ := hall w hw
    have hne : b ≠ c := (ne_of_isDigit hc hb).symm
    simp [hcodes, List.isPrefixOf?, hne]

/-- A written integer is read back as a value. -/
theorem readValue_dumpInt {n : ℤ} {d t : Text} (hd : dumpInt n = some d) (ht : Ends t)
    (fuel : ℕ) : readValue (fuel + 1) (d ++ t) = some (.int n, t) := by
  have hnumber := readNumber_dumpInt hd ht
  obtain ⟨c, l, hcons, hc⟩ := dumpNat_digit n.natAbs
  have hword : readWord (d ++ t) = none := by
    cases (dumpInt_eq hd).2 with
    | inl hneg =>
      rw [hneg.2, hcons]
      exact (readWord_digit hc (l ++ t)).2
    | inr hpos =>
      rw [hpos.2, hcons]
      exact (readWord_digit hc (l ++ t)).1
  have hfirst : ∃ e l, d = e :: l ∧ e ≠ quote ∧ e ≠ ord '{' ∧ e ≠ ord '[' := by
    cases (dumpInt_eq hd).2 with
    | inl hneg => exact ⟨_, _, hneg.2, by decide, by decide, by decide⟩
    | inr hpos =>
      exact ⟨c, l, hpos.2.trans hcons, ne_of_isDigit hc rfl, ne_of_isDigit hc rfl,
        ne_of_isDigit hc rfl⟩
  obtain ⟨e, l, rfl, hquote, hbrace, hbracket⟩ := hfirst
  rw [List.cons_append] at hnumber hword ⊢
  rw [readValue.eq_def]
  dsimp only
  rw [if_neg hquote, if_neg hbrace, if_neg hbracket, hword, hnumber, Option.none_or]

/-- A dumped string, with its first quote. -/
theorem readValue_dumpString (s : String) (t : Text) (fuel : ℕ) :
    readValue (fuel + 1) (dumpString s ++ t) = some (.str (codes s), t) := by
  have hdump : dumpString s ++ t = quote :: ((codes s).flatMap escape ++ quote :: t) := by
    simp [dumpString]
  rw [hdump, readValue.eq_def]
  dsimp only
  rw [if_pos rfl, readString_dump]
  rfl

/-- A written field is read back. -/
theorem readValue_dump {v : Field} {d t : Text} (hd : v.dump = some d) (ht : Ends t) (fuel : ℕ) :
    readValue (fuel + 1) (d ++ t) = some (v.toValue, t) := by
  cases v with
  | str s =>
    obtain rfl := Option.some.inj hd
    exact readValue_dumpString s t fuel
  | int n => exact readValue_dumpInt hd ht fuel

/-- A character is found where it stands. -/
theorem after_self {c : ℕ} (hc : isSpace c = false) (t : Text) : after c (c :: t) = some t := by
  unfold after skipSpace
  rw [List.dropWhile_cons_of_neg (by simp [hc])]
  exact if_pos rfl

/-- Another character is not found. -/
theorem after_ne {c d : ℕ} (hd : isSpace d = false) (hne : d ≠ c) (t : Text) :
    after c (d :: t) = none := by
  unfold after skipSpace
  rw [List.dropWhile_cons_of_neg (by simp [hd])]
  exact if_neg hne

/-- What a value starts with is not white space. -/
theorem skipSpace_dump {v : Field} {d : Text} (hd : v.dump = some d) (t : Text) :
    skipSpace (d ++ t) = d ++ t := by
  have hfirst : ∃ c l, d = c :: l ∧ isSpace c = false := by
    cases v with
    | str s =>
      obtain rfl := Option.some.inj hd
      exact ⟨_, _, rfl, rfl⟩
    | int n =>
      cases (dumpInt_eq hd).2 with
      | inl hneg => exact ⟨_, _, hneg.2, rfl⟩
      | inr hpos =>
        obtain ⟨c, l, hcons, hc⟩ := dumpNat_digit n.natAbs
        refine ⟨c, l, hpos.2.trans hcons, ?_⟩
        simp [isDigit] at hc
        simp [isSpace]
        omega
  obtain ⟨c, l, rfl, hc⟩ := hfirst
  exact List.dropWhile_cons_of_neg (by simp [hc])

/-- Every member takes room. -/
theorem length_dumpMembers {members : List (String × Field)} {d : Text}
    (hd : dumpMembers members = some d) : members.length < d.length + 1 := by
  induction members generalizing d with
  | nil => simp
  | cons m members ih =>
    obtain ⟨name, v⟩ := m
    cases members with
    | nil =>
      obtain ⟨dv, -, rfl⟩ := Option.map_eq_some_iff.mp hd
      simp [dumpString]
    | cons m' members =>
      obtain ⟨dv, -, hrest⟩ := Option.bind_eq_some_iff.mp hd
      obtain ⟨rest, htail, rfl⟩ := Option.map_eq_some_iff.mp hrest
      have hlength := ih htail
      simp only [List.length_append, List.length_cons] at hlength ⊢
      omega

/-- A character that goes on no number ends it. -/
theorem ends_cons {c : ℕ} (h : isDigit c = false ∧ c ≠ ord '.' ∧ c ≠ ord 'e' ∧ c ≠ ord 'E')
    (t : Text) : Ends (c :: t) := by
  intro d hd
  obtain rfl := Option.some.inj hd
  exact h

/-- One member, and what the reader does with what comes after its value. -/
theorem readMembers_member (name : String) {v : Field} {d : Text} (hd : v.dump = some d) {t : Text}
    (ht : Ends t) (fuel : ℕ) :
    readMembers (fuel + 2) ((codes name).flatMap escape ++ quote :: ord ':' :: (d ++ t)) =
      match after (ord '}') t with
      | some t => some ([(codes name, v.toValue)], t)
      | none => (after (ord ',') t).bind fun t => (after quote t).bind fun t =>
          (readMembers (fuel + 1) t).map fun z => ((codes name, v.toValue) :: z.1, z.2) := by
  rw [readMembers.eq_def]
  dsimp only
  rw [readString_dump, Option.bind_some]
  dsimp only
  rw [after_self rfl, Option.bind_some, skipSpace_dump hd, readValue_dump hd ht, Option.bind_some]

/-- The members of a flat object are read back, after the quote of the first name. -/
theorem readMembers_dump {members : List (String × Field)} {d : Text}
    (hd : dumpMembers members = some d) (hne : members ≠ []) (t : Text) {fuel : ℕ}
    (hfuel : members.length < fuel) :
    ∃ d', d = quote :: d' ∧ readMembers fuel (d' ++ t) =
      some (members.map fun m => (codes m.1, m.2.toValue), t) := by
  induction members generalizing d fuel with
  | nil => exact absurd rfl hne
  | cons m members ih =>
    obtain ⟨name, v⟩ := m
    obtain ⟨fuel, rfl⟩ : ∃ k, fuel = k + 2 := ⟨fuel - 2, by simp at hfuel; omega⟩
    cases members with
    | nil =>
      obtain ⟨dv, hdv, rfl⟩ := Option.map_eq_some_iff.mp hd
      refine ⟨(codes name).flatMap escape ++ quote :: ord ':' :: (dv ++ [ord '}']),
        by simp [dumpString], ?_⟩
      have hread := readMembers_member name hdv (ends_cons (c := ord '}') (by decide) t) fuel
      rw [after_self rfl] at hread
      simpa using hread
    | cons m' members =>
      obtain ⟨dv, hdv, hrest⟩ := Option.bind_eq_some_iff.mp hd
      obtain ⟨rest, htail, rfl⟩ := Option.map_eq_some_iff.mp hrest
      have hfuel' : (m' :: members).length < fuel + 1 := by
        simp at hfuel ⊢
        omega
      obtain ⟨d', rfl, hrec⟩ := ih htail (List.cons_ne_nil _ _) hfuel'
      refine ⟨(codes name).flatMap escape ++ quote :: ord ':' :: (dv ++ ord ',' :: quote :: d'),
        by simp [dumpString], ?_⟩
      have hread := readMembers_member name hdv
        (ends_cons (c := ord ',') (by decide) (quote :: (d' ++ t))) fuel
      rw [after_ne rfl (by decide)] at hread
      dsimp only at hread
      rw [after_self rfl, Option.bind_some, after_self rfl, Option.bind_some, hrec,
        Option.map_some] at hread
      simpa using hread

/-- What `dumps` writes of a flat object, `loads` reads. -/
theorem loads_dumps {members : List (String × Field)} {d : Text} (hd : dumps members = some d)
    (hne : members ≠ []) :
    loads d = some (.obj (members.map fun m => (codes m.1, m.2.toValue))) := by
  obtain ⟨body, hbody, rfl⟩ := Option.map_eq_some_iff.mp hd
  have hlength : members.length < (ord '{' :: body).length := length_dumpMembers hbody
  obtain ⟨d', rfl, hread⟩ := readMembers_dump hbody hne [] hlength
  rw [List.append_nil] at hread
  have hskip : skipSpace (ord '{' :: quote :: d') = ord '{' :: quote :: d' := rfl
  unfold loads
  rw [hskip, readValue.eq_def]
  dsimp only
  rw [if_neg (by decide), if_pos rfl, after_ne rfl (by decide)]
  dsimp only
  rw [after_self rfl, Option.bind_some, hread]
  rfl

/-! ## What is written is ASCII -/

/-- Printable ASCII, as everything that `dumps` writes. -/
def Printable (t : Text) : Prop := ∀ c ∈ t, 32 ≤ c ∧ c ≤ 126

/-- Printable texts make a printable text. -/
theorem Printable.append {t u : Text} (ht : Printable t) (hu : Printable u) : Printable (t ++ u) := by
  intro c hc
  cases List.mem_append.mp hc with
  | inl hleft => exact ht c hleft
  | inr hright => exact hu c hright

/-- A printable character before a printable text. -/
theorem Printable.cons {c : ℕ} {t : Text} (hc : 32 ≤ c ∧ c ≤ 126) (ht : Printable t) :
    Printable (c :: t) := by
  intro d hd
  cases List.mem_cons.mp hd with
  | inl hfirst => rwa [hfirst]
  | inr hrest => exact ht d hrest

/-- The empty text is printable. -/
theorem printable_nil : Printable [] := fun _ hc => absurd hc List.not_mem_nil

/-- A written unit is printable. -/
theorem printable_unicodeEscape (v : ℕ) : Printable (unicodeEscape v) := by
  have hdigit : ∀ w : ℕ, w < 16 → 32 ≤ hexDigit w ∧ hexDigit w ≤ 126 := by
    intro w hw
    unfold hexDigit
    split <;> omega
  have hbyte : ∀ w : ℕ, 32 ≤ hexDigit (w % 16) ∧ hexDigit (w % 16) ≤ 126 :=
    fun w => hdigit (w % 16) (by omega)
  unfold unicodeEscape
  exact .cons (by decide) (.cons (by decide) (.cons (hbyte _) (.cons (hbyte _) (.cons (hbyte _)
    (.cons (hbyte _) printable_nil)))))

/-- An escaped character is printable. -/
theorem printable_escape (c : ℕ) : Printable (escape c) := by
  have hshort : ∀ p ∈ shortEscapes, 32 ≤ p.2 ∧ p.2 ≤ 126 := by decide
  unfold escape
  split
  · next e he =>
    obtain ⟨l, l', hl, -⟩ := List.lookup_eq_some_iff.mp he
    have hmem : (c, e) ∈ shortEscapes := hl ▸ List.mem_append_right l List.mem_cons_self
    exact .cons (by decide) (.cons (hshort _ hmem) printable_nil)
  · split
    · next hc => exact .cons hc printable_nil
    · split
      · exact printable_unicodeEscape c
      · exact (printable_unicodeEscape _).append (printable_unicodeEscape _)

/-- A written text is printable. -/
theorem printable_dumpString (s : String) : Printable (dumpString s) := by
  have hbody : ∀ l : Text, Printable (l.flatMap escape) := by
    intro l c hc
    obtain ⟨d, -, hd⟩ := List.mem_flatMap.mp hc
    exact printable_escape d c hd
  exact .append (.cons (by decide) (hbody _)) (.cons (by decide) printable_nil)

/-- A written field is printable. -/
theorem printable_dump {v : Field} {d : Text} (hd : v.dump = some d) : Printable d := by
  cases v with
  | str s =>
    obtain rfl := Option.some.inj hd
    exact printable_dumpString s
  | int n =>
    have hnat : Printable (dumpNat n.natAbs) := by
      intro c hc
      have hdigit := isDigit_dumpNat hc
      simp [isDigit] at hdigit
      omega
    cases (dumpInt_eq hd).2 with
    | inl hneg =>
      rw [hneg.2]
      exact .cons (by decide) hnat
    | inr hpos =>
      rw [hpos.2]
      exact hnat

/-- Written members are printable. -/
theorem printable_dumpMembers {members : List (String × Field)} {d : Text}
    (hd : dumpMembers members = some d) : Printable d := by
  induction members generalizing d with
  | nil =>
    obtain rfl := Option.some.inj hd
    exact .cons (by decide) printable_nil
  | cons m members ih =>
    obtain ⟨name, v⟩ := m
    cases members with
    | nil =>
      obtain ⟨dv, hdv, rfl⟩ := Option.map_eq_some_iff.mp hd
      exact .append (.append (printable_dumpString name) (.cons (by decide) (printable_dump hdv)))
        (.cons (by decide) printable_nil)
    | cons m' members =>
      obtain ⟨dv, hdv, hrest⟩ := Option.bind_eq_some_iff.mp hd
      obtain ⟨rest, htail, rfl⟩ := Option.map_eq_some_iff.mp hrest
      exact .append (.append (printable_dumpString name) (.cons (by decide) (printable_dump hdv)))
        (.cons (by decide) (ih htail))

/-- A written object is printable. -/
theorem printable_dumps {members : List (String × Field)} {d : Text}
    (hd : dumps members = some d) : Printable d := by
  obtain ⟨body, hbody, rfl⟩ := Option.map_eq_some_iff.mp hd
  exact .cons (by decide) (printable_dumpMembers hbody)

end Mailman.Library.Json
