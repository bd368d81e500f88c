import Mailman.Library.Calendar
import Mailman.Library.Digits
import Mathlib.Data.List.TakeWhile
import Mathlib.Tactic.Ring

/-!
# Times as texts

A time of day on a date, at microseconds, with or without an offset from UTC, and the texts of
ISO 8601: `fromIsoFormat` reads those that Python's `datetime.fromisoformat` accepts, and
`isoText` writes the form of a four-digit year down to the second. Texts of one form are in the
order of the seconds they stand for (`isoText_lt_iff`) and are read back as what was written,
without its fraction of a second (`fromIsoFormat_isoText`).
-/

set_option autoImplicit false

namespace Mailman.Library

/-- The microseconds of a day. -/
def dayMicros : ℕ := 86400000000

structure LocalTime where
  date : Date
  /-- since midnight -/
  micros : ℕ
  hmicros : micros < dayMicros
  deriving DecidableEq

/-- How far ahead of UTC a time is, in microseconds; less than a day. -/
structure Offset where
  micros : ℤ
  hmicros : -(dayMicros : ℤ) < micros ∧ micros < dayMicros
  deriving DecidableEq

namespace LocalTime

def hour (t : LocalTime) : ℕ := t.micros / 3600000000

def minute (t : LocalTime) : ℕ := t.micros / 60000000 % 60

def second (t : LocalTime) : ℕ := t.micros / 1000000 % 60

/-- The microseconds since the day before 0001-01-01. -/
def instant (t : LocalTime) : ℤ := t.date.ordinal * dayMicros + t.micros

/-- The whole seconds since that day. -/
def seconds (t : LocalTime) : ℕ := t.date.ordinal * 86400 + t.micros / 1000000

/-- Without the fraction of a second. -/
def truncate (t : LocalTime) : LocalTime where
  date := t.date
  micros := t.micros / 1000000 * 1000000
  hmicros := by
    have h := t.hmicros
    omega

/-- The time in UTC of a local time; none outside the years 1 to 9999. -/
def toUtc (t : LocalTime) (o : Offset) : Option LocalTime :=
  if hlow : (t.micros : ℤ) < o.micros then
    t.date.prev.map fun date =>
      { date, micros := (t.micros - o.micros + dayMicros).toNat, hmicros := by
          have h := t.hmicros
          omega }
  else if hhigh : t.micros - o.micros < dayMicros then
    some { date := t.date, micros := (t.micros - o.micros).toNat, hmicros := by omega }
  else
    t.date.next.map fun date =>
      { date, micros := (t.micros - o.micros - dayMicros).toNat, hmicros := by
          have h := t.hmicros
          have ho := o.hmicros.1
          omega }

end LocalTime

/-! ## Writing -/

/-- The form `YYYY-MM-DD HH:MM:SS`, with a separator between date and time. -/
def isoText (sep : Char) (t : LocalTime) : List Char :=
  fixed 4 t.date.year ++ '-' :: (fixed 2 t.date.month ++ '-' :: (fixed 2 t.date.day ++
    sep :: (fixed 2 t.hour ++ ':' :: (fixed 2 t.minute ++ ':' :: fixed 2 t.second))))

/-! ## Reading -/

/-- Exactly `n` digits, and what follows them. -/
def readFixed (n : ℕ) (cs : List Char) : Option (ℕ × List Char) :=
  if n ≤ cs.length then (readNumber (cs.take n)).map (·, cs.drop n) else none

/-- Where the date of a text ends. The form of the date is told by its fifth, sixth and ninth
characters. -/
def dateEnd (cs : List Char) : Option ℕ :=
  if cs.length = 7 then some 7
  else if cs[4]? = some '-' then
    if cs[5]? = some 'W' then
      if cs[8]? = some '-' then
        if cs.length = 9 then none
        else if cs[10]?.any isDecimal then some 8
        else some 10
      else some 8
    else some 10
  else if cs[4]? = some 'W' then
    let digits := ((cs.drop 7).takeWhile isDecimal).length
    if digits < 2 then some (7 + digits)
    else if digits % 2 = 1 then some 7
    else some 8
  else some 8

/-- The date of an ISO week and weekday; Monday is the first. -/
def isoWeekDate (year week day : ℕ) : Option Date := do
  let jan1 ← Date.ofFields year 1 1
  let weekday := (jan1.ordinal + 6) % 7
  let long := weekday = 3 ∨ weekday = 2 ∧ isLeap year
  if (1 ≤ week ∧ week ≤ 52 ∨ week = 53 ∧ long) ∧ 1 ≤ day ∧ day ≤ 7 then
    jan1.shift (((week - 1) * 7 + (day - 1) + (if weekday > 3 then 7 else 0) : ℕ) - weekday)
  else none

/-- A separator where the text has one. -/
def readDash (dashes : Bool) (cs : List Char) : Option (List Char) :=
  if dashes then (if cs.head? = some '-' then some cs.tail else none) else some cs

/-- `YYYY-MM-DD`, `YYYYMMDD`, `YYYY-Www-D`, `YYYYWwwD`, or a week without its day. -/
def readDate (cs : List Char) : Option Date := do
  let (year, rest) ← readFixed 4 cs
  let dashes := rest.head? = some '-'
  let rest := if dashes then rest.tail else rest
  if rest.head? = some 'W' then
    let (week, rest) ← readFixed 2 rest.tail
    if rest = [] then isoWeekDate year week 1
    else
      let (day, _) ← readFixed 1 (← readDash dashes rest)
      isoWeekDate year week day
  else
    let (month, rest) ← readFixed 2 rest
    let (day, _) ← readFixed 2 (← readDash dashes rest)
    Date.ofFields year month day

/-- The microseconds of a fraction; digits past the sixth are dropped. -/
def readMicros (cs : List Char) : Option ℕ :=
  if cs = [] then some 0
  else if (cs.head? = some '.' ∨ cs.head? = some ',') ∧ cs.tail ≠ [] ∧ cs.tail.all isDecimal then
    (readNumber (cs.tail.take 6)).map (· * 10 ^ (6 - (cs.tail.take 6).length))
  else none

/-- `HH`, `HH:MM`, `HH:MM:SS` or `HH:MM:SS.f`, or the same without colons: hours, minutes,
seconds and microseconds. -/
def readHms (cs : List Char) : Option (ℕ × ℕ × ℕ × ℕ) := do
  let (hour, rest) ← readFixed 2 cs
  if rest = [] then return (hour, 0, 0, 0)
  let colons := rest.head? = some ':'
  let (minute, rest) ← readFixed 2 (if colons then rest.tail else rest)
  if rest = [] then return (hour, minute, 0, 0)
  if colons ∧ rest.head? ≠ some ':' then none
  let (second, rest) ← readFixed 2 (if colons then rest.tail else rest)
  let micros ← readMicros rest
  return (hour, minute, second, micros)

def clockMicros (c : ℕ × ℕ × ℕ × ℕ) : ℕ :=
  ((c.1 * 60 + c.2.1) * 60 + c.2.2.1) * 1000000 + c.2.2.2

def isZoneMark (c : Char) : Bool := c = '+' || c = '-' || c = 'Z'

/-- What follows the time: nothing, `Z`, or a sign and an offset of less than a day. -/
def readZone (cs : List Char) : Option (Option Offset) :=
  if cs = [] then some none
  else if cs.head? = some 'Z' then
    if cs.tail = [] then some (some { micros := 0, hmicros := by decide }) else none
  else do
    let clock ← readHms cs.tail
    let sign : ℤ := if cs.head? = some '-' then -1 else 1
    if h : -(dayMicros : ℤ) < sign * clockMicros clock ∧ sign * clockMicros clock < dayMicros then
      some (some { micros := sign * clockMicros clock, hmicros := h })
    else none

def readLocalTime (date : Date) (cs : List Char) : Option LocalTime := do
  let clock ← readHms cs
  if clock.1 < 24 ∧ clock.2.1 < 60 ∧ clock.2.2.1 < 60 then
    if h : clockMicros clock < dayMicros then some { date, micros := clockMicros clock, hmicros := h }
    else none
  else none

/-- The local time of a text and its offset from UTC, if it has one; one character, whatever it
is, separates date and time. -/
def fromIsoFormat (cs : List Char) : Option (LocalTime × Option Offset) := do
  if cs.length < 7 then none
  let dateLength ← dateEnd cs
  let date ← readDate (cs.take dateLength)
  let rest := cs.drop dateLength
  if rest = [] then return ({ date, micros := 0, hmicros := by decide }, none)
  let time ← readLocalTime date (rest.tail.takeWhile (!isZoneMark ·))
  let offset ← readZone (rest.tail.dropWhile (!isZoneMark ·))
  return (time, offset)

/-! ## Instants -/

variable {t t' u : LocalTime} {sep : Char} {cs : List Char}

namespace LocalTime

/-- A time in UTC is as much earlier as the offset says. -/
theorem instant_toUtc {o : Offset} (h : t.toUtc o = some u) :
    u.instant = t.instant - o.micros := by
  have ht := t.hmicros
  obtain ⟨hlow, hhigh⟩ := o.hmicros
  unfold toUtc at h
  split_ifs at h with hbefore hsame
  · obtain ⟨date, hdate, rfl⟩ := Option.map_eq_some_iff.mp h
    have hordinal := Date.ordinal_prev hdate
    unfold instant
    rw [← hordinal]
    push_cast
    rw [Int.toNat_of_nonneg (by omega)]
    ring
  · cases h
    unfold instant
    dsimp only
    rw [Int.toNat_of_nonneg (by omega)]
    ring
  · obtain ⟨date, hdate, rfl⟩ := Option.map_eq_some_iff.mp h
    have hordinal := Date.ordinal_next hdate
    unfold instant
    rw [hordinal]
    push_cast
    rw [Int.toNat_of_nonneg (by omega)]
    ring

/-- The whole seconds of the instant. -/
theorem seconds_eq (t : LocalTime) : (t.seconds : ℤ) = t.instant / 1000000 := by
  unfold seconds instant dayMicros
  push_cast
  omega

/-- Dropping the fraction keeps the seconds. -/
@[simp] theorem seconds_truncate (t : LocalTime) : t.truncate.seconds = t.seconds := by
  unfold seconds truncate
  dsimp only
  omega

/-- Without a fraction the instant is a number of seconds. -/
theorem instant_truncate (t : LocalTime) : t.truncate.instant = t.seconds * 1000000 := by
  unfold seconds instant truncate dayMicros
  push_cast
  ring

/-- Hours are below 24. -/
theorem hour_lt (t : LocalTime) : t.hour < 24 := by
  have h := t.hmicros
  unfold hour
  unfold dayMicros at h
  omega

/-- Minutes are below 60. -/
theorem minute_lt (t : LocalTime) : t.minute < 60 := Nat.mod_lt _ (by decide)

/-- Seconds are below 60. -/
theorem second_lt (t : LocalTime) : t.second < 60 := Nat.mod_lt _ (by decide)

/-- The seconds of the day, by hour, minute and second. -/
theorem daySeconds_eq (t : LocalTime) :
    t.micros / 1000000 = (t.hour * 60 + t.minute) * 60 + t.second := by
  unfold hour minute second
  omega

/-- The seconds order times as date, hour, minute and second do. -/
theorem seconds_lt_iff : t.seconds < t'.seconds ↔
    t.date.ordinal < t'.date.ordinal ∨ t.date.ordinal = t'.date.ordinal ∧
      (t.hour < t'.hour ∨ t.hour = t'.hour ∧
        (t.minute < t'.minute ∨ t.minute = t'.minute ∧ t.second < t'.second)) := by
  have hh := t.hour_lt
  have hm := t.minute_lt
  have hs := t.second_lt
  have hh' := t'.hour_lt
  have hm' := t'.minute_lt
  have hs' := t'.second_lt
  unfold seconds
  rw [daySeconds_eq t, daySeconds_eq t']
  omega

end LocalTime

/-! ## Texts in the order of time -/

/-- Dates of one ordinal are one date. -/
theorem Date.ordinal_eq_iff {x x' : Date} :
    x.ordinal = x'.ordinal ↔ x.year = x'.year ∧ x.month = x'.month ∧ x.day = x'.day := by
  have hlt := @Date.ordinal_lt_iff x x'
  have hgt := @Date.ordinal_lt_iff x' x
  omega

/-- Texts of one form compare as the seconds they stand for. -/
theorem isoText_lt_iff (sep : Char) (tail : List Char) :
    isoText sep t ++ tail < isoText sep t' ++ tail ↔ t.seconds < t'.seconds := by
  have hyear := t.date.hyear.2
  have hyear' := t'.date.hyear.2
  have hmonth := t.date.hmonth.2
  have hmonth' := t'.date.hmonth.2
  have hday := t.date.hday.2.trans (daysInMonth_le _ _)
  have hday' := t'.date.hday.2.trans (daysInMonth_le _ _)
  have hh := t.hour_lt
  have hm := t.minute_lt
  have hs := t.second_lt
  have hh' := t'.hour_lt
  have hm' := t'.minute_lt
  have hs' := t'.second_lt
  have hlast : fixed 2 t.second ++ tail < fixed 2 t'.second ++ tail ↔ t.second < t'.second := by
    rw [append_lt_append_iff (by simp), fixed_lt_iff (by omega) (by omega)]
    simp
  unfold isoText
  simp only [List.append_assoc, List.cons_append]
  rw [fixed_append_lt_iff (by omega) (by omega), fixed_append_lt_iff (by omega) (by omega),
    fixed_append_lt_iff (by omega) (by omega), fixed_append_lt_iff (by omega) (by omega),
    fixed_append_lt_iff (by omega) (by omega), hlast, LocalTime.seconds_lt_iff,
    Date.ordinal_lt_iff, Date.ordinal_eq_iff]
  tauto

/-! ## Reading what was written -/

/-- A number that is written in a fixed width is read back. -/
theorem readFixed_fixed {w n : ℕ} (hw : 0 < w) (h : n < 10 ^ w) (rest : List Char) :
    readFixed w (fixed w n ++ rest) = some (n, rest) := by
  have htake : (fixed w n ++ rest).take w = fixed w n := List.take_left' (length_fixed w n)
  have hdrop : (fixed w n ++ rest).drop w = rest := List.drop_left' (length_fixed w n)
  unfold readFixed
  rw [if_pos (by simp), htake, hdrop, readNumber_fixed hw h]
  rfl

/-- Two digits of a number. -/
theorem fixed_two (n : ℕ) :
    fixed 2 n = [Nat.digitChar (n / 10 % 10), Nat.digitChar (n % 10)] := by
  simp [fixed]

/-- Four digits of a number. -/
theorem fixed_four (n : ℕ) :
    fixed 4 n = [Nat.digitChar (n / 10 / 10 / 10 % 10), Nat.digitChar (n / 10 / 10 % 10),
      Nat.digitChar (n / 10 % 10), Nat.digitChar (n % 10)] := by
  simp [fixed]

/-- A digit is none of the other characters of the texts. -/
theorem ne_of_isDecimal {c d : Char} (hc : isDecimal c = true) (hd : isDecimal d = false) :
    c ≠ d := by
  intro h
  rw [h, hd] at hc
  exact Bool.false_ne_true hc

/-- A digit is no other character. -/
theorem digitChar_ne {v : ℕ} {d : Char} (hv : v < 10) (hd : isDecimal d = false) :
    Nat.digitChar v ≠ d :=
  ne_of_isDecimal (isDecimal_digitChar hv) hd

/-- A digit is no mark of a zone. -/
theorem isZoneMark_fixed {w n : ℕ} {c : Char} (h : c ∈ fixed w n) : isZoneMark c = false := by
  have hc : isDecimal c = true := List.all_eq_true.mp (isDecimal_fixed w n) c h
  have hplus : c ≠ '+' := ne_of_isDecimal hc (by decide)
  have hminus : c ≠ '-' := ne_of_isDecimal hc (by decide)
  have hzulu : c ≠ 'Z' := ne_of_isDecimal hc (by decide)
  simp [isZoneMark, hplus, hminus, hzulu]

/-- A written date is read back. -/
theorem readDate_text (x : Date) :
    readDate (fixed 4 x.year ++ '-' :: (fixed 2 x.month ++ '-' :: fixed 2 x.day)) = some x := by
  have hyear := x.hyear.2
  have hmonth := x.hmonth.2
  have hday := x.hday.2.trans (daysInMonth_le _ _)
  have hnotWeek : (fixed 2 x.month ++ '-' :: fixed 2 x.day).head? ≠ some 'W' := by
    rw [fixed_two]
    intro h
    exact digitChar_ne (Nat.mod_lt _ (by decide)) (by decide) (Option.some.inj h)
  have hread : readFixed 2 (fixed 2 x.day) = some (x.day, []) := by
    rw [← List.append_nil (fixed 2 x.day)]
    exact readFixed_fixed (by decide) (by omega) []
  unfold readDate
  rw [readFixed_fixed (by decide) (by omega)]
  simp only [Option.bind_eq_bind, Option.bind_some, List.head?_cons, decide_true, if_true,
    List.tail_cons, if_neg hnotWeek]
  rw [readFixed_fixed (by decide) (by omega)]
  simp only [Option.bind_some, readDash, List.head?_cons, if_true, List.tail_cons, hread]
  exact x.ofFields_self

/-- A written time of day is read back. -/
theorem readHms_text (t : LocalTime) :
    readHms (fixed 2 t.hour ++ ':' :: (fixed 2 t.minute ++ ':' :: fixed 2 t.second)) =
      some (t.hour, t.minute, t.second, 0) := by
  have hh := t.hour_lt
  have hm := t.minute_lt
  have hs := t.second_lt
  have hread : readFixed 2 (fixed 2 t.second) = some (t.second, []) := by
    rw [← List.append_nil (fixed 2 t.second)]
    exact readFixed_fixed (by decide) (by omega) []
  unfold readHms
  rw [readFixed_fixed (by decide) (by omega)]
  simp only [Option.bind_eq_bind, Option.bind_some, List.head?_cons, List.tail_cons, if_true,
    reduceCtorEq, if_false]
  rw [readFixed_fixed (by decide) (by omega)]
  simp [hread, readMicros]

/-- A written local time is read back without its fraction. -/
theorem readLocalTime_text (t : LocalTime) :
    readLocalTime t.date (fixed 2 t.hour ++ ':' :: (fixed 2 t.minute ++ ':' :: fixed 2 t.second)) =
      some t.truncate := by
  have hmicros : clockMicros (t.hour, t.minute, t.second, 0) = t.micros / 1000000 * 1000000 := by
    rw [LocalTime.daySeconds_eq]
    simp [clockMicros]
  have hlt : clockMicros (t.hour, t.minute, t.second, 0) < dayMicros := by
    rw [hmicros]
    exact t.truncate.hmicros
  unfold readLocalTime
  rw [readHms_text]
  simp only [Option.bind_eq_bind, Option.bind_some]
  rw [if_pos ⟨t.hour_lt, t.minute_lt, t.second_lt⟩, dif_pos hlt]
  simp only [hmicros]
  rfl

/-- The date of a written time takes ten characters. -/
theorem dateEnd_isoText (sep : Char) (t : LocalTime) : dateEnd (isoText sep t) = some 10 := by
  have hnotWeek : Nat.digitChar (t.date.month / 10 % 10) ≠ 'W' :=
    digitChar_ne (Nat.mod_lt _ (by decide)) (by decide)
  simp [dateEnd, isoText, fixed_four, fixed_two, hnotWeek]

/-- A text is read back as the time it was written from, without its fraction of a second. -/
theorem fromIsoFormat_isoText (sep : Char) (t : LocalTime) :
    fromIsoFormat (isoText sep t) = some (t.truncate, none) := by
  have hlength : ¬(isoText sep t).length < 7 := by
    simp [isoText]
  have htake : (isoText sep t).take 10 =
      fixed 4 t.date.year ++ '-' :: (fixed 2 t.date.month ++ '-' :: fixed 2 t.date.day) := by
    simp [isoText, fixed_four, fixed_two]
  have hdrop : (isoText sep t).drop 10 =
      sep :: (fixed 2 t.hour ++ ':' :: (fixed 2 t.minute ++ ':' :: fixed 2 t.second)) := by
    simp [isoText, fixed_four, fixed_two]
  have hclock : ∀ c ∈ fixed 2 t.hour ++ ':' :: (fixed 2 t.minute ++ ':' :: fixed 2 t.second),
      (!isZoneMark c) = true := by
    intro c hc
    rw [List.mem_append, List.mem_cons, List.mem_append, List.mem_cons] at hc
    rcases hc with hc | rfl | hc | rfl | hc
    · rw [isZoneMark_fixed hc]; rfl
    · decide
    · rw [isZoneMark_fixed hc]; rfl
    · decide
    · rw [isZoneMark_fixed hc]; rfl
  unfold fromIsoFormat
  rw [dateEnd_isoText, if_neg hlength]
  simp only [Option.bind_eq_bind, Option.bind_some, htake, hdrop, readDate_text, reduceCtorEq,
    if_false, List.tail_cons]
  rw [List.takeWhile_eq_self_iff.mpr hclock, List.dropWhile_eq_nil_iff.mpr hclock,
    readLocalTime_text]
  rfl

end Mailman.Library
