import Mathlib.Algebra.Order.Ring.Int
import Mathlib.Data.List.Sort

/-!
# The send schedule

`compute_send_ats` compiles the send times of one batch. Points in time are microseconds of UTC
and `send_at` texts the whole seconds they show, which have a fixed width and so sort as the
seconds do; a start is the instant it stands for (`dispatch_batch` passes one of UTC). A time zone
is what `zoneinfo` makes of it: two maps between UTC seconds and the seconds of a wall clock, the
second with `fold` 0. Each `datetime` that is formed must lie in the years 1 to 9999, or an
`OverflowError` is raised. What the random draws and the float products round to is the
environment's choice.
-/

set_option autoImplicit false

namespace Mailman.Model

/-- The two conversions of a time zone, in seconds. -/
structure Zone where
  /-- what the local clock shows at a second of UTC -/
  wall : ℤ → ℤ
  /-- the second of UTC that a local date and time stands for -/
  utc : ℤ → ℤ

/-- The daily window: its zone, the hour it opens and its length. -/
structure SendWindow where
  zone : Zone
  startHour : ℤ
  windowHours : ℤ

/-- Microseconds. -/
def micros (seconds : ℤ) : ℤ := seconds * 1000000

/-- The whole second of a point in time, as `_fmt` shows it. SOURCE: terminal/send_schedule.py:24-25 -/
def secondOf (t : ℤ) : ℤ := t / 1000000

/-- What one sender cursor holds. -/
structure SendCursor where
  opens : ℤ
  closes : ℤ
  t : ℤ
  deriving DecidableEq, Repr

namespace SendWindow

/-- The local date of a point in time, counted in days. -/
def dateOf (w : SendWindow) (t : ℤ) : ℤ := w.zone.wall (secondOf t) / 86400

/-- The second of UTC at which the window of a local date opens. -/
def openAt (w : SendWindow) (day : ℤ) : ℤ := w.zone.utc (day * 86400 + w.startHour * 3600)

/-- The second of UTC at which it closes; the hours are added to the wall clock. -/
def closeAt (w : SendWindow) (day : ℤ) : ℤ :=
  w.zone.utc (day * 86400 + w.startHour * 3600 + w.windowHours * 3600)

end SendWindow

/-- What `compute_send_ats` raises. -/
inductive ScheduleError where
  | noSuchZone
  | badHour
  | noWindow
  | overflow
  deriving DecidableEq, Repr

/-- The first and the last second that a `datetime` shows. -/
def minSecond : ℤ := -62135596800

def maxSecond : ℤ := 253402300799

/-- A second of the years 1 to 9999. -/
def InCalendar (second : ℤ) : Prop := minSecond ≤ second ∧ second ≤ maxSecond

instance (second : ℤ) : Decidable (InCalendar second) := inferInstanceAs (Decidable (_ ∧ _))

namespace SendWindow

/-- `after.astimezone(z).date()`. SOURCE: terminal/send_schedule.py:66, 96 -/
def localDate (w : SendWindow) (t : ℤ) : Except ScheduleError ℤ :=
  if InCalendar (secondOf t) ∧ InCalendar (w.zone.wall (secondOf t)) then .ok (w.dateOf t)
  else .error .overflow

/-- `window_for`. SOURCE: terminal/send_schedule.py:57-61 -/
def windowFor (w : SendWindow) (day : ℤ) : Except ScheduleError (ℤ × ℤ) :=
  if w.startHour < 0 ∨ 23 < w.startHour then .error .badHour
  else if InCalendar (day * 86400 + w.startHour * 3600 + w.windowHours * 3600) ∧
      InCalendar (w.openAt day) ∧ InCalendar (w.closeAt day) then
    .ok (micros (w.openAt day), micros (w.closeAt day))
  else .error .overflow

/-- The search of `next_window` over the days it tries. SOURCE: terminal/send_schedule.py:65-74 -/
def search (w : SendWindow) (after : ℤ) : ℕ → ℤ → Except ScheduleError SendCursor
  | 0, _ => .error .noWindow
  | days + 1, day => do
    let (o, c) ← w.windowFor day
    if after < c ∧ max o after < c then .ok ⟨o, c, max o after⟩
    else if InCalendar ((day + 1) * 86400) then search w after days (day + 1)
    else .error .overflow

/-- `next_window`. SOURCE: terminal/send_schedule.py:63-74 -/
def nextWindow (w : SendWindow) (after : ℤ) : Except ScheduleError SendCursor := do
  w.search after 400 (← w.localDate after)

end SendWindow

/-- The settings of a schedule that do not belong to the window. -/
structure Pace where
  senderCount : ℕ
  jitterMinS : ℕ
  jitterMaxS : ℕ
  rushTailMinutes : ℕ
  rushJitterS : ℕ
  dailyCap : Option ℕ

/-- What the float arithmetic comes to, in microseconds: how far sender `i` starts behind the
first, and the gap after the `k`-th send, within the window and in its rush. -/
structure Draws where
  stagger : ℕ → ℕ
  uniform : ℕ → ℕ
  rush : ℕ → ℕ

/-- The draws are in range, and the first sender starts at once.
SOURCE: terminal/send_schedule.py:79-85, 105-109 -/
structure Draws.InRange (draws : Draws) (p : Pace) : Prop where
  first : draws.stagger 0 = 0
  stagger : ∀ i, draws.stagger i ≤ p.jitterMinS * 1000000
  uniform : ∀ k, p.jitterMinS * 1000000 ≤ draws.uniform k ∧ draws.uniform k ≤ p.jitterMaxS * 1000000
  rush : ∀ k, p.rushJitterS * 500000 ≤ draws.rush k ∧ draws.rush k ≤ p.rushJitterS * 1500000

/-- The loop's state: the cursors, the send times so far with the newest first, and the sends of
each local date. -/
structure Cursors where
  senders : List SendCursor
  out : List ℤ := []
  dayCounts : ℤ → ℕ := fun _ => 0

/-- The index that `min` finds: the first cursor that no other is before. -/
def earliest (senders : List SendCursor) : ℕ :=
  senders.findIdx fun s => senders.all fun r => s.t ≤ r.t

/-- The day is full. -/
def capped (p : Pace) (count : ℕ) : Bool := p.dailyCap.any fun cap => cap ≠ 0 && decide (cap ≤ count)

/-- A `datetime` that is added up must lie in the calendar. -/
def inCalendar (t : ℤ) : Except ScheduleError ℤ :=
  if InCalendar (secondOf t) then .ok t else .error .overflow

/-- One round of the loop. There always is a sender. SOURCE: terminal/send_schedule.py:95-115 -/
def scheduleRound (w : SendWindow) (p : Pace) (draws : Draws) (st : Cursors) :
    Except ScheduleError Cursors :=
  let i := earliest st.senders
  match st.senders[i]? with
  | none => .error .noWindow
  | some s => do
    let day ← w.localDate s.t
    if capped p (st.dayCounts day) then do
      let next ← w.nextWindow s.closes
      pure { st with senders := st.senders.set i next }
    else do
      let rushStart ← inCalendar (s.closes - micros (p.rushTailMinutes * 60))
      let gap : ℕ := if rushStart ≤ s.t then draws.rush st.out.length
        else draws.uniform st.out.length
      let t ← inCalendar (s.t + gap)
      let next ← if s.closes ≤ t then w.nextWindow s.closes else .ok { s with t }
      pure
        { senders := st.senders.set i next
          out := secondOf s.t :: st.out
          dayCounts := Function.update st.dayCounts day (st.dayCounts day + 1) }

/-- The loop, with the rounds that the guard still allows. SOURCE: terminal/send_schedule.py:89-94 -/
def scheduleRounds (w : SendWindow) (p : Pace) (draws : Draws) (n : ℕ) :
    ℕ → Cursors → Except ScheduleError Cursors
  | 0, st => .ok st
  | rounds + 1, st =>
    if st.out.length < n then do
      scheduleRounds w p draws n rounds (← scheduleRound w p draws st)
    else .ok st

/-- The cursor of sender `i`. SOURCE: terminal/send_schedule.py:80-85 -/
def firstCursor (w : SendWindow) (draws : Draws) (first : SendCursor) (i : ℕ) :
    Except ScheduleError SendCursor := do
  let t ← inCalendar (first.t + draws.stagger i)
  if first.closes ≤ t then w.nextWindow first.closes else .ok { first with t }

/-- `compute_send_ats`; `zone` is `none` where `ZoneInfo` knows none of that name.
SOURCE: terminal/send_schedule.py:28-117 -/
def computeSendAts (n : ℕ) (startAfter : ℤ) (zone : Option Zone) (startHour windowHours : ℤ)
    (p : Pace) (draws : Draws) : Except ScheduleError (List ℤ) :=
  if n = 0 then .ok []
  else match zone with
    | none => .error .noSuchZone
    | some zone => do
      let w : SendWindow := ⟨zone, startHour, windowHours⟩
      let first ← w.nextWindow startAfter
      let senders ← (List.range (max p.senderCount 1)).mapM (firstCursor w draws first)
      let st ← scheduleRounds w p draws n (n * 8 + 2000) { senders := senders }
      pure (st.out.insertionSort (· ≤ ·))

end Mailman.Model
