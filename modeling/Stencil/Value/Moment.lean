namespace Stencil

/-- A moment of the proleptic Gregorian calendar. A leap second is the second before it with a
nanosecond count of a whole second or more. -/
structure Moment where
  year : Int
  month : Nat
  day : Nat
  hour : Nat
  minute : Nat
  second : Nat
  nanosecond : Nat
  deriving DecidableEq, Repr

/-- The decimal digits of `n`, led by zeros up to `width` of them. -/
def paddedDigits (width n : Nat) : List Char :=
  let digits := Nat.toDigits 10 n
  List.replicate (width - digits.length) '0' ++ digits

namespace Moment

def nanosecondsPerSecond : Nat := 1000000000

/-- Four digits; years outside of these carry a sign. -/
def yearText (year : Int) : List Char :=
  if 0 ≤ year ∧ year ≤ 9999 then paddedDigits 4 year.toNat
  else (if year < 0 then '-' else '+') :: paddedDigits 4 year.natAbs

/-- A point with the fraction of the second in three, six or nine digits, the fewest that show it
all; nothing for a whole second. -/
def fractionText (nanosecond : Nat) : List Char :=
  if nanosecond = 0 then []
  else if nanosecond % 1000000 = 0 then '.' :: paddedDigits 3 (nanosecond / 1000000)
  else if nanosecond % 1000 = 0 then '.' :: paddedDigits 6 (nanosecond / 1000)
  else '.' :: paddedDigits 9 nanosecond

def chars (m : Moment) : List Char :=
  let second := m.second + m.nanosecond / nanosecondsPerSecond
  yearText m.year ++ '-' :: paddedDigits 2 m.month ++ '-' :: paddedDigits 2 m.day ++
    ' ' :: paddedDigits 2 m.hour ++ ':' :: paddedDigits 2 m.minute ++
    ':' :: paddedDigits 2 second ++ fractionText (m.nanosecond % nanosecondsPerSecond)

/-- Year, month, day, hour, minute, second and fraction, as in `2024-02-29 23:59:60.5`. -/
def text (m : Moment) : String :=
  String.ofList m.chars

def compare (a b : Moment) : Ordering :=
  Ord.compare a.year b.year |>.then (Ord.compare a.month b.month)
    |>.then (Ord.compare a.day b.day) |>.then (Ord.compare a.hour b.hour)
    |>.then (Ord.compare a.minute b.minute) |>.then (Ord.compare a.second b.second)
    |>.then (Ord.compare a.nanosecond b.nanosecond)

end Moment

structure Span where
  nanoseconds : Int
  deriving DecidableEq, Repr

namespace Span

/-- Spans are written in ticks of a hundred nanoseconds. -/
def nanosecondsPerTick : Nat := 100

def ticksPerSecond : Nat := 10000000

def secondsPerDay : Nat := 86400

def chars (s : Span) : List Char :=
  let ticks := s.nanoseconds.natAbs / nanosecondsPerTick
  let seconds := ticks / ticksPerSecond
  let days := seconds / secondsPerDay
  let time := seconds % secondsPerDay
  let fraction := ticks % ticksPerSecond
  (if s.nanoseconds < 0 then ['-'] else []) ++
    (if days = 0 then [] else Nat.toDigits 10 days ++ ['.']) ++
    paddedDigits 2 (time / 3600) ++ ':' :: paddedDigits 2 (time % 3600 / 60) ++
    ':' :: paddedDigits 2 (time % 60) ++
    (if fraction = 0 then [] else '.' :: paddedDigits 7 fraction)

/-- A sign, days, hours, minutes, seconds and ticks, as in `-1.02:03:04.0000005`. -/
def text (s : Span) : String :=
  String.ofList s.chars

end Span

end Stencil
