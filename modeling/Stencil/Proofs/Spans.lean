import Mathlib.Algebra.Group.Nat.Defs
import Stencil.Proofs.Numerals
import Stencil.Value.Moment

namespace Stencil

theorem length_paddedDigits {width n : Nat} (hwidth : 0 < width) (hn : n < 10 ^ width) :
    (paddedDigits width n).length = width := by
  have hle : (Nat.toDigits 10 n).length ≤ width :=
    (Nat.length_toDigits_le_iff (by decide) hwidth).mpr hn
  rw [paddedDigits, List.length_append, List.length_replicate]
  omega

theorem isDigit_of_mem_paddedDigits {width n : Nat} {c : Char} (h : c ∈ paddedDigits width n) :
    c.isDigit = true :=
  Numeral.isDigit_of_mem_led h

theorem natural?_paddedDigits (width n : Nat) :
    Numeral.natural? (paddedDigits width n) = some n :=
  Numeral.natural?_led _ n

/-- What the text of a time span says. -/
structure Clock where
  negative : Bool
  days : Option Nat
  hours : Nat
  minutes : Nat
  seconds : Nat
  ticks : Option Nat
  deriving DecidableEq, Repr

namespace Clock

/-- Every part is less than one of the part before it, and none that may be left out is zero. -/
structure Proper (c : Clock) : Prop where
  days : ∀ d, c.days = some d → 0 < d
  hours : c.hours < 24
  minutes : c.minutes < 60
  seconds : c.seconds < 60
  ticks : ∀ t, c.ticks = some t → 0 < t ∧ t < Span.ticksPerSecond

def front (c : Clock) : List Char :=
  match c.days with
  | none => paddedDigits 2 c.hours
  | some days => Nat.toDigits 10 days ++ '.' :: paddedDigits 2 c.hours

def back (c : Clock) : List Char :=
  match c.ticks with
  | none => paddedDigits 2 c.seconds
  | some ticks => paddedDigits 2 c.seconds ++ '.' :: paddedDigits 7 ticks

def unsignedChars (c : Clock) : List Char :=
  c.front ++ ':' :: (paddedDigits 2 c.minutes ++ ':' :: c.back)

def chars (c : Clock) : List Char :=
  if c.negative then '-' :: c.unsignedChars else c.unsignedChars

def nanoseconds (c : Clock) : Int :=
  let seconds := ((c.days.getD 0 * 24 + c.hours) * 60 + c.minutes) * 60 + c.seconds
  let ticks := seconds * Span.ticksPerSecond + c.ticks.getD 0
  (if c.negative then -1 else 1) * (ticks * Span.nanosecondsPerTick : Nat)

def fixed? (width : Nat) (text : List Char) : Option Nat :=
  if text.length = width then Numeral.natural? text else none

def readFront? (text : List Char) : Option (Option Nat × Nat) :=
  match text.splitOn '.' with
  | [hours] => do return (none, ← fixed? 2 hours)
  | [days, hours] => do return (some (← Numeral.natural? days), ← fixed? 2 hours)
  | _ => none

def readBack? (text : List Char) : Option (Nat × Option Nat) :=
  match text.splitOn '.' with
  | [seconds] => do return (← fixed? 2 seconds, none)
  | [seconds, ticks] => do return (← fixed? 2 seconds, some (← fixed? 7 ticks))
  | _ => none

def readUnsigned? (negative : Bool) (text : List Char) : Option Clock :=
  match text.splitOn ':' with
  | [front, minutes, back] => do
      let (days, hours) ← readFront? front
      let minutes ← fixed? 2 minutes
      let (seconds, ticks) ← readBack? back
      return { negative, days, hours, minutes, seconds, ticks }
  | _ => none

def read? : List Char → Option Clock
  | '-' :: rest => readUnsigned? true rest
  | text => readUnsigned? false text

theorem fixed?_paddedDigits {width n : Nat} (hwidth : 0 < width) (hn : n < 10 ^ width) :
    fixed? width (paddedDigits width n) = some n := by
  rw [fixed?, if_pos (length_paddedDigits hwidth hn), natural?_paddedDigits]

theorem not_mem_paddedDigits {c : Char} (hc : c.isDigit = false) (width n : Nat) :
    c ∉ paddedDigits width n := by
  intro hmem
  rw [isDigit_of_mem_paddedDigits hmem] at hc
  cases hc

theorem not_mem_toDigits {c : Char} (hc : c.isDigit = false) (n : Nat) :
    c ∉ Nat.toDigits 10 n := by
  intro hmem
  rw [Numeral.isDigit_of_mem_toDigits hmem] at hc
  cases hc

variable {c : Clock}

theorem not_mem_front {x : Char} (hx : x.isDigit = false) (hpoint : x ≠ '.') : x ∉ c.front := by
  rw [front]
  split
  · exact not_mem_paddedDigits hx _ _
  · simp [not_mem_toDigits hx, hpoint, not_mem_paddedDigits hx]

theorem not_mem_back {x : Char} (hx : x.isDigit = false) (hpoint : x ≠ '.') : x ∉ c.back := by
  rw [back]
  split
  · exact not_mem_paddedDigits hx _ _
  · simp [hpoint, not_mem_paddedDigits hx]

theorem readFront?_front (h : c.Proper) : readFront? c.front = some (c.days, c.hours) := by
  have hhours : fixed? 2 (paddedDigits 2 c.hours) = some c.hours :=
    fixed?_paddedDigits (by decide) (h.hours.trans (by decide))
  have hwhole : (paddedDigits 2 c.hours).splitOn '.' = [paddedDigits 2 c.hours] :=
    List.splitOn_eq_singleton (not_mem_paddedDigits (by decide) _ _)
  cases hdays : c.days with
  | none => simp [readFront?, front, hdays, hwhole, hhours]
  | some days =>
      have hsplit : (Nat.toDigits 10 days ++ '.' :: paddedDigits 2 c.hours).splitOn '.' =
          [Nat.toDigits 10 days, paddedDigits 2 c.hours] := by
        rw [List.splitOn_append_cons_self_of_not_mem (not_mem_toDigits (by decide) _), hwhole]
      simp [readFront?, front, hdays, hsplit, hhours, Numeral.natural?_toDigits]

theorem readBack?_back (h : c.Proper) : readBack? c.back = some (c.seconds, c.ticks) := by
  have hseconds : fixed? 2 (paddedDigits 2 c.seconds) = some c.seconds :=
    fixed?_paddedDigits (by decide) (h.seconds.trans (by decide))
  cases hticks : c.ticks with
  | none =>
      have hwhole : (paddedDigits 2 c.seconds).splitOn '.' = [paddedDigits 2 c.seconds] :=
        List.splitOn_eq_singleton (not_mem_paddedDigits (by decide) _ _)
      simp [readBack?, back, hticks, hwhole, hseconds]
  | some ticks =>
      have hfraction : fixed? 7 (paddedDigits 7 ticks) = some ticks :=
        fixed?_paddedDigits (by decide) (h.ticks ticks hticks).2
      have hsplit : (paddedDigits 2 c.seconds ++ '.' :: paddedDigits 7 ticks).splitOn '.' =
          [paddedDigits 2 c.seconds, paddedDigits 7 ticks] := by
        rw [List.splitOn_append_cons_self_of_not_mem (not_mem_paddedDigits (by decide) _ _),
          List.splitOn_eq_singleton (not_mem_paddedDigits (by decide) _ _)]
      simp [readBack?, back, hticks, hsplit, hseconds, hfraction]

theorem readUnsigned?_unsignedChars (h : c.Proper) :
    readUnsigned? c.negative c.unsignedChars = some c := by
  have hminutes : fixed? 2 (paddedDigits 2 c.minutes) = some c.minutes :=
    fixed?_paddedDigits (by decide) (h.minutes.trans (by decide))
  have hsplit : c.unsignedChars.splitOn ':' = [c.front, paddedDigits 2 c.minutes, c.back] := by
    rw [unsignedChars,
      List.splitOn_append_cons_self_of_not_mem (not_mem_front (by decide) (by decide)),
      List.splitOn_append_cons_self_of_not_mem (not_mem_paddedDigits (by decide) _ _),
      List.splitOn_eq_singleton (not_mem_back (by decide) (by decide))]
  simp [readUnsigned?, hsplit, readFront?_front h, hminutes, readBack?_back h]

theorem read?_chars (h : c.Proper) : read? c.chars = some c := by
  have hread := readUnsigned?_unsignedChars h
  cases hnegative : c.negative with
  | true =>
      rw [hnegative] at hread
      simpa [chars, hnegative, read?] using hread
  | false =>
      have hsign : ∀ rest, c.unsignedChars ≠ '-' :: rest := by
        intro rest heq
        have hmem : '-' ∈ c.unsignedChars := heq ▸ List.mem_cons_self
        simp [unsignedChars, not_mem_front, not_mem_back, not_mem_paddedDigits] at hmem
      rw [hnegative] at hread
      simp only [chars, hnegative, Bool.false_eq_true, if_false]
      rw [read?]
      · exact hread
      · exact hsign

end Clock

namespace Span

variable (s : Span)

def clock : Clock :=
  let seconds := (s.nanoseconds.tdiv Moment.nanosecondsPerSecond).natAbs
  let ticks := (s.nanoseconds.tmod Moment.nanosecondsPerSecond).natAbs / nanosecondsPerTick
  let days := seconds / secondsPerDay
  let time := seconds % secondsPerDay
  { negative := s.nanoseconds < 0
    days := if days = 0 then none else some days
    hours := time / 3600
    minutes := time % 3600 / 60
    seconds := time % 60
    ticks := if ticks = 0 then none else some ticks }

theorem clock_proper : s.clock.Proper where
  days d h := by
    simp only [clock] at h
    split at h <;> cases h
    rename_i hdays
    exact Nat.pos_of_ne_zero hdays
  hours := by
    simp only [clock, secondsPerDay]
    omega
  minutes := by
    simp only [clock]
    omega
  seconds := by
    simp only [clock]
    omega
  ticks t h := by
    have hpart : (s.nanoseconds.tmod Moment.nanosecondsPerSecond).natAbs <
        Moment.nanosecondsPerSecond := by
      rw [Int.natAbs_tmod]
      exact Nat.mod_lt _ (by decide)
    simp only [clock] at h
    split at h <;> cases h
    simp only [Moment.nanosecondsPerSecond, nanosecondsPerTick, ticksPerSecond] at *
    omega

theorem natAbs_tdiv_second :
    (s.nanoseconds.tdiv Moment.nanosecondsPerSecond).natAbs =
      s.nanoseconds.natAbs / nanosecondsPerTick / ticksPerSecond := by
  rw [Int.natAbs_tdiv, Int.natAbs_natCast, Nat.div_div_eq_div_mul]
  rfl

theorem natAbs_tmod_second :
    (s.nanoseconds.tmod Moment.nanosecondsPerSecond).natAbs / nanosecondsPerTick =
      s.nanoseconds.natAbs / nanosecondsPerTick % ticksPerSecond := by
  rw [Int.natAbs_tmod, Int.natAbs_natCast]
  exact Nat.mod_mul_right_div_self _ nanosecondsPerTick ticksPerSecond

theorem chars_eq_clock : s.chars = s.clock.chars := by
  simp only [chars, clock, Clock.chars, Clock.unsignedChars, Clock.front, Clock.back,
    natAbs_tdiv_second, natAbs_tmod_second]
  generalize s.nanoseconds.natAbs / nanosecondsPerTick = ticks
  by_cases hnegative : s.nanoseconds < 0 <;>
    by_cases hdays : ticks / ticksPerSecond / secondsPerDay = 0 <;>
      by_cases hticks : ticks % ticksPerSecond = 0 <;>
        simp [hnegative, hdays, hticks]

theorem tdiv_tick :
    s.nanoseconds.tdiv nanosecondsPerTick =
      (if s.nanoseconds < 0 then -1 else 1) *
        ((s.nanoseconds.natAbs / nanosecondsPerTick : Nat) : Int) := by
  split
  · rename_i hnegative
    have hneg : s.nanoseconds = -(s.nanoseconds.natAbs : Int) := by omega
    conv_lhs => rw [hneg]
    rw [Int.neg_tdiv, Int.neg_one_mul]
    rfl
  · rename_i hnegative
    have hpos : s.nanoseconds = (s.nanoseconds.natAbs : Int) := by omega
    conv_lhs => rw [hpos]
    rw [Int.one_mul]
    rfl

theorem nanoseconds_clock :
    s.clock.nanoseconds = s.nanoseconds.tdiv nanosecondsPerTick * nanosecondsPerTick := by
  have hshown (n : Nat) : (if n = 0 then none else some n).getD 0 = n := by
    split
    · rename_i hzero
      exact hzero.symm
    · rfl
  have htime (seconds : Nat) :
      ((seconds / secondsPerDay * 24 + seconds % secondsPerDay / 3600) * 60 +
        seconds % secondsPerDay % 3600 / 60) * 60 + seconds % secondsPerDay % 60 = seconds := by
    rw [secondsPerDay]
    omega
  simp only [clock, Clock.nanoseconds, natAbs_tdiv_second, natAbs_tmod_second, hshown, htime,
    decide_eq_true_eq, Nat.div_add_mod', tdiv_tick]
  rw [Int.natCast_mul, Int.mul_assoc]

end Span

/-- The text of a time span has the form `[-][d.]hh:mm:ss[.fffffff]` with every part in its range.
Read back, it denotes the span truncated toward zero to ticks of a hundred nanoseconds. So spans
that differ by a tick or more after that have different texts. -/
theorem span_text_decodes :
    (∀ s : Span, ∃ c : Clock, c.Proper ∧ s.text = String.ofList c.chars ∧
      Clock.read? s.text.toList = some c ∧
      c.nanoseconds = s.nanoseconds.tdiv 100 * 100) ∧
    ∀ s s' : Span, s.nanoseconds.tdiv 100 ≠ s'.nanoseconds.tdiv 100 → s.text ≠ s'.text := by
  have hread (s : Span) : Clock.read? s.text.toList = some s.clock := by
    rw [Span.text, String.toList_ofList, s.chars_eq_clock]
    exact Clock.read?_chars s.clock_proper
  constructor
  · intro s
    refine ⟨s.clock, s.clock_proper, ?_, hread s, s.nanoseconds_clock⟩
    rw [Span.text, s.chars_eq_clock]
  · intro s s' hne htext
    have hclock : s.clock = s'.clock := Option.some.inj <| by
      rw [← hread s, ← hread s', htext]
    have hsame := s.nanoseconds_clock.symm.trans ((congrArg Clock.nanoseconds hclock).trans
      s'.nanoseconds_clock)
    exact hne (Int.eq_of_mul_eq_mul_right (by decide) hsame)

/-- One tick before zero, and one nanosecond short of it. -/
theorem span_text_decodes_fraction :
    (Int.tdiv (-100) 100 ≠ Int.tdiv (-99) 100) ∧
      (Span.mk (-100)).text = "-00:00:00.0000001" ∧ (Span.mk (-99)).text = "-00:00:00" ∧
      (Span.mk (-100)).text ≠ (Span.mk (-99)).text := by
  have hne : Int.tdiv (-100) 100 ≠ Int.tdiv (-99) 100 := by decide
  exact ⟨hne, by decide, by decide, span_text_decodes.2 ⟨-100⟩ ⟨-99⟩ hne⟩

end Stencil
