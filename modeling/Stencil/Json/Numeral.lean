import Stencil.Number.Numeral
import Stencil.Number.Basic

namespace Stencil.Json

/-- A numeral as it is written. The fraction is empty if there is no point. -/
structure Numeral where
  negative : Bool
  integral : List Char
  fraction : List Char
  exponent : Option Int
  deriving DecidableEq, Repr

def maxSignificand : Nat := UInt64.size - 1

def maxPower : Int := 308

def powerOfTen (exponent : Int) : Double :=
  .ofDecimal false 1 exponent

/-- Appends digits to a significand while they fit, and leaves the others. -/
def gather (significand : Nat) : List Char → Nat × List Char
  | [] => (significand, [])
  | c :: rest =>
      let longer := 10 * significand + Stencil.Numeral.digitValue c
      if longer ≤ maxSignificand then gather longer rest else (significand, c :: rest)

/-- The significand as a double, times or divided by the power of ten. Every step is rounded, and
a power beyond the greatest one is divided by in two steps. Nothing for a number too large. -/
def scale? (significand : Nat) (exponent : Int) : Option Double :=
  let start : Double := .ofInt significand
  if significand = 0 then some start
  else if maxPower < exponent then none
  else if 0 ≤ exponent then some (start.mul (powerOfTen exponent)) |>.filter Binary.isFinite
  else if -maxPower ≤ exponent then some (start.div (powerOfTen (-exponent)))
  else some ((start.div (powerOfTen maxPower)).div (powerOfTen (-exponent - maxPower)))

namespace Numeral

/-- The integer of a numeral without fraction and exponent. Negative zero is none. -/
def integer? (n : Numeral) : Option Int :=
  let magnitude := Stencil.Numeral.value n.integral
  if !n.fraction.isEmpty || n.exponent.isSome || (n.negative && magnitude == 0) then none
  else some (if n.negative then -(magnitude : Int) else magnitude)

def double? (n : Numeral) : Option Double :=
  let (whole, pending) := gather 0 n.integral
  let (significand, dropped) := gather whole n.fraction
  let places : Int := n.fraction.length - dropped.length
  let exponent := n.exponent.getD 0 + pending.length - places
  (scale? significand exponent).map fun x => if n.negative then x.neg else x

/-- An integer of 32 bits, of 64 or of 64 without a sign, whichever is the first to hold the
number, and else a double. -/
def number? (n : Numeral) : Option Number :=
  let integer := n.integer?.bind fun v =>
    IntegerKind.int32.number? v <|> IntegerKind.int64.number? v <|> IntegerKind.uint64.number? v
  integer <|> n.double?.map .double

end Numeral

end Stencil.Json
