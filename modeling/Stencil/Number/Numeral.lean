import Stencil.Number.Binary

namespace Stencil.Numeral

def digitValue (c : Char) : Nat :=
  c.toNat - '0'.toNat

def value (digits : List Char) : Nat :=
  digits.foldl (fun n c => 10 * n + digitValue c) 0

def natural? (text : List Char) : Option Nat :=
  if !text.isEmpty && text.all Char.isDigit then some (value text) else none

def splitSign (text : List Char) : Bool × List Char :=
  match text with
  | '-' :: rest => (true, rest)
  | '+' :: rest => (false, rest)
  | rest => (false, rest)

def integer? (text : List Char) : Option Int :=
  let (negative, digits) := splitSign text
  (natural? digits).map fun n => if negative then -(n : Int) else n

/-- `± digits * 10 ^ exponent`. -/
structure Decimal where
  negative : Bool
  digits : Nat
  exponent : Int

def Decimal.toDouble (d : Decimal) : Double :=
  .ofDecimal d.negative d.digits d.exponent

def exponent? (text : List Char) : Option Int :=
  match text with
  | [] => some 0
  | 'e' :: rest | 'E' :: rest => integer? rest
  | _ => none

def splitFraction (text : List Char) : List Char × List Char :=
  match text with
  | '.' :: rest => rest.span Char.isDigit
  | rest => ([], rest)

/-- An optional sign, digits with a point anywhere among or beside them, and an exponent. -/
def decimal? (text : List Char) : Option Decimal := do
  let (negative, unsigned) := splitSign text
  let (integral, rest) := unsigned.span Char.isDigit
  let (fraction, rest) := splitFraction rest
  guard !(integral ++ fraction).isEmpty
  let exponent ← exponent? rest
  return {
    negative
    digits := value (integral ++ fraction)
    exponent := exponent - fraction.length }

end Stencil.Numeral
